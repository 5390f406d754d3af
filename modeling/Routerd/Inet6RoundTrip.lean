import Routerd.Inet6Reader

/-!
# IPv6 addresses are recovered from their text

The text of an address is put in the form the reader lemmas take: the words
before the `::`, the colon, and what follows it. Its three shapes are the full
form, the compressed form and the form with a dotted tail.
-/

namespace InetText
open NumeralText

private def joined : List ℕ → Text
  | [] => []
  | w :: ws => hex w ++ ws.flatMap (fun w => ':' :: hex w)

private theorem joined_append (A : List ℕ) (w : ℕ) :
    joined (A ++ [w]) = A.flatMap (fun w => hex w ++ [':']) ++ hex w := by
  have hshift (X : List ℕ) : (X ++ [w]).flatMap (fun w => ':' :: hex w) =
      ':' :: (X.flatMap (fun w => hex w ++ [':']) ++ hex w) := by
    induction X with
    | nil => simp
    | cons x X ih => simp only [List.cons_append, List.flatMap_cons, ih, List.append_assoc,
        List.nil_append]
  cases A with
  | nil => simp [joined]
  | cons a A => simp only [List.cons_append, joined, hshift, List.flatMap_cons, List.append_assoc,
      List.nil_append]

private theorem ntop6Loop_outside (best : Option ZeroRun) (tail : Text) (X Y : List ℕ) (i : ℕ)
    (hi : 0 < i) (hout : ∀ j, i ≤ j → j < i + X.length → inRun best j = false) :
    ntop6Loop best false tail i (X ++ Y) =
      X.flatMap (fun w => ':' :: hex w) ++ ntop6Loop best false tail (i + X.length) Y := by
  induction X generalizing i with
  | nil => simp
  | cons x X ih =>
    have hx : inRun best i = false := hout i (by omega) (by simp)
    have hrest := ih (i + 1) (by omega) (fun j hj hj' => hout j (by omega) (by simp; omega))
    have hne : i ≠ 0 := by omega
    simp only [List.cons_append, ntop6Loop, hx, Bool.false_eq_true, if_false, hne, Bool.and_false,
      hrest, List.flatMap_cons, List.length_cons, List.append_assoc, List.nil_append]
    rw [show i + 1 + X.length = i + (X.length + 1) by omega]

private theorem ntop6Loop_start (best : Option ZeroRun) (tail : Text) (X Y : List ℕ)
    (hout : ∀ j < X.length, inRun best j = false) :
    ntop6Loop best false tail 0 (X ++ Y) = joined X ++ ntop6Loop best false tail X.length Y := by
  cases X with
  | nil => simp [joined]
  | cons x X =>
    have hx : inRun best 0 = false := hout 0 (by simp)
    have hrest := ntop6Loop_outside best tail X Y 1 (by omega)
      (fun j _ hj => hout j (by simp; omega))
    simp only [List.cons_append, ntop6Loop, hx, Bool.false_eq_true, if_false, if_true,
      Bool.and_false, List.nil_append, Nat.zero_add, hrest, joined, List.length_cons,
      List.append_assoc]
    rw [Nat.add_comm 1]

private theorem ntop6Loop_inside (b l : ℕ) (embeds : Bool) (tail : Text) (Y : List ℕ) (k i : ℕ)
    (hi : b < i) (hk : i + k = b + l) :
    ntop6Loop (some (b, l)) embeds tail i (List.replicate k 0 ++ Y) =
      ntop6Loop (some (b, l)) embeds tail (b + l) Y := by
  induction k generalizing i with
  | zero => simp [← hk]
  | succ k ih =>
    have hin : inRun (some (b, l)) i = true := by
      simp only [inRun, Option.any_some, Bool.and_eq_true, decide_eq_true_eq]
      omega
    have hne : (b == i) = false := by simp; omega
    simp only [List.replicate_succ, List.cons_append, ntop6Loop, hin, if_true, Option.any_some, hne,
      Bool.false_eq_true, if_false, List.nil_append]
    exact ih (i + 1) (by omega) (by omega)

private theorem ntop6Loop_run {b l : ℕ} (hl : 0 < l) (embeds : Bool) (tail : Text) (Y : List ℕ) :
    ntop6Loop (some (b, l)) embeds tail b (List.replicate l 0 ++ Y) =
      ':' :: ntop6Loop (some (b, l)) embeds tail (b + l) Y := by
  obtain ⟨k, rfl⟩ : ∃ k, l = k + 1 := ⟨l - 1, by omega⟩
  have hin : inRun (some (b, k + 1)) b = true := by
    simp only [inRun, Option.any_some, Bool.and_eq_true, decide_eq_true_eq]
    omega
  have hrest := ntop6Loop_inside b (k + 1) embeds tail Y k (b + 1) (by omega) (by omega)
  simp only [List.replicate_succ, List.cons_append, ntop6Loop, hin, if_true, Option.any_some,
    beq_self_eq_true, hrest, List.nil_append]

private theorem hex_head (w : ℕ) : ∃ c cs, hex w = c :: cs ∧ c ≠ ':' := by
  induction w using Nat.strongRecOn with
  | _ w ih =>
    unfold hex
    rw [Nat.toDigits_eq_if (by omega)]
    split
    · refine ⟨_, [], rfl, ?_⟩
      interval_cases w <;> decide
    · obtain ⟨c, cs, hc, hne⟩ := ih (w / 16) (by omega)
      unfold hex at hc
      exact ⟨c, cs ++ [Nat.digitChar (w % 16)], by simp [hc], hne⟩

private theorem pton6Leading_hex (w : ℕ) (rest : Text) :
    pton6Leading (hex w ++ rest) = some (hex w ++ rest) := by
  obtain ⟨c, cs, hc, hne⟩ := hex_head w
  rw [hc, List.cons_append]
  unfold pton6Leading
  split <;> simp_all

private theorem pton6Bytes_of_loop {text src : Text} {state : Pton6State}
    (hlead : pton6Leading text = some src)
    (hloop : pton6Loop src src [] none 0 0 = some state) :
    pton6Bytes text = pton6Finish state := by
  simp [pton6Bytes, hlead, hloop]

private theorem pton6Bytes_joined {ws : List ℕ} (hlen : ws.length = 8)
    (hw : ∀ w ∈ ws, w < 65536) : pton6Bytes (joined ws) = some (ws.flatMap wordBytes) := by
  obtain ⟨A, w, rfl⟩ : ∃ A w, ws = A ++ [w] :=
    ⟨ws.dropLast, ws.getLast (by rintro rfl; simp at hlen),
      (List.dropLast_append_getLast _).symm⟩
  obtain ⟨v, A, rfl⟩ : ∃ v A', A = v :: A' := by
    cases A with
    | nil => simp at hlen
    | cons v A => exact ⟨v, A, rfl⟩
  simp only [List.cons_append, List.length_cons, List.length_append, List.length_nil] at hlen
  obtain ⟨n, hn, hloop⟩ := pton6Loop_joined (v :: A) w hw [] (by simp; omega) none
  have hlead := pton6Leading_hex v (':' :: (A.flatMap (fun w => hex w ++ [':']) ++ hex w))
  rw [joined_append]
  simp only [List.flatMap_cons, List.append_assoc, List.cons_append, List.nil_append]
    at hloop hlead ⊢
  have hbytes := flatMap_wordBytes_length A
  rw [pton6Bytes_of_loop hlead hloop]
  have hroom : ¬ 16 < (wordBytes v ++ A.flatMap wordBytes).length + 2 := by
    simp only [List.length_append, wordBytes_length, hbytes]
    omega
  have hfull : (wordBytes v ++ A.flatMap wordBytes ++ wordBytes w).length = 16 := by
    simp only [List.length_append, wordBytes_length, hbytes]
    omega
  simp only [pton6Finish, hroom, and_false, if_false, hn, hfull, if_true]
  simp

/-- What follows the first colon of a `::`. -/
private def afterRun (B : List ℕ) : Text :=
  B.flatMap (fun w => ':' :: hex w) ++ (if B = [] then [':'] else [])

private theorem pton6Loop_afterRun (tp : List UInt8) (B : List ℕ) (hw : ∀ w ∈ B, w < 65536)
    (ht : tp.length + 2 * B.length < 16) :
    ∃ state, pton6Loop (afterRun B) (afterRun B) tp none 0 0 = some state ∧
      pton6Finish state = some (tp ++ List.replicate (16 - (tp.length + 2 * B.length)) 0 ++
        B.flatMap wordBytes) := by
  have hd : digitValue ':' = none := by decide
  have hfirst (rest : Text) : pton6Loop (':' :: rest) (':' :: rest) tp none 0 0 =
      pton6Loop rest rest tp (some tp.length) 0 0 := by
    simp [pton6Loop, hd]
  cases B with
  | nil =>
    refine ⟨⟨tp, some tp.length, 0, 0⟩, by simp [afterRun, hfirst, pton6Loop], ?_⟩
    have hne : tp.length ≠ 16 := by simp at ht; omega
    simp [pton6Finish, hne]
  | cons v B =>
    obtain ⟨C, w, hC⟩ : ∃ C w, v :: B = C ++ [w] :=
      ⟨(v :: B).dropLast, (v :: B).getLast (by simp), (List.dropLast_append_getLast _).symm⟩
    have htext : afterRun (v :: B) = ':' :: joined (v :: B) := by simp [afterRun, joined]
    rw [htext, hfirst, hC, joined_append]
    rw [hC] at hw ht
    simp only [List.length_append, List.length_cons, List.length_nil] at ht
    obtain ⟨n, hn, hloop⟩ := pton6Loop_joined C w hw tp (by omega) (some tp.length)
    refine ⟨_, hloop, ?_⟩
    have hbytes := flatMap_wordBytes_length C
    have hroom : ¬ 16 < (tp ++ C.flatMap wordBytes).length + 2 := by
      simp only [List.length_append, hbytes]
      omega
    have hlen : (tp ++ C.flatMap wordBytes ++ wordBytes w).length =
        tp.length + 2 * (C ++ [w]).length := by
      simp only [List.length_append, hbytes, wordBytes_length, List.length_cons, List.length_nil]
      omega
    have hshort : tp.length + 2 * (C ++ [w]).length ≠ 16 := by
      simp only [List.length_append, List.length_cons, List.length_nil]
      omega
    simp only [pton6Finish, hroom, and_false, if_false, hn, hlen, hshort]
    simp

private theorem flatMap_wordBytes_zeros (l : ℕ) :
    (List.replicate l 0).flatMap wordBytes = List.replicate (2 * l) 0 := by
  induction l with
  | zero => rfl
  | succ l ih =>
    rw [List.replicate_succ, List.flatMap_cons, ih, Nat.mul_add, Nat.add_comm (2 * l),
      List.replicate_add]
    rfl

/-- The compressed form is read back, wherever the run of zeros stands. -/
private theorem pton6Bytes_compressed (A B : List ℕ) {l : ℕ} (hl : 2 ≤ l)
    (hlen : A.length + l + B.length = 8) (hw : ∀ w ∈ A ++ B, w < 65536) :
    pton6Bytes (joined A ++ ':' :: afterRun B) =
      some ((A ++ List.replicate l 0 ++ B).flatMap wordBytes) := by
  have hbytes := flatMap_wordBytes_length A
  obtain ⟨state, hloop, hfin⟩ := pton6Loop_afterRun (A.flatMap wordBytes) B
    (fun w hm => hw w (by simp [hm])) (by omega)
  have hgoal : pton6Finish state = some ((A ++ List.replicate l 0 ++ B).flatMap wordBytes) := by
    rw [hfin, hbytes, show 16 - (2 * A.length + 2 * B.length) = 2 * l by omega]
    simp [List.flatMap_append, flatMap_wordBytes_zeros]
  have hrun : ∃ rest, afterRun B = ':' :: rest := by
    cases B with
    | nil => exact ⟨[], rfl⟩
    | cons v B => exact ⟨joined (v :: B), by simp [afterRun, joined]⟩
  obtain ⟨rest, hrest⟩ := hrun
  cases A with
  | nil =>
    rw [← hgoal]
    refine pton6Bytes_of_loop ?_ hloop
    simp [joined, hrest, pton6Leading]
  | cons v A =>
    obtain ⟨C, w, hC⟩ : ∃ C w, v :: A = C ++ [w] :=
      ⟨(v :: A).dropLast, (v :: A).getLast (by simp), (List.dropLast_append_getLast _).symm⟩
    have hwords := pton6Loop_words (v :: A) (fun w hm => hw w (List.mem_append_left _ hm))
      (show afterRun B ≠ [] by simp [hrest]) [] (by simp at hlen ⊢; omega) none
    have htext : joined (v :: A) ++ ':' :: afterRun B =
        (v :: A).flatMap (fun w => hex w ++ [':']) ++ afterRun B := by
      rw [hC, joined_append]
      simp
    rw [htext, ← hgoal]
    refine pton6Bytes_of_loop ?_ (hwords.trans hloop)
    simpa using pton6Leading_hex v (':' :: (A.flatMap (fun w => hex w ++ [':']) ++ afterRun B))

private theorem wordBytes_word (x y : UInt8) : wordBytes (256 * x.toNat + y.toNat) = [x, y] := by
  have hy := y.toNat_lt
  have hdiv : (256 * x.toNat + y.toNat) / 256 = x.toNat := by omega
  have hmod : (256 * x.toNat + y.toNat) % 256 = y.toNat := by omega
  simp [wordBytes, hdiv, hmod]

theorem words_flatMap_wordBytes (a : In6Addr) : (words a).flatMap wordBytes =
    [a 0, a 1, a 2, a 3, a 4, a 5, a 6, a 7, a 8, a 9, a 10, a 11, a 12, a 13, a 14, a 15] := by
  simp [words, wordBytes_word]

private theorem pton6Bytes_inetNtop6_compressed (a : In6Addr) {r : ZeroRun}
    (h : bestRun (words a) = some r) (he : embedsIpv4 (some r) (words a) = false) :
    pton6Bytes (inetNtop6 a) = some ((words a).flatMap wordBytes) := by
  obtain ⟨⟨A, B, hws, hA⟩, hl⟩ := bestRun_isZeroRun h
  obtain ⟨b, l⟩ := r
  simp only at hws hA hl
  have hlen : A.length + l + B.length = 8 := by
    have hsum := words_length a
    rw [hws] at hsum
    simpa [Nat.add_assoc] using hsum
  have hw : ∀ w ∈ A ++ B, w < 65536 := by
    intro w hm
    apply words_lt a
    rw [hws]
    rcases List.mem_append.mp hm with hm | hm <;> simp [hm]
  have hbefore : ∀ j < A.length, inRun (some (b, l)) j = false := by
    intro j hj
    simp [inRun]
    omega
  have hafter : ∀ j, b + l ≤ j → j < b + l + B.length → inRun (some (b, l)) j = false := by
    intro j hj _
    simp [inRun]
    omega
  have hstart := ntop6Loop_start (some (b, l)) (inetNtop4 (lastFour a)) A
    (List.replicate l 0 ++ B) hbefore
  have hrest := ntop6Loop_outside (some (b, l)) (inetNtop4 (lastFour a)) B [] (b + l) (by omega)
    hafter
  have hend : (if b + l = 8 then [':'] else []) = if B = [] then [':'] else [] := by
    have hiff : b + l = 8 ↔ B = [] := by
      rw [← List.length_eq_zero_iff]
      omega
    simp only [hiff]
  have htext : inetNtop6 a = joined A ++ ':' :: afterRun B := by
    simp only [inetNtop6, h, he, Option.any_some, beq_iff_eq, hend]
    rw [hws, List.append_assoc, hstart, hA, ntop6Loop_run (by omega)]
    rw [List.append_nil] at hrest
    rw [hrest]
    simp [ntop6Loop, afterRun]
  rw [htext, hws]
  exact pton6Bytes_compressed A B hl hlen hw

private theorem pton6Bytes_inetNtop6_embedded (a : In6Addr) {r : ZeroRun}
    (h : bestRun (words a) = some r) (he : embedsIpv4 (some r) (words a) = true) :
    pton6Bytes (inetNtop6 a) = some ((words a).flatMap wordBytes) := by
  obtain ⟨⟨A, B, hws, hA⟩, hl⟩ := bestRun_isZeroRun h
  obtain ⟨b, l⟩ := r
  simp only at hws hA hl
  have hb : b = 0 := by
    simp only [embedsIpv4, Bool.or_eq_true, Bool.and_eq_true, beq_iff_eq, Option.some.injEq,
      Prod.mk.injEq] at he
    omega
  subst hb
  obtain rfl : A = [] := List.length_eq_zero_iff.mp hA
  rw [List.nil_append] at hws
  have hsum := words_length a
  rw [hws, List.length_append, List.length_replicate] at hsum
  have hd : digitValue ':' = none := by decide
  have hcolon (rest : Text) : pton6Loop (':' :: rest) (':' :: rest) [] none 0 0 =
      pton6Loop rest rest [] (some 0) 0 0 := by
    simp [pton6Loop, hd]
  have hno : ¬ l = 8 := by
    simp only [embedsIpv4, Bool.or_eq_true, Bool.and_eq_true, beq_iff_eq, Option.some.injEq,
      Prod.mk.injEq] at he
    omega
  have htext : inetNtop6 a =
      ':' :: ntop6Loop (some (0, l)) true (inetNtop4 (lastFour a)) l B := by
    simp only [inetNtop6, h, he, Option.any_some, beq_iff_eq, Nat.zero_add, hno, if_false,
      List.append_nil]
    rw [hws, ntop6Loop_run (by omega), Nat.zero_add]
  have htail : B = (words a).drop l := by simp [hws]
  have hz : wordBytes 0 = [0, 0] := rfl
  have houtl : inRun (some (0, l)) l = false := by simp [inRun]
  simp only [embedsIpv4, Bool.or_eq_true, Bool.and_eq_true, beq_iff_eq, Option.some.injEq,
    Prod.mk.injEq, true_and] at he
  rcases he with rfl | ⟨rfl, hmap⟩
  · obtain ⟨val, hloop⟩ := pton6Loop_dotted (lastFour a)
      (show ([] : List UInt8).length + 4 ≤ 16 by simp) (some 0)
    have hB : ntop6Loop (some (0, 6)) true (inetNtop4 (lastFour a)) 6 B =
        ':' :: inetNtop4 (lastFour a) := by
      rw [htail]
      simp [words, ntop6Loop, houtl]
    rw [htext, hB, pton6Bytes_of_loop (by rfl) ((hcolon _).trans hloop), hws, htail]
    simp [pton6Finish, words, wordBytes_word, lastFour, hz]
  · obtain ⟨val, hloop⟩ := pton6Loop_dotted (lastFour a)
      (show (wordBytes 0xffff).length + 4 ≤ 16 by simp) (some 0)
    have hword := pton6Loop_words [0xffff] (by simp) (inetNtop4_ne_nil (lastFour a)) []
      (by simp) (some 0)
    have hout6 : inRun (some (0, 5)) 6 = false := by decide
    have hfive : 256 * (a 10).toNat + (a 11).toNat = 0xffff := by simpa [words] using hmap
    have hB : ntop6Loop (some (0, 5)) true (inetNtop4 (lastFour a)) 5 B =
        ':' :: ([0xffff].flatMap (fun w => hex w ++ [':']) ++ inetNtop4 (lastFour a)) := by
      rw [htail]
      simp [words, ntop6Loop, houtl, hout6, hfive]
    have hread := (hcolon _).trans (hword.trans hloop)
    rw [htext, hB, pton6Bytes_of_loop (by rfl) hread, hws, htail]
    simp [pton6Finish, words, wordBytes_word, lastFour, hz, hfive]

theorem inetPton6_inetNtop6 (a : In6Addr) : inetPton6 (inetNtop6 a) = some a := by
  have hbytes : pton6Bytes (inetNtop6 a) = some ((words a).flatMap wordBytes) := by
    cases h : bestRun (words a) with
    | none =>
      have htext : inetNtop6 a = joined (words a) := by
        have hstart := ntop6Loop_start none (inetNtop4 (lastFour a)) (words a) []
          (fun _ _ => rfl)
        rw [List.append_nil] at hstart
        simp [inetNtop6, h, embedsIpv4, hstart, ntop6Loop]
      rw [htext]
      exact pton6Bytes_joined (words_length a) (words_lt a)
    | some r =>
      cases he : embedsIpv4 (some r) (words a) with
      | false => exact pton6Bytes_inetNtop6_compressed a h he
      | true => exact pton6Bytes_inetNtop6_embedded a h he
  rw [inetPton6, hbytes, Option.map_some, words_flatMap_wordBytes]
  congr 1
  funext i
  fin_cases i <;> rfl

theorem inetNtop6_ne_nil (a : In6Addr) : inetNtop6 a ≠ [] := by
  intro h
  have hread := inetPton6_inetNtop6 a
  rw [h] at hread
  cases hread

end InetText
