import Routerd.Inet6Text

/-!
# The IPv6 reader on printed words

Printed words, lists of them and a dotted tail are each consumed exactly, with
the words written to the output and the reader left at the start of a token.
-/

namespace InetText
open NumeralText

private theorem pton6Loop_digit {d xdigits val : ℕ} (hd : d < 16) (hx : xdigits < 4)
    (hv : val * 16 + d ≤ 0xffff) (rest curtok : Text) (tp : List UInt8) (colonp : Option ℕ) :
    pton6Loop (Nat.digitChar d :: rest) curtok tp colonp xdigits val =
      pton6Loop rest curtok tp colonp (xdigits + 1) (val * 16 + d) := by
  have hne : xdigits ≠ 4 := by omega
  have hle : ¬ 0xffff < val * 16 + d := by omega
  simp [pton6Loop, digitValue_digitChar hd, Option.filter, hd, hne, hle]

theorem pton6Loop_hex {w : ℕ} (hw : w < 65536) (rest curtok : Text) (tp : List UInt8)
    (colonp : Option ℕ) :
    ∃ n, n ≠ 0 ∧ pton6Loop (hex w ++ rest) curtok tp colonp 0 0 =
      pton6Loop rest curtok tp colonp n w := by
  unfold hex
  rw [Nat.toDigits_eq_if (by omega)]
  split
  · refine ⟨1, by omega, ?_⟩
    rw [List.cons_append, List.nil_append, pton6Loop_digit (by omega) (by omega) (by omega)]
    congr 1
    omega
  · rw [Nat.toDigits_eq_if (by omega)]
    split
    · refine ⟨2, by omega, ?_⟩
      simp only [List.cons_append, List.nil_append]
      rw [pton6Loop_digit (by omega) (by omega) (by omega),
        pton6Loop_digit (by omega) (by omega) (by omega)]
      congr 1
      omega
    · rw [Nat.toDigits_eq_if (by omega)]
      split
      · refine ⟨3, by omega, ?_⟩
        simp only [List.cons_append, List.nil_append]
        rw [pton6Loop_digit (by omega) (by omega) (by omega),
          pton6Loop_digit (by omega) (by omega) (by omega),
          pton6Loop_digit (by omega) (by omega) (by omega)]
        congr 1
        omega
      · rw [Nat.toDigits_of_lt_base (by omega)]
        refine ⟨4, by omega, ?_⟩
        simp only [List.cons_append, List.nil_append]
        rw [pton6Loop_digit (by omega) (by omega) (by omega),
          pton6Loop_digit (by omega) (by omega) (by omega),
          pton6Loop_digit (by omega) (by omega) (by omega),
          pton6Loop_digit (by omega) (by omega) (by omega)]
        congr 1
        omega

private theorem pton6Loop_colon {xdigits : ℕ} (hx : xdigits ≠ 0) {rest : Text} (hr : rest ≠ [])
    (curtok : Text) {tp : List UInt8} (ht : tp.length + 2 ≤ 16) (colonp : Option ℕ) (w : ℕ) :
    pton6Loop (':' :: rest) curtok tp colonp xdigits w =
      pton6Loop rest rest (tp ++ wordBytes w) colonp 0 0 := by
  have hle : ¬ 16 < tp.length + 2 := by omega
  have hd : digitValue ':' = none := by decide
  simp [pton6Loop, hd, hx, hr, hle]

@[simp] theorem wordBytes_length (w : ℕ) : (wordBytes w).length = 2 := rfl

theorem flatMap_wordBytes_length (ws : List ℕ) : (ws.flatMap wordBytes).length = 2 * ws.length := by
  induction ws with
  | nil => rfl
  | cons w ws ih =>
    simp only [List.flatMap_cons, List.length_append, wordBytes_length, ih, List.length_cons]
    omega

theorem pton6Loop_words (ws : List ℕ) (hw : ∀ w ∈ ws, w < 65536) {rest : Text}
    (hr : rest ≠ []) (tp : List UInt8) (ht : tp.length + 2 * ws.length ≤ 16)
    (colonp : Option ℕ) :
    pton6Loop (ws.flatMap (fun w => hex w ++ [':']) ++ rest)
        (ws.flatMap (fun w => hex w ++ [':']) ++ rest) tp colonp 0 0 =
      pton6Loop rest rest (tp ++ ws.flatMap wordBytes) colonp 0 0 := by
  induction ws generalizing tp with
  | nil => simp
  | cons w ws ih =>
    simp only [List.length_cons] at ht
    have hrest : ws.flatMap (fun w => hex w ++ [':']) ++ rest ≠ [] := by simp [hr]
    have htail := ih (fun v hv => hw v (by simp [hv])) (tp ++ wordBytes w)
      (by simp only [List.length_append, wordBytes_length]; omega)
    simp only [List.flatMap_cons, List.append_assoc, List.cons_append, List.nil_append] at htail ⊢
    obtain ⟨n, hn, hhex⟩ := pton6Loop_hex (hw w (by simp))
      (':' :: (ws.flatMap (fun w => hex w ++ [':']) ++ rest))
      (hex w ++ ':' :: (ws.flatMap (fun w => hex w ++ [':']) ++ rest)) tp colonp
    rw [hhex, pton6Loop_colon hn hrest _ (by omega), htail]

theorem pton6Loop_joined (ws : List ℕ) (w : ℕ) (hw : ∀ v ∈ ws ++ [w], v < 65536)
    (tp : List UInt8) (ht : tp.length + 2 * ws.length ≤ 14) (colonp : Option ℕ) :
    ∃ n, n ≠ 0 ∧ pton6Loop (ws.flatMap (fun w => hex w ++ [':']) ++ hex w)
        (ws.flatMap (fun w => hex w ++ [':']) ++ hex w) tp colonp 0 0 =
      some ⟨tp ++ ws.flatMap wordBytes, colonp, n, w⟩ := by
  have hloop := pton6Loop_words ws (fun v hv => hw v (by simp [hv])) (hex_ne_nil w) tp
    (by omega) colonp
  obtain ⟨n, hn, hhex⟩ := pton6Loop_hex (hw w (by simp)) [] (hex w)
    (tp ++ ws.flatMap wordBytes) colonp
  rw [List.append_nil] at hhex
  exact ⟨n, hn, by rw [hloop, hhex]; rfl⟩

theorem pton6Loop_dotted (v : InAddr) {tp : List UInt8} (ht : tp.length + 4 ≤ 16)
    (colonp : Option ℕ) :
    ∃ val, pton6Loop (inetNtop4 v) (inetNtop4 v) tp colonp 0 0 =
      some ⟨tp ++ [v 0, v 1, v 2, v 3], colonp, 0, val⟩ := by
  have hdot (rest : Text) (xdigits val : ℕ) :
      pton6Loop ('.' :: rest) (inetNtop4 v) tp colonp xdigits val =
        some ⟨tp ++ [v 0, v 1, v 2, v 3], colonp, 0, val⟩ := by
    have hd : digitValue '.' = none := by decide
    simp [pton6Loop, inAddrBytes, hd, ht, inetPton4_inetNtop4]
  have hlt := (v 0).toNat_lt
  generalize hcur : inetNtop4 v = curtok at hdot ⊢
  nth_rewrite 1 [← hcur]
  unfold inetNtop4 decimal
  rw [Nat.toDigits_eq_if (by omega)]
  split
  · rw [List.cons_append, List.nil_append, pton6Loop_digit (by omega) (by omega) (by omega), hdot]
    exact ⟨_, rfl⟩
  · rw [Nat.toDigits_eq_if (by omega)]
    split
    · simp only [List.cons_append, List.nil_append]
      rw [pton6Loop_digit (by omega) (by omega) (by omega),
        pton6Loop_digit (by omega) (by omega) (by omega), hdot]
      exact ⟨_, rfl⟩
    · rw [Nat.toDigits_of_lt_base (by omega)]
      simp only [List.cons_append, List.nil_append]
      rw [pton6Loop_digit (by omega) (by omega) (by omega),
        pton6Loop_digit (by omega) (by omega) (by omega),
        pton6Loop_digit (by omega) (by omega) (by omega), hdot]
      exact ⟨_, rfl⟩

end InetText
