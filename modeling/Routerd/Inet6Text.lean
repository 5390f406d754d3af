import Routerd.Inet4Text
import Mathlib.Data.Nat.Digits.Defs

/-!
# Colon-hexadecimal text of IPv6 addresses

`inetNtop6` writes the leftmost longest run of at least two zero words as `::`
and prints IPv4-compatible and IPv4-mapped addresses with a dotted tail.
`inetPton6` is the one-pass reader of the C library, which remembers where `::`
stood and expands it at the end.
-/

namespace InetText
open NumeralText

abbrev In6Addr := Fin 16 → UInt8

def words (a : In6Addr) : List ℕ :=
  [256 * (a 0).toNat + (a 1).toNat, 256 * (a 2).toNat + (a 3).toNat,
    256 * (a 4).toNat + (a 5).toNat, 256 * (a 6).toNat + (a 7).toNat,
    256 * (a 8).toNat + (a 9).toNat, 256 * (a 10).toNat + (a 11).toNat,
    256 * (a 12).toNat + (a 13).toNat, 256 * (a 14).toNat + (a 15).toNat]

/-- The last four octets, printed in dotted form by embedded IPv4 addresses. -/
def lastFour (a : In6Addr) : InAddr := ![a 12, a 13, a 14, a 15]

/-- A run of zero words, as its first index and its length. -/
abbrev ZeroRun := ℕ × ℕ

def better (best cur : Option ZeroRun) : Option ZeroRun :=
  match best, cur with
  | best, none => best
  | none, some c => some c
  | some b, some c => if b.2 < c.2 then some c else some b

def extend (i : ℕ) : Option ZeroRun → ZeroRun
  | none => (i, 1)
  | some c => (c.1, c.2 + 1)

def scanRuns : ℕ → List ℕ → Option ZeroRun → Option ZeroRun → Option ZeroRun
  | _, [], best, cur => better best cur
  | i, w :: ws, best, cur =>
    if w = 0 then scanRuns (i + 1) ws best (some (extend i cur))
    else scanRuns (i + 1) ws (better best cur) none

def bestRun (ws : List ℕ) : Option ZeroRun :=
  (scanRuns 0 ws none none).filter (fun r => 2 ≤ r.2)

def inRun (best : Option ZeroRun) (i : ℕ) : Bool :=
  best.any (fun r => r.1 ≤ i && i < r.1 + r.2)

def embedsIpv4 (best : Option ZeroRun) (ws : List ℕ) : Bool :=
  best == some (0, 6) || (best == some (0, 5) && ws.getD 5 0 == 0xffff)

def ntop6Loop (best : Option ZeroRun) (embeds : Bool) (tail : Text) : ℕ → List ℕ → Text
  | _, [] => []
  | i, w :: ws =>
    if inRun best i then
      (if best.any (fun r => r.1 == i) then [':'] else []) ++
        ntop6Loop best embeds tail (i + 1) ws
    else
      (if i = 0 then [] else [':']) ++
        (if i = 6 && embeds then tail else hex w ++ ntop6Loop best embeds tail (i + 1) ws)

def inetNtop6 (a : In6Addr) : Text :=
  let best := bestRun (words a)
  ntop6Loop best (embedsIpv4 best (words a)) (inetNtop4 (lastFour a)) 0 (words a) ++
    (if best.any (fun r => r.1 + r.2 == 8) then [':'] else [])

def wordBytes (w : ℕ) : List UInt8 := [UInt8.ofNat (w / 256), UInt8.ofNat (w % 256)]

/-- The reader's state when its loop ends: the bytes written, where `::` stood,
and the unfinished word with its number of digits. -/
structure Pton6State where
  tp : List UInt8
  colonp : Option ℕ
  xdigits : ℕ
  val : ℕ

/-- The loop also keeps the text from the current token on, for a dotted tail. -/
def pton6Loop : Text → Text → List UInt8 → Option ℕ → ℕ → ℕ → Option Pton6State
  | [], _, tp, colonp, xdigits, val => some ⟨tp, colonp, xdigits, val⟩
  | ch :: src, curtok, tp, colonp, xdigits, val =>
    match (digitValue ch).filter (· < 16) with
    | some d =>
      if xdigits = 4 then none
      else if 0xffff < val * 16 + d then none
      else pton6Loop src curtok tp colonp (xdigits + 1) (val * 16 + d)
    | none =>
      if ch = ':' then
        if xdigits = 0 then
          if colonp.isSome then none else pton6Loop src src tp (some tp.length) 0 val
        else if src.isEmpty then none
        else if 16 < tp.length + 2 then none
        else pton6Loop src src (tp ++ wordBytes val) colonp 0 0
      else if ch = '.' ∧ tp.length + 4 ≤ 16 then
        (inetPton4 curtok).map (fun a => ⟨tp ++ inAddrBytes a, colonp, 0, val⟩)
      else none

def pton6Finish (s : Pton6State) : Option (List UInt8) :=
  if s.xdigits ≠ 0 ∧ 16 < s.tp.length + 2 then none
  else
    let tp := if s.xdigits = 0 then s.tp else s.tp ++ wordBytes s.val
    match s.colonp with
    | none => if tp.length = 16 then some tp else none
    | some c =>
      if tp.length = 16 then none
      else some (tp.take c ++ List.replicate (16 - tp.length) 0 ++ tp.drop c)

def pton6Leading : Text → Option Text
  | [] => none
  | ':' :: ':' :: src => some (':' :: src)
  | ':' :: _ => none
  | src => some src

def pton6Bytes (s : Text) : Option (List UInt8) := do
  let src ← pton6Leading s
  let state ← pton6Loop src src [] none 0 0
  pton6Finish state

def inetPton6 (s : Text) : Option In6Addr := (pton6Bytes s).map (fun bs i => bs.getD i 0)

example : inetNtop6 ![0xfc, 0, 0, 1, 0, 0, 0, 0, 0, 0, 0, 0, 0, 0, 0, 0x10] =
    ['f', 'c', '0', '0', ':', '1', ':', ':', '1', '0'] := by decide
example : inetNtop6 ![0, 0, 0, 0, 0, 0, 0, 0, 0, 0, 0xff, 0xff, 10, 0, 0, 1] =
    [':', ':', 'f', 'f', 'f', 'f', ':', '1', '0', '.', '0', '.', '0', '.', '1'] := by decide
example : inetNtop6 ![0, 0, 0, 0, 0, 0, 0, 0, 0, 0, 0, 0, 0, 0, 0, 0] = [':', ':'] := by decide

/-- A run of zeros that really occurs in the list. -/
def IsZeroRun (ws : List ℕ) (r : ZeroRun) : Prop :=
  ∃ A B, ws = A ++ List.replicate r.2 0 ++ B ∧ A.length = r.1

private theorem better_isZeroRun {ws : List ℕ} {best cur : Option ZeroRun}
    (hb : ∀ r ∈ best, IsZeroRun ws r) (hc : ∀ r ∈ cur, IsZeroRun ws r) :
    ∀ r ∈ better best cur, IsZeroRun ws r := by
  intro r hr
  cases best with
  | none => cases cur with
    | none => simp [better] at hr
    | some c => exact hc r (by simpa [better] using hr)
  | some b => cases cur with
    | none => exact hb r (by simpa [better] using hr)
    | some c =>
      simp only [better] at hr
      split at hr
      · exact hc r hr
      · exact hb r hr

private theorem scanRuns_isZeroRun (P ws : List ℕ) (best cur : Option ZeroRun)
    (hb : ∀ r ∈ best, IsZeroRun (P ++ ws) r)
    (hc : ∀ r ∈ cur, ∃ A, P = A ++ List.replicate r.2 0 ∧ A.length = r.1) :
    ∀ r ∈ scanRuns P.length ws best cur, IsZeroRun (P ++ ws) r := by
  have hcur : ∀ r ∈ cur, IsZeroRun (P ++ ws) r := by
    intro r hr
    obtain ⟨A, hA, hl⟩ := hc r hr
    exact ⟨A, ws, by rw [hA], hl⟩
  induction ws generalizing P best cur with
  | nil => exact better_isZeroRun hb hcur
  | cons w ws ih =>
    have hsplit : P ++ w :: ws = (P ++ [w]) ++ ws := by simp
    have hlen : P.length + 1 = (P ++ [w]).length := by simp
    rw [hsplit] at hb hcur ⊢
    by_cases hw : w = 0
    · subst hw
      have hopen : ∀ r ∈ some (extend P.length cur),
          ∃ A, P ++ [0] = A ++ List.replicate r.2 0 ∧ A.length = r.1 := by
        intro r hr
        cases hr
        cases cur with
        | none => exact ⟨P, by simp [extend], rfl⟩
        | some c =>
          obtain ⟨A, hA, hl⟩ := hc c rfl
          refine ⟨A, ?_, hl⟩
          simp only [extend, List.replicate_succ']
          rw [hA]
          simp
      simp only [scanRuns, if_true]
      rw [hlen]
      refine ih (P ++ [0]) best _ hb hopen ?_
      intro r hr
      obtain ⟨A, hA, hl⟩ := hopen r hr
      exact ⟨A, ws, by rw [hA], hl⟩
    · simp only [scanRuns, hw, if_false]
      rw [hlen]
      exact ih (P ++ [w]) _ none (better_isZeroRun hb hcur) (by simp) (by simp)

theorem bestRun_isZeroRun {ws : List ℕ} {r : ZeroRun} (h : bestRun ws = some r) :
    IsZeroRun ws r ∧ 2 ≤ r.2 := by
  simp only [bestRun, Option.filter_eq_some_iff, decide_eq_true_eq] at h
  have hrun := scanRuns_isZeroRun [] ws none none (by simp) (by simp) r h.1
  exact ⟨hrun, h.2⟩

theorem hex_length_le {w : ℕ} (h : w < 65536) : (hex w).length ≤ 4 :=
  Nat.toDigits_length 16 w 4 (by decide) h

@[simp] theorem words_length (a : In6Addr) : (words a).length = 8 := rfl

private theorem word_lt (x y : UInt8) : 256 * x.toNat + y.toNat < 65536 := by
  have hx := x.toNat_lt
  have hy := y.toNat_lt
  omega

theorem words_lt (a : In6Addr) : ∀ w ∈ words a, w < 65536 := by
  intro w hw
  simp only [words, List.mem_cons, List.not_mem_nil, or_false] at hw
  rcases hw with rfl | rfl | rfl | rfl | rfl | rfl | rfl | rfl <;> exact word_lt _ _

/-- Each word takes at most five characters and the dotted tail sixteen. -/
theorem ntop6Loop_length_le (best : Option ZeroRun) (embeds : Bool) {tail : Text}
    (htail : tail.length ≤ 15) {ws : List ℕ} (hws : ∀ w ∈ ws, w < 65536) (i : ℕ) :
    (ntop6Loop best embeds tail i ws).length ≤ 5 * ws.length + 16 := by
  induction ws generalizing i with
  | nil => exact Nat.zero_le _
  | cons w ws ih =>
    obtain ⟨hw, hrest⟩ := List.forall_mem_cons.mp hws
    have hhex := hex_length_le hw
    have hloop := ih hrest (i + 1)
    rw [ntop6Loop, List.length_cons]
    split
    · have hcolon : (if best.any (fun r => r.1 == i) then [':'] else []).length ≤ 1 := by
        split <;> decide
      rw [List.length_append]
      omega
    · have hcolon : (if i = 0 then [] else [':']).length ≤ 1 := by
        split <;> decide
      have hword : (if i = 6 && embeds then tail
          else hex w ++ ntop6Loop best embeds tail (i + 1) ws).length ≤ 5 * ws.length + 20 := by
        split
        · omega
        · rw [List.length_append]
          omega
      rw [List.length_append]
      omega

theorem inetNtop6_length_le (a : In6Addr) : (inetNtop6 a).length ≤ 57 := by
  have hloop := ntop6Loop_length_le (bestRun (words a)) (embedsIpv4 (bestRun (words a)) (words a))
    (inetNtop4_length_le (lastFour a)) (words_lt a) 0
  have hlen := words_length a
  have hcolon : (if (bestRun (words a)).any (fun r => r.1 + r.2 == 8) then [':'] else []).length ≤ 1 := by
    split <;> decide
  rw [inetNtop6, List.length_append]
  omega

theorem mem_ntop6Loop {best : Option ZeroRun} {embeds : Bool} {tail : Text} {i : ℕ} {ws : List ℕ}
    {c : Char} (h : c ∈ ntop6Loop best embeds tail i ws) :
    c.isAlphanum ∨ c = ':' ∨ c ∈ tail := by
  induction ws generalizing i with
  | nil => cases h
  | cons w ws ih =>
    rw [ntop6Loop] at h
    split at h
    · rcases List.mem_append.mp h with h | h
      · split at h
        · exact Or.inr (Or.inl (List.mem_singleton.mp h))
        · cases h
      · exact ih h
    · rcases List.mem_append.mp h with h | h
      · split at h
        · cases h
        · exact Or.inr (Or.inl (List.mem_singleton.mp h))
      · split at h
        · exact Or.inr (Or.inr h)
        · rcases List.mem_append.mp h with h | h
          · exact Or.inl (isAlphanum_of_mem_toDigits (by decide) (by decide) h)
          · exact ih h

theorem mem_inetNtop6 {a : In6Addr} {c : Char} (h : c ∈ inetNtop6 a) :
    c.isAlphanum ∨ c = ':' ∨ c = '.' := by
  rcases List.mem_append.mp h with h | h
  · rcases mem_ntop6Loop h with h | h | h
    · exact Or.inl h
    · exact Or.inr (Or.inl h)
    · rcases mem_inetNtop4 h with h | h
      · exact Or.inl (by simp [Char.isAlphanum, h])
      · exact Or.inr (Or.inr h)
  · split at h
    · exact Or.inr (Or.inl (List.mem_singleton.mp h))
    · cases h

end InetText
