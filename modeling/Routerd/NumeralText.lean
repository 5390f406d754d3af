import Mathlib.Data.Nat.Basic
import Mathlib.Data.List.Basic
import Mathlib.Data.List.TakeWhile
import Mathlib.Tactic.IntervalCases

/-!
# C numerals: `%d`, `%x`, `strtol` and `atoi` on character lists

`strtol` skips blanks, reads one optional sign, recognises the `0x` and `0`
prefixes in base zero, stops at the first character that is no digit of the base
and saturates at the bounds of the 64-bit `long`.
-/

namespace NumeralText

abbrev Text := List Char

def decimal (n : ℕ) : Text := Nat.toDigits 10 n

def hex (n : ℕ) : Text := Nat.toDigits 16 n

def digitValue (c : Char) : Option ℕ :=
  if 48 ≤ c.toNat ∧ c.toNat ≤ 57 then some (c.toNat - 48)
  else if 97 ≤ c.toNat ∧ c.toNat ≤ 122 then some (c.toNat - 87)
  else if 65 ≤ c.toNat ∧ c.toNat ≤ 90 then some (c.toNat - 55)
  else none

def isSpace (c : Char) : Bool := c == ' ' || (9 ≤ c.toNat && c.toNat ≤ 13)

/-- The value of the longest prefix made of digits of the base. -/
def accumulate (base : ℕ) : ℕ → Text → ℕ
  | acc, [] => acc
  | acc, c :: cs => match digitValue c with
    | some d => if d < base then accumulate base (acc * base + d) cs else acc
    | none => acc

/-- The optional sign; `true` is a minus. -/
def sign : Text → Bool × Text
  | '-' :: s => (true, s)
  | '+' :: s => (false, s)
  | s => (false, s)

/-- Base zero asks for the prefixes of C integer constants. -/
def resolveBase (base : ℕ) (s : Text) : ℕ × Text :=
  if base = 0 then match s with
    | '0' :: 'x' :: s => (16, s)
    | '0' :: 'X' :: s => (16, s)
    | '0' :: s => (8, '0' :: s)
    | s => (10, s)
  else (base, s)

def strtol (s : Text) (base : ℕ) : ℤ :=
  let signed := sign (s.dropWhile isSpace)
  let based := resolveBase base signed.2
  let magnitude : ℤ := accumulate based.1 0 based.2
  if signed.1 then max (-magnitude) (-2 ^ 63) else min magnitude (2 ^ 63 - 1)

/-- The `int` that `atoi` returns, as the 32-bit word it is stored in. -/
def atoi (s : Text) : UInt32 := UInt32.ofInt (strtol s 10)

@[simp] theorem decimal_ne_nil (n : ℕ) : decimal n ≠ [] := Nat.toDigits_ne_nil

@[simp] theorem hex_ne_nil (n : ℕ) : hex n ≠ [] := Nat.toDigits_ne_nil

theorem isDigit_of_mem_decimal {n : ℕ} {c : Char} (h : c ∈ decimal n) : c.isDigit :=
  Nat.isDigit_of_mem_toDigits (by omega) (by omega) h

theorem isAlphanum_of_mem_toDigits {b n : ℕ} (hb : 1 < b) (hb' : b ≤ 16) {c : Char}
    (h : c ∈ Nat.toDigits b n) : c.isAlphanum := by
  have hdigit : ∀ d < 16, (Nat.digitChar d).isAlphanum := by decide
  induction n using Nat.strongRecOn with
  | _ n ih =>
    rw [Nat.toDigits_eq_if hb] at h
    split at h
    · rename_i hlt
      rw [List.mem_singleton] at h
      rw [h]
      exact hdigit n (hlt.trans_le hb')
    · rename_i hge
      rcases List.mem_append.mp h with h | h
      · exact ih (n / b) (Nat.div_lt_self (by omega) hb) h
      · rw [List.mem_singleton] at h
        rw [h]
        exact hdigit _ ((Nat.mod_lt n (by omega)).trans_le hb')

theorem decimal_length_le {n : ℕ} (h : n < 1000) : (decimal n).length ≤ 3 := by
  have hdigit : ∀ m, m < 10 → (Nat.toDigits 10 m).length = 1 := by
    intro m hm
    rw [Nat.toDigits_of_lt_base hm, List.length_singleton]
  have hstep : ∀ m, (Nat.toDigits 10 m).length ≤ (Nat.toDigits 10 (m / 10)).length + 1 := by
    intro m
    rw [Nat.toDigits_eq_if (by omega)]
    split <;> simp
  have h₁ := hstep n
  have h₂ := hstep (n / 10)
  have h₃ := hdigit (n / 10 / 10) (by omega)
  unfold decimal
  omega

theorem toNat_of_isDigit {c : Char} (h : c.isDigit) : 48 ≤ c.toNat ∧ c.toNat ≤ 57 :=
  Char.isDigit_iff_toNat.mp h

theorem digitValue_of_isDigit {c : Char} (h : c.isDigit) : digitValue c = some (c.toNat - 48) := by
  have hc := toNat_of_isDigit h
  simp [digitValue, hc]

theorem digitValue_digitChar {d : ℕ} (h : d < 16) : digitValue (Nat.digitChar d) = some d := by
  interval_cases d <;> rfl

theorem accumulate_digits (ds : Text) (hd : ∀ c ∈ ds, c.isDigit) (acc : ℕ) :
    accumulate 10 acc ds = Nat.ofDigitChars 10 ds acc := by
  induction ds generalizing acc with
  | nil => simp [accumulate]
  | cons c ds ih =>
    have hc := hd c (by simp)
    have hlt : c.toNat - 48 < 10 := by
      have hb := toNat_of_isDigit hc
      omega
    simp only [accumulate, digitValue_of_isDigit hc, hlt, if_true]
    rw [ih (fun x hx => hd x (by simp [hx])), Nat.ofDigitChars_cons, Nat.mul_comm]
    rfl

@[simp] theorem accumulate_decimal (n : ℕ) : accumulate 10 0 (decimal n) = n := by
  rw [accumulate_digits _ (fun _ h => isDigit_of_mem_decimal h)]
  exact Nat.ofDigitChars_ten_toDigits

theorem decimal_head (n : ℕ) (hn : 0 < n) : ∃ c cs, decimal n = c :: cs ∧ c ≠ '0' := by
  induction n using Nat.strongRecOn with
  | _ n ih =>
    unfold decimal
    rw [Nat.toDigits_eq_if (by omega)]
    split
    · rename_i h
      refine ⟨_, [], rfl, ?_⟩
      interval_cases n <;> decide
    · obtain ⟨c, cs, hc, hne⟩ := ih (n / 10) (by omega) (by omega)
      unfold decimal at hc
      exact ⟨c, cs ++ [Nat.digitChar (n % 10)], by simp [hc], hne⟩

private theorem sign_of_isDigit {c : Char} (h : c.isDigit) (cs : Text) :
    sign ((c :: cs).dropWhile isSpace) = (false, c :: cs) := by
  have hb := toNat_of_isDigit h
  have hs : isSpace c = false := by
    have hne : c ≠ ' ' := by rintro rfl; simp at hb
    simp [isSpace, hne]
    omega
  rw [List.dropWhile_cons_of_neg (by simp [hs])]
  unfold sign
  split
  · rename_i heq
    cases heq
    simp at hb
  · rename_i heq
    cases heq
    simp at hb
  · rfl

theorem strtol_digits {c : Char} {cs : Text} (hd : ∀ x ∈ c :: cs, x.isDigit) (base : ℕ) :
    strtol (c :: cs) base =
      min (accumulate (if base = 0 then if c = '0' then 8 else 10 else base) 0 (c :: cs) : ℤ)
        (2 ^ 63 - 1) := by
  have hbase : resolveBase base (c :: cs) =
      (if base = 0 then if c = '0' then 8 else 10 else base, c :: cs) := by
    unfold resolveBase
    split
    · have hx : ∀ x ∈ c :: cs, x ≠ 'x' ∧ x ≠ 'X' := fun x hx =>
        ⟨by rintro rfl; exact absurd (hd _ hx) (by decide),
          by rintro rfl; exact absurd (hd _ hx) (by decide)⟩
      split
      · rename_i heq
        cases heq
        exact absurd rfl (hx 'x' (by simp)).1
      · rename_i heq
        cases heq
        exact absurd rfl (hx 'X' (by simp)).2
      · rename_i heq
        cases heq
        simp
      · rename_i hnot
        have hne : c ≠ '0' := fun h => hnot cs (by rw [h])
        simp [hne]
    · rfl
  simp only [strtol, sign_of_isDigit (hd c (by simp)), hbase, Bool.false_eq_true, if_false]

/-- Reading back a printed number, whose text is never mistaken for octal. -/
theorem strtol_decimal {n : ℕ} (h : n < 2 ^ 63) : strtol (decimal n) 0 = n := by
  rcases Nat.eq_zero_or_pos n with rfl | hn
  · decide
  · obtain ⟨c, cs, hc, hne⟩ := decimal_head n hn
    have hdig : ∀ x ∈ c :: cs, x.isDigit := fun x hx => isDigit_of_mem_decimal (n := n) (hc ▸ hx)
    have hacc : accumulate 10 0 (c :: cs) = n := by rw [← hc, accumulate_decimal]
    rw [hc, strtol_digits hdig, if_pos rfl, if_neg hne, hacc]
    omega

/-! ### Octal and decimal readings of one text -/

theorem accumulate_cons_digit {c : Char} (hc : c.isDigit) (base acc : ℕ) (cs : Text) :
    accumulate base acc (c :: cs) = if c.toNat - 48 < base
      then accumulate base (acc * base + (c.toNat - 48)) cs else acc := by
  simp only [accumulate, digitValue_of_isDigit hc]

theorem le_accumulate {base : ℕ} (hbase : 0 < base) (ds : Text) (acc : ℕ) :
    acc ≤ accumulate base acc ds := by
  induction ds generalizing acc with
  | nil => exact le_rfl
  | cons c ds ih =>
    unfold accumulate
    split
    · split
      · exact le_trans (le_trans (Nat.le_mul_of_pos_right acc hbase) (Nat.le_add_right _ _)) (ih _)
      · exact le_rfl
    · exact le_rfl

theorem accumulate_ten_lt {ds : Text} (hd : ∀ c ∈ ds, c.isDigit) (acc : ℕ) :
    accumulate 10 acc ds < (acc + 1) * 10 ^ ds.length := by
  induction ds generalizing acc with
  | nil => simp [accumulate]
  | cons c ds ih =>
    have hc := hd c (by simp)
    have hb := toNat_of_isDigit hc
    rw [accumulate_cons_digit hc, if_pos (by omega), List.length_cons, pow_succ']
    calc accumulate 10 (acc * 10 + (c.toNat - 48)) ds
        < (acc * 10 + (c.toNat - 48) + 1) * 10 ^ ds.length := ih (fun x hx => hd x (by simp [hx])) _
      _ ≤ ((acc + 1) * 10) * 10 ^ ds.length := Nat.mul_le_mul_right _ (by omega)
      _ = (acc + 1) * (10 * 10 ^ ds.length) := by rw [Nat.mul_assoc]

theorem accumulate_eight_add_le {ds : Text} (hd : ∀ c ∈ ds, c.isDigit) {a b k : ℕ}
    (h : a + k ≤ b) : accumulate 8 a ds + k ≤ accumulate 10 b ds := by
  induction ds generalizing a b with
  | nil => exact h
  | cons c ds ih =>
    have hc := hd c (by simp)
    have hb := toNat_of_isDigit hc
    rw [accumulate_cons_digit hc, accumulate_cons_digit hc, if_pos (show c.toNat - 48 < 10 by omega)]
    split
    · exact ih (fun x hx => hd x (by simp [hx])) (by omega)
    · exact le_trans (by omega) (le_accumulate (show 0 < 10 by omega) ds _)

/-- A text of digits reads the same in both bases exactly when its value is a single octal digit:
zeros and then at most one other digit. -/
theorem accumulate_eight_eq_iff {ds : Text} (hd : ∀ c ∈ ds, c.isDigit) {acc : ℕ} (hacc : acc < 8) :
    accumulate 8 acc ds = accumulate 10 acc ds ↔ accumulate 10 acc ds < 8 := by
  induction ds generalizing acc with
  | nil => simpa [accumulate] using hacc
  | cons c ds ih =>
    have hc := hd c (by simp)
    have hb := toNat_of_isDigit hc
    have hds : ∀ x ∈ ds, x.isDigit := fun x hx => hd x (by simp [hx])
    have hge := le_accumulate (show 0 < 10 by omega) ds (acc * 10 + (c.toNat - 48))
    rw [accumulate_cons_digit hc, accumulate_cons_digit hc, if_pos (show c.toNat - 48 < 10 by omega)]
    split
    · rename_i hoctal
      rcases Nat.eq_zero_or_pos acc with rfl | hpos
      · simp only [Nat.zero_mul, Nat.zero_add]
        exact ih hds hoctal
      · have hlt := accumulate_eight_add_le hds
          (show acc * 8 + (c.toNat - 48) + 1 ≤ acc * 10 + (c.toNat - 48) by omega)
        omega
    · omega

theorem strtol_zero_eq_iff {c : Char} {cs : Text} (hd : ∀ x ∈ c :: cs, x.isDigit)
    (h : accumulate 10 0 (c :: cs) < 2 ^ 63) :
    strtol (c :: cs) 0 = accumulate 10 0 (c :: cs) ↔
      (c = '0' → accumulate 10 0 (c :: cs) < 8) := by
  rw [strtol_digits hd, if_pos rfl]
  split
  · rename_i hzero
    have hiff := accumulate_eight_eq_iff hd (show 0 < 8 by omega)
    have hle := accumulate_eight_add_le hd (show 0 + 0 ≤ 0 by omega)
    rw [imp_iff_right hzero, ← hiff]
    omega
  · rename_i hnonzero
    exact iff_of_true (by omega) fun hzero => absurd hzero hnonzero

/-! ### The number a text begins with -/

/-- The digits up to the end of the text or to another character have this value. -/
def DigitsOf (s : Text) (n : ℕ) : Prop :=
  ∃ ds rest, s = ds ++ rest ∧ (∀ c ∈ ds, c.isDigit) ∧ (∀ c ∈ rest.head?, ¬ c.isDigit) ∧
    n = Nat.ofDigitChars 10 ds 0

/-- At most one sign, and digits. -/
inductive SignedDigits : Text → ℤ → Prop where
  | minus {s : Text} {n : ℕ} (h : DigitsOf s n) : SignedDigits ('-' :: s) (-n)
  | plus {s : Text} {n : ℕ} (h : DigitsOf s n) : SignedDigits ('+' :: s) n
  | plain {s : Text} {n : ℕ} (hsign : s.head? ≠ some '-' ∧ s.head? ≠ some '+')
      (h : DigitsOf s n) : SignedDigits s n

/-- A text that begins with this decimal number, after blanks; no digits stand for zero. -/
def BeginsWith (s : Text) (z : ℤ) : Prop :=
  ∃ blanks t, s = blanks ++ t ∧ (∀ c ∈ blanks, isSpace c) ∧ (∀ c ∈ t.head?, ¬ isSpace c) ∧
    SignedDigits t z

theorem accumulate_of_not_isDigit {c : Char} (h : ¬ c.isDigit) (acc : ℕ) (cs : Text) :
    accumulate 10 acc (c :: cs) = acc := by
  have hc : ¬ (48 ≤ c.toNat ∧ c.toNat ≤ 57) := fun hc => h (Char.isDigit_iff_toNat.mpr hc)
  unfold accumulate digitValue
  rw [if_neg hc]
  split
  · rename_i d hd
    split at hd
    · obtain rfl := Option.some.inj hd
      rw [if_neg (by omega)]
    · split at hd
      · obtain rfl := Option.some.inj hd
        rw [if_neg (by omega)]
      · cases hd
  · rfl

theorem DigitsOf.accumulate_eq {s : Text} {n : ℕ} (h : DigitsOf s n) : accumulate 10 0 s = n := by
  obtain ⟨ds, rest, rfl, hds, hrest, rfl⟩ := h
  generalize 0 = acc
  induction ds generalizing acc with
  | nil =>
    cases rest with
    | nil => rfl
    | cons c cs => exact accumulate_of_not_isDigit (hrest c rfl) acc cs
  | cons c ds ih =>
    have hb := toNat_of_isDigit (hds c List.mem_cons_self)
    rw [List.cons_append, accumulate_cons_digit (hds c List.mem_cons_self), if_pos (by omega),
      ih (fun x hx => hds x (List.mem_cons_of_mem c hx)), Nat.ofDigitChars_cons, Nat.mul_comm]
    rfl

theorem exists_longest_front (p : Char → Bool) (s : Text) :
    ∃ front back, s = front ++ back ∧ (∀ c ∈ front, p c) ∧ ∀ c ∈ back.head?, ¬ p c := by
  refine ⟨s.takeWhile p, s.dropWhile p, List.takeWhile_append_dropWhile.symm,
    fun c hc => List.mem_takeWhile_imp hc, fun c hc => ?_⟩
  have hstop := List.head?_dropWhile_not p s
  rw [Option.mem_def.mp hc] at hstop
  simpa using hstop

theorem exists_digitsOf (s : Text) : ∃ n, DigitsOf s n := by
  obtain ⟨ds, rest, hs, hds, hrest⟩ := exists_longest_front Char.isDigit s
  exact ⟨_, ds, rest, hs, hds, hrest, rfl⟩

theorem sign_of_plain {s : Text} (h : s.head? ≠ some '-' ∧ s.head? ≠ some '+') :
    sign s = (false, s) := by
  unfold sign
  split
  · exact absurd rfl h.1
  · exact absurd rfl h.2
  · rfl

theorem BeginsWith.strtol_eq {s : Text} {z : ℤ} (h : BeginsWith s z) :
    strtol s 10 = max (min z (2 ^ 63 - 1)) (-2 ^ 63) := by
  obtain ⟨blanks, t, rfl, hblanks, ht, hsigned⟩ := h
  have hdrop : (blanks ++ t).dropWhile isSpace = t := by
    rw [List.dropWhile_append_of_pos hblanks]
    cases t with
    | nil => rfl
    | cons c cs => rw [List.dropWhile_cons_of_neg (ht c rfl)]
  unfold strtol
  rw [hdrop]
  cases hsigned with
  | minus hn =>
    simp only [sign, resolveBase, if_neg (show (10 : ℕ) ≠ 0 by omega), hn.accumulate_eq, if_true]
    omega
  | plus hn =>
    simp only [sign, resolveBase, if_neg (show (10 : ℕ) ≠ 0 by omega), hn.accumulate_eq,
      Bool.false_eq_true, if_false]
    omega
  | plain hsign hn =>
    simp only [sign_of_plain hsign, resolveBase, if_neg (show (10 : ℕ) ≠ 0 by omega),
      hn.accumulate_eq, Bool.false_eq_true, if_false]
    omega

theorem exists_beginsWith (s : Text) : ∃ z, BeginsWith s z := by
  have hsigned : ∀ t : Text, ∃ z, SignedDigits t z := by
    intro t
    by_cases hminus : t.head? = some '-'
    · obtain ⟨cs, rfl⟩ := List.head?_eq_some_iff.mp hminus
      obtain ⟨n, hn⟩ := exists_digitsOf cs
      exact ⟨_, .minus hn⟩
    · by_cases hplus : t.head? = some '+'
      · obtain ⟨cs, rfl⟩ := List.head?_eq_some_iff.mp hplus
        obtain ⟨n, hn⟩ := exists_digitsOf cs
        exact ⟨_, .plus hn⟩
      · obtain ⟨n, hn⟩ := exists_digitsOf t
        exact ⟨_, .plain ⟨hminus, hplus⟩ hn⟩
  obtain ⟨blanks, t, hs, hblanks, ht⟩ := exists_longest_front isSpace s
  obtain ⟨z, hz⟩ := hsigned t
  exact ⟨z, blanks, t, hs, hblanks, ht, hz⟩

example : atoi ['e', 't', 'h', '0'] = 0 := by decide
example : atoi ['1', '2', '-', '3'] = 12 := by decide

end NumeralText
