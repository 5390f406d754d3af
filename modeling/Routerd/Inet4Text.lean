import Routerd.NumeralText
import Mathlib.Data.Fintype.Pi
import Mathlib.Data.Fin.VecNotation
import Mathlib.Tactic.FinCases

/-!
# Dotted-decimal text of IPv4 addresses

`inetNtop4` prints the four octets. `inetPton4` is the one-pass automaton of the
C library: it accepts exactly four groups of digits, none with a leading zero and
none above 255, and reports failure without a value.
-/

namespace InetText
open NumeralText

abbrev InAddr := Fin 4 → UInt8

def inAddrBytes (a : InAddr) : List UInt8 := [a 0, a 1, a 2, a 3]

def inetNtop4 (a : InAddr) : Text :=
  decimal (a 0).toNat ++ '.' :: (decimal (a 1).toNat ++
    '.' :: (decimal (a 2).toNat ++ '.' :: decimal (a 3).toNat))

def dotted (group : Fin 4 → Text) : Text :=
  group 0 ++ '.' :: (group 1 ++ '.' :: (group 2 ++ '.' :: group 3))

/-- The automaton state is the finished octets, the octet being read, whether it
has a digit yet, and how many octets were begun. -/
def pton4Loop : Text → List ℕ → ℕ → Bool → ℕ → Option (List ℕ)
  | [], done, cur, _, octets => if octets < 4 then none else some (done ++ [cur])
  | c :: cs, done, cur, sawDigit, octets =>
    if c.isDigit then
      if sawDigit && cur == 0 then none
      else if 255 < cur * 10 + (c.toNat - 48) then none
      else if sawDigit then pton4Loop cs done (cur * 10 + (c.toNat - 48)) true octets
      else if 4 < octets + 1 then none
      else pton4Loop cs done (cur * 10 + (c.toNat - 48)) true (octets + 1)
    else if c == '.' && sawDigit then
      if octets == 4 then none else pton4Loop cs (done ++ [cur]) 0 false octets
    else none

def inetPton4 (s : Text) : Option InAddr :=
  (pton4Loop s [] 0 false 0).map (fun os i => UInt8.ofNat (os.getD i 0))

@[simp] theorem inetPton4_nil : inetPton4 [] = none := rfl

theorem inetNtop4_ne_nil (a : InAddr) : inetNtop4 a ≠ [] := by
  simp [inetNtop4]

theorem inetNtop4_length_le (a : InAddr) : (inetNtop4 a).length ≤ 15 := by
  have h : ∀ i, (decimal (a i).toNat).length ≤ 3 := fun i =>
    decimal_length_le ((a i).toNat_lt.trans (by omega))
  have h₀ := h 0
  have h₁ := h 1
  have h₂ := h 2
  have h₃ := h 3
  simp only [inetNtop4, List.length_append, List.length_cons]
  omega

theorem mem_inetNtop4 {a : InAddr} {c : Char} (h : c ∈ inetNtop4 a) : c.isDigit ∨ c = '.' := by
  simp only [inetNtop4, List.mem_append, List.mem_cons] at h
  rcases h with h | h | h | h | h | h | h
  · exact Or.inl (isDigit_of_mem_decimal h)
  · exact Or.inr h
  · exact Or.inl (isDigit_of_mem_decimal h)
  · exact Or.inr h
  · exact Or.inl (isDigit_of_mem_decimal h)
  · exact Or.inr h
  · exact Or.inl (isDigit_of_mem_decimal h)

/-- More than one digit, and the first is a zero. -/
def LeadingZero (group : Text) : Prop := group.head? = some '0' ∧ 1 < group.length

instance (group : Text) : Decidable (LeadingZero group) := inferInstanceAs (Decidable (_ ∧ _))

theorem not_leadingZero_decimal (n : ℕ) : ¬ LeadingZero (decimal n) := by
  rintro ⟨hhead, hlength⟩
  rcases Nat.eq_zero_or_pos n with rfl | hn
  · exact absurd hlength (by decide)
  · obtain ⟨c, cs, hc, hne⟩ := decimal_head n hn
    rw [hc, List.head?_cons, Option.some.injEq] at hhead
    exact hne hhead

theorem pton4Loop_digits {ds : Text} (hd : ∀ c ∈ ds, c.isDigit) {cur : ℕ} (hpos : 0 < cur)
    (hfits : accumulate 10 cur ds < 256) (rest : Text) (done : List ℕ) (octets : ℕ) :
    pton4Loop (ds ++ rest) done cur true octets =
      pton4Loop rest done (accumulate 10 cur ds) true octets := by
  induction ds generalizing cur with
  | nil => rfl
  | cons c ds ih =>
    have hc := hd c (by simp)
    have hb := toNat_of_isDigit hc
    rw [accumulate_cons_digit hc, if_pos (by omega)] at hfits ⊢
    have hle := le_accumulate (show 0 < 10 by omega) ds (cur * 10 + (c.toNat - 48))
    have hzero : ¬ cur = 0 := by omega
    have hbyte : ¬ 255 < cur * 10 + (c.toNat - 48) := by omega
    rw [← ih (fun x hx => hd x (by simp [hx])) (by omega) hfits]
    simp [pton4Loop, hc, hzero, hbyte]

theorem pton4Loop_group {group : Text} (hne : group ≠ []) (hd : ∀ c ∈ group, c.isDigit)
    (hfits : accumulate 10 0 group < 256) {octets : ℕ} (ho : octets < 4) (rest : Text)
    (done : List ℕ) :
    pton4Loop (group ++ rest) done 0 false octets =
      if LeadingZero group then none
      else pton4Loop rest done (accumulate 10 0 group) true (octets + 1) := by
  cases group with
  | nil => exact absurd rfl hne
  | cons c ds =>
    have hc := hd c (by simp)
    have hds : ∀ x ∈ ds, x.isDigit := fun x hx => hd x (by simp [hx])
    have hb := toNat_of_isDigit hc
    have hvalue : accumulate 10 0 (c :: ds) = accumulate 10 (c.toNat - 48) ds := by
      rw [accumulate_cons_digit hc, if_pos (by omega), Nat.zero_mul, Nat.zero_add]
    rw [hvalue] at hfits ⊢
    have hlast : ¬ 4 < octets + 1 := by omega
    have hbyte : ¬ 255 < c.toNat - 48 := by omega
    have hfirst : pton4Loop (c :: ds ++ rest) done 0 false octets =
        pton4Loop (ds ++ rest) done (c.toNat - 48) true (octets + 1) := by
      simp [pton4Loop, hc, hlast, hbyte]
    rw [hfirst]
    rcases Nat.eq_zero_or_pos (c.toNat - 48) with hzero | hpos
    · have hchar : c = '0' := Char.toNat_inj.mp (show c.toNat = 48 by omega)
      cases ds with
      | nil => simp [LeadingZero, accumulate]
      | cons d ds =>
        rw [if_pos ⟨by simp [hchar], by simp⟩, hzero]
        simp [pton4Loop, hds d (by simp)]
    · have hchar : c ≠ '0' := by
        rintro rfl
        simp at hpos
      rw [if_neg fun h => hchar (by simpa using h.1), pton4Loop_digits hds hpos hfits]

theorem pton4Loop_dot {octets : ℕ} (ho : octets < 4) (rest : Text) (done : List ℕ)
    (cur : ℕ) :
    pton4Loop ('.' :: rest) done cur true octets =
      pton4Loop rest (done ++ [cur]) 0 false octets := by
  have hne : ¬ octets = 4 := by omega
  simp [pton4Loop, hne]

/-- Four groups of digits that fit a byte are accepted exactly when none has a leading zero. -/
theorem inetPton4_dotted {group : Fin 4 → Text} (hne : ∀ i, group i ≠ [])
    (hd : ∀ i, ∀ c ∈ group i, c.isDigit) (hfits : ∀ i, accumulate 10 0 (group i) < 256) :
    inetPton4 (dotted group) = if ∀ i, ¬ LeadingZero (group i)
      then some fun i => UInt8.ofNat (accumulate 10 0 (group i)) else none := by
  have hread := fun i {octets} (ho : octets < 4) => pton4Loop_group (hne i) (hd i) (hfits i) ho
  rw [inetPton4, dotted, hread 0 (by omega)]
  by_cases h₀ : LeadingZero (group 0)
  · rw [if_pos h₀, if_neg fun h => h 0 h₀]
    rfl
  rw [if_neg h₀, pton4Loop_dot (by omega), hread 1 (by omega)]
  by_cases h₁ : LeadingZero (group 1)
  · rw [if_pos h₁, if_neg fun h => h 1 h₁]
    rfl
  rw [if_neg h₁, pton4Loop_dot (by omega), hread 2 (by omega)]
  by_cases h₂ : LeadingZero (group 2)
  · rw [if_pos h₂, if_neg fun h => h 2 h₂]
    rfl
  have hlast := hread 3 (show 3 < 4 by omega) [] ([accumulate 10 0 (group 0),
    accumulate 10 0 (group 1), accumulate 10 0 (group 2)])
  rw [List.append_nil] at hlast
  rw [if_neg h₂, pton4Loop_dot (by omega)]
  simp only [List.nil_append, List.cons_append]
  rw [hlast]
  by_cases h₃ : LeadingZero (group 3)
  · rw [if_pos h₃, if_neg fun h => h 3 h₃]
    rfl
  have hall : ∀ i, ¬ LeadingZero (group i) := by
    intro i
    fin_cases i <;> assumption
  rw [if_neg h₃, if_pos hall, pton4Loop, if_neg (by omega), Option.map_some, Option.some.injEq]
  funext i
  fin_cases i <;> rfl

theorem inetPton4_inetNtop4 (a : InAddr) : inetPton4 (inetNtop4 a) = some a := by
  have htext : inetNtop4 a = dotted fun i => decimal (a i).toNat := rfl
  have hfits : ∀ i, accumulate 10 0 (decimal (a i).toNat) < 256 := fun i => by
    rw [accumulate_decimal]
    exact (a i).toNat_lt
  rw [htext, inetPton4_dotted (fun i => decimal_ne_nil _)
    (fun i _ h => isDigit_of_mem_decimal h) hfits, if_pos fun i => not_leadingZero_decimal _]
  simp

example : inetPton4 ['1', '0', '.', '0', '.', '0', '.', '1'] = some ![10, 0, 0, 1] := by decide
example : inetPton4 ['1', '0', '.', '0', '1', '.', '0', '.', '1'] = none := by decide

end InetText
