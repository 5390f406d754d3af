import Mathlib.Data.List.TakeWhile
import Routerd.Inet6Text

/-!
# The prefix matchers of the command line

`match_ipv4_prefix` reads octets separated by dots, and skips a slash it meets before the third
dot. `match_ipv6_prefix` is a state machine over the characters; the text from `sp` up to the
position is kept as the current group. Both read the length after the slash in base ten into an
`int`.
-/

namespace Routerd.CommandMatch
open NumeralText InetText

inductive MatchType where
  | trivialMatch | noMatch | partlyMatch | exactMatch
  deriving DecidableEq

/-- A `long` stored in an `int`. -/
def int32 (n : ℤ) : ℤ := n.bmod (2 ^ 32)

/-! ### A.B.C.D/M -/

def BadOctet (octet : Text) : Prop := 3 < octet.length ∨ 255 < int32 (strtol octet 10)

instance (octet : Text) : Decidable (BadOctet octet) :=
  inferInstanceAs (Decidable (_ ∨ _))

def ipv4Octets : Text → ℕ → Text → Except MatchType Text
  | [], _, octet => .error (if BadOctet octet then .noMatch else .partlyMatch)
  | c :: cs, dots, octet =>
    if c = '/' then
      if BadOctet octet then .error .noMatch
      else if dots = 3 then if cs = [] then .error .partlyMatch else .ok cs
      else ipv4Octets cs dots []
    else if c = '.' then
      if dots = 3 then .error .noMatch
      else if cs.head? = some '.' ∨ cs.head? = some '/' then .error .noMatch
      else if cs = [] then .error .partlyMatch
      else if BadOctet octet then .error .noMatch
      else ipv4Octets cs (dots + 1) []
    else if c.isDigit then ipv4Octets cs dots (octet ++ [c])
    else .error .noMatch

def matchIpv4Prefix (str : Text) : MatchType :=
  match ipv4Octets str 0 [] with
  | .error m => m
  | .ok mask =>
    if mask.all Char.isDigit then if 32 < int32 (strtol mask 10) then .noMatch else .exactMatch
    else .noMatch

/-! ### X:X::X:X/M -/

def ipv6AddrStr : Text :=
  ['0', '1', '2', '3', '4', '5', '6', '7', '8', '9', 'a', 'b', 'c', 'd', 'e', 'f',
    'A', 'B', 'C', 'D', 'E', 'F', ':', '.']

def ipv6PrefixStr : Text := ipv6AddrStr ++ ['/']

inductive Ipv6State where
  | start | colon | double | addr | dot | slash | mask
  deriving DecidableEq

/-- The locals of the scan; `group` is the text from `sp` to the position. -/
structure Ipv6Scan where
  state : Ipv6State
  colons : ℤ
  nums : ℕ
  doubleColon : ℕ
  group : Text

namespace Ipv6Scan

def enter (m : Ipv6Scan) (c : Char) (next : Option Char) : Except MatchType Ipv6Scan :=
  if m.state = .start then
    if c = ':' then
      if next ≠ some ':' ∧ next ≠ none then .error .noMatch
      else .ok { m with colons := m.colons - 1, state := .colon }
    else .ok { m with state := .addr, group := [] }
  else .ok m

/-- `STATE_ADDR` at the last character of a group. -/
def endGroup (m : Ipv6Scan) (c : Char) (next : Option Char) : Except MatchType Ipv6Scan :=
  if 3 < m.group.length then .error .noMatch
  else if '/' ∈ m.group ++ [c] then .error .noMatch
  else if next = some ':' then .ok { m with nums := m.nums + 1, group := [], state := .colon }
  else if next = some '.' then
    if m.colons ≠ 0 ∨ m.doubleColon ≠ 0 then
      .ok { m with nums := m.nums + 1, group := [], state := .dot }
    else .error .noMatch
  else if next = some '/' then .ok { m with nums := m.nums + 1, group := [], state := .slash }
  else .ok { m with nums := m.nums + 1, group := [] }

def step (m : Ipv6Scan) (c : Char) (next : Option Char) : Except MatchType Ipv6Scan :=
  match m.state with
  | .colon =>
    if next = some '/' then .error .noMatch
    else if next = some ':' then
      .ok { m with colons := m.colons + 1, state := .double, group := m.group ++ [c] }
    else .ok { m with colons := m.colons + 1, state := .addr, group := [] }
  | .double =>
    if m.doubleColon ≠ 0 then .error .noMatch
    else if next = some ':' then .error .noMatch
    else .ok { m with
      colons := if next ≠ none ∧ next ≠ some '/' then m.colons + 1 else m.colons
      state := if next = some '/' then .slash else .addr
      doubleColon := m.doubleColon + 1
      nums := m.nums + 1
      group := [] }
  | .addr =>
    if next = some ':' ∨ next = some '.' ∨ next = none ∨ next = some '/' then m.endGroup c next
    else .ok { m with group := m.group ++ [c] }
  | .dot => .ok { m with state := .addr, group := m.group ++ [c] }
  | .slash =>
    if next = none then .error .partlyMatch
    else .ok { m with state := .mask, group := m.group ++ [c] }
  | .start | .mask => .ok m

def limit (m : Ipv6Scan) : Except MatchType Ipv6Scan :=
  if 11 < m.nums ∨ 7 < m.colons then .error .noMatch else .ok m

def run : Ipv6Scan → Text → Except MatchType (Ipv6Scan × Text)
  | m, [] => .ok (m, [])
  | m, c :: cs =>
    if m.state = .mask then .ok (m, c :: cs)
    else do
      let m ← m.enter c cs.head?
      let m ← m.step c cs.head?
      let m ← m.limit
      run m cs

def init : Ipv6Scan := ⟨.start, 0, 0, 0, []⟩

end Ipv6Scan

/-- Where `strtol` stops in base ten; a text with no number is left at its start. -/
def strtolEnd (s : Text) : Text :=
  let body := (sign (s.dropWhile isSpace)).2
  if body.head?.any Char.isDigit then body.dropWhile Char.isDigit else s

def matchIpv6Prefix (str : Option Text) (withMask : Bool) : MatchType :=
  match str with
  | none => .partlyMatch
  | some str =>
    if str.all (· ∈ if withMask then ipv6PrefixStr else ipv6AddrStr) then
      match Ipv6Scan.init.run str with
      | .error m => m
      | .ok (m, rest) =>
        if withMask = false then if (inetPton6 str).isSome then .exactMatch else .partlyMatch
        else if m.state ≠ .mask then .partlyMatch
        else if strtolEnd rest ≠ [] then .noMatch
        else if int32 (strtol rest 10) < 0 ∨ 128 < int32 (strtol rest 10) then .noMatch
        else .exactMatch
    else .noMatch

/-! ### What an exact match says of the text -/

theorem bind_eq_error {ε α β : Type} {x : Except ε α} {f : α → Except ε β} {e : ε}
    (h : (x >>= f) = .error e) : x = .error e ∨ ∃ a, x = .ok a ∧ f a = .error e := by
  cases x with
  | error e' =>
    cases h
    exact Or.inl rfl
  | ok a => exact Or.inr ⟨a, rfl, h⟩

/-- Digits of a value that fits a byte. -/
structure IsOctet (o : Text) : Prop where
  digits : ∀ c ∈ o, c.isDigit
  fits : accumulate 10 0 o < 256

theorem ipv4Octets_append {o : Text} (hplain : ∀ c ∈ o, c ≠ '.' ∧ c ≠ '/') {rest : Text} {dots : ℕ}
    {octet mask : Text} (h : ipv4Octets (o ++ rest) dots octet = .ok mask) :
    (∀ c ∈ o, c.isDigit) ∧ ipv4Octets rest dots (octet ++ o) = .ok mask := by
  induction o generalizing octet with
  | nil => simpa using h
  | cons c o ih =>
    obtain ⟨hdot, hslash⟩ := hplain c (by simp)
    rw [List.cons_append, ipv4Octets, if_neg hslash, if_neg hdot] at h
    split at h
    · rename_i hc
      obtain ⟨hdigits, hrest⟩ := ih (fun x hx => hplain x (by simp [hx])) h
      exact ⟨List.forall_mem_cons.mpr ⟨hc, hdigits⟩, by simpa using hrest⟩
    · cases h

theorem ipv4Octets_dot {rest : Text} {dots : ℕ} {octet mask : Text}
    (h : ipv4Octets ('.' :: rest) dots octet = .ok mask) :
    ¬ BadOctet octet ∧ ipv4Octets rest (dots + 1) [] = .ok mask := by
  rw [ipv4Octets, if_neg (by decide), if_pos rfl] at h
  split at h
  · cases h
  · split at h
    · cases h
    · split at h
      · cases h
      · split at h
        · cases h
        · rename_i hgood
          exact ⟨hgood, h⟩

theorem ipv4Octets_slash {rest octet mask : Text}
    (h : ipv4Octets ('/' :: rest) 3 octet = .ok mask) :
    ¬ BadOctet octet ∧ rest ≠ [] ∧ mask = rest := by
  rw [ipv4Octets, if_pos rfl] at h
  split at h
  · cases h
  · rename_i hgood
    rw [if_pos rfl] at h
    split at h
    · cases h
    · rename_i hrest
      cases h
      exact ⟨hgood, hrest, rfl⟩

theorem ipv4Octets_ne_exact (s : Text) (dots : ℕ) (octet : Text) :
    ipv4Octets s dots octet ≠ .error .exactMatch := by
  fun_induction ipv4Octets s dots octet with
  | case1 => split <;> simp
  | _ => simp_all

theorem isOctet_of_not_bad {o : Text} (hdigits : ∀ c ∈ o, c.isDigit) (h : ¬ BadOctet o) :
    IsOctet o := by
  refine ⟨hdigits, ?_⟩
  obtain ⟨hlength, hvalue⟩ := not_or.mp h
  cases o with
  | nil => decide
  | cons c cs =>
    have hlt : accumulate 10 0 (c :: cs) < 1000 :=
      calc accumulate 10 0 (c :: cs) < (0 + 1) * 10 ^ (c :: cs).length := accumulate_ten_lt hdigits 0
        _ = 10 ^ (c :: cs).length := by omega
        _ ≤ 10 ^ 3 := Nat.pow_le_pow_right (by omega) (by omega)
    rw [strtol_digits hdigits, if_neg (by omega), int32, min_eq_left (by omega),
      Int.bmod_eq_of_le (by omega) (by omega)] at hvalue
    omega

/-- An exact match of four octets that are not empty has octets and a length of digits. -/
theorem ipv4_of_exactMatch {octet : Fin 4 → Text} {mask : Text}
    (hplain : ∀ i, ∀ c ∈ octet i, c ≠ '.' ∧ c ≠ '/')
    (h : matchIpv4Prefix (dotted octet ++ '/' :: mask) = .exactMatch) :
    (∀ i, IsOctet (octet i)) ∧ mask ≠ [] ∧ ∀ c ∈ mask, c.isDigit := by
  simp only [matchIpv4Prefix, dotted, List.append_assoc, List.cons_append] at h
  split at h
  · rename_i m herror
    rw [show m = .exactMatch from h] at herror
    exact absurd herror (ipv4Octets_ne_exact _ _ _)
  · rename_i found hok
    obtain ⟨hd₀, h₀⟩ := ipv4Octets_append (hplain 0) hok
    obtain ⟨hb₀, h₀⟩ := ipv4Octets_dot h₀
    obtain ⟨hd₁, h₁⟩ := ipv4Octets_append (hplain 1) h₀
    obtain ⟨hb₁, h₁⟩ := ipv4Octets_dot h₁
    obtain ⟨hd₂, h₂⟩ := ipv4Octets_append (hplain 2) h₁
    obtain ⟨hb₂, h₂⟩ := ipv4Octets_dot h₂
    obtain ⟨hd₃, h₃⟩ := ipv4Octets_append (hplain 3) h₂
    obtain ⟨hb₃, hne, rfl⟩ := ipv4Octets_slash h₃
    refine ⟨fun i => ?_, hne, ?_⟩
    · fin_cases i
      · exact isOctet_of_not_bad hd₀ hb₀
      · exact isOctet_of_not_bad hd₁ hb₁
      · exact isOctet_of_not_bad hd₂ hb₂
      · exact isOctet_of_not_bad hd₃ hb₃
    · split at h
      · rename_i hall
        exact List.all_eq_true.mp hall
      · cases h

namespace Ipv6Scan

/-- The character that a state has been chosen for. -/
def Awaits (m : Ipv6Scan) (next : Option Char) : Prop :=
  match m.state with
  | .colon | .double => next = some ':'
  | .dot => next = some '.'
  | .slash => next = some '/'
  | .start | .addr | .mask => True

theorem run_cons_eq_ok {m : Ipv6Scan} {c : Char} {cs : Text} {r : Ipv6Scan × Text}
    (hm : m.state ≠ .mask) (h : m.run (c :: cs) = .ok r) :
    ∃ m₁ m₂, m.enter c cs.head? = .ok m₁ ∧ m₁.step c cs.head? = .ok m₂ ∧ m₂.run cs = .ok r := by
  rw [run, if_neg hm] at h
  cases henter : m.enter c cs.head? with
  | error e =>
    rw [henter] at h
    cases h
  | ok m₁ =>
    rw [henter] at h
    cases hstep : m₁.step c cs.head? with
    | error e =>
      change (m₁.step c cs.head? >>= _) = _ at h
      rw [hstep] at h
      cases h
    | ok m₂ =>
      change (m₁.step c cs.head? >>= _) = _ at h
      rw [hstep] at h
      change (m₂.limit >>= _) = _ at h
      unfold limit at h
      split at h
      · cases h
      · exact ⟨m₁, m₂, rfl, hstep, h⟩

theorem endGroup_awaits {m m' : Ipv6Scan} {c : Char} {next : Option Char}
    (hm : m.state = .addr) (h : m.endGroup c next = .ok m') :
    m'.Awaits next ∧ m'.state ≠ .mask ∧ '/' ∉ m.group ++ [c] := by
  unfold endGroup at h
  split at h
  · cases h
  · split at h
    · cases h
    · rename_i hslash
      split at h
      · cases h
        exact ⟨by assumption, by simp, hslash⟩
      · split at h
        · split at h
          · cases h
            exact ⟨by assumption, by simp, hslash⟩
          · cases h
        · split at h
          · cases h
            exact ⟨by assumption, by simp, hslash⟩
          · cases h
            refine ⟨?_, by simp [hm], hslash⟩
            simp [Awaits, hm]

/-- Every state is chosen for the next character; the mask comes after a slash only. -/
theorem step_awaits {m m' : Ipv6Scan} {c : Char} {next : Option Char}
    (hm : m.state ≠ .mask) (h : m.step c next = .ok m') :
    m'.Awaits next ∧ (m'.state = .mask → m.state = .slash) := by
  unfold step at h
  split at h
  · split at h
    · cases h
    · split at h
      · cases h
        exact ⟨by assumption, by simp⟩
      · cases h
        exact ⟨trivial, by simp⟩
  · split at h
    · cases h
    · split at h
      · cases h
      · cases h
        by_cases hnext : next = some '/'
        · simp [Awaits, hnext]
        · simp [Awaits, hnext]
  · rename_i haddr
    split at h
    · obtain ⟨hawaits, hmask, -⟩ := endGroup_awaits haddr h
      exact ⟨hawaits, fun heq => absurd heq hmask⟩
    · cases h
      simp [Awaits, haddr]
  · cases h
    exact ⟨trivial, by simp⟩
  · rename_i hslash
    split at h
    · cases h
    · cases h
      exact ⟨trivial, fun _ => hslash⟩
  · rename_i hstart
    cases h
    simp [Awaits, hstart]
  · rename_i hmask
    exact absurd hmask hm

theorem enter_eq_ok {m m' : Ipv6Scan} {c : Char} {next : Option Char}
    (h : m.enter c next = .ok m') :
    (m.state ≠ .start ∧ m' = m) ∨ m'.state = .colon ∧ c = ':' ∨ m'.state = .addr := by
  unfold enter at h
  split at h
  · split at h
    · split at h
      · cases h
      · rename_i hc _
        cases h
        exact Or.inr (Or.inl ⟨rfl, hc⟩)
    · cases h
      exact Or.inr (Or.inr rfl)
  · rename_i hstart
    cases h
    exact Or.inl ⟨hstart, rfl⟩

/-- A slash inside a group is never forgiven. -/
theorem run_of_slash_mem {m m' : Ipv6Scan} {cs rest : Text} (hstate : m.state = .addr)
    (hgroup : '/' ∈ m.group) (h : m.run cs = .ok (m', rest)) : m'.state ≠ .mask := by
  induction cs generalizing m with
  | nil =>
    cases h
    simp [hstate]
  | cons c cs ih =>
    obtain ⟨m₁, m₂, henter, hstep, hrun⟩ := run_cons_eq_ok (by simp [hstate]) h
    rw [enter, if_neg (by simp [hstate])] at henter
    cases henter
    simp only [step, hstate] at hstep
    split at hstep
    · obtain ⟨-, -, hnot⟩ := endGroup_awaits hstate hstep
      exact absurd (List.mem_append_left _ hgroup) hnot
    · cases hstep
      exact ih rfl (List.mem_append_left _ hgroup) hrun

theorem run_mask {m m' : Ipv6Scan} {host mask rest : Text} (hhost : '/' ∉ host)
    (hm : m.state ≠ .mask) (hawaits : m.Awaits (host ++ '/' :: mask).head?)
    (h : m.run (host ++ '/' :: mask) = .ok (m', rest)) (hm' : m'.state = .mask) :
    rest = mask ∧ mask ≠ [] := by
  induction host generalizing m with
  | nil =>
    obtain ⟨m₁, m₂, henter, hstep, hrun⟩ := run_cons_eq_ok hm h
    have hstate : m₁.state = .addr ∨ m₁.state = .slash := by
      rcases enter_eq_ok henter with ⟨hstart, rfl⟩ | ⟨-, hc⟩ | haddr
      · unfold Awaits at hawaits
        split at hawaits <;> simp_all
      · cases hc
      · exact Or.inl haddr
    rcases hstate with haddr | hslash
    · simp only [step, haddr] at hstep
      split at hstep
      · obtain ⟨-, -, hnot⟩ := endGroup_awaits haddr hstep
        exact absurd (by simp) hnot
      · cases hstep
        exact absurd hm' (run_of_slash_mem rfl (by simp) hrun)
    · simp only [step, hslash] at hstep
      split at hstep
      · cases hstep
      · rename_i hnext
        cases hstep
        cases mask with
        | nil => exact absurd rfl hnext
        | cons d ds =>
          rw [run, if_pos rfl] at hrun
          cases hrun
          exact ⟨rfl, by simp⟩
  | cons c host ih =>
    obtain ⟨hc, hhost⟩ := not_or.mp (mt List.mem_cons.mpr hhost)
    obtain ⟨m₁, m₂, henter, hstep, hrun⟩ := run_cons_eq_ok hm h
    have hm₁ : m₁.state ≠ .mask ∧ m₁.state ≠ .slash := by
      rcases enter_eq_ok henter with ⟨-, rfl⟩ | ⟨hcolon, -⟩ | haddr
      · refine ⟨hm, fun hslash => hc ?_⟩
        simp only [Awaits, hslash, List.cons_append, List.head?_cons, Option.some.injEq] at hawaits
        exact hawaits.symm
      · simp [hcolon]
      · simp [haddr]
    obtain ⟨hawaits', hmask⟩ := step_awaits hm₁.1 hstep
    exact ih hhost (fun heq => hm₁.2 (hmask heq)) hawaits' hrun

theorem enter_ne_exact (m : Ipv6Scan) (c : Char) (next : Option Char) :
    m.enter c next ≠ .error .exactMatch := by
  fun_cases enter m c next <;> simp

theorem endGroup_ne_exact (m : Ipv6Scan) (c : Char) (next : Option Char) :
    m.endGroup c next ≠ .error .exactMatch := by
  fun_cases endGroup m c next <;> simp

theorem step_ne_exact (m : Ipv6Scan) (c : Char) (next : Option Char) :
    m.step c next ≠ .error .exactMatch := by
  fun_cases step m c next
  case case7 => exact m.endGroup_ne_exact c next
  all_goals simp

theorem run_ne_exact (m : Ipv6Scan) (cs : Text) : m.run cs ≠ .error .exactMatch := by
  induction cs generalizing m with
  | nil => simp [run]
  | cons c cs ih =>
    intro h
    rw [run] at h
    split at h
    · cases h
    · rcases bind_eq_error h with h | ⟨m₁, -, h⟩
      · exact m.enter_ne_exact _ _ h
      · rcases bind_eq_error h with h | ⟨m₂, -, h⟩
        · exact m₁.step_ne_exact _ _ h
        · rcases bind_eq_error h with h | ⟨m₃, -, h⟩
          · unfold limit at h
            split at h <;> cases h
          · exact ih m₃ h

end Ipv6Scan

theorem digits_of_strtolEnd {s : Text} (hchars : ∀ c ∈ s, c ∈ ipv6PrefixStr) (hne : s ≠ [])
    (h : strtolEnd s = []) : ∀ c ∈ s, c.isDigit := by
  have hall : ipv6PrefixStr.all (fun c => !isSpace c && c != '-' && c != '+') = true := by decide
  have hplain : ∀ c ∈ ipv6PrefixStr, isSpace c = false ∧ c ≠ '-' ∧ c ≠ '+' := fun c hc => by
    simpa [and_assoc] using List.all_eq_true.mp hall c hc
  cases s with
  | nil => exact absurd rfl hne
  | cons c cs =>
    obtain ⟨hspace, hminus, hplus⟩ := hplain c (hchars c (by simp))
    have hsign : sign (c :: cs) = (false, c :: cs) := by
      unfold sign
      split
      · rename_i heq
        exact absurd (List.cons.inj heq).1 hminus
      · rename_i heq
        exact absurd (List.cons.inj heq).1 hplus
      · rfl
    rw [strtolEnd, List.dropWhile_cons_of_neg (by simp [hspace]), hsign] at h
    split at h
    · exact List.dropWhile_eq_nil_iff.mp h
    · cases h

theorem ipv6_of_exactMatch {host mask : Text} (hhost : '/' ∉ host)
    (h : matchIpv6Prefix (some (host ++ '/' :: mask)) true = .exactMatch) :
    mask ≠ [] ∧ ∀ c ∈ mask, c.isDigit := by
  simp only [matchIpv6Prefix, if_true, Bool.true_eq_false, if_false] at h
  split at h
  · rename_i hchars
    have hchars := List.all_eq_true.mp hchars
    split at h
    · rename_i m herror
      rw [show m = .exactMatch from h] at herror
      exact absurd herror (Ipv6Scan.run_ne_exact _ _)
    · rename_i m rest hrun
      split at h
      · cases h
      · rename_i hstate
        split at h
        · cases h
        · rename_i hend
          have hawaits : Ipv6Scan.init.Awaits (host ++ '/' :: mask).head? := trivial
          obtain ⟨rfl, hne⟩ := Ipv6Scan.run_mask hhost (by decide) hawaits hrun
            (Decidable.not_not.mp hstate)
          refine ⟨hne, digits_of_strtolEnd (fun c hc => ?_) hne (Decidable.not_not.mp hend)⟩
          exact of_decide_eq_true (hchars c (by simp [hc]))
  · cases h

example : matchIpv4Prefix "1/2.3.4.5/6".toList = .exactMatch := by decide +kernel
example : matchIpv6Prefix (some "::ffff:10.0.0.1/96".toList) true = .exactMatch := by decide +kernel
example : matchIpv6Prefix (some "::1.".toList) true = .partlyMatch := by decide +kernel

end Routerd.CommandMatch
