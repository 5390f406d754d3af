import Routerd.CommandMatch
import Routerd.RouteTableMirror

/-!
# Prefixes that were matched and prefixes that are parsed

The command line accepts a prefix by one reader and the handlers parse it by another. The second
takes a leading zero of the length for octal, refuses it in an octet, and copies the text to a
buffer of 128 characters; the first stores the length in an `int`.
-/

namespace Routerd
open NumeralText InetText CommandMatch

/-- A text accepted as A.B.C.D/M with four octets that are not empty, or as X:X::X:X/M with an
address that `inet_pton` accepts. -/
inductive MatchedPrefix where
  | ipv4 (octet : Fin 4 → Text) (mask : Text) (filled : ∀ i, octet i ≠ [])
      (plain : ∀ i, ∀ c ∈ octet i, c ≠ '.' ∧ c ≠ '/')
      (accepted : matchIpv4Prefix (dotted octet ++ '/' :: mask) = .exactMatch)
  | ipv6 (host mask : Text) (address : In6Addr) (plain : '/' ∉ host)
      (denotes : inetPton6 host = some address)
      (accepted : matchIpv6Prefix (some (host ++ '/' :: mask)) true = .exactMatch)

namespace MatchedPrefix

def afi : MatchedPrefix → UInt8
  | .ipv4 .. => afInet
  | .ipv6 .. => afInet6

def host : MatchedPrefix → Text
  | .ipv4 octet .. => dotted octet
  | .ipv6 host .. => host

def mask : MatchedPrefix → Text
  | .ipv4 _ mask .. => mask
  | .ipv6 _ mask .. => mask

def text (v : MatchedPrefix) : Text := v.host ++ '/' :: v.mask

def value (v : MatchedPrefix) : ℕ := accumulate 10 0 v.mask

def bound : MatchedPrefix → ℕ
  | .ipv4 .. => 32
  | .ipv6 .. => 128

/-- The union holds the address of the text, octets read in decimal. -/
def Denotes : MatchedPrefix → In6Addr → Prop
  | .ipv4 octet .., u => readIn4 u = fun i => UInt8.ofNat (accumulate 10 0 (octet i))
  | .ipv6 _ _ address .., u => u = address

/-- Whatever the struct held before, it is filled with what was matched. -/
def Agrees (v : MatchedPrefix) : Prop :=
  ∀ pref, ∃ r, parsePrefixStr v.text v.afi pref = .ok r ∧ r.afi = v.afi ∧ v.Denotes r.u ∧
    r.plen = v.value ∧ v.value ≤ v.bound

def PlainOctets : MatchedPrefix → Prop
  | .ipv4 octet .. => ∀ i, ¬ LeadingZero (octet i)
  | .ipv6 .. => True

theorem afi_eq (v : MatchedPrefix) : v.afi = afInet ∨ v.afi = afInet6 := by
  cases v with
  | ipv4 => exact Or.inl rfl
  | ipv6 => exact Or.inr rfl

theorem bound_le (v : MatchedPrefix) : v.bound ≤ 128 := by
  have hinet : 32 ≤ 128 := by decide
  cases v with
  | ipv4 => exact hinet
  | ipv6 => exact le_rfl

theorem slash_notMem_host (v : MatchedPrefix) : '/' ∉ v.host := by
  cases v with
  | ipv4 octet mask filled plain accepted =>
    have hslash : ∀ i, '/' ∉ octet i := fun i h => (plain i _ h).2 rfl
    simp [host, dotted, hslash]
  | ipv6 host mask address plain denotes accepted => exact plain

theorem mask_digits (v : MatchedPrefix) : v.mask ≠ [] ∧ ∀ c ∈ v.mask, c.isDigit := by
  cases v with
  | ipv4 octet mask filled plain accepted => exact (ipv4_of_exactMatch plain accepted).2
  | ipv6 host mask address plain denotes accepted => exact ipv6_of_exactMatch plain accepted

theorem plen_eq_iff (v : MatchedPrefix) (h : v.value ≤ v.bound) :
    (strtol v.mask 0 % 2 ^ 64).toNat = v.value ↔ (v.mask.head? = some '0' → v.value < 8) := by
  obtain ⟨hne, hdigits⟩ := v.mask_digits
  have hbound := v.bound_le
  unfold value at h ⊢
  cases hmask : v.mask with
  | nil => exact absurd hmask hne
  | cons c cs =>
    rw [hmask] at hdigits h
    rw [List.head?_cons, Option.some.injEq, ← strtol_zero_eq_iff hdigits (by omega)]
    have hstrtol := strtol_digits hdigits 0
    omega

theorem readIn4_storeIn4 (u : In6Addr) (a : InAddr) : readIn4 (storeIn4 u a) = a := by
  funext i
  exact dif_pos i.isLt

theorem denotes_iff (v : MatchedPrefix) :
    (∀ u, v.Denotes (inetPtonInto v.afi v.host u)) ↔ v.PlainOctets := by
  cases v with
  | ipv4 octet mask filled plain accepted =>
    obtain ⟨hoctet, -⟩ := ipv4_of_exactMatch plain accepted
    simp only [Denotes, afi, host, PlainOctets, inetPtonInto, if_true,
      inetPton4_dotted filled (fun i => (hoctet i).digits) fun i => (hoctet i).fits]
    constructor
    · intro h
      by_contra hzero
      rw [if_neg hzero] at h
      -- a union that holds another first byte keeps it
      have hfirst := congrFun (h fun _ => UInt8.ofNat (accumulate 10 0 (octet 0)) + 1) 0
      exact absurd hfirst (by simp [readIn4])
    · intro hplain u
      rw [if_pos hplain, Option.map_some, Option.getD_some, readIn4_storeIn4]
  | ipv6 host mask address plain denotes accepted =>
    have hne : afInet6 ≠ afInet := by decide
    simp [Denotes, afi, MatchedPrefix.host, PlainOctets, inetPtonInto, hne, denotes]

/-- The handlers parse what was matched exactly for a text below 128 characters with no leading
zero in an octet, whose length is in range and, with a leading zero, a single octal digit. -/
theorem agrees_iff (v : MatchedPrefix) :
    v.Agrees ↔ v.text.length < 128 ∧ v.PlainOctets ∧ v.value ≤ v.bound ∧
      (v.mask.head? = some '0' → v.value < 8) := by
  have hparse := parsePrefixStr_append v.afi_eq v.slash_notMem_host v.mask
  rw [← text] at hparse
  constructor
  · intro h
    have hshort : ¬ 128 ≤ v.text.length := by
      intro hlong
      obtain ⟨r, hr, -⟩ := h ⟨0, 0, fun _ => 0⟩
      rw [hparse, if_pos hlong] at hr
      cases hr
    have hok : ∀ u, v.Denotes (inetPtonInto v.afi v.host u) ∧
        (strtol v.mask 0 % 2 ^ 64).toNat = v.value ∧ v.value ≤ v.bound := by
      intro u
      obtain ⟨r, hr, -, hrest⟩ := h ⟨0, 0, u⟩
      rw [hparse, if_neg hshort] at hr
      cases hr
      exact hrest
    obtain ⟨-, hplen, hbound⟩ := hok fun _ => 0
    exact ⟨by omega, v.denotes_iff.mp fun u => (hok u).1, hbound, (v.plen_eq_iff hbound).mp hplen⟩
  · rintro ⟨hshort, hoctets, hbound, hzero⟩ pref
    rw [hparse, if_neg (by omega)]
    exact ⟨_, rfl, rfl, v.denotes_iff.mpr hoctets pref.u, (v.plen_eq_iff hbound).mpr hzero, hbound⟩

end MatchedPrefix

def hostGroups : Fin 4 → Text := ![['1', '0'], ['0'], ['0'], ['1']]

theorem hostGroups_matched :
    (∀ i, hostGroups i ≠ []) ∧ (∀ i, ∀ c ∈ hostGroups i, c ≠ '.' ∧ c ≠ '/') ∧
      matchIpv4Prefix (dotted hostGroups ++ '/' :: ['0', '1', '0']) = .exactMatch := by
  have hall : ∀ i, (hostGroups i).all (fun c => c != '.' && c != '/') = true := by decide
  refine ⟨by decide, fun i c hc => ?_, by decide +kernel⟩
  simpa using List.all_eq_true.mp (hall i) c hc

def octalLength : MatchedPrefix :=
  .ipv4 hostGroups ['0', '1', '0'] hostGroups_matched.1 hostGroups_matched.2.1
    hostGroups_matched.2.2

/-- The matcher sees a length of ten, the parser one of eight. -/
theorem octalLength_misparsed :
    octalLength.value = 10 ∧
      (∀ pref, ∃ u, parsePrefixStr octalLength.text octalLength.afi pref = .ok ⟨afInet, 8, u⟩) ∧
      ¬ octalLength.Agrees := by
  have hparse : ∀ pref, ∃ u,
      parsePrefixStr octalLength.text octalLength.afi pref = .ok ⟨afInet, 8, u⟩ := by
    intro pref
    unfold MatchedPrefix.text
    rw [parsePrefixStr_append octalLength.afi_eq octalLength.slash_notMem_host]
    exact ⟨_, rfl⟩
  have hvalue : octalLength.value = 10 := by decide
  refine ⟨hvalue, hparse, fun h => ?_⟩
  obtain ⟨r, hr, -, -, hplen, -⟩ := h ⟨0, 0, fun _ => 0⟩
  obtain ⟨u, hu⟩ := hparse ⟨0, 0, fun _ => 0⟩
  rw [hu] at hr
  cases hr
  rw [hvalue] at hplen
  cases hplen

end Routerd
