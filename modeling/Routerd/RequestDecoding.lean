import Mathlib.Data.List.GetD
import Routerd.HookSessions
import Routerd.RouteTableMirror

/-!
# What VPP reads in a request

A route request is decoded by VPP's layout: the family of the prefix has its own field, and so
has that of the next hop of each path. The encoder fills in the first one and leaves the second
at IPv4. An interface address is copied to its field with the prefix length as the number of
bytes, which is the number of its bits for VPP.
-/

namespace Routerd
open ByteMemory NumeralText InetText

/-! ### Routes -/

inductive IpAddress where
  | v4 (a : InAddr)
  | v6 (a : In6Addr)
  deriving DecidableEq

/-- An address union by the number of its family. -/
def decodeAddress (af : ℕ) (u : In6Addr) : Option IpAddress :=
  if af = 0 then some (.v4 (readIn4 u)) else if af = 1 then some (.v6 u) else none

/-- A route as VPP understands it; a path is its next hop and its interface. -/
structure DecodedRoute where
  isAdd : Bool
  address : IpAddress
  len : ℕ
  paths : List (IpAddress × UInt32)
  deriving DecidableEq

def decodePath (path : FibPath) : Option (IpAddress × UInt32) := do
  let nh ← decodeAddress (swap32 path.proto).toNat path.nhAddress
  pure (nh, swap32 path.swIfIndex)

def decodeRoute (m : IpRouteAddDel) : Option DecodedRoute := do
  let address ← decodeAddress m.prefixAf.toNat m.prefixAddress
  let paths ← m.paths.mapM decodePath
  pure ⟨m.isAdd, address, m.prefixLen.toNat, paths⟩

def Prefix.address (p : Prefix) : IpAddress :=
  if p.afi = afInet6 then .v6 p.u else .v4 (readIn4 p.u)

/-- A route and a next hop of one family. -/
structure RouteArgs where
  route : Prefix
  nexthop : Prefix
  family : route.afi = afInet ∨ route.afi = afInet6
  same : route.afi = nexthop.afi

namespace RouteArgs

variable (a : RouteArgs)

/-- What VPP is meant to understand. -/
def given (isAdd : Bool) (ifindex : UInt32) : DecodedRoute :=
  ⟨isAdd, a.route.address, a.route.plen, [(a.nexthop.address, ifindex)]⟩

/-- VPP understands the request as it is meant. -/
def Understood (clientIndex msgId : UInt32) (isAdd : Bool) (ifindex : UInt32) : Prop :=
  ∃ m, ipRouteAddDel clientIndex msgId isAdd a.route a.nexthop ifindex = .ok (.routeAddDel m) ∧
    decodeRoute m = some (a.given isAdd ifindex)

theorem understood_iff_decodes {clientIndex msgId : UInt32} {isAdd : Bool} {ifindex : UInt32} :
    a.Understood clientIndex msgId isAdd ifindex ↔
      decodeRoute (ipRouteMessage clientIndex msgId isAdd a.route a.nexthop ifindex) =
        some (a.given isAdd ifindex) := by
  rw [Understood, ipRouteAddDel, if_pos a.same]
  constructor
  · rintro ⟨m, hm, hdecode⟩
    cases hm
    exact hdecode
  · exact fun hdecode => ⟨_, rfl, hdecode⟩

theorem readIn4_prefixAddress {afi : UInt8} (u : In6Addr) :
    readIn4 (prefixAddress afi u) = readIn4 u := by
  funext i
  have hi := i.isLt
  unfold readIn4 prefixAddress
  split
  · exact if_pos (by omega)
  · rfl

theorem decodeRoute_inet (h : a.route.afi = afInet) (clientIndex msgId : UInt32) (isAdd : Bool)
    (ifindex : UInt32) :
    decodeRoute (ipRouteMessage clientIndex msgId isAdd a.route a.nexthop ifindex) =
      some ⟨isAdd, a.route.address, a.route.plen % 256, [(a.nexthop.address, ifindex)]⟩ := by
  have hne : afInet ≠ afInet6 := by decide
  have hnexthop : a.nexthop.afi = afInet := by rw [← a.same, h]
  have hproto : swap32 0 = 0 := by decide
  simp [decodeRoute, ipRouteMessage, decodePath, decodeAddress, Prefix.address, h, hnexthop, hne,
    hproto, readIn4_prefixAddress, UInt8.toNat_ofNat', swap32_swap32]

theorem decodeRoute_inet6 (h : a.route.afi = afInet6) (clientIndex msgId : UInt32) (isAdd : Bool)
    (ifindex : UInt32) :
    decodeRoute (ipRouteMessage clientIndex msgId isAdd a.route a.nexthop ifindex) =
      some ⟨isAdd, a.route.address, a.route.plen % 256, [(.v4 (readIn4 a.nexthop.u), ifindex)]⟩ := by
  have hfull : prefixAddress afInet6 a.route.u = a.route.u := by
    funext i
    exact if_pos i.isLt
  have hproto : swap32 0 = 0 := by decide
  simp [decodeRoute, ipRouteMessage, decodePath, decodeAddress, Prefix.address, h, hproto, hfull,
    readIn4_prefixAddress, UInt8.toNat_ofNat', swap32_swap32]

/-- VPP understands a route request as it is meant exactly for an IPv4 route whose prefix length
fits a byte. -/
theorem understood_iff (clientIndex msgId : UInt32) (isAdd : Bool) (ifindex : UInt32) :
    a.Understood clientIndex msgId isAdd ifindex ↔ a.route.afi = afInet ∧ a.route.plen < 256 := by
  rw [understood_iff_decodes]
  rcases a.family with h | h
  · rw [a.decodeRoute_inet h, Option.some.injEq, given, DecodedRoute.mk.injEq]
    constructor
    · rintro ⟨-, -, hlen, -⟩
      exact ⟨h, by omega⟩
    · rintro ⟨-, hlen⟩
      exact ⟨rfl, rfl, Nat.mod_eq_of_lt hlen, rfl⟩
  · have hnexthop : a.nexthop.address = .v6 a.nexthop.u := if_pos (by rw [← a.same, h])
    rw [a.decodeRoute_inet6 h, Option.some.injEq, given, DecodedRoute.mk.injEq, hnexthop]
    constructor
    · rintro ⟨-, -, -, hpaths⟩
      cases hpaths
    · rintro ⟨hinet, -⟩
      rw [h] at hinet
      exact absurd hinet (by decide)

end RouteArgs

def inet6Route : RouteArgs where
  route := ⟨afInet6, 32, bytes 16 [32, 1, 13, 184]⟩
  nexthop := ⟨afInet6, 128, bytes 16 [254, 128, 0, 0, 0, 0, 0, 0, 0, 0, 0, 0, 0, 0, 0, 1]⟩
  family := Or.inr rfl
  same := rfl

/-- VPP takes the next hop for 254.128.0.0. -/
theorem inet6Route_misread :
    decodeRoute (ipRouteMessage 1 10 true inet6Route.route inet6Route.nexthop 7) =
        some ⟨true, inet6Route.route.address, 32, [(.v4 ![254, 128, 0, 0], 7)]⟩ ∧
      ¬ inet6Route.Understood 1 10 true 7 := by
  have hnexthop : readIn4 inet6Route.nexthop.u = ![254, 128, 0, 0] := by decide
  constructor
  · rw [inet6Route.decodeRoute_inet6 rfl, hnexthop]
    rfl
  · rw [RouteArgs.understood_iff_decodes, inet6Route.decodeRoute_inet6 rfl]
    intro h
    cases h

/-! ### Interface addresses -/

/-- An address of an interface, of four or sixteen bytes, and its prefix length in bits. -/
structure InterfaceAddress where
  isIpv6 : Bool
  address : List UInt8
  plen : ℕ
  complete : address.length = if isIpv6 then 16 else 4
  range : plen ≤ 8 * address.length

namespace InterfaceAddress

variable (a : InterfaceAddress)

def byte (i : ℕ) : UInt8 := a.address.getD i 0

theorem length_le : a.address.length ≤ 16 := by
  have hcomplete := a.complete
  split at hcomplete <;> omega

theorem byte_of_length_le {i : ℕ} (h : a.address.length ≤ i) : a.byte i = 0 :=
  List.getD_eq_default _ _ h

/-- The request has the complete address in its field, which is zero after it, and the copy to
the field stays inside the caller's address and inside the field of sixteen bytes. -/
def Carried (request : Request) : Prop :=
  ∃ r, request = .addDelAddress r ∧ r.addressLength.toNat = a.plen ∧
    (∀ i < 16, r.address.getD i 0 = a.byte i) ∧
    r.address.length ≤ a.address.length ∧ r.address.length ≤ 16

/-- A call of `set_interface_addr` for the address: `set_addr` of the hooks, which is for IPv4
only, or `set_interface_address` of the command line with a parsed prefix. -/
inductive Call where
  | hook (frame : Frame) (client msgId ifindex : UInt32) (isAdd : Bool) (addr : InAddr)
      (inet : a.isIpv6 = false) (holds : ∀ i (h : i < 4), addr ⟨i, h⟩ = a.byte i)
  | cli (frame : VppCli.CliFrame) (client ifindex : UInt32) (negate : Bool) (pref : Prefix)
      (len : pref.plen = a.plen)
      (holds : ∀ i (h : i < 16), i < a.address.length → pref.u ⟨i, h⟩ = a.byte i)

variable {a}

def Call.request : Call a → Request
  | .hook frame client msgId ifindex isAdd addr _ _ =>
      setInterfaceAddr client msgId ifindex isAdd false (addrBuffer frame addr) (UInt8.ofNat a.plen)
  | .cli frame client ifindex negate pref _ _ =>
      VppCli.interfaceAddress frame client ifindex negate a.isIpv6 pref

theorem Call.request_eq (c : Call a) :
    ∃ client msgId ifindex isAdd buffer, (∀ i < a.address.length, buffer i = a.byte i) ∧
      c.request = setInterfaceAddr client msgId ifindex isAdd a.isIpv6 buffer
        (UInt8.ofNat a.plen) := by
  cases c with
  | hook frame client msgId ifindex isAdd addr inet holds =>
    refine ⟨client, msgId, ifindex, isAdd, addrBuffer frame addr, fun i hi => ?_, by rw [inet]; rfl⟩
    have hfour : i < 4 := by
      rw [a.complete, inet] at hi
      exact hi
    rw [addrBuffer, dif_pos hfour, holds]
  | cli frame client ifindex negate pref len holds =>
    refine ⟨client, 3, ifindex, !negate, VppCli.rawBuffer pref frame.behind, fun i hi => ?_,
      by rw [← len]; rfl⟩
    have hfull : i < 16 := lt_of_lt_of_le hi a.length_le
    rw [VppCli.rawBuffer, dif_pos hfull, holds i hfull hi]

variable (a)

theorem toNat_plen : (UInt8.ofNat a.plen).toNat = a.plen := by
  have hrange := a.range
  have hlength := a.length_le
  rw [UInt8.toNat_ofNat']
  exact Nat.mod_eq_of_lt (by omega)

theorem carried_setInterfaceAddr_iff {client msgId ifindex : UInt32} {isAdd isIpv6 : Bool}
    {buffer : ℕ → UInt8} (hbuffer : ∀ i < a.address.length, buffer i = a.byte i) :
    a.Carried (setInterfaceAddr client msgId ifindex isAdd isIpv6 buffer (UInt8.ofNat a.plen)) ↔
      a.plen ≤ a.address.length ∧ ∀ i, a.plen ≤ i → a.byte i = 0 := by
  have hlength := a.length_le
  rw [Carried, setInterfaceAddr, a.toNat_plen]
  constructor
  · rintro ⟨r, hr, -, hfield, hreads, -⟩
    cases hr
    rw [List.length_map, List.length_range] at hreads
    refine ⟨hreads, fun i hi => ?_⟩
    -- the copy ends before byte `i`, and the field was zero
    rcases Nat.lt_or_ge i 16 with hi16 | hi16
    · rw [← hfield i hi16]
      exact List.getD_eq_default _ _ (by simpa using hi)
    · exact a.byte_of_length_le (hlength.trans hi16)
  · rintro ⟨hle, hzero⟩
    refine ⟨_, rfl, a.toNat_plen, fun i _ => ?_, ?_, ?_⟩
    · rcases Nat.lt_or_ge i a.plen with hi | hi
      · rw [List.getD_eq_getElem _ _ (by simpa using hi), List.getElem_map, List.getElem_range]
        exact hbuffer i (lt_of_lt_of_le hi hle)
      · rw [hzero i hi]
        exact List.getD_eq_default _ _ (by simpa using hi)
    · simpa using hle
    · simpa using hle.trans hlength

/-- A request carries its address exactly when the prefix length, taken as a number of bytes,
does not reach beyond the address and what is left of the address is zero. -/
theorem carried_iff (c : Call a) :
    a.Carried c.request ↔ a.plen ≤ a.address.length ∧ ∀ i, a.plen ≤ i → a.byte i = 0 := by
  obtain ⟨client, msgId, ifindex, isAdd, buffer, hbuffer, hrequest⟩ := c.request_eq
  rw [hrequest]
  exact a.carried_setInterfaceAddr_iff hbuffer

end InterfaceAddress

def hostAddress (plen : ℕ) (h : plen ≤ 32) : InterfaceAddress where
  isIpv6 := false
  address := [10, 0, 0, 1]
  plen := plen
  complete := rfl
  range := h

def hostCall (plen : ℕ) (h : plen ≤ 32) : (hostAddress plen h).Call :=
  .hook (staleEnv.frame 0) 1 7 5 true ![10, 0, 0, 1] rfl fun i hi => by
    change i < 4 at hi
    interval_cases i <;> rfl

/-- With a length of 24 the copy takes twenty bytes from behind the address and runs over the
field; with a length of 2 the last byte is lost. -/
theorem hostAddress_miscopied :
    (∃ r, (hostCall 24 (by decide)).request = .addDelAddress r ∧ r.address.length = 24) ∧
      ¬ (hostAddress 24 (by decide)).Carried (hostCall 24 (by decide)).request ∧
      ¬ (hostAddress 2 (by decide)).Carried (hostCall 2 (by decide)).request := by
  refine ⟨⟨_, rfl, rfl⟩, ?_, ?_⟩
  · rintro ⟨r, hr, -, -, -, hwrites⟩
    cases hr
    exact absurd hwrites (by decide)
  · rintro ⟨r, hr, -, hfield, -⟩
    cases hr
    exact absurd (hfield 3 (by decide)) (by decide)

end Routerd
