import Routerd.NetlinkMessages

/-!
# Requests of the VPP binary API and their encoders

Each request has the fields its encoder sets; what it does not set is zero, since
the message is cleared after its allocation. Interface indexes are kept as they
are stored in the message, in network order. `struct prefix` is the textual
detour of a route: an address that cannot be parsed leaves the old bytes in place.
-/

namespace Routerd
open ByteMemory NumeralText InetText

structure SwInterfaceSetFlags where
  clientIndex : UInt32
  context : UInt32
  swIfIndex : UInt32
  adminUpDown : Bool
  deriving DecidableEq

/-- `address` holds the bytes copied to the address field, which has room for
sixteen of them. -/
structure SwInterfaceAddDelAddress where
  clientIndex : UInt32
  context : UInt32
  swIfIndex : UInt32
  isAdd : Bool
  isIpv6 : Bool
  addressLength : UInt8
  address : List UInt8
  deriving DecidableEq

structure FibPath where
  swIfIndex : UInt32
  tableId : UInt32
  rpfId : UInt32
  weight : UInt8
  preference : UInt8
  type : UInt32
  flags : UInt32
  proto : UInt32
  nhAddress : In6Addr
  deriving DecidableEq

structure IpRouteAddDel where
  clientIndex : UInt32
  context : UInt32
  isAdd : Bool
  isMultipath : Bool
  tableId : UInt32
  statsIndex : UInt32
  prefixAf : UInt8
  prefixAddress : In6Addr
  prefixLen : UInt8
  paths : List FibPath
  deriving DecidableEq

structure SrLocalsidAddDel where
  clientIndex : UInt32
  context : UInt32
  isDel : Bool
  localsid : In6Addr
  endPsp : Bool
  behavior : UInt8
  swIfIndex : UInt32
  vlanIndex : UInt32
  fibTable : UInt32
  nhAddr6 : In6Addr
  nhAddr4 : InAddr
  deriving DecidableEq

inductive Request where
  | setFlags (r : SwInterfaceSetFlags)
  | addDelAddress (r : SwInterfaceAddDelAddress)
  | routeAddDel (r : IpRouteAddDel)
  | localsidAddDel (r : SrLocalsidAddDel)
  deriving DecidableEq

def setInterfaceFlag (clientIndex msgId ifindex : UInt32) (isUp : Bool) : Request :=
  .setFlags ⟨clientIndex, swap32 msgId, swap32 ifindex, isUp⟩

/-- `buffer` is the memory from the caller's address buffer on. -/
def setInterfaceAddr (clientIndex msgId ifindex : UInt32) (isAdd isIpv6 : Bool)
    (buffer : ℕ → UInt8) (addrLen : UInt8) : Request :=
  .addDelAddress ⟨clientIndex, swap32 msgId, swap32 ifindex, isAdd, isIpv6, addrLen,
    (List.range addrLen.toNat).map buffer⟩

/-- `struct prefix`; the union holds an IPv4 address in its first four bytes. -/
structure Prefix where
  afi : UInt8
  plen : ℕ
  u : In6Addr
  deriving DecidableEq

def storeIn4 (u : In6Addr) (a : InAddr) : In6Addr :=
  fun i => if h : i.val < 4 then a ⟨i.val, h⟩ else u i

/-- `inet_pton` into the union: a text it rejects leaves the union untouched. -/
def inetPtonInto (afi : UInt8) (s : Text) (u : In6Addr) : In6Addr :=
  if afi = afInet then ((inetPton4 s).map (storeIn4 u)).getD u else (inetPton6 s).getD u

def parsePrefixStr (str : Text) (afi : UInt8) (pref : Prefix) : Except Fault Prefix :=
  if afi = afInet ∨ afi = afInet6 then
    if '/' ∈ str then
      if 128 ≤ str.length then .error .overflow
      else
        let buf := str.takeWhile (· ≠ '/')
        let plenStr := (str.dropWhile (· ≠ '/')).drop 1
        .ok ⟨afi, ((strtol plenStr 0) % 2 ^ 64).toNat, inetPtonInto afi buf pref.u⟩
    else .ok ⟨afi, if afi = afInet then 32 else 128, inetPtonInto afi str pref.u⟩
  else .error .assertion

private theorem split_slash {s : Text} (hs : '/' ∉ s) (rest : Text) :
    (s ++ '/' :: rest).takeWhile (· ≠ '/') = s ∧
      (s ++ '/' :: rest).dropWhile (· ≠ '/') = '/' :: rest := by
  induction s with
  | nil => simp
  | cons c s ih =>
    have hc : c ≠ '/' := fun h => hs (by simp [h])
    obtain ⟨htake, hdrop⟩ := ih (fun h => hs (by simp [h]))
    constructor
    · simpa [List.takeWhile_cons, hc] using htake
    · simpa [List.dropWhile_cons, hc] using hdrop

theorem parsePrefixStr_append {afi : UInt8} (hafi : afi = afInet ∨ afi = afInet6) {s : Text}
    (hs : '/' ∉ s) (rest : Text) (pref : Prefix) :
    parsePrefixStr (s ++ '/' :: rest) afi pref =
      if 128 ≤ (s ++ '/' :: rest).length then .error .overflow
      else .ok ⟨afi, (strtol rest 0 % 2 ^ 64).toNat, inetPtonInto afi s pref.u⟩ := by
  obtain ⟨htake, hdrop⟩ := split_slash hs rest
  have hmem : '/' ∈ s ++ '/' :: rest := by simp
  simp only [parsePrefixStr, hafi, if_true, hmem, htake, hdrop, List.drop_succ_cons, List.drop_zero]

theorem parsePrefixStr_slash {s : Text} (hs : '/' ∉ s) (hlen : s.length ≤ 100) {n : ℕ}
    (hn : n < 256) (pref : Prefix) :
    parsePrefixStr (s ++ '/' :: decimal n) afInet pref =
      .ok ⟨afInet, n, inetPtonInto afInet s pref.u⟩ := by
  have hdec := decimal_length_le (show n < 1000 by omega)
  have hshort : ¬ 128 ≤ (s ++ '/' :: decimal n).length := by
    simp only [List.length_append, List.length_cons]
    omega
  have hval : (strtol (decimal n) 0 % 2 ^ 64).toNat = n := by
    rw [strtol_decimal (show n < 2 ^ 63 by omega)]
    omega
  rw [parsePrefixStr_append (Or.inl rfl) hs, if_neg hshort, hval]

theorem parsePrefixStr_noSlash {s : Text} (hs : '/' ∉ s) (pref : Prefix) :
    parsePrefixStr s afInet pref = .ok ⟨afInet, 32, inetPtonInto afInet s pref.u⟩ := by
  simp [parsePrefixStr, hs]

theorem slash_notMem_inetNtop4 (a : InAddr) : '/' ∉ inetNtop4 a := by
  intro h
  rcases mem_inetNtop4 h with h | h
  · exact absurd h (by decide)
  · exact absurd h (by decide)

@[simp] theorem inetPtonInto_nil (u : In6Addr) : inetPtonInto afInet [] u = u := by
  simp [inetPtonInto]

@[simp] theorem inetPtonInto_inetNtop4 (a : InAddr) (u : In6Addr) :
    inetPtonInto afInet (inetNtop4 a) u = storeIn4 u a := by
  simp [inetPtonInto, inetPton4_inetNtop4]

/-- The address bytes of a prefix as they are copied into a cleared union. -/
def prefixAddress (afi : UInt8) (u : In6Addr) : In6Addr :=
  fun i => if i.val < (if afi = afInet6 then 16 else 4) then u i else 0

/-- The message `ip_route_add_del` fills in: one path, in table 0, replacing. -/
def ipRouteMessage (clientIndex msgId : UInt32) (isAdd : Bool) (route nexthop : Prefix)
    (nhIfindex : UInt32) : IpRouteAddDel where
  clientIndex := clientIndex
  context := swap32 msgId
  isAdd := isAdd
  isMultipath := false
  tableId := 0
  statsIndex := 0
  prefixAf := if route.afi = afInet6 then 1 else 0
  prefixAddress := prefixAddress route.afi route.u
  prefixLen := UInt8.ofNat route.plen
  paths := [{
    swIfIndex := swap32 nhIfindex
    tableId := 0
    rpfId := 0
    weight := 0
    preference := 0
    type := 0
    flags := 0
    proto := 0
    nhAddress := prefixAddress route.afi nexthop.u }]

def ipRouteAddDel (clientIndex msgId : UInt32) (isAdd : Bool) (route nexthop : Prefix)
    (nhIfindex : UInt32) : Except Fault Request :=
  if route.afi = nexthop.afi then
    .ok (.routeAddDel (ipRouteMessage clientIndex msgId isAdd route nexthop nhIfindex))
  else .error .assertion

def ip6RouteSrv6EndDx4Add (clientIndex msgId : UInt32) (sid : In6Addr) (nh4 : InAddr)
    (nhIfindex : UInt32) : Request :=
  .localsidAddDel {
    clientIndex := clientIndex
    context := swap32 msgId
    isDel := false
    localsid := sid
    endPsp := false
    behavior := 7
    swIfIndex := swap32 nhIfindex
    vlanIndex := 0
    fibTable := 0
    nhAddr6 := fun _ => 0
    nhAddr4 := nh4 }

end Routerd
