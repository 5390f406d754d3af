import Routerd.RouteHookEffects
import Mathlib.Data.UInt

/-!
# The request of an IPv4 route

`set_route` parses the printed prefix and gateway into two locals that are not
initialised. An absent attribute is an empty text, which `inet_pton` rejects, and
the request then carries what the local held before: a default route has the right
prefix, and a connected route the right next hop, only over zeroed memory.
-/

namespace Routerd
open ByteMemory NumeralText InetText

def in4Field (a : InAddr) : In6Addr := storeIn4 (fun _ => 0) a

/-- The request asks for this prefix through this next hop. -/
structure CarriesRoute (req : IpRouteAddDel) (dst : InAddr) (len : UInt8) (gateway : InAddr) :
    Prop where
  af : req.prefixAf = 0
  address : req.prefixAddress = in4Field dst
  len : req.prefixLen = len
  path : ∃ p, req.paths = [p] ∧ p.nhAddress = in4Field gateway

/-- The IPv4 address in the union is 0.0.0.0. -/
def ZeroIn4 (u : In6Addr) : Prop := ∀ i : Fin 16, i.val < 4 → u i = 0

theorem prefixAddress_storeIn4 (u : In6Addr) (a : InAddr) :
    prefixAddress afInet (storeIn4 u a) = in4Field a := by
  have hne : afInet ≠ afInet6 := by decide
  funext i
  by_cases hi : i.val < 4 <;> simp [prefixAddress, storeIn4, in4Field, hi, hne]

theorem prefixAddress_eq_zero_iff (u : In6Addr) :
    prefixAddress afInet u = in4Field 0 ↔ ZeroIn4 u := by
  have hne : afInet ≠ afInet6 := by decide
  constructor
  · intro h i hi
    have hb := congrFun h i
    simpa [prefixAddress, in4Field, storeIn4, hi, hne] using hb
  · intro h
    funext i
    by_cases hi : i.val < 4
    · simp [prefixAddress, in4Field, storeIn4, hi, hne, h i hi]
    · simp [prefixAddress, in4Field, storeIn4, hi, hne]

/-- The union holds the attribute, or 0.0.0.0 without it, exactly if the attribute
was there or the memory was zero. -/
theorem prefixAddress_loadIn4_iff (u : In6Addr) (a : Option InAddr) :
    prefixAddress afInet (loadIn4 u a) = in4Field (a.getD 0) ↔ a ≠ none ∨ ZeroIn4 u := by
  cases a with
  | none => simpa [loadIn4] using prefixAddress_eq_zero_iff u
  | some a => simp [loadIn4, prefixAddress_storeIn4]

theorem ipRouteMessage_carries_iff (c m : UInt32) (isAdd : Bool) (len : UInt8) (u v : In6Addr)
    (a b : Option InAddr) (oif : UInt32) :
    CarriesRoute (ipRouteMessage c m isAdd ⟨afInet, len.toNat, loadIn4 u a⟩
        ⟨afInet, 32, loadIn4 v b⟩ oif) (a.getD 0) len (b.getD 0) ↔
      (a ≠ none ∨ ZeroIn4 u) ∧ (b ≠ none ∨ ZeroIn4 v) := by
  rw [← prefixAddress_loadIn4_iff, ← prefixAddress_loadIn4_iff]
  constructor
  · rintro ⟨-, haddr, -, p, hp, hnh⟩
    refine ⟨haddr, ?_⟩
    obtain rfl := List.singleton_inj.mp hp
    exact hnh
  · rintro ⟨haddr, hnh⟩
    refine ⟨?_, haddr, ?_, _, rfl, hnh⟩
    · have hne : afInet ≠ afInet6 := by decide
      simp [ipRouteMessage, hne]
    · simp [ipRouteMessage]

/-- The attributes a route message may leave out: the request carries the message's
prefix and next hop exactly if each missing one finds zeros in its local. -/
theorem ipv4Route_request_iff (env : Env) (d : Daemon) (n : Mem) (r : RtObject)
    (hconn : env.connects d.trace.length = true)
    (htype : nlmsgType n = .newroute ∨ nlmsgType n = .delroute)
    (hr : ofMessage route n = .ok r) (hfam : rtmFamily r.hdr = afInet)
    (hoif : r.rtas.get rtaOif = .null ∨ ∃ k, rtaRead32 (r.rtas.get rtaOif) = .ok k) :
    ∃ d' req, monitor env d n = .ok d' ∧ d'.requests = d.requests ++ [.routeAddDel req] ∧
      (CarriesRoute req ((optionalAddr r.rtas rtaDst).getD 0) (rtmDstLen r.hdr)
          ((optionalAddr r.rtas rtaGateway).getD 0) ↔
        (r.rtas.get rtaDst ≠ .null ∨ ZeroIn4 (env.frame d.trace.length).routePref.u) ∧
        (r.rtas.get rtaGateway ≠ .null ∨ ZeroIn4 (env.frame d.trace.length).nexthopPref.u)) := by
  have hk : ∃ k, optionalRead32 r.rtas rtaOif = .ok k := by
    rcases hoif with h | ⟨k, h⟩
    · exact ⟨0, by simp only [optionalRead32, h]; rfl⟩
    · exact ⟨k, optionalRead32_of_rtaRead32 h⟩
  obtain ⟨k, hk⟩ := hk
  obtain ⟨d', cs, c, m, hrun, hemits⟩ := monitor_inet4Route_emits env d htype hr hfam hk
  have hreq := hemits.requests
  rw [delivered, if_pos hconn] at hreq
  refine ⟨d', _, hrun, hreq, ?_⟩
  rw [ipRouteMessage_carries_iff, optionalAddr_ne_none_iff, optionalAddr_ne_none_iff]

def defaultRoute : Mem :=
  nlmsgBytes 24 (rtmsgBytes afInet 0 rtTableMain rtnUnicast ++
    rtattrBytes rtaGateway [192, 168, 0, 1] ++ rtattrBytes rtaOif (bytes32 3))

def staleEnv : Env :=
  { plainEnv .empty with
    frame := fun _ => ⟨⟨7, 7, fun _ => 7⟩, ⟨7, 7, fun _ => 7⟩, nullTable, fun _ => 7, fun _ => 7,
      fun _ => 7⟩ }

theorem defaultRoute_object :
    ∃ r, ofMessage route defaultRoute = .ok r ∧ rtmFamily r.hdr = afInet ∧
      rtaRead32 (r.rtas.get rtaOif) = .ok 3 ∧ r.rtas.get rtaDst = .null := by
  have hfields : ((ofMessage route defaultRoute).toOption.map fun r => (rtmFamily r.hdr,
      rtaRead32 (r.rtas.get rtaOif), r.rtas.get rtaDst)) =
      some (afInet, .ok 3, .null) := by rfl
  obtain ⟨r, hr, hread⟩ := ok_of_toOption_map hfields
  obtain ⟨hfam, hoif, hdst⟩ := Prod.mk.inj hread |>.imp_right Prod.mk.inj
  exact ⟨r, hr, hfam, hoif, hdst⟩

theorem ipv4Route_request_iff_defaultRoute :
    ∃ r d' req, ofMessage route defaultRoute = .ok r ∧
      monitor (plainEnv .empty) (Daemon.start [] []) defaultRoute = .ok d' ∧
      d'.requests = [.routeAddDel req] ∧
      CarriesRoute req ((optionalAddr r.rtas rtaDst).getD 0) (rtmDstLen r.hdr)
        ((optionalAddr r.rtas rtaGateway).getD 0) := by
  obtain ⟨r, hr, hfam, hoif, -⟩ := defaultRoute_object
  obtain ⟨d', req, hrun, hreq, hiff⟩ := ipv4Route_request_iff (plainEnv .empty)
    (Daemon.start [] []) defaultRoute r rfl (Or.inl rfl) hr hfam (Or.inr ⟨3, hoif⟩)
  exact ⟨r, d', req, hr, hrun, hreq, hiff.mpr ⟨Or.inr fun _ _ => rfl, Or.inr fun _ _ => rfl⟩⟩

/-- Over stale memory the default route is sent as 7.7.7.7/0. -/
theorem defaultRoute_stale_prefix :
    ∃ r d' req, ofMessage route defaultRoute = .ok r ∧ r.rtas.get rtaDst = .null ∧
      monitor staleEnv (Daemon.start [] []) defaultRoute = .ok d' ∧
      d'.requests = [.routeAddDel req] ∧ req.prefixAddress 0 = 7 ∧
      ¬ CarriesRoute req ((optionalAddr r.rtas rtaDst).getD 0) (rtmDstLen r.hdr)
        ((optionalAddr r.rtas rtaGateway).getD 0) := by
  obtain ⟨r, hr, -, -, hdst⟩ := defaultRoute_object
  have hbyte : ((monitor staleEnv (Daemon.start [] []) defaultRoute).toOption.map fun d =>
      d.requests.map fun
        | .routeAddDel req => some (req.prefixAddress 0)
        | _ => none) = some [some 7] := by decide +kernel
  obtain ⟨d', hrun, hreqs⟩ := ok_of_toOption_map hbyte
  obtain ⟨q, hq, hq7⟩ := List.map_eq_singleton_iff.mp hreqs
  cases q with
  | routeAddDel req =>
    have h7 : req.prefixAddress 0 = 7 := Option.some.inj hq7
    refine ⟨r, d', req, hr, hdst, hrun, hq, h7, fun hcarries => ?_⟩
    have hzero := congrFun hcarries.address 0
    rw [h7] at hzero
    simp [optionalAddr, hdst, in4Field, storeIn4] at hzero
  | setFlags _ => cases hq7
  | addDelAddress _ => cases hq7
  | localsidAddDel _ => cases hq7

end Routerd
