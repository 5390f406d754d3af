import Routerd.Ipv4RouteRequests
import Routerd.DaemonRuns
import Routerd.KeyedUpdates

/-!
# VPP's table 0 after a history of IPv4 routes

Every request for an IPv4 route goes to table 0 with the replacing form of the
API, and the hook never reads the kernel's table number. Table 0 is therefore the
last-writer-wins image of all messages, whichever kernel table each belongs to.
-/

namespace Routerd
open ByteMemory NumeralText InetText KeyedUpdates

/-- The IPv4 address in a union, as VPP reads it. -/
def readIn4 (u : In6Addr) : InAddr := fun i => u ⟨i.val, by omega⟩

@[simp] theorem readIn4_in4Field (a : InAddr) : readIn4 (in4Field a) = a := by
  funext i
  simp [readIn4, in4Field, storeIn4]

/-- An IPv4 prefix: its address and length. -/
abbrev Ipv4Prefix := InAddr × UInt8

/-- What a request does to VPP's IPv4 table 0: an addition replaces the next hops of
its prefix, a deletion removes the prefix. -/
def routeWrites : Request → List (Ipv4Prefix × Option (List InAddr))
  | .routeAddDel r =>
    if r.tableId = 0 ∧ r.prefixAf = 0 ∧ r.isMultipath = false then
      [((readIn4 r.prefixAddress, r.prefixLen),
        if r.isAdd then some (r.paths.map fun p => readIn4 p.nhAddress) else none)]
    else []
  | _ => []

/-- VPP's IPv4 table 0 after these requests, from an empty one. -/
def table0 (rs : List Request) : Ipv4Prefix → Option (List InAddr) :=
  applyWrites (fun _ => none) (rs.flatMap routeWrites)

/-- An IPv4 route message with a destination, a gateway and an output interface. -/
structure Ipv4RouteMessage where
  mem : Mem
  isNew : Bool
  type : nlmsgType mem = if isNew then .newroute else .delroute
  object : RtObject
  parsed : ofMessage route mem = .ok object
  family : rtmFamily object.hdr = afInet
  dst : InAddr
  hasDst : optionalAddr object.rtas rtaDst = some dst
  gateway : InAddr
  hasGateway : optionalAddr object.rtas rtaGateway = some gateway
  oif : UInt32
  hasOif : rtaRead32 (object.rtas.get rtaOif) = .ok oif

namespace Ipv4RouteMessage

def pref (m : Ipv4RouteMessage) : Ipv4Prefix := (m.dst, rtmDstLen m.object.hdr)

def table (m : Ipv4RouteMessage) : UInt8 := rtmTable m.object.hdr

def unicast (m : Ipv4RouteMessage) : Prop := rtmType m.object.hdr = rtnUnicast

/-- What the message does to the kernel table it belongs to. -/
def write (m : Ipv4RouteMessage) : Ipv4Prefix × Option InAddr :=
  (m.pref, if m.isNew then some m.gateway else none)

theorem isRoute (m : Ipv4RouteMessage) :
    nlmsgType m.mem = .newroute ∨ nlmsgType m.mem = .delroute := by
  rw [m.type]
  cases m.isNew <;> simp

theorem decide_newroute (m : Ipv4RouteMessage) :
    decide (nlmsgType m.mem = .newroute) = m.isNew := by
  rw [m.type]
  cases m.isNew <;> rfl

theorem emits (m : Ipv4RouteMessage) {env : Env} (hconn : Connects env) (d : Daemon) :
    ∃ d' cs rs, monitor env d m.mem = .ok d' ∧ Emits d d' cs rs ∧
      rs.flatMap routeWrites = [(m.pref, m.write.2.map fun gw => [gw])] := by
  obtain ⟨d', cs, c, k, hrun, hemits⟩ := monitor_inet4Route_emits env d m.isRoute m.parsed m.family
    (optionalRead32_of_rtaRead32 m.hasOif)
  rw [delivered_of_connects hconn, m.decide_newroute, m.hasDst, m.hasGateway] at hemits
  refine ⟨d', cs, _, hrun, hemits, ?_⟩
  have hne : afInet ≠ afInet6 := by decide
  cases hnew : m.isNew <;>
    simp [routeWrites, ipRouteMessage, loadIn4, prefixAddress_storeIn4, pref, write, hnew, hne]

end Ipv4RouteMessage

theorem replay_routeWrites {env : Env} (hconn : Connects env) (d : Daemon)
    (ms : List Ipv4RouteMessage) :
    ∃ d' rs, replay env d (ms.map (·.mem)) = .ok d' ∧ d'.requests = d.requests ++ rs ∧
      rs.flatMap routeWrites =
        (ms.map (·.write)).map fun u => (u.1, u.2.map fun gw => [gw]) := by
  obtain ⟨d', cs, rs, hrun, hemits, houts⟩ := replay_emits
    fun m (_ : m ∈ ms) d₁ (_ : d₁.interfaces = d.interfaces) => m.emits hconn d₁
  refine ⟨d', rs, hrun, hemits.requests, ?_⟩
  rw [houts.requests_flatMap fun _ _ _ h => h, List.map_map, List.map_eq_flatMap]
  rfl

/-- Table 0 holds exactly the prefixes whose last message, in whatever kernel table,
was an addition, each with the gateway of that message. -/
theorem table0_replay (env : Env) (hconn : Connects env) (d : Daemon)
    (ms : List Ipv4RouteMessage) :
    ∃ d' rs, replay env d (ms.map (·.mem)) = .ok d' ∧ d'.requests = d.requests ++ rs ∧
      ∀ p nh, table0 rs p = some nh ↔
        ∃ gw, lastWrite p (ms.map (·.write)) = some (some gw) ∧ nh = [gw] := by
  obtain ⟨d', rs, hrun, hreq, hwrites⟩ := replay_routeWrites hconn d ms
  refine ⟨d', rs, hrun, hreq, fun p nh => ?_⟩
  rw [table0, applyWrites_eq_lastWrite, hwrites, lastWrite_map_value]
  cases lastWrite p (ms.map (·.write)) with
  | none => simp
  | some gw => cases gw <;> simp [eq_comm]

def routeInTable (isNew : Bool) (table : UInt8) : Mem :=
  nlmsgBytes (if isNew then 24 else 25) (rtmsgBytes afInet 24 table rtnUnicast ++
    rtattrBytes rtaDst [10, 1, 0, 0] ++ rtattrBytes rtaGateway [192, 168, 0, 1] ++
    rtattrBytes rtaOif (bytes32 5))

theorem routeInTable_message (isNew : Bool) (table : UInt8)
    (h : table = rtTableMain ∨ table = 100) :
    ∃ m : Ipv4RouteMessage, m.mem = routeInTable isNew table ∧ m.isNew = isNew ∧
      m.table = table ∧ m.unicast ∧ m.oif = 5 ∧ m.pref = (![10, 1, 0, 0], 24) ∧
      m.gateway = ![192, 168, 0, 1] := by
  have hfields : ((ofMessage route (routeInTable isNew table)).toOption.map fun r =>
      ((rtmFamily r.hdr, rtmTable r.hdr, rtmType r.hdr, rtmDstLen r.hdr),
        rtaRead32 (r.rtas.get rtaOif), r.rtas.get rtaDst, r.rtas.get rtaGateway)) =
      some ((afInet, table, rtnUnicast, 24), .ok 5,
        .mem ((nlmsgBody (routeInTable isNew table)).drop 12),
        .mem ((nlmsgBody (routeInTable isNew table)).drop 20)) := by
    cases isNew <;> rcases h with rfl | rfl <;> rfl
  obtain ⟨r, hr, hread⟩ := ok_of_toOption_map hfields
  simp only [Prod.mk.injEq] at hread
  obtain ⟨⟨hfam, htable, htype, hlen⟩, hoif, hdst, hgw⟩ := hread
  have hdst' : optionalAddr r.rtas rtaDst = some ![10, 1, 0, 0] := by
    rw [optionalAddr, hdst]
    cases isNew <;> rcases h with rfl | rfl <;> decide +kernel
  have hgw' : optionalAddr r.rtas rtaGateway = some ![192, 168, 0, 1] := by
    rw [optionalAddr, hgw]
    cases isNew <;> rcases h with rfl | rfl <;> decide +kernel
  refine ⟨⟨_, isNew, ?_, r, hr, hfam, _, hdst', _, hgw', 5, hoif⟩, rfl, rfl, htable, htype, rfl,
    ?_, rfl⟩
  · cases isNew <;> rcases h with rfl | rfl <;> rfl
  · rw [Ipv4RouteMessage.pref, hlen]

/-- One prefix is added to the main table and to table 100, and deleted from table 100. -/
theorem table0_replay_mainRoute :
    ∃ (m m₁ m₂ : Ipv4RouteMessage) (d' : Daemon) (rs : List Request),
      (m.table, m.isNew) = (rtTableMain, true) ∧ (m₁.table, m₁.isNew) = (100, true) ∧
      (m₂.table, m₂.isNew) = (100, false) ∧ m₁.pref = m.pref ∧ m₂.pref = m.pref ∧
      replay (plainEnv .empty) (Daemon.start pairFiveSeven []) [m.mem, m₁.mem, m₂.mem] = .ok d' ∧
      d'.requests = rs ∧ table0 rs m.pref = none := by
  obtain ⟨m, -, hnew, htable, -, -, hpref, -⟩ := routeInTable_message true rtTableMain (Or.inl rfl)
  obtain ⟨m₁, -, hnew₁, htable₁, -, -, hpref₁, -⟩ := routeInTable_message true 100 (Or.inr rfl)
  obtain ⟨m₂, -, hnew₂, htable₂, -, -, hpref₂, -⟩ := routeInTable_message false 100 (Or.inr rfl)
  obtain ⟨d', rs, hrun, hreq, hiff⟩ := table0_replay (plainEnv .empty) (fun _ => rfl)
    (Daemon.start pairFiveSeven []) [m, m₁, m₂]
  refine ⟨m, m₁, m₂, d', rs, by rw [htable, hnew], by rw [htable₁, hnew₁], by rw [htable₂, hnew₂],
    hpref₁.trans hpref.symm, hpref₂.trans hpref.symm, hrun, hreq, ?_⟩
  cases hlast : table0 rs m.pref with
  | none => rfl
  | some nh =>
    obtain ⟨gw, hwrite, -⟩ := (hiff _ _).mp hlast
    simp [Ipv4RouteMessage.write, lastWrite, hpref, hpref₂, hnew₂] at hwrite

/-- A route added to the kernel's table 100 appears in VPP's table 0, although the
kernel's main table has no such prefix. -/
theorem table0_other_table :
    ∃ (m : Ipv4RouteMessage) (d' : Daemon), m.table ≠ rtTableMain ∧ m.unicast ∧
      Paired pairFiveSeven m.oif ∧
      replay (plainEnv .empty) (Daemon.start pairFiveSeven []) [m.mem] = .ok d' ∧
      table0 d'.requests m.pref = some [m.gateway] ∧
      lastWrite m.pref (([m].filter fun m => m.table = rtTableMain).map (·.write)) = none := by
  obtain ⟨m, hmem, -, htable, huni, hoif, hpref, hgw⟩ := routeInTable_message true 100 (Or.inr rfl)
  have hsent : ((replay (plainEnv .empty) (Daemon.start pairFiveSeven [])
      [routeInTable true 100]).toOption.map fun d => table0 d.requests (![10, 1, 0, 0], 24)) =
      some (some [![192, 168, 0, 1]]) := by decide +kernel
  obtain ⟨d', hrun, htab⟩ := ok_of_toOption_map hsent
  have hother : m.table ≠ rtTableMain := by
    rw [htable]
    decide
  refine ⟨m, d', hother, huni, ⟨_, List.mem_cons_self, hoif.symm⟩, ?_, ?_, ?_⟩
  · rw [hmem]
    exact hrun
  · rw [hpref, hgw]
    exact htab
  · simp [hother]

end Routerd
