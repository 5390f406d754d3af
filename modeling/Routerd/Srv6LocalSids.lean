import Routerd.RouteHookEffects
import Routerd.DaemonRuns
import Routerd.KeyedUpdates

/-!
# Local SIDs in VPP

The SRv6 branch of the route hook encodes an addition whatever the message was:
`is_del` is the constant 0. VPP's table of local SIDs after a sequence of messages
is computed from the requests; it agrees with the kernel exactly on the histories
that end with an addition for every SID and delete none that was not added before.
The output interface takes a detour over its name, so it is right exactly when the
name starts with a suitable number.
-/

namespace Routerd
open ByteMemory NumeralText InetText KeyedUpdates

/-- What a request does to VPP's table of local SIDs: the SID and whether it is
installed afterwards. -/
def sidWrites : Request → List (In6Addr × Bool)
  | .localsidAddDel r => [(r.localsid, !r.isDel)]
  | _ => []

def localSids (rs : List Request) : In6Addr → Bool :=
  applyWrites (fun _ => false) (rs.flatMap sidWrites)

/-- An IPv6 route message that carries a destination, an output interface and a
seg6local encapsulation with action End.DX4 and an IPv4 next hop. -/
structure EndDx4Message where
  mem : Mem
  isNew : Bool
  type : nlmsgType mem = if isNew then .newroute else .delroute
  object : RtObject
  parsed : ofMessage route mem = .ok object
  sid : In6Addr
  oif : UInt32
  nh4 : InAddr
  carries : EndDx4Route nullTable object sid oif nh4

theorem EndDx4Encap.of_nullTable {rtas : RtaArray} {nh4 : InAddr}
    (h : EndDx4Encap nullTable rtas nh4) (sub₀ : RtaTable) : EndDx4Encap sub₀ rtas nh4 := by
  obtain ⟨htype, e, sub, a, m, henc, hparse, hact, hread, hnh, hnh4⟩ := h
  refine ⟨htype, e, overlay sub sub₀, a, m, henc, ?_, ?_, hread, ?_, hnh4⟩
  · rw [parseRtattr_overlay, hparse]
    rfl
  · rw [overlay_of_ne_null (by simp [hact]), hact]
  · rw [overlay_of_ne_null (by simp [hnh]), hnh]

theorem EndDx4Message.route (m : EndDx4Message) (sub₀ : RtaTable) :
    EndDx4Route sub₀ m.object m.sid m.oif m.nh4 :=
  ⟨m.carries.family, m.carries.dst, m.carries.oif, m.carries.encap.of_nullTable sub₀⟩

theorem EndDx4Message.isRoute (m : EndDx4Message) :
    nlmsgType m.mem = .newroute ∨ nlmsgType m.mem = .delroute := by
  rw [m.type]
  cases m.isNew <;> simp

theorem EndDx4Message.emits (m : EndDx4Message) (env : Env) (d : Daemon) :
    ∃ d' c k, monitor env d m.mem = .ok d' ∧
      Emits d d' [] (delivered env d (ip6RouteSrv6EndDx4Add c k m.sid m.nh4
        (ifindexKernel2vpp d.interfaces (atoi (ifindex2str env.names m.oif))))) :=
  monitor_endDx4_emits env d m.isRoute m.parsed (m.route _)

/-- Every message of the sequence installs its SID, deletions included. -/
theorem replay_sidWrites {env : Env} (hconn : Connects env) (d : Daemon)
    (ms : List EndDx4Message) :
    ∃ d' rs, replay env d (ms.map (·.mem)) = .ok d' ∧ d'.requests = d.requests ++ rs ∧
      rs.flatMap sidWrites = ms.map fun m => (m.sid, true) := by
  have hstep : ∀ m ∈ ms, ∀ d₁ : Daemon, d₁.interfaces = d.interfaces →
      ∃ d' cs rs, monitor env d₁ m.mem = .ok d' ∧ Emits d₁ d' cs rs ∧
        rs.flatMap sidWrites = [(m.sid, true)] := by
    intro m _ d₁ _
    obtain ⟨d', c, k, hrun, hemits⟩ := m.emits env d₁
    rw [delivered_of_connects hconn] at hemits
    exact ⟨d', _, _, hrun, hemits, rfl⟩
  obtain ⟨d', cs, rs, hrun, hemits, houts⟩ := replay_emits hstep
  refine ⟨d', rs, hrun, hemits.requests, ?_⟩
  rw [houts.requests_flatMap fun _ _ _ h => h, List.map_eq_flatMap]

/-- The messages of a sequence as writes to the kernel's own table of SIDs. -/
def kernelSidWrites (ms : List EndDx4Message) : List (In6Addr × Bool) :=
  ms.map fun m => (m.sid, m.isNew)

/-- VPP's local SIDs after the daemon `d` has handled the messages, none being there before. -/
def SidsAfter (env : Env) (d : Daemon) (ms : List EndDx4Message) (sids : In6Addr → Bool) : Prop :=
  ∃ d' rs, replay env d (ms.map (·.mem)) = .ok d' ∧ d'.requests = d.requests ++ rs ∧
    localSids rs = sids

theorem exists_sidsAfter {env : Env} (hconn : Connects env) (d : Daemon) (ms : List EndDx4Message) :
    ∃ sids, SidsAfter env d ms sids ∧
      ∀ sid, sids sid = true ↔ lastWrite sid (kernelSidWrites ms) ≠ none := by
  obtain ⟨d', rs, hrun, hreq, hwrites⟩ := replay_sidWrites hconn d ms
  refine ⟨_, ⟨d', rs, hrun, hreq, rfl⟩, fun sid => ?_⟩
  have hlast : lastWrite sid (ms.map fun m => (m.sid, true)) =
      (lastWrite sid (kernelSidWrites ms)).map fun _ => true := by
    rw [← lastWrite_map_value, kernelSidWrites, List.map_map]
    rfl
  rw [localSids, applyWrites_eq_lastWrite, hwrites, hlast]
  cases lastWrite sid (kernelSidWrites ms) <;> simp

/-- Every deletion removes a SID that an earlier message of the sequence added. -/
def DeletesAdded (ms : List EndDx4Message) : Prop :=
  ∀ k m, ms[k]? = some m → m.isNew = false → ∃ a ∈ ms.take k, a.sid = m.sid ∧ a.isNew = true

/-- It is enough that some message named the SID before: the first one that did is no deletion. -/
theorem deletesAdded_iff (ms : List EndDx4Message) :
    DeletesAdded ms ↔
      ∀ k m, ms[k]? = some m → m.isNew = false → ∃ a ∈ ms.take k, a.sid = m.sid := by
  constructor
  · intro h k m hm hdel
    obtain ⟨a, ha, hsid, -⟩ := h k m hm hdel
    exact ⟨a, ha, hsid⟩
  · intro h k
    induction k using Nat.strongRecOn with
    | _ k ih =>
      intro m hm hdel
      obtain ⟨a, ha, hsid⟩ := h k m hm hdel
      cases hnew : a.isNew with
      | true => exact ⟨a, ha, hsid, hnew⟩
      | false =>
        obtain ⟨j, hja⟩ := List.mem_iff_getElem?.mp ha
        rw [List.getElem?_take, Option.ite_none_right_eq_some] at hja
        obtain ⟨hj, hja⟩ := hja
        obtain ⟨a', ha', hsid', hnew'⟩ := ih j hj a hja hnew
        exact ⟨a', List.take_subset_take_left ms hj.le ha', hsid'.trans hsid, hnew'⟩

/-- From an empty VPP, the SIDs installed at the end are those whose last message was an addition and
no deletion installs a SID, exactly if no SID's last message is a deletion and every deletion removes
a SID that was added before it. -/
theorem srv6_replay_iff (env : Env) (hconn : Connects env) (d : Daemon)
    (ms : List EndDx4Message) :
    ∃ installed : ℕ → In6Addr → Bool, (∀ k, SidsAfter env d (ms.take k) (installed k)) ∧
      (((∀ sid, installed ms.length sid = true ↔
            lastWrite sid (kernelSidWrites ms) = some true) ∧
          ∀ k m, ms[k]? = some m → m.isNew = false →
            ∀ sid, installed (k + 1) sid = true → installed k sid = true) ↔
        (∀ sid, lastWrite sid (kernelSidWrites ms) ≠ some false) ∧ DeletesAdded ms) := by
  choose installed hafter hnamed using fun k => exists_sidsAfter hconn d (ms.take k)
  refine ⟨installed, hafter, and_congr (forall_congr' fun sid => ?_) ?_⟩
  · rw [hnamed, List.take_length]
    cases lastWrite sid (kernelSidWrites ms) with
    | none => simp
    | some isNew => cases isNew <;> simp
  · have hmem : ∀ k sid, installed k sid = true ↔ ∃ a ∈ ms.take k, a.sid = sid := by
      intro k sid
      rw [hnamed, Ne, lastWrite_eq_none_iff, not_not, kernelSidWrites, List.map_map, List.mem_map]
      rfl
    rw [deletesAdded_iff]
    refine forall_congr' fun k => forall_congr' fun m => forall_congr' fun hm =>
      imp_congr_right fun _ => ?_
    simp only [hmem, List.take_add_one, hm, Option.toList_some, List.mem_append,
      List.mem_singleton]
    constructor
    · intro h
      exact h m.sid ⟨m, .inr rfl, rfl⟩
    · rintro hbefore sid ⟨a, ha | rfl, hsid⟩
      · exact ⟨a, ha, hsid⟩
      · exact hsid ▸ hbefore

/-- The first pair of the table that has the kernel index. -/
def FirstPair (interfaces : List RouterdInterface) (k : UInt32) (i : RouterdInterface) : Prop :=
  ∃ before after, interfaces = before ++ i :: after ∧ i.kernIfindex = k ∧
    ∀ j ∈ before, j.kernIfindex ≠ k

/-- The table does not tell two kernel indexes apart: it has the same VPP index for both, or no pair
for one of them and no pair, or one with the VPP index 0, for the other. -/
inductive Indistinct (interfaces : List RouterdInterface) (k n : UInt32) : Prop where
  | same (h : n = k)
  | alike {i j : RouterdInterface} (hk : FirstPair interfaces k i) (hn : FirstPair interfaces n j)
      (h : i.vppIfindex = j.vppIfindex)
  | unpaired (hk : ¬ Paired interfaces k) (hn : ¬ Paired interfaces n)
  | zero {i : RouterdInterface} (hk : FirstPair interfaces k i) (h : i.vppIfindex = 0)
      (hn : ¬ Paired interfaces n)
  | zero' {j : RouterdInterface} (hk : ¬ Paired interfaces k) (hn : FirstPair interfaces n j)
      (h : j.vppIfindex = 0)

theorem FirstPair.ifindexKernel2vpp_eq {interfaces : List RouterdInterface} {k : UInt32}
    {i : RouterdInterface} (h : FirstPair interfaces k i) :
    ifindexKernel2vpp interfaces k = i.vppIfindex := by
  obtain ⟨before, after, rfl, rfl, hbefore⟩ := h
  induction before with
  | nil => simp [ifindexKernel2vpp]
  | cons j before ih =>
    obtain ⟨hj, hrest⟩ := List.forall_mem_cons.mp hbefore
    rw [List.cons_append, ifindexKernel2vpp, if_neg (Ne.symm hj), ih hrest]

theorem exists_firstPair {interfaces : List RouterdInterface} {k : UInt32}
    (h : Paired interfaces k) : ∃ i, FirstPair interfaces k i := by
  induction interfaces with
  | nil =>
    obtain ⟨i, hi, -⟩ := h
    cases hi
  | cons i rest ih =>
    by_cases hi : i.kernIfindex = k
    · exact ⟨i, [], rest, rfl, hi, by simp⟩
    · obtain ⟨j, hj, hjk⟩ := h
      have hrest : j ∈ rest := (List.mem_cons.mp hj).resolve_left fun heq => hi (heq ▸ hjk)
      obtain ⟨i', before, after, rfl, hk, hbefore⟩ := ih ⟨j, hrest, hjk⟩
      exact ⟨i', i :: before, after, rfl, hk, List.forall_mem_cons.mpr ⟨hi, hbefore⟩⟩

theorem indistinct_iff (interfaces : List RouterdInterface) (k n : UInt32) :
    Indistinct interfaces k n ↔
      ifindexKernel2vpp interfaces n = ifindexKernel2vpp interfaces k := by
  constructor
  · rintro (rfl | ⟨hk, hn, h⟩ | ⟨hk, hn⟩ | ⟨hk, h, hn⟩ | ⟨hk, hn, h⟩)
    · rfl
    · rw [hk.ifindexKernel2vpp_eq, hn.ifindexKernel2vpp_eq, h]
    · rw [ifindexKernel2vpp_of_not_paired hk, ifindexKernel2vpp_of_not_paired hn]
    · rw [hk.ifindexKernel2vpp_eq, ifindexKernel2vpp_of_not_paired hn, h]
    · rw [ifindexKernel2vpp_of_not_paired hk, hn.ifindexKernel2vpp_eq, h]
  · intro h
    by_cases hk : Paired interfaces k <;> by_cases hn : Paired interfaces n
    · obtain ⟨i, hi⟩ := exists_firstPair hk
      obtain ⟨j, hj⟩ := exists_firstPair hn
      exact .alike hi hj (by rw [← hi.ifindexKernel2vpp_eq, ← hj.ifindexKernel2vpp_eq, h])
    · obtain ⟨i, hi⟩ := exists_firstPair hk
      refine .zero hi ?_ hn
      rw [← hi.ifindexKernel2vpp_eq, ← h, ifindexKernel2vpp_of_not_paired hn]
    · obtain ⟨j, hj⟩ := exists_firstPair hn
      refine .zero' hk hj ?_
      rw [← hj.ifindexKernel2vpp_eq, h, ifindexKernel2vpp_of_not_paired hk]
    · exact .unpaired hk hn

/-- The index that the name of an interface begins with, as an `int` holds it: 0 for a name without
a number in front and for an interface without a name. -/
inductive NameIndex (names : IfNames) (k : UInt32) : UInt32 → Prop where
  | named {s : Text} {z : ℤ} (hname : names.name k = some s) (hs : BeginsWith s z) :
      NameIndex names k (UInt32.ofInt (max (min z (2 ^ 63 - 1)) (-2 ^ 63)))
  | nameless (hname : names.name k = none) : NameIndex names k 0

theorem nameIndex_iff (names : IfNames) (k n : UInt32) :
    NameIndex names k n ↔ atoi (ifindex2str names k) = n := by
  constructor
  · rintro (⟨hname, hs⟩ | hname)
    · rw [atoi, ifindex2str, hname, Option.getD_some, hs.strtol_eq]
    · rw [ifindex2str, hname, Option.getD_none]
      decide
  · rintro rfl
    cases hname : names.name k with
    | none =>
      have hzero : atoi (ifindex2str names k) = 0 := by
        rw [ifindex2str, hname, Option.getD_none]
        decide
      exact hzero ▸ .nameless hname
    | some s =>
      obtain ⟨z, hz⟩ := exists_beginsWith s
      rw [atoi, ifindex2str, hname, Option.getD_some, hz.strtol_eq]
      exact .named hname hz

/-- The request names the interface of the route exactly if the pair table does not tell its index
apart from the number its name begins with. -/
theorem srv6_swIfIndex_iff (env : Env) (d : Daemon) (m : EndDx4Message)
    (hconn : env.connects d.trace.length = true) :
    ∃ d' req, monitor env d m.mem = .ok d' ∧
      d'.requests = d.requests ++ [.localsidAddDel req] ∧
      (req.swIfIndex = swap32 (ifindexKernel2vpp d.interfaces m.oif) ↔
        ∃ n, NameIndex env.names m.oif n ∧ Indistinct d.interfaces m.oif n) := by
  obtain ⟨d', c, k, hrun, hemits⟩ := m.emits env d
  have hreq := hemits.requests
  rw [delivered, if_pos hconn] at hreq
  refine ⟨d', _, hrun, hreq, ?_⟩
  simp only [nameIndex_iff, indistinct_iff, exists_eq_left']
  exact ⟨swap32_inj, congrArg swap32⟩

def exampleSid : In6Addr := ![0x20, 0x01, 0x0d, 0xb8, 0, 0, 0, 0, 0, 0, 0, 0, 0, 0, 0, 1]

/-- A message for SID 2001:db8::1 over interface 5, End.DX4 to 10.0.0.1. -/
def endDx4Bytes (type : ℕ) : Mem :=
  nlmsgBytes type (rtmsgBytes afInet6 128 rtTableMain rtnUnicast ++
    rtattrBytes rtaDst (List.ofFn exampleSid) ++
    rtattrBytes rtaOif (bytes32 5) ++ rtattrBytes rtaEncapType (bytes16 7) ++
    rtattrBytes rtaEncap (rtattrBytes seg6LocalAction (bytes32 6) ++
      rtattrBytes seg6LocalNh4 [10, 0, 0, 1]))

def endDx4Nested : Mem :=
  rtattrBytes rtaEncap (rtattrBytes seg6LocalAction (bytes32 6) ++
    rtattrBytes seg6LocalNh4 [10, 0, 0, 1])

theorem endDx4Nested_encap {rtas : RtaArray}
    (htype : rtaRead16 (rtas.get rtaEncapType) = .ok lwtunnelEncapSeg6Local)
    (henc : rtas.get rtaEncap = .mem endDx4Nested) :
    ∃ nh4, EndDx4Encap nullTable rtas nh4 := by
  have hsub : ((parseRtattr (endDx4Nested.drop 4) (sizeSub (rtaLen endDx4Nested) 4) nullTable
      maxAttrs).toOption.map fun sub => (sub seg6LocalAction, sub seg6LocalNh4)) =
      some (.mem (endDx4Nested.drop 4), .mem (endDx4Nested.drop 12)) := by rfl
  obtain ⟨sub, hparse, hentries⟩ := ok_of_toOption_map hsub
  obtain ⟨hact, hnh⟩ := Prod.mk.inj hentries
  exact ⟨_, htype, _, sub, _, _, henc, hparse, hact, rfl, hnh, rfl⟩

theorem endDx4Bytes_message (isNew : Bool) :
    ∃ m : EndDx4Message, m.mem = endDx4Bytes (if isNew then 24 else 25) ∧ m.isNew = isNew ∧
      m.sid = exampleSid ∧ m.oif = 5 := by
  have hfields : ((ofMessage route (endDx4Bytes (if isNew then 24 else 25))).toOption.map fun r =>
      ((rtmFamily r.hdr, rtaRead32 (r.rtas.get rtaOif), rtaRead16 (r.rtas.get rtaEncapType)),
        r.rtas.get rtaEncap, r.rtas.get rtaDst)) =
      some ((afInet6, .ok 5, .ok lwtunnelEncapSeg6Local), .mem endDx4Nested,
        .mem ((nlmsgBody (endDx4Bytes 24)).drop 12)) := by
    cases isNew <;> rfl
  obtain ⟨r, hr, hread⟩ := ok_of_toOption_map hfields
  simp only [Prod.mk.injEq] at hread
  obtain ⟨⟨hfam, hoif, htype⟩, henc, hdst⟩ := hread
  obtain ⟨nh4, hencap⟩ := endDx4Nested_encap htype henc
  have hsid : exampleSid = bytes 16 (((nlmsgBody (endDx4Bytes 24)).drop 12).drop 4) := by
    decide +kernel
  refine ⟨⟨_, isNew, ?_, r, hr, exampleSid, 5, nh4, hfam, ⟨_, hdst, hsid⟩, hoif, hencap⟩,
    rfl, rfl, rfl, rfl⟩
  cases isNew <;> rfl

/-- The SID is added, removed and added again. -/
theorem srv6_replay_iff_readded :
    ∃ (ms : List EndDx4Message) (installed : ℕ → In6Addr → Bool),
      ms.map (fun m => (m.sid, m.isNew)) =
        [(exampleSid, true), (exampleSid, false), (exampleSid, true)] ∧
      (∀ k, SidsAfter (plainEnv .empty) (Daemon.start [] []) (ms.take k) (installed k)) ∧
      (∀ sid, installed ms.length sid = true ↔ lastWrite sid (kernelSidWrites ms) = some true) ∧
      ∀ k m, ms[k]? = some m → m.isNew = false →
        ∀ sid, installed (k + 1) sid = true → installed k sid = true := by
  obtain ⟨add, -, hadd, haddSid, -⟩ := endDx4Bytes_message true
  obtain ⟨del, -, hdel, hdelSid, -⟩ := endDx4Bytes_message false
  obtain ⟨installed, hafter, hiff⟩ := srv6_replay_iff (plainEnv .empty) (fun _ => rfl)
    (Daemon.start [] []) [add, del, add]
  have hend : ∀ sid, lastWrite sid (kernelSidWrites [add, del, add]) ≠ some false := by
    intro sid
    by_cases hs : exampleSid = sid <;>
      simp [kernelSidWrites, lastWrite, hadd, hdel, haddSid, hdelSid, hs]
  have hdeletes : DeletesAdded [add, del, add] := by
    rintro (_ | _ | _ | k) m hm hfalse
    · obtain rfl := Option.some.inj hm
      exact absurd (hadd.symm.trans hfalse) (by decide)
    · obtain rfl := Option.some.inj hm
      exact ⟨add, by simp, haddSid.trans hdelSid.symm, hadd⟩
    · obtain rfl := Option.some.inj hm
      exact absurd (hadd.symm.trans hfalse) (by decide)
    · cases hm
  obtain ⟨hexact, hnever⟩ := hiff.mpr ⟨hend, hdeletes⟩
  refine ⟨[add, del, add], installed, ?_, hafter, hexact, hnever⟩
  simp [hadd, hdel, haddSid, hdelSid]

/-- A deletion that reaches an empty VPP installs its SID. -/
theorem srv6_deletion_installs :
    ∃ (m : EndDx4Message) (d' : Daemon), m.isNew = false ∧
      replay (plainEnv .empty) (Daemon.start [] []) [m.mem] = .ok d' ∧
      localSids d'.requests m.sid = true ∧
      lastWrite m.sid (kernelSidWrites [m]) = some false := by
  obtain ⟨m, hmem, hnew, hsid, -⟩ := endDx4Bytes_message false
  have hinstalled : ((replay (plainEnv .empty) (Daemon.start [] []) [endDx4Bytes 25]).toOption.map
      fun d => localSids d.requests exampleSid) = some true := by decide +kernel
  obtain ⟨d', hrun, hlocal⟩ := ok_of_toOption_map hinstalled
  refine ⟨m, d', hnew, ?_, ?_, ?_⟩
  · rw [hmem]
    exact hrun
  · rw [hsid]
    exact hlocal
  · simp [kernelSidWrites, lastWrite, hnew]

def eth0Names : IfNames where
  name := fun i => if i = 5 then some ['e', 't', 'h', '0'] else none
  injective := by
    intro i j s hi hj
    simp only [Option.ite_none_right_eq_some] at hi hj
    rw [hi.1, hj.1]
  nonempty := by
    intro i
    by_cases h : i = 5 <;> simp [h]

def numberNames : IfNames where
  name := fun i => if i = 5 then some ['5', 'a'] else none
  injective := by
    intro i j s hi hj
    simp only [Option.ite_none_right_eq_some] at hi hj
    rw [hi.1, hj.1]
  nonempty := by
    intro i
    by_cases h : i = 5 <;> simp [h]

theorem srv6_swIfIndex_iff_numbered :
    ∃ (m : EndDx4Message) (d' : Daemon) (req : SrLocalsidAddDel), m.oif = 5 ∧
      monitor (plainEnv numberNames) (Daemon.start pairFiveSeven []) m.mem = .ok d' ∧
      d'.requests = [.localsidAddDel req] ∧
      req.swIfIndex = swap32 (ifindexKernel2vpp pairFiveSeven m.oif) := by
  obtain ⟨m, -, -, -, hoif⟩ := endDx4Bytes_message true
  obtain ⟨d', req, hrun, hreq, hiff⟩ := srv6_swIfIndex_iff (plainEnv numberNames)
    (Daemon.start pairFiveSeven []) m rfl
  have hdigits : DigitsOf ['5', 'a'] 5 := ⟨['5'], ['a'], rfl, by simp, by simp, rfl⟩
  have hbegins : BeginsWith ['5', 'a'] 5 :=
    ⟨[], ['5', 'a'], rfl, by simp, by simp [isSpace], .plain (by simp) hdigits⟩
  have hindex : NameIndex numberNames m.oif 5 := by
    rw [hoif]
    exact .named rfl hbegins
  exact ⟨m, d', req, hoif, hrun, hreq, hiff.mpr ⟨5, hindex, .same hoif.symm⟩⟩

/-- The SID of a route over eth0, paired with VPP interface 7, is sent with index 0. -/
theorem srv6_eth0_swIfIndex_zero :
    ∃ (m : EndDx4Message) (d' : Daemon) (req : SrLocalsidAddDel), m.isNew = true ∧
      monitor (plainEnv eth0Names) (Daemon.start pairFiveSeven []) m.mem = .ok d' ∧
      d'.requests = [.localsidAddDel req] ∧ req.swIfIndex = swap32 0 ∧
      ifindexKernel2vpp pairFiveSeven m.oif = 7 ∧
      req.swIfIndex ≠ swap32 (ifindexKernel2vpp pairFiveSeven m.oif) := by
  obtain ⟨m, hmem, hnew, -, hoif⟩ := endDx4Bytes_message true
  have hsent : ((monitor (plainEnv eth0Names) (Daemon.start pairFiveSeven [])
      (endDx4Bytes 24)).toOption.map fun d => d.requests.map fun
        | .localsidAddDel req => some req.swIfIndex
        | _ => none) = some [some (swap32 0)] := by decide +kernel
  obtain ⟨d', hrun, hreqs⟩ := ok_of_toOption_map hsent
  obtain ⟨q, hq, hq0⟩ := List.map_eq_singleton_iff.mp hreqs
  cases q with
  | localsidAddDel req =>
    have hzero : req.swIfIndex = swap32 0 := Option.some.inj hq0
    have hseven : ifindexKernel2vpp pairFiveSeven m.oif = 7 := by
      rw [hoif]
      rfl
    refine ⟨m, d', req, hnew, by rw [hmem]; exact hrun, hq, hzero, hseven, ?_⟩
    rw [hzero, hseven]
    decide
  | setFlags _ => cases hq0
  | addDelAddress _ => cases hq0
  | routeAddDel _ => cases hq0

end Routerd
