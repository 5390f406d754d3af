import Routerd.DaemonRuns
import Routerd.OverwriteStore

/-!
# The link cache and its synchronisation into VPP

An update overwrites every entry of its interface and appends one more, so the
cache holds as many entries for an interface as it received messages, all of them
equal to the newest. The synchronisation therefore repeats the newest state of a
paired interface once for each entry.
-/

namespace Routerd
open ByteMemory NumeralText InetText KeyedUpdates OverwriteStore

/-- The `IFF_UP` bit of a link message. -/
def adminUp (ifi : Mem) : Bool := decide (ifiFlags ifi &&& iffUp ≠ 0)

/-- The administrative state a request sets, by VPP interface. -/
def flagWrites : Request → List (UInt32 × Bool)
  | .setFlags r => [(swap32 r.swIfIndex, r.adminUpDown)]
  | _ => []

def linkCallWrites : SetCall → List (UInt32 × Bool)
  | .setLink v up => [(v, up)]
  | _ => []

/-- What the synchronisation asks of VPP for one cache entry. -/
def syncWrites (table : List RouterdInterface) (ifi : Mem) : List (UInt32 × Bool) :=
  if ifindexKernel2vpp table (ifiIndex ifi) = 0 then []
  else [(ifindexKernel2vpp table (ifiIndex ifi), adminUp ifi)]

/-- One call, its requests and the writes both stand for. -/
structure LinkStep (env : Env) (writes : List (UInt32 × Bool)) (cs : List SetCall)
    (rs : List Request) : Prop where
  calls : cs.flatMap linkCallWrites = writes
  sent : (rs.flatMap flagWrites).Sublist (cs.flatMap linkCallWrites)
  flagsOnly : ∀ r ∈ rs, ∃ req, r = .setFlags req
  connected : Connects env → rs.flatMap flagWrites = writes

theorem LinkStep.nil (env : Env) : LinkStep env [] [] [] :=
  ⟨rfl, List.Sublist.refl _, by simp, fun _ => rfl⟩

theorem setLink_linkStep (env : Env) (d : Daemon) (v : UInt32) (up : Bool) :
    ∃ d' cs rs, setLink env d v up = .ok d' ∧ Emits d d' cs rs ∧ LinkStep env [(v, up)] cs rs := by
  obtain ⟨d', c, m, hrun, hemits⟩ := setLink_emits env d v up
  refine ⟨d', _, _, hrun, hemits, rfl, ?_, ?_, ?_⟩
  · rw [delivered]
    split <;> simp [flagWrites, linkCallWrites, setInterfaceFlag]
  · rw [delivered]
    split <;> simp [setInterfaceFlag]
  · intro hconn
    rw [delivered_of_connects hconn]
    simp [flagWrites, setInterfaceFlag]

theorem syncLink_linkStep (env : Env) {d : Daemon} {table : List RouterdInterface}
    (hd : d.interfaces = table) (ifi : Mem) :
    ∃ d' cs rs, syncLink env d ifi = .ok d' ∧ Emits d d' cs rs ∧
      LinkStep env (syncWrites table ifi) cs rs := by
  subst hd
  by_cases hv : ifindexKernel2vpp d.interfaces (ifiIndex ifi) = 0
  · refine ⟨d, [], [], by simp [syncLink, hv], Emits.refl d, ?_⟩
    rw [syncWrites, if_pos hv]
    exact LinkStep.nil env
  · obtain ⟨d', cs, rs, hrun, hemits, hstep⟩ := setLink_linkStep env d
      (ifindexKernel2vpp d.interfaces (ifiIndex ifi)) (adminUp ifi)
    refine ⟨d', cs, rs, ?_, hemits, ?_⟩
    · simp only [syncLink, if_neg hv]
      exact hrun
    · rw [syncWrites, if_neg hv]
      exact hstep

theorem foldlM_linkStep {α : Type} (env : Env) {step : Daemon → α → Except Fault Daemon}
    {as : List α} {writes : α → List (UInt32 × Bool)} {table : List RouterdInterface}
    (hstep : ∀ a ∈ as, ∀ d : Daemon, d.interfaces = table → ∃ d' cs rs, step d a = .ok d' ∧
      Emits d d' cs rs ∧ LinkStep env (writes a) cs rs)
    {d : Daemon} (hd : d.interfaces = table) :
    ∃ d' cs rs, as.foldlM step d = .ok d' ∧ Emits d d' cs rs ∧
      LinkStep env (as.flatMap writes) cs rs := by
  obtain ⟨d', cs, rs, hrun, hemits, houts⟩ := foldlM_emits hstep hd
  refine ⟨d', cs, rs, hrun, hemits, ?_⟩
  exact {
    calls := houts.calls_flatMap fun _ _ _ h => h.calls
    sent := houts.sublist fun _ _ _ h => h.sent
    flagsOnly := houts.forall_requests fun _ _ _ h => h.flagsOnly
    connected := fun hconn => houts.requests_flatMap fun _ _ _ h => h.connected hconn }

theorem vppSyncWithNlc_linkStep (env : Env) (d : Daemon) :
    ∃ d' cs rs, vppSyncWithNlc env d = .ok d' ∧ Emits d d' cs rs ∧
      LinkStep env (d.links.flatMap (syncWrites d.interfaces)) cs rs :=
  foldlM_linkStep env (fun ifi _ _ hd => syncLink_linkStep env hd ifi) rfl

/-- A link message as it reaches the cache, long enough for its fixed header. -/
structure CacheMessage where
  mem : Mem
  type : nlmsgType mem = .newlink ∨ nlmsgType mem = .dellink
  long : 40 ≤ nlmsgLen mem

def CacheMessage.index (m : CacheMessage) : UInt32 := ifiIndex (nlmsgBody m.mem)

def CacheMessage.stored (m : CacheMessage) : Mem := (nlmsgBody m.mem).take (ifaPayload m.mem)

def cacheAfter (ms : List CacheMessage) : List Mem :=
  ms.foldl (fun links m => (cacheCallback links m.mem).2) []

def storedWrites (ms : List CacheMessage) : List (UInt32 × Mem) :=
  ms.map fun m => (m.index, m.stored)

theorem CacheMessage.sixteen_le_payload (m : CacheMessage) : 16 ≤ ifaPayload m.mem := by
  have h := m.long
  rw [ifaPayload, sizeSub_of_le (by omega)]
  omega

@[simp] theorem CacheMessage.ifiIndex_stored (m : CacheMessage) : ifiIndex m.stored = m.index := by
  have h := m.sixteen_le_payload
  exact le32_take _ (by omega)

@[simp] theorem CacheMessage.adminUp_stored (m : CacheMessage) :
    adminUp m.stored = adminUp (nlmsgBody m.mem) := by
  have h := m.sixteen_le_payload
  have hflags : ifiFlags m.stored = ifiFlags (nlmsgBody m.mem) := le32_take _ (by omega)
  rw [adminUp, adminUp, hflags]

theorem cacheCallback_message (links : List Mem) (m : CacheMessage) :
    (cacheCallback links m.mem).2 = put ifiIndex links m.stored := by
  rw [put, m.ifiIndex_stored]
  rcases m.type with h | h
  · rw [cacheCallback, h]
    rfl
  · rw [cacheCallback, h]
    rfl

theorem cacheAfter_eq_store (ms : List CacheMessage) :
    cacheAfter ms = store ifiIndex (ms.map CacheMessage.stored) := by
  rw [cacheAfter]
  apply foldl_eq_store
  exact cacheCallback_message

/-- Every entry is the newest message of its interface, and no interface is missing. -/
structure CacheInvariant (ms : List CacheMessage) (links : List Mem) : Prop where
  newest : ∀ e ∈ links, lastWrite (ifiIndex e) (storedWrites ms) = some e
  seen : ∀ m ∈ ms, ∃ e ∈ links, ifiIndex e = m.index

theorem cacheInvariant_cacheAfter (ms : List CacheMessage) :
    CacheInvariant ms (cacheAfter ms) := by
  have hwrites : (ms.map CacheMessage.stored).map (fun e => (ifiIndex e, e)) = storedWrites ms := by
    rw [storedWrites, List.map_map]
    apply List.map_congr_left
    intro m _
    simp
  rw [cacheAfter_eq_store]
  constructor
  · intro e he
    have hnewest := newest_of_mem_store ifiIndex he
    rwa [newest, hwrites] at hnewest
  · intro m hm
    have hkey : m.index ∈ (store ifiIndex (ms.map CacheMessage.stored)).map ifiIndex := by
      rw [map_key_store, ← m.ifiIndex_stored]
      exact List.mem_map_of_mem (List.mem_map_of_mem hm)
    exact List.mem_map.mp hkey

def lastAdminUp (ms : List CacheMessage) (k : UInt32) : Option Bool :=
  lastWrite k (ms.map fun m => (m.index, adminUp (nlmsgBody m.mem)))

theorem lastAdminUp_eq (ms : List CacheMessage) (k : UInt32) :
    lastAdminUp ms k = (lastWrite k (storedWrites ms)).map adminUp := by
  rw [← lastWrite_map_value, storedWrites, List.map_map, lastAdminUp]
  apply congrArg (lastWrite k)
  apply List.map_congr_left
  intro m _
  simp

/-- The states set for VPP interfaces are those of the last messages of the paired
interfaces, each at least once and for no other interface. -/
structure SyncedFlags (table : List RouterdInterface) (ms : List CacheMessage)
    (writes : List (UInt32 × Bool)) : Prop where
  last : ∀ k up, Paired table k → (ifindexKernel2vpp table k, up) ∈ writes →
    lastAdminUp ms k = some up
  each : ∀ m ∈ ms, Paired table m.index → ∃ up, (ifindexKernel2vpp table m.index, up) ∈ writes
  paired : ∀ v up, (v, up) ∈ writes →
    ∃ m ∈ ms, Paired table m.index ∧ v = ifindexKernel2vpp table m.index

private theorem mem_syncWrites {table : List RouterdInterface} {links : List Mem} {v : UInt32}
    {up : Bool} :
    (v, up) ∈ links.flatMap (syncWrites table) ↔ ∃ e ∈ links,
      ifindexKernel2vpp table (ifiIndex e) ≠ 0 ∧ v = ifindexKernel2vpp table (ifiIndex e) ∧
        up = adminUp e := by
  rw [List.mem_flatMap]
  apply exists_congr
  intro e
  apply and_congr_right
  intro _
  by_cases hv : ifindexKernel2vpp table (ifiIndex e) = 0 <;> simp [syncWrites, hv]

theorem syncedFlags_syncWrites {table : List RouterdInterface} (htable : InjectivePairs table)
    {ms : List CacheMessage} {links : List Mem} (h : CacheInvariant ms links) :
    SyncedFlags table ms (links.flatMap (syncWrites table)) := by
  constructor
  · intro k up hk hmem
    obtain ⟨e, he, -, hv, rfl⟩ := mem_syncWrites.mp hmem
    obtain rfl := htable.eq_of_eq hk hv
    rw [lastAdminUp_eq, h.newest e he]
    rfl
  · intro m hm hpaired
    obtain ⟨e, he, hidx⟩ := h.seen m hm
    refine ⟨adminUp e, mem_syncWrites.mpr ⟨e, he, ?_, ?_, rfl⟩⟩
    · rw [hidx]
      exact htable.ne_zero hpaired
    · rw [hidx]
  · intro v up hmem
    obtain ⟨e, he, hne, rfl, -⟩ := mem_syncWrites.mp hmem
    have hlast := mem_of_lastWrite (h.newest e he)
    obtain ⟨m, hm, heq⟩ := List.mem_map.mp hlast
    have hidx : m.index = ifiIndex e := congrArg Prod.fst heq
    refine ⟨m, hm, ?_, by rw [hidx]⟩
    rw [hidx]
    exact (htable.ne_zero_iff _).mp hne

/-- After any sequence of link messages the synchronisation sets, through the calls
it makes and the requests it sends, the newest state of every paired interface seen. -/
theorem vppSync_after_cache (env : Env) (d : Daemon) (table : List RouterdInterface)
    (htable : InjectivePairs table) (ms : List CacheMessage) :
    ∃ d' cs rs,
      vppSyncWithNlc env { d with interfaces := table, links := cacheAfter ms } = .ok d' ∧
      d'.calls = d.calls ++ cs ∧ d'.requests = d.requests ++ rs ∧
      (∀ r ∈ rs, ∃ req, r = .setFlags req) ∧
      (rs.flatMap flagWrites).Sublist (cs.flatMap linkCallWrites) ∧
      SyncedFlags table ms (cs.flatMap linkCallWrites) ∧
      (Connects env → SyncedFlags table ms (rs.flatMap flagWrites)) := by
  obtain ⟨d', cs, rs, hrun, hemits, hstep⟩ := vppSyncWithNlc_linkStep env
    { d with interfaces := table, links := cacheAfter ms }
  have hsynced := syncedFlags_syncWrites htable (cacheInvariant_cacheAfter ms)
  refine ⟨d', cs, rs, hrun, hemits.calls, hemits.requests, hstep.flagsOnly, hstep.sent, ?_, ?_⟩
  · rw [hstep.calls]
    exact hsynced
  · intro hconn
    rw [hstep.connected hconn]
    exact hsynced

def linkFive (up : Bool) : CacheMessage where
  mem := nlmsgBytes 16
    (ifinfomsgBytes 5 (if up then 1 else 0) 0 ++ rtattrBytes 4 (bytes32 1500))
  type := Or.inl rfl
  long := by cases up <;> decide

theorem vppSync_after_cache_linkFive :
    InjectivePairs pairFiveSeven ∧ ∃ d' cs rs,
      vppSyncWithNlc (plainEnv .empty)
        (Daemon.start pairFiveSeven (cacheAfter [linkFive true, linkFive false])) = .ok d' ∧
      d'.calls = cs ∧ d'.requests = rs ∧
      SyncedFlags pairFiveSeven [linkFive true, linkFive false] (cs.flatMap linkCallWrites) ∧
      SyncedFlags pairFiveSeven [linkFive true, linkFive false] (rs.flatMap flagWrites) := by
  obtain ⟨d', cs, rs, hrun, hcalls, hreq, -, -, hsynced, hsent⟩ := vppSync_after_cache
    (plainEnv .empty) (Daemon.start [] []) pairFiveSeven pairFiveSeven_injective
    [linkFive true, linkFive false]
  exact ⟨pairFiveSeven_injective, d', cs, rs, hrun, hcalls, hreq, hsynced, hsent fun _ => rfl⟩

end Routerd
