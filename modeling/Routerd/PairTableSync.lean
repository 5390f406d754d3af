import Routerd.TapInvariant
import Routerd.VppSession

/-!
# The pair table of the daemon after a history of syncs

A sync dumps the plugin's table by device index and appends every entry to the
daemon's pair table, whose lookup takes the first match. What the daemon resolves
for an index is thus the entry of the first sync that had one, and the last sync
agrees with it only as far as the plugin's table has not moved on since.
-/

namespace Routerd
open ByteMemory NumeralText

structure TapInjectDetails where
  swIfIndex : UInt32
  kernelIfIndex : UInt32
  context : UInt32

inductive SyncReply where
  | tapInjectDetails (mp : TapInjectDetails)
  | controlPingReply

abbrev TapEntry := Sigma fun _ : UInt32 => UInt32

/-- The order in which `hash_foreach` visits the entries of a table. -/
structure DumpOrder where
  order : List TapEntry → List TapEntry
  perm : ∀ entries, (order entries).Perm entries

/-- The fields are in network order. -/
def sendTapInjectDetails (context vppIndex kernIndex : UInt32) : TapInjectDetails :=
  ⟨swap32 vppIndex, swap32 kernIndex, context⟩

def tapInjectDumpHandler (order : DumpOrder) (t : TapTables) (context : UInt32) :
    List TapInjectDetails :=
  (order.order t.tapIfIndexToSwIfIndex.entries).map fun e =>
    sendTapInjectDetails context e.2 e.1

def addInterface (interfaces : List RouterdInterface) (k : UInt32) (kName : Text) (v : UInt32)
    (vName : Text) : List RouterdInterface :=
  interfaces ++ [⟨k, v, kName, vName⟩]

/-- The loop over the replies: left at the answer to the ping or when none comes. -/
def readReplies (os : Os) (interfaces : List RouterdInterface) :
    List SyncReply → Except Fault (List RouterdInterface)
  | [] => .ok interfaces
  | .controlPingReply :: _ => .ok interfaces
  | .tapInjectDetails mp :: rest =>
    match os.ifIndextoname (swap32 mp.kernelIfIndex) with
    | none => .error .assertion
    | some kernName =>
      readReplies os (addInterface interfaces (swap32 mp.kernelIfIndex) kernName
        (swap32 mp.swIfIndex) "vpp".toList) rest

/-- `enable cplane-netdev sync` with every message delivered. -/
def enableCplaneNetdevSync (order : DumpOrder) (v : CplaneNetdev)
    (interfaces : List RouterdInterface) : Except Fault (List RouterdInterface) :=
  readReplies v.os interfaces
    ((tapInjectDumpHandler order v.tables 2).map .tapInjectDetails ++ [.controlPingReply])

structure SyncState where
  plugin : CplaneNetdev
  interfaces : List RouterdInterface

inductive SyncEvent where
  | command (s : TapStep)
  | sync (order : DumpOrder)

def syncStep (p : SyncState) : SyncEvent → Except Fault SyncState
  | .command s => .ok { p with plugin := tapStep p.plugin s }
  | .sync order => do
    let interfaces ← enableCplaneNetdevSync order p.plugin p.interfaces
    return { p with interfaces := interfaces }

def syncRun (p : SyncState) (events : List SyncEvent) : Except Fault SyncState :=
  events.foldlM syncStep p

/-- The pair the lookup finds. -/
def pairOf (interfaces : List RouterdInterface) (k : UInt32) : Option UInt32 :=
  (interfaces.find? fun i => i.kernIfindex = k).map RouterdInterface.vppIfindex

theorem ifindexKernel2vpp_eq_pairOf (interfaces : List RouterdInterface) (k : UInt32) :
    ifindexKernel2vpp interfaces k = (pairOf interfaces k).getD 0 := by
  induction interfaces with
  | nil => rfl
  | cons i rest ih =>
    rw [ifindexKernel2vpp, pairOf, List.find?_cons]
    by_cases hk : k = i.kernIfindex
    · simp [hk]
    · rw [if_neg hk, ih]
      simp [Ne.symm hk, pairOf]

theorem pairOf_addInterface (interfaces : List RouterdInterface) (k v j : UInt32)
    (kName vName : Text) :
    pairOf (addInterface interfaces k kName v vName) j =
      (pairOf interfaces j).or (if k = j then some v else none) := by
  rw [addInterface, pairOf, List.find?_append, Option.map_or, ← pairOf]
  by_cases hk : k = j
  · simp [hk]
  · simp [hk]

/-- Reading a dump appends its entries, of which the lookup sees those of indices it
had no pair for. -/
theorem readReplies_details {os : Os} {entries : List TapEntry} (context : UInt32)
    (hnamed : ∀ e ∈ entries, os.ifIndextoname e.1 ≠ none) (interfaces : List RouterdInterface) :
    ∃ interfaces', readReplies os interfaces
        ((entries.map fun e => sendTapInjectDetails context e.2 e.1).map .tapInjectDetails ++
          [.controlPingReply]) = .ok interfaces' ∧
      ∀ k, pairOf interfaces' k = (pairOf interfaces k).or (entries.dlookup k) := by
  induction entries generalizing interfaces with
  | nil => exact ⟨interfaces, rfl, fun k => by simp⟩
  | cons e rest ih =>
    obtain ⟨name, hname⟩ := Option.ne_none_iff_exists'.mp (hnamed e List.mem_cons_self)
    obtain ⟨interfaces', hread, hpairs⟩ := ih (fun e he => hnamed e (List.mem_cons_of_mem _ he))
      (addInterface interfaces e.1 name e.2 "vpp".toList)
    refine ⟨interfaces', ?_, fun k => ?_⟩
    · simp only [List.map_cons, List.cons_append, readReplies, sendTapInjectDetails,
        swap32_swap32, hname]
      exact hread
    · rw [hpairs, pairOf_addInterface, Option.or_assoc]
      by_cases hk : e.1 = k
      · obtain ⟨k', v⟩ := e
        subst hk
        simp
      · rw [if_neg hk, Option.none_or, List.dlookup_cons_ne _ _ (Ne.symm hk)]

theorem TapInvariant.named {v : CplaneNetdev} (h : TapInvariant v.tables.maps v.os)
    {e : TapEntry} (he : e ∈ v.tables.tapIfIndexToSwIfIndex.entries) :
    v.os.ifIndextoname e.1 ≠ none := by
  have hheld : v.tables.maps.swOfIfIndex e.1 = some e.2 :=
    AList.mem_lookup_iff.mpr he
  obtain ⟨d, hd, hk⟩ := h.live e.1 e.2 hheld
  rw [Os.ifIndextoname, ne_eq, Option.map_eq_none_iff, List.find?_eq_none]
  intro hnone
  exact hnone d hd (decide_eq_true hk)

theorem enableCplaneNetdevSync_pairs {v : CplaneNetdev} (h : TapInvariant v.tables.maps v.os)
    (order : DumpOrder) (interfaces : List RouterdInterface) :
    ∃ interfaces', enableCplaneNetdevSync order v interfaces = .ok interfaces' ∧
      ∀ k, pairOf interfaces' k =
        (pairOf interfaces k).or (v.tables.tapIfIndexToSwIfIndex.lookup k) := by
  have hperm := order.perm v.tables.tapIfIndexToSwIfIndex.entries
  obtain ⟨interfaces', hread, hpairs⟩ := readReplies_details 2
    (fun e he => h.named (hperm.mem_iff.mp he)) interfaces
  refine ⟨interfaces', hread, fun k => ?_⟩
  rw [hpairs, ← List.perm_dlookup k v.tables.tapIfIndexToSwIfIndex.nodupKeys hperm.symm]
  rfl

def dumpedTables (v : CplaneNetdev) : List SyncEvent → List (AList fun _ : UInt32 => UInt32)
  | [] => []
  | .command s :: rest => dumpedTables (tapStep v s) rest
  | .sync _ :: rest => v.tables.tapIfIndexToSwIfIndex :: dumpedTables v rest

/-- The entry of `k` in the first of the tables that has one. -/
def firstEntry (tables : List (AList fun _ : UInt32 => UInt32)) (k : UInt32) : Option UInt32 :=
  tables.findSome? fun t => t.lookup k

theorem firstEntry_cons (t : AList fun _ : UInt32 => UInt32)
    (ts : List (AList fun _ : UInt32 => UInt32)) (k : UInt32) :
    firstEntry (t :: ts) k = (t.lookup k).or (firstEntry ts k) := by
  rw [firstEntry, List.findSome?_cons]
  cases t.lookup k <;> rfl

def pluginAfter (v : CplaneNetdev) (events : List SyncEvent) : CplaneNetdev :=
  events.foldl (fun v e => match e with | .command s => tapStep v s | .sync _ => v) v

theorem syncRun_pairs (events : List SyncEvent) {p : SyncState}
    (h : TapInvariant p.plugin.tables.maps p.plugin.os) :
    ∃ p', syncRun p events = .ok p' ∧ p'.plugin = pluginAfter p.plugin events ∧
      ∀ k, pairOf p'.interfaces k =
        (pairOf p.interfaces k).or (firstEntry (dumpedTables p.plugin events) k) := by
  induction events generalizing p with
  | nil => exact ⟨p, rfl, rfl, fun k => by simp [dumpedTables, firstEntry]⟩
  | cons e rest ih =>
    cases e with
    | command s =>
      obtain ⟨p', hrun, hplugin, hpairs⟩ := ih (p := { p with plugin := tapStep p.plugin s })
        (tapStable_tapInvariant.step s h)
      exact ⟨p', hrun, hplugin, hpairs⟩
    | sync order =>
      obtain ⟨interfaces, hsync, hentries⟩ := enableCplaneNetdevSync_pairs h order p.interfaces
      obtain ⟨p', hrun, hplugin, hpairs⟩ := ih (p := { p with interfaces := interfaces }) h
      refine ⟨p', ?_, hplugin, fun k => ?_⟩
      · rw [syncRun, List.foldlM_cons, syncStep, hsync]
        exact hrun
      · rw [hpairs, hentries, Option.or_assoc, dumpedTables, firstEntry_cons]

/-- A history that ends with a sync has dumped the table the plugin then has. -/
theorem firstEntry_ne_none (v : CplaneNetdev) (events : List SyncEvent) (order : DumpOrder)
    {k : UInt32} (hk : (pluginAfter v (events ++ [.sync order])).tables.tapIfIndexToSwIfIndex.lookup
      k ≠ none) : firstEntry (dumpedTables v (events ++ [.sync order])) k ≠ none := by
  induction events generalizing v with
  | nil => simpa [dumpedTables, firstEntry, pluginAfter] using hk
  | cons e rest ih =>
    cases e with
    | command s => exact ih (tapStep v s) hk
    | sync o =>
      rw [List.cons_append, dumpedTables, firstEntry_cons]
      cases v.tables.tapIfIndexToSwIfIndex.lookup k with
      | none => exact ih v hk
      | some s => exact nofun

/-- After a history that ends with a sync, the daemon resolves every index as the plugin
does exactly if the entry that the first sync with one had for an index is the one the
plugin has now, 0 standing for none. -/
theorem pairTable_agrees_iff (nodes : GraphNodes) (dispatch : Dispatch)
    (events : List SyncEvent) (order : DumpOrder) :
    ∃ p, syncRun ⟨CplaneNetdev.init nodes dispatch, []⟩ (events ++ [.sync order]) = .ok p ∧
      ((∀ k, ifindexKernel2vpp p.interfaces k =
          (p.plugin.tables.tapIfIndexToSwIfIndex.lookup k).getD 0) ↔
        ∀ k s, firstEntry (dumpedTables (CplaneNetdev.init nodes dispatch)
            (events ++ [.sync order])) k = some s →
          (p.plugin.tables.tapIfIndexToSwIfIndex.lookup k).getD 0 = s) := by
  obtain ⟨p, hrun, hplugin, hpairs⟩ := syncRun_pairs (events ++ [.sync order])
    (p := ⟨CplaneNetdev.init nodes dispatch, []⟩) (tapInvariant_init nodes dispatch)
  refine ⟨p, hrun, forall_congr' fun k => ?_⟩
  have hresolved : ifindexKernel2vpp p.interfaces k = (firstEntry (dumpedTables
      (CplaneNetdev.init nodes dispatch) (events ++ [.sync order])) k).getD 0 := by
    rw [ifindexKernel2vpp_eq_pairOf, hpairs]
    rfl
  rw [hresolved]
  cases hfirst : firstEntry (dumpedTables (CplaneNetdev.init nodes dispatch)
      (events ++ [.sync order])) k with
  | none =>
    have hnow : p.plugin.tables.tapIfIndexToSwIfIndex.lookup k = none := by
      by_contra hne
      rw [hplugin] at hne
      exact firstEntry_ne_none _ events order hne hfirst
    simp [hnow]
  | some s =>
    rw [Option.getD_some]
    exact ⟨fun h s' hs => by rw [← h, Option.some.inj hs], fun h => (h s rfl).symm⟩

def DumpOrder.ofTable : DumpOrder := ⟨id, fun entries => List.Perm.refl entries⟩

/-- A tap that is created, synced, disabled and synced again stays paired in the daemon,
which resolves device 3 to interface 1 though the plugin has no entry for it. -/
theorem pairTable_keeps_disabled :
    ∃ p, syncRun ⟨freshPlugin, []⟩ [.command (createOne 10 3), .sync .ofTable,
        .command disableOne, .sync .ofTable] = .ok p ∧
      ifindexKernel2vpp p.interfaces 3 = 1 ∧
      p.plugin.tables.tapIfIndexToSwIfIndex.lookup 3 = none ∧
      ¬ ∀ k, ifindexKernel2vpp p.interfaces k =
        (p.plugin.tables.tapIfIndexToSwIfIndex.lookup k).getD 0 := by
  refine ⟨_, rfl, rfl, rfl, fun h => ?_⟩
  exact absurd (h 3) (by decide)

end Routerd
