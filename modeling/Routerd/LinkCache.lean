import Routerd.NetlinkHooks
import Routerd.NetlinkDelivery
import Routerd.OverwriteStore

/-!
# The link cache as a map

An update overwrites every entry of its interface and appends one more, and the lookups
take the first entry of an interface, so they see the last writer. They are given the
index as a `uint16_t`, though, and the entries are never taken out again: not where an
update has overwritten one, and not where the message was a deletion.
-/

namespace Routerd
open ByteMemory KeyedUpdates OverwriteStore

/-- A call of `netlink_cache_update_link` on a buffer that holds what is copied from it;
what is copied reaches at least to the end of `ifi_index`. -/
structure LinkUpdate where
  ifm : Mem
  rtaLen : ℕ
  covers : 8 ≤ rtaLen
  present : rtaLen ≤ ifm.length

def LinkUpdate.index (u : LinkUpdate) : UInt32 := ifiIndex u.ifm

def LinkUpdate.stored (u : LinkUpdate) : Mem := u.ifm.take u.rtaLen

def cacheOf (us : List LinkUpdate) : List Mem :=
  us.foldl (fun links u => netlinkCacheUpdateLink links u.ifm u.rtaLen) []

def netlinkCacheGetLink (links : List Mem) (index : UInt16) : Option Mem :=
  match links with
  | [] => none
  | ifi :: rest =>
    if ifiIndex ifi = index.toUInt32 then some ifi else netlinkCacheGetLink rest index

def netlinkCachelenGetLink (links : List Mem) (index : UInt16) : ℕ :=
  match links with
  | [] => 0
  | ifi :: rest =>
    if ifiIndex ifi = index.toUInt32 then ifi.length else netlinkCachelenGetLink rest index

def lastUpdate (us : List LinkUpdate) (k : UInt32) : Option LinkUpdate :=
  newest LinkUpdate.index us k

theorem ifiIndex_take {ifm : Mem} {n : ℕ} (h : 8 ≤ n) : ifiIndex (ifm.take n) = ifiIndex ifm :=
  le32_take _ (by omega)

@[simp] theorem LinkUpdate.ifiIndex_stored (u : LinkUpdate) : ifiIndex u.stored = u.index :=
  ifiIndex_take u.covers

@[simp] theorem LinkUpdate.length_stored (u : LinkUpdate) : u.stored.length = u.rtaLen := by
  rw [stored, List.length_take, Nat.min_eq_left u.present]

theorem netlinkCacheUpdateLink_eq_put (links : List Mem) {ifm : Mem} {n : ℕ} (h : 8 ≤ n) :
    netlinkCacheUpdateLink links ifm n = put ifiIndex links (ifm.take n) := by
  rw [put, ifiIndex_take h]
  rfl

theorem cacheOf_eq_store (us : List LinkUpdate) :
    cacheOf us = store ifiIndex (us.map LinkUpdate.stored) := by
  rw [cacheOf]
  apply foldl_eq_store
  intro links u
  exact netlinkCacheUpdateLink_eq_put links u.covers

theorem newest_stored (us : List LinkUpdate) (k : UInt32) :
    newest ifiIndex (us.map LinkUpdate.stored) k = (lastUpdate us k).map LinkUpdate.stored :=
  newest_map _ LinkUpdate.ifiIndex_stored us k

theorem netlinkCacheGetLink_eq_find? (links : List Mem) (index : UInt16) :
    netlinkCacheGetLink links index =
      links.find? fun ifi => decide (ifiIndex ifi = index.toUInt32) := by
  induction links with
  | nil => rfl
  | cons ifi rest ih =>
    rw [netlinkCacheGetLink]
    by_cases h : ifiIndex ifi = index.toUInt32
    · simp [h]
    · simp [h, ih]

theorem netlinkCachelenGetLink_eq (links : List Mem) (index : UInt16) :
    netlinkCachelenGetLink links index =
      ((netlinkCacheGetLink links index).map List.length).getD 0 := by
  induction links with
  | nil => rfl
  | cons ifi rest ih =>
    rw [netlinkCachelenGetLink, netlinkCacheGetLink]
    by_cases h : ifiIndex ifi = index.toUInt32
    · simp [h]
    · simp [h, ih]

/-- A lookup returns the last update of the index it is given. -/
theorem netlinkCacheGetLink_cacheOf (us : List LinkUpdate) (index : UInt16) :
    netlinkCacheGetLink (cacheOf us) index =
      (lastUpdate us index.toUInt32).map LinkUpdate.stored := by
  rw [netlinkCacheGetLink_eq_find?, cacheOf_eq_store, find?_store, newest_stored]

/-! ### Lookups by the full index -/

/-- The lookups of an interface, whose index the call cuts to 16 bits, give the bytes and
the length of its last update, or nothing and zero. -/
structure LastWriterWins (us : List LinkUpdate) (i : UInt32) : Prop where
  bytes : netlinkCacheGetLink (cacheOf us) i.toUInt16 = (lastUpdate us i).map LinkUpdate.stored
  length : netlinkCachelenGetLink (cacheOf us) i.toUInt16 =
    ((lastUpdate us i).map LinkUpdate.rtaLen).getD 0

theorem toNat_toUInt16_toUInt32 (i : UInt32) : i.toUInt16.toUInt32.toNat = i.toNat % 65536 := by
  rw [UInt16.toNat_toUInt32, UInt32.toNat_toUInt16]

/-- For every history of updates: the cache is a last-writer-wins map at an index exactly
if the index fits into 16 bits, or neither it nor what it is cut to was ever updated. -/
theorem lastWriterWins_iff (us : List LinkUpdate) (i : UInt32) :
    LastWriterWins us i ↔
      i.toNat < 65536 ∨ ∀ u ∈ us, u.index ≠ i ∧ u.index ≠ i.toUInt16.toUInt32 := by
  have hcut := toNat_toUInt16_toUInt32 i
  have hlen : ∀ o : Option LinkUpdate,
      ((o.map LinkUpdate.stored).map List.length).getD 0 = (o.map LinkUpdate.rtaLen).getD 0 := by
    intro o
    cases o <;> simp
  constructor
  · intro hwins
    have hbytes := hwins.bytes
    rw [netlinkCacheGetLink_cacheOf] at hbytes
    by_cases hi : i.toNat < 65536
    · exact Or.inl hi
    · -- The bytes hold the index, so two interfaces never have the same ones.
      have hnone : lastUpdate us i = none := by
        cases hlast : lastUpdate us i with
        | none => rfl
        | some u =>
          rw [hlast] at hbytes
          obtain ⟨v, hv, hstored⟩ := Option.map_eq_some_iff.mp hbytes
          have hindex : v.index = u.index := by
            rw [← v.ifiIndex_stored, hstored, u.ifiIndex_stored]
          rw [(key_of_newest _ hv).2, (key_of_newest _ hlast).2] at hindex
          rw [hindex] at hcut
          omega
      rw [hnone, Option.map_none, Option.map_eq_none_iff] at hbytes
      exact Or.inr fun u hu =>
        ⟨(newest_eq_none_iff _).mp hnone u hu, (newest_eq_none_iff _).mp hbytes u hu⟩
  · intro hcond
    have hsame : lastUpdate us i.toUInt16.toUInt32 = lastUpdate us i := by
      rcases hcond with hi | hnone
      · rw [Nat.mod_eq_of_lt hi] at hcut
        rw [UInt32.toNat_inj.mp hcut]
      · rw [lastUpdate, lastUpdate, (newest_eq_none_iff _).mpr fun u hu => (hnone u hu).1,
          (newest_eq_none_iff _).mpr fun u hu => (hnone u hu).2]
    refine ⟨?_, ?_⟩
    · rw [netlinkCacheGetLink_cacheOf, hsame]
    · rw [netlinkCachelenGetLink_eq, netlinkCacheGetLink_cacheOf, hsame, hlen]

def bareUpdate (index : ℕ) : LinkUpdate where
  ifm := ifinfomsgBytes index 0 0
  rtaLen := (ifinfomsgBytes index 0 0).length
  covers := by simp [ifinfomsgBytes, bytes32, bytes16]
  present := Nat.le_refl _

/-- The interface 65541 is looked up as 5. -/
theorem lastWriterWins_fails :
    netlinkCacheGetLink (cacheOf [bareUpdate 5]) (65541 : UInt32).toUInt16 =
        some (ifinfomsgBytes 5 0 0) ∧
      lastUpdate [bareUpdate 5] 65541 = none ∧ ¬ LastWriterWins [bareUpdate 5] 65541 ∧
      ¬ LastWriterWins [bareUpdate 65541] 65541 := by
  refine ⟨by decide +kernel, rfl, ?_, ?_⟩
  · exact fun hwins => absurd hwins.bytes (by decide +kernel)
  · exact fun hwins => absurd hwins.bytes (by decide +kernel)

/-! ### The number of entries -/

theorem map_ifiIndex_cacheOf (us : List LinkUpdate) :
    (cacheOf us).map ifiIndex = us.map LinkUpdate.index := by
  rw [cacheOf_eq_store, map_key_store, List.map_map]
  apply List.map_congr_left
  intro u _
  exact u.ifiIndex_stored

/-- For every history of updates: no interface has two entries, and there are no more
entries than interfaces, exactly if no interface was updated twice. -/
theorem cacheEntries_distinct_iff (us : List LinkUpdate) :
    (((cacheOf us).map ifiIndex).Nodup ∧
        (cacheOf us).length ≤ (us.map LinkUpdate.index).dedup.length) ↔
      (us.map LinkUpdate.index).Nodup := by
  rw [map_ifiIndex_cacheOf]
  have hcount : (cacheOf us).length = (us.map LinkUpdate.index).length := by
    rw [← map_ifiIndex_cacheOf, List.length_map]
  constructor
  · exact fun h => h.1
  · intro hnodup
    refine ⟨hnodup, ?_⟩
    rw [hnodup.dedup, hcount]

/-- A second update of an interface leaves two entries of it. -/
theorem cacheEntries_repeated :
    cacheOf [bareUpdate 5, bareUpdate 5] = [ifinfomsgBytes 5 0 0, ifinfomsgBytes 5 0 0] ∧
      ¬ ((cacheOf [bareUpdate 5, bareUpdate 5]).map ifiIndex).Nodup ∧
      ¬ (cacheOf [bareUpdate 5, bareUpdate 5]).length ≤
        ([bareUpdate 5, bareUpdate 5].map LinkUpdate.index).dedup.length := by
  refine ⟨by decide +kernel, ?_, ?_⟩
  · rw [map_ifiIndex_cacheOf]
    decide +kernel
  · decide +kernel

/-! ### Deletions while the cache is filled -/

/-- `netlink_cache_alloc`: the cache is filled by the messages that follow the request for
the links, up to the end of the dump. -/
def netlinkCacheAlloc (fuel : ℕ) (buf : Mem) (receives : List Receive) : ListenRun (List Mem) :=
  netlinkListen cacheCallback fuel buf [] receives

/-- The interface and the type of a link message. -/
def linkEvent (n : Mem) : Option (UInt32 × MsgType) :=
  match nlmsgType n with
  | .newlink => some (ifiIndex (nlmsgBody n), .newlink)
  | .dellink => some (ifiIndex (nlmsgBody n), .dellink)
  | _ => none

/-- A link message holds an `ifinfomsg`. -/
def NetlinkMessage.LinkWhole (m : NetlinkMessage) : Prop :=
  linkEvent m.own ≠ none → 32 ≤ m.own.length

def beforeDone (ms : List NetlinkMessage) : List NetlinkMessage :=
  ms.takeWhile fun m => decide (nlmsgType m.own ≠ .done)

def linkEvents (ms : List NetlinkMessage) : List (UInt32 × MsgType) :=
  ms.filterMap fun m => linkEvent m.own

def lastLinkType (ms : List NetlinkMessage) (k : UInt32) : Option MsgType :=
  lastWrite k (linkEvents ms)

theorem linkEvent_type {n : Mem} {ev : UInt32 × MsgType} (h : linkEvent n = some ev) :
    ev.1 = ifiIndex (nlmsgBody n) ∧ (ev.2 = .newlink ∨ ev.2 = .dellink) := by
  unfold linkEvent at h
  split at h
  · cases h
    exact ⟨rfl, Or.inl rfl⟩
  · cases h
    exact ⟨rfl, Or.inr rfl⟩
  · cases h

theorem cacheCallback_link {n : Mem} {ev : UInt32 × MsgType} (h : linkEvent n = some ev)
    (links : List Mem) :
    cacheCallback links n =
      (0, netlinkCacheUpdateLink links (nlmsgBody n) (ifaPayload n)) := by
  unfold linkEvent at h
  unfold cacheCallback
  split at h <;> simp_all

theorem cacheCallback_other {n : Mem} (h : linkEvent n = none) (hdone : nlmsgType n ≠ .done)
    (links : List Mem) : cacheCallback links n = (0, links) := by
  unfold linkEvent at h
  unfold cacheCallback
  split at h <;> simp_all

theorem linkEvent_view {m : NetlinkMessage} (hwhole : m.LinkWhole) {v : Mem} (hv : m.own <+: v) :
    nlmsgType v = nlmsgType m.own ∧ linkEvent v = linkEvent m.own ∧
      (linkEvent m.own ≠ none → ifaPayload v = m.own.length - 24) := by
  obtain ⟨behind, rfl⟩ := hv
  have htype := nlmsgType_append m.header behind
  have hindex : linkEvent m.own ≠ none →
      ifiIndex (nlmsgBody (m.own ++ behind)) = ifiIndex (nlmsgBody m.own) := by
    intro hlink
    have hlen := hwhole hlink
    rw [nlmsgBody_append m.header]
    apply le32_append
    rw [nlmsgBody, List.length_drop]
    omega
  refine ⟨htype, ?_, fun hlink => ?_⟩
  · unfold linkEvent at hindex ⊢
    rw [htype]
    split <;> simp_all
  · have hlen := hwhole hlink
    rw [ifaPayload, nlmsgLen_append m.header, m.length, sizeSub_of_le (by omega)]

theorem map_ifiIndex_deliver {ms : List NetlinkMessage} {views : List Mem}
    (hviews : List.Forall₂ (fun m v => m.own <+: v) ms views)
    (hwhole : ∀ m ∈ ms, m.LinkWhole) (links : List Mem) :
    (deliver cacheCallback links views).state.map ifiIndex =
      links.map ifiIndex ++ (linkEvents (beforeDone ms)).map Prod.fst := by
  induction hviews generalizing links with
  | nil => simp [deliver, beforeDone, linkEvents]
  | @cons m v ms views hv _ ih =>
    obtain ⟨hm, hms⟩ := List.forall_mem_cons.mp hwhole
    obtain ⟨htype, hevent, hpayload⟩ := linkEvent_view hm hv
    by_cases hdone : nlmsgType m.own = .done
    · have hcall : cacheCallback links v = (-1, links) := by
        rw [cacheCallback, htype, hdone]
      have hbefore : beforeDone (m :: ms) = [] := by simp [beforeDone, hdone]
      rw [deliver, hcall, if_pos (show (-1 : ℤ) < 0 by decide), hbefore]
      simp [linkEvents]
    · have hbefore : beforeDone (m :: ms) = m :: beforeDone ms := by simp [beforeDone, hdone]
      cases hlink : linkEvent m.own with
      | none =>
        rw [deliver, cacheCallback_other (by rw [hevent, hlink]) (by rw [htype]; exact hdone),
          if_neg (lt_irrefl (0 : ℤ)), hbefore]
        have hrest := ih hms links
        simpa [ListenRun.after, linkEvents, hlink] using hrest
      | some ev =>
        have hne : linkEvent m.own ≠ none := by simp [hlink]
        have hlen := hm hne
        have hev : ev.1 = ifiIndex (nlmsgBody v) := (linkEvent_type (by rw [hevent, hlink])).1
        have hput : netlinkCacheUpdateLink links (nlmsgBody v) (ifaPayload v) =
            put ifiIndex links ((nlmsgBody v).take (ifaPayload v)) :=
          netlinkCacheUpdateLink_eq_put links (by rw [hpayload hne]; omega)
        have hkey : ifiIndex ((nlmsgBody v).take (ifaPayload v)) = ev.1 := by
          rw [hev, ifiIndex_take (by rw [hpayload hne]; omega)]
        rw [deliver, cacheCallback_link (by rw [hevent, hlink]), if_neg (lt_irrefl (0 : ℤ)), hbefore]
        have hrest := ih hms (netlinkCacheUpdateLink links (nlmsgBody v) (ifaPayload v))
        rw [hput, map_key_put, hkey] at hrest
        simpa [ListenRun.after, linkEvents, hlink, hput] using hrest

theorem lastLinkType_cases (ms : List NetlinkMessage) (k : UInt32) :
    (k ∈ (linkEvents ms).map Prod.fst ↔
      lastLinkType ms k = some .newlink ∨ lastLinkType ms k = some .dellink) := by
  constructor
  · intro hk
    cases hlast : lastLinkType ms k with
    | none => exact absurd hk (lastWrite_eq_none_iff.mp hlast)
    | some t =>
      obtain ⟨m, -, hevent⟩ := List.mem_filterMap.mp (mem_of_lastWrite hlast)
      rcases (linkEvent_type hevent).2 with rfl | rfl
      · exact Or.inl rfl
      · exact Or.inr rfl
  · rintro (hlast | hlast)
    · exact List.mem_map_of_mem (mem_of_lastWrite hlast)
    · exact List.mem_map_of_mem (mem_of_lastWrite hlast)

/-- The cache that the messages up to the end of the dump leave has an entry for exactly the
interfaces whose last link message is `RTM_NEWLINK`, if and only if no interface's last
link message is `RTM_DELLINK`. -/
theorem cacheAlloc_entries_iff (arrivals : List Arrival)
    (hwhole : ∀ m ∈ arrivals.flatMap Arrival.messages, m.LinkWhole) {fuel : ℕ}
    (hfuel : ∀ a ∈ arrivals, a.messages.length ≤ fuel) (buf : Mem) :
    let links := (netlinkCacheAlloc fuel buf (arrivals.map Arrival.receive)).state
    let before := beforeDone (arrivals.flatMap Arrival.messages)
    (∀ k, (∃ ifi ∈ links, ifiIndex ifi = k) ↔ lastLinkType before k = some .newlink) ↔
      ∀ k, lastLinkType before k ≠ some .dellink := by
  intro links before
  have hlinks : links.map ifiIndex = (linkEvents before).map Prod.fst := by
    have hrun : links = (deliver cacheCallback [] (arrivalViews buf arrivals)).state := by
      simp only [links, netlinkCacheAlloc, netlinkListen]
      rw [listenLoop_delivers _ cacheCallback hfuel, deliverUntil_never]
    rw [hrun, map_ifiIndex_deliver (own_isPrefix_arrivalViews buf arrivals) hwhole]
    rfl
  have hentry : ∀ k, (∃ ifi ∈ links, ifiIndex ifi = k) ↔
      lastLinkType before k = some .newlink ∨ lastLinkType before k = some .dellink := by
    intro k
    rw [← lastLinkType_cases, ← hlinks, List.mem_map]
  constructor
  · intro hproperty k hdel
    have hnew := (hproperty k).mp ((hentry k).mpr (Or.inr hdel))
    rw [hdel] at hnew
    cases hnew
  · intro hnever k
    rw [hentry]
    exact or_iff_left (hnever k)

def bareLinkMessage (type index : ℕ) : NetlinkMessage where
  own := nlmsgBytes type (ifinfomsgBytes index 0 0)
  padding := []
  header := by simp [nlmsgBytes, bytes32, bytes16]
  length := nlmsgLen_nlmsgBytes type (by simp [ifinfomsgBytes, bytes32, bytes16])
  aligned := by simp [nlmsgBytes, ifinfomsgBytes, bytes32, bytes16]

def deletedDuringDump : List Arrival :=
  [.datagram ⟨[bareLinkMessage 16 5], by simp, by decide +kernel⟩,
    .datagram ⟨[bareLinkMessage 17 5, headerOnly 3], by simp, by decide +kernel⟩]

/-- The deleted link is in the cache. -/
theorem cacheAlloc_keeps_deleted :
    (netlinkCacheAlloc 2 [] (deletedDuringDump.map Arrival.receive)).state =
        [(ifinfomsgBytes 5 0 0).take 8, (ifinfomsgBytes 5 0 0).take 8] ∧
      lastLinkType (beforeDone (deletedDuringDump.flatMap Arrival.messages)) 5 = some .dellink ∧
      ¬ ((∃ ifi ∈ (netlinkCacheAlloc 2 [] (deletedDuringDump.map Arrival.receive)).state,
          ifiIndex ifi = 5) ↔
        lastLinkType (beforeDone (deletedDuringDump.flatMap Arrival.messages)) 5 =
          some .newlink) := by
  decide +kernel

def changedDuringDump : List Arrival :=
  [.datagram ⟨[bareLinkMessage 16 5, bareLinkMessage 16 5, headerOnly 3], by simp,
    by decide +kernel⟩]

theorem cacheAlloc_entries_iff_changed :
    (∀ a ∈ changedDuringDump, a.messages.length ≤ 3) ∧
      ((∃ ifi ∈ (netlinkCacheAlloc 3 [] (changedDuringDump.map Arrival.receive)).state,
          ifiIndex ifi = 5) ↔
        lastLinkType (beforeDone (changedDuringDump.flatMap Arrival.messages)) 5 =
          some .newlink) := by
  have hfuel : ∀ a ∈ changedDuringDump, a.messages.length ≤ 3 := by
    simp [changedDuringDump, Arrival.messages]
  have hwhole : ∀ m ∈ changedDuringDump.flatMap Arrival.messages, m.LinkWhole := by
    intro m hm
    simp only [changedDuringDump, List.flatMap_cons, List.flatMap_nil, List.append_nil,
      Arrival.messages, List.mem_cons, List.not_mem_nil, or_false, or_self_left] at hm
    rcases hm with rfl | rfl
    · exact fun _ => by decide +kernel
    · exact fun h => absurd rfl h
  refine ⟨hfuel, (cacheAlloc_entries_iff changedDuringDump hwhole hfuel []).mpr ?_ 5⟩
  intro k hk
  have hevents : linkEvents (beforeDone (changedDuringDump.flatMap Arrival.messages)) =
      [(5, .newlink), (5, .newlink)] := by decide +kernel
  have hmem := mem_of_lastWrite hk
  rw [hevents] at hmem
  simp at hmem

end Routerd
