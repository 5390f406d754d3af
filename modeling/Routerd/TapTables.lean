import Routerd.PartialInverse
import Routerd.CplaneNetdev

/-!
# What the tap tables hold

`TapMaps` is what the four tables mean: partial maps, an unused slot of a vector
standing for no value. Inserting and deleting a tap update each map at one point, a
connect inserts one tap or changes no table, and a disconnect deletes one or none.
-/

namespace Routerd
open NumeralText PartialInverse

def slot (v : List UInt32) (i : UInt32) : Option UInt32 :=
  if vecGet v i = noIndex then none else some (vecGet v i)

theorem vecGet_vecValidate (v : List UInt32) (i j : UInt32) :
    vecGet (vecValidate v i) j = vecGet v j := by
  unfold vecGet vecValidate
  rw [List.getD_eq_getElem?_getD, List.getD_eq_getElem?_getD, List.getElem?_append]
  split
  · rfl
  · rename_i h
    rw [List.getElem?_eq_none (not_lt.mp h), List.getElem?_replicate]
    split <;> rfl

theorem length_vecValidate (v : List UInt32) (i : UInt32) :
    i.toNat < (vecValidate v i).length := by
  rw [vecValidate, List.length_append, List.length_replicate]
  omega

theorem vecGet_vecSet_self {v : List UInt32} {i : UInt32} (h : i.toNat < v.length) (x : UInt32) :
    vecGet (vecSet v i x) i = x := by
  rw [vecGet, vecSet, List.getD_eq_getElem?_getD, List.getElem?_set_self h, Option.getD_some]

theorem vecGet_vecSet_of_ne {i j : UInt32} (h : j ≠ i) (v : List UInt32) (x : UInt32) :
    vecGet (vecSet v i x) j = vecGet v j := by
  have hne : i.toNat ≠ j.toNat := fun hc => h (UInt32.toNat_inj.mp hc.symm)
  rw [vecGet, vecSet, List.getD_eq_getElem?_getD, List.getElem?_set_ne hne,
    ← List.getD_eq_getElem?_getD, vecGet]

theorem slot_vecValidate (v : List UInt32) (i : UInt32) : slot (vecValidate v i) = slot v := by
  funext j
  simp only [slot, vecGet_vecValidate]

theorem slot_insert {x : UInt32} (hx : x ≠ noIndex) (v : List UInt32) (i : UInt32) :
    slot (vecSet (vecValidate v i) i x) = Function.update (slot v) i (some x) := by
  funext j
  by_cases h : j = i
  · subst h
    rw [slot, vecGet_vecSet_self (length_vecValidate v j), if_neg hx, Function.update_self]
  · rw [slot, vecGet_vecSet_of_ne h, vecGet_vecValidate, Function.update_of_ne h, slot]

theorem slot_clear (v : List UInt32) (i : UInt32) :
    slot (vecSet v i noIndex) = Function.update (slot v) i none := by
  funext j
  by_cases h : j = i
  · subst h
    have hget : vecGet (vecSet v j noIndex) j = noIndex := by
      by_cases hj : j.toNat < v.length
      · exact vecGet_vecSet_self hj noIndex
      · rw [vecGet, vecSet, List.set_eq_of_length_le (not_lt.mp hj),
          List.getD_eq_getElem?_getD, List.getElem?_eq_none (not_lt.mp hj), Option.getD_none]
    rw [slot, if_pos hget, Function.update_self]
  · rw [slot, vecGet_vecSet_of_ne h, Function.update_of_ne h, slot]

theorem vecGet_eq_slot (v : List UInt32) (i : UInt32) : vecGet v i = (slot v i).getD noIndex := by
  unfold slot
  split
  · assumption
  · rfl

theorem slot_eq_some {v : List UInt32} {i x : UInt32} (h : slot v i = some x) :
    vecGet v i = x := by
  unfold slot at h
  split at h
  · cases h
  · exact Option.some.inj h

/-- The tables as partial maps, an unused slot standing for no value. -/
@[ext]
structure TapMaps where
  fdOf : UInt32 → Option UInt32
  ifIndexOf : UInt32 → Option UInt32
  swOfFd : UInt32 → Option UInt32
  swOfIfIndex : UInt32 → Option UInt32

def TapTables.maps (t : TapTables) : TapMaps where
  fdOf := slot t.swIfIndexToTapFd
  ifIndexOf := slot t.swIfIndexToTapIfIndex
  swOfFd := slot t.tapFdToSwIfIndex
  swOfIfIndex k := t.tapIfIndexToSwIfIndex.lookup k

namespace TapMaps

@[simps]
def insert (m : TapMaps) (s f k : UInt32) : TapMaps where
  fdOf := Function.update m.fdOf s (some f)
  ifIndexOf := Function.update m.ifIndexOf s (some k)
  swOfFd := Function.update m.swOfFd f (some s)
  swOfIfIndex := Function.update m.swOfIfIndex k (some s)

@[simps]
def erase (m : TapMaps) (s f k : UInt32) : TapMaps where
  fdOf := Function.update m.fdOf s none
  ifIndexOf := Function.update m.ifIndexOf s none
  swOfFd := Function.update m.swOfFd f none
  swOfIfIndex := Function.update m.swOfIfIndex k none

end TapMaps

theorem maps_insertTap (t : TapTables) {s f k : UInt32} (hs : s ≠ noIndex) (hf : f ≠ noIndex)
    (hk : k ≠ noIndex) : (tapInjectInsertTap t s f k).maps = t.maps.insert s f k := by
  have hhash : (tapInjectInsertTap t s f k).maps.swOfIfIndex =
      Function.update t.maps.swOfIfIndex k (some s) := by
    funext j
    by_cases h : j = k
    · subst h
      rw [Function.update_self]
      exact AList.lookup_insert _
    · rw [Function.update_of_ne h]
      exact AList.lookup_insert_ne h
  exact TapMaps.ext (slot_insert hf _ _) (slot_insert hk _ _) (slot_insert hs _ _) hhash

theorem maps_deleteTap (t : TapTables) {s f k : UInt32} (hf : t.maps.fdOf s = some f)
    (hk : t.maps.ifIndexOf s = some k) : (tapInjectDeleteTap t s).maps = t.maps.erase s f k := by
  obtain rfl : vecGet t.swIfIndexToTapFd s = f := slot_eq_some hf
  obtain rfl : vecGet t.swIfIndexToTapIfIndex s = k := slot_eq_some hk
  have hhash : (tapInjectDeleteTap t s).maps.swOfIfIndex =
      Function.update t.maps.swOfIfIndex (vecGet t.swIfIndexToTapIfIndex s) none := by
    funext j
    by_cases h : j = vecGet t.swIfIndexToTapIfIndex s
    · rw [h, Function.update_self]
      exact AList.lookup_erase _ _
    · rw [Function.update_of_ne h]
      exact AList.lookup_erase_ne h
  exact TapMaps.ext (slot_clear _ _) (slot_clear _ _) (slot_clear _ _) hhash

theorem maps_lookupTapFd (t : TapTables) (s : UInt32) :
    (tapInjectLookupTapFd t s).2.maps = t.maps :=
  TapMaps.ext (slot_vecValidate _ _) rfl rfl rfl

theorem maps_lookupSwIfIndexFromTapFd (t : TapTables) (f : UInt32) :
    (tapInjectLookupSwIfIndexFromTapFd t f).2.maps = t.maps :=
  TapMaps.ext rfl rfl (slot_vecValidate _ _) rfl

namespace Os

/-- The kernel with one more tap, its device made and nothing else open. -/
def addTap (os : Os) (fd : UInt32) (device : Netdev) : Os :=
  { os with taps := ⟨fd, some device⟩ :: os.taps }

theorem close_of_notMem {os : Os} {fd : UInt32} (ht : fd ∉ os.tapFds) (hs : fd ∉ os.sockets) :
    os.close fd = os := by
  have htaps : os.taps.filter (fun t => t.fd ≠ fd) = os.taps :=
    List.filter_eq_self.mpr fun t hmem => by
      have hne : t.fd ≠ fd := fun hc => ht (hc ▸ List.mem_map_of_mem hmem)
      simpa using hne
  have hsockets : os.sockets.filter (fun s => s ≠ fd) = os.sockets :=
    List.filter_eq_self.mpr fun s hmem => by
      have hne : s ≠ fd := fun hc => hs (hc ▸ hmem)
      simpa using hne
  rw [close, htaps, hsockets]

theorem close_newTap {os : Os} {fd : UInt32} (ht : fd ∉ os.tapFds) (hs : fd ∉ os.sockets)
    (device : Option Netdev) : close { os with taps := ⟨fd, device⟩ :: os.taps } fd = os := by
  have hdrop : close { os with taps := ⟨fd, device⟩ :: os.taps } fd = os.close fd := by
    simp [close]
  rw [hdrop, close_of_notMem ht hs]

theorem tunSetIff_openTun {os : Os} {fd : UInt32} (ht : fd ∉ os.tapFds) (device : Netdev) :
    (os.openTun fd).tunSetIff fd device = os.addTap fd device := by
  have hrest : os.taps.map (fun t => if t.fd = fd then { t with device := some device } else t) =
      os.taps := by
    rw [List.map_congr_left (g := id), List.map_id]
    intro t hmem
    exact if_neg fun (hc : t.fd = fd) => ht (hc ▸ List.mem_map_of_mem hmem)
  simp only [tunSetIff, openTun, addTap, List.map_cons, if_true, hrest]

theorem close_openSocket {os : Os} {fd : UInt32} (ht : fd ∉ os.tapFds) (hs : fd ∉ os.sockets) :
    (os.openSocket fd).close fd = os := by
  have hdrop : (os.openSocket fd).close fd = os.close fd := by
    simp [openSocket, close]
  rw [hdrop, close_of_notMem ht hs]

theorem close_openSocket_of_ne {fd g : UInt32} (h : g ≠ fd) (os : Os) :
    (os.openSocket g).close fd = (os.close fd).openSocket g := by
  simp [openSocket, close, h]

theorem notMem_tapFds_addTap {os : Os} {fd g : UInt32} (hg : g ∉ os.tapFds) (hne : g ≠ fd)
    (device : Netdev) : g ∉ (os.addTap fd device).tapFds := by
  simpa [tapFds, addTap, hne] using hg

theorem mem_devices {os : Os} {d : Netdev} : d ∈ os.devices ↔ ∃ f, ⟨f, some d⟩ ∈ os.taps := by
  constructor
  · intro h
    obtain ⟨⟨f, device⟩, ht, rfl⟩ := List.mem_filterMap.mp h
    exact ⟨f, ht⟩
  · rintro ⟨f, h⟩
    exact List.mem_filterMap.mpr ⟨_, h, rfl⟩

theorem mem_taps_close {os : Os} {fd : UInt32} {t : TunFile} :
    t ∈ (os.close fd).taps ↔ t ∈ os.taps ∧ t.fd ≠ fd := by
  simp [close]

theorem mem_tapFds_close {os : Os} {fd f : UInt32} :
    f ∈ (os.close fd).tapFds ↔ f ∈ os.tapFds ∧ f ≠ fd := by
  constructor
  · intro h
    obtain ⟨t, ht, rfl⟩ := List.mem_map.mp h
    obtain ⟨ht, hne⟩ := mem_taps_close.mp ht
    exact ⟨List.mem_map_of_mem ht, hne⟩
  · rintro ⟨h, hne⟩
    obtain ⟨t, ht, rfl⟩ := List.mem_map.mp h
    exact List.mem_map_of_mem (mem_taps_close.mpr ⟨ht, hne⟩)

theorem nodup_tapFds_close {os : Os} (h : os.tapFds.Nodup) (fd : UInt32) :
    (os.close fd).tapFds.Nodup :=
  h.sublist (List.filter_sublist.map _)

end Os

def ConnectCalls.tap (c : ConnectCalls) : Option (UInt32 × UInt32) :=
  match c.openTun, c.tunSetIff, c.socket with
  | some fd, some k, some _ =>
    if c.fionbio ∧ c.setHwAddr ∧ c.getIfIndex then some (fd, k) else none
  | _, _, _ => none

def connected (v : CplaneNetdev) (s f k : UInt32) (name : Text) (names : NameCounters) :
    CplaneNetdev :=
  { v with
    names := names
    os := v.os.addTap f ⟨k, name⟩
    tables := tapInjectInsertTap v.tables s f k }

/-- A connect either inserts its tap or leaves behind nothing but advanced name
counters: on every error path what was opened is closed again. -/
theorem tapInjectTapConnect_cases (kernel : Kernel) (v : CplaneNetdev) (hw : HwInterface) :
    ((kernel.answer v.os hw).tap = none ∧
      ∃ names err, tapInjectTapConnect kernel v hw = ({ v with names := names }, err)) ∨
    ∃ f k name names, (kernel.answer v.os hw).tap = some (f, k) ∧
      tapInjectTapConnect kernel v hw = (connected v hw.hwIfIndex f k name names, none) := by
  have hfresh := kernel.fresh v.os hw
  generalize hc : kernel.answer v.os hw = c at hfresh
  obtain ⟨openTun, tunSetIff, fionbio, socket, setHwAddr, getIfIndex⟩ := c
  cases openTun with
  | none =>
    refine Or.inl ⟨rfl, v.names, some "failed to open tun device", ?_⟩
    simp only [tapInjectTapConnect, hc]
  | some f =>
    obtain ⟨hft, hfs, -⟩ := hfresh.openTun f rfl
    cases tunSetIff with
    | none =>
      refine Or.inl ⟨rfl, (v.names.next hw.name).2, none, ?_⟩
      simp only [tapInjectTapConnect, hc, Os.openTun, Os.close_newTap hft hfs]
    | some k =>
      cases fionbio with
      | false =>
        refine Or.inl ⟨by cases socket <;> rfl, (v.names.next hw.name).2,
          some "failed to set tap to non-blocking io", ?_⟩
        simp [tapInjectTapConnect, hc, Os.tunSetIff_openTun hft, Os.addTap,
          Os.close_newTap hft hfs]
      | true =>
        cases socket with
        | none =>
          refine Or.inl ⟨rfl, (v.names.next hw.name).2, some "failed to configure tap", ?_⟩
          simp [tapInjectTapConnect, hc, Os.tunSetIff_openTun hft, Os.addTap,
            Os.close_newTap hft hfs]
        | some g =>
          obtain ⟨hgt, hgs, hgf⟩ := hfresh.socket g rfl
          have hne : g ≠ f := fun h => hgf (congrArg some h.symm)
          cases setHwAddr with
          | false =>
            refine Or.inl ⟨rfl, (v.names.next hw.name).2,
              some "failed to set tap hardware address", ?_⟩
            simp [tapInjectTapConnect, hc, Os.tunSetIff_openTun hft,
              Os.close_openSocket_of_ne hne, Os.addTap, Os.close_newTap hft hfs,
              Os.close_openSocket hgt hgs]
          | true =>
            cases getIfIndex with
            | false =>
              refine Or.inl ⟨rfl, (v.names.next hw.name).2,
                some "failed to procure tap if index", ?_⟩
              simp [tapInjectTapConnect, hc, Os.tunSetIff_openTun hft,
                Os.close_openSocket_of_ne hne, Os.addTap, Os.close_newTap hft hfs,
                Os.close_openSocket hgt hgs]
            | true =>
              refine Or.inr ⟨f, k, (v.names.next hw.name).1.take 15,
                (v.names.next hw.name).2, rfl, ?_⟩
              simp [tapInjectTapConnect, hc, Os.tunSetIff_openTun hft, connected,
                Os.close_openSocket (Os.notMem_tapFds_addTap hgt hne _) hgs]

theorem ConnectCalls.tap_eq_some {c : ConnectCalls} {f k : UInt32} (h : c.tap = some (f, k)) :
    c.openTun = some f ∧ c.tunSetIff = some k := by
  unfold ConnectCalls.tap at h
  split at h
  · rename_i hopen hset _
    split at h
    · cases h
      exact ⟨hopen, hset⟩
    · cases h
  · cases h

theorem ConnectCalls.Fresh.tap {c : ConnectCalls} {os : Os} (h : c.Fresh os) {f k : UInt32}
    (htap : c.tap = some (f, k)) :
    f ∉ os.tapFds ∧ f ≠ noIndex ∧ k ∉ os.devices.map Netdev.ifindex ∧ k ≠ noIndex := by
  obtain ⟨hopen, hset⟩ := tap_eq_some htap
  obtain ⟨hft, -, hf⟩ := h.openTun f hopen
  exact ⟨hft, hf, h.tunSetIff k hset⟩

/-- A disconnect of an interface without a tap changes no map; of one with a tap it
deletes the tap and closes its descriptor. -/
theorem tapInjectTapDisconnect_cases (v : CplaneNetdev) (s : UInt32) :
    ∃ t : TapTables, t.maps = v.tables.maps ∧
      ((v.tables.maps.fdOf s = none ∧ (tapInjectTapDisconnect v s).1 = { v with tables := t }) ∨
        ∃ f, v.tables.maps.fdOf s = some f ∧ (tapInjectTapDisconnect v s).1 =
          { v with tables := tapInjectDeleteTap t s, os := v.os.close f }) := by
  refine ⟨_, maps_lookupTapFd v.tables s, ?_⟩
  have hget : (tapInjectLookupTapFd v.tables s).1 = vecGet v.tables.swIfIndexToTapFd s :=
    vecGet_vecValidate _ _ _
  by_cases hs : vecGet v.tables.swIfIndexToTapFd s = noIndex
  · refine Or.inl ⟨if_pos hs, ?_⟩
    simp only [tapInjectTapDisconnect, hget, if_pos hs]
  · refine Or.inr ⟨_, if_neg hs, ?_⟩
    simp only [tapInjectTapDisconnect, hget, if_neg hs]

end Routerd
