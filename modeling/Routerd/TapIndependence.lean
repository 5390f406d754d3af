import Routerd.TapTables

/-!
# Independence of taps

Two sequences of the same table operations are compared, one that begins with the insertion of
a tap and one that does not. As long as the later operations bind only what is unbound and
delete only other interfaces, the tables of the first sequence are those of the second with
the tap inserted at the end. Everything about the tap follows from this: the tables stay inverse
to each other, no other entry is touched, and deleting the tap removes every trace of it.
The vectors of the two sequences may have different lengths, so the comparison is made
on the maps that the lookups show.
-/

namespace Routerd
open PartialInverse

/-- An interface, the descriptor of its tap and the kernel's index of the device. None of them
is `~0`, the value that marks an unused slot. -/
structure Tap where
  swIfIndex : UInt32
  tapFd : UInt32
  tapIfIndex : UInt32
  swIfIndex_ne : swIfIndex ≠ noIndex
  tapFd_ne : tapFd ≠ noIndex
  tapIfIndex_ne : tapIfIndex ≠ noIndex

namespace TapMaps

/-- No part of the tap is bound. -/
structure Unbound (m : TapMaps) (tap : Tap) : Prop where
  fdOf : m.fdOf tap.swIfIndex = none
  ifIndexOf : m.ifIndexOf tap.swIfIndex = none
  swOfFd : m.swOfFd tap.tapFd = none
  swOfIfIndex : m.swOfIfIndex tap.tapIfIndex = none

/-- The interface has a descriptor and a device. -/
structure Bound (m : TapMaps) (s : UInt32) : Prop where
  fdOf : m.fdOf s ≠ none
  ifIndexOf : m.ifIndexOf s ≠ none

structure IsInverse (m : TapMaps) : Prop where
  fds : Inverse m.fdOf m.swOfFd
  ifIndexes : Inverse m.ifIndexOf m.swOfIfIndex

def insertTap (m : TapMaps) (tap : Tap) : TapMaps :=
  m.insert tap.swIfIndex tap.tapFd tap.tapIfIndex

end TapMaps

/-- The operations on the tables. The two lookups are among them because they grow a vector. -/
inductive TapOp where
  | insert (tap : Tap)
  | delete (swIfIndex : UInt32)
  | lookupTapFd (swIfIndex : UInt32)
  | lookupSwIfIndexFromTapFd (tapFd : UInt32)

namespace TapOp

def run (t : TapTables) : TapOp → TapTables
  | insert tap => tapInjectInsertTap t tap.swIfIndex tap.tapFd tap.tapIfIndex
  | delete s => tapInjectDeleteTap t s
  | lookupTapFd s => (tapInjectLookupTapFd t s).2
  | lookupSwIfIndexFromTapFd f => (tapInjectLookupSwIfIndexFromTapFd t f).2

def runAll (t : TapTables) (ops : List TapOp) : TapTables := ops.foldl run t

/-- The operation binds only what is unbound and deletes a bound interface other than `s`. -/
def Spares (s : UInt32) (m : TapMaps) : TapOp → Prop
  | insert tap => m.Unbound tap
  | delete s' => s' ≠ s ∧ m.Bound s'
  | lookupTapFd _ => True
  | lookupSwIfIndexFromTapFd _ => True

/-- Each operation is of that kind in the state it meets. -/
def AllSpare (s : UInt32) : TapTables → List TapOp → Prop
  | _, [] => True
  | t, op :: ops => op.Spares s t.maps ∧ AllSpare s (op.run t) ops

end TapOp

/-- Every lookup has the same answer: of the descriptor and of the device by interface, and of
the interface by descriptor and by device. -/
structure SameLookups (t t' : TapTables) : Prop where
  tapFd : ∀ s, (tapInjectLookupTapFd t s).1 = (tapInjectLookupTapFd t' s).1
  tapIfIndex : ∀ s, vecGet t.swIfIndexToTapIfIndex s = vecGet t'.swIfIndexToTapIfIndex s
  swIfIndexOfFd : ∀ f, (tapInjectLookupSwIfIndexFromTapFd t f).1 =
    (tapInjectLookupSwIfIndexFromTapFd t' f).1
  swIfIndexOfIfIndex : ∀ k, t.tapIfIndexToSwIfIndex.lookup k = t'.tapIfIndexToSwIfIndex.lookup k

/-- The lookups of everything but this tap have the same answers. -/
structure SameLookupsBeside (tap : Tap) (t t' : TapTables) : Prop where
  tapFd : ∀ s ≠ tap.swIfIndex, (tapInjectLookupTapFd t s).1 = (tapInjectLookupTapFd t' s).1
  tapIfIndex : ∀ s ≠ tap.swIfIndex,
    vecGet t.swIfIndexToTapIfIndex s = vecGet t'.swIfIndexToTapIfIndex s
  swIfIndexOfFd : ∀ f ≠ tap.tapFd, (tapInjectLookupSwIfIndexFromTapFd t f).1 =
    (tapInjectLookupSwIfIndexFromTapFd t' f).1
  swIfIndexOfIfIndex : ∀ k ≠ tap.tapIfIndex,
    t.tapIfIndexToSwIfIndex.lookup k = t'.tapIfIndexToSwIfIndex.lookup k

theorem lookupTapFd_eq (t : TapTables) (s : UInt32) :
    (tapInjectLookupTapFd t s).1 = (t.maps.fdOf s).getD noIndex :=
  (vecGet_vecValidate _ _ _).trans (vecGet_eq_slot _ _)

theorem lookupSwIfIndexFromTapFd_eq (t : TapTables) (f : UInt32) :
    (tapInjectLookupSwIfIndexFromTapFd t f).1 = (t.maps.swOfFd f).getD noIndex :=
  (vecGet_vecValidate _ _ _).trans (vecGet_eq_slot _ _)

theorem tapIfIndex_eq (t : TapTables) (s : UInt32) :
    vecGet t.swIfIndexToTapIfIndex s = (t.maps.ifIndexOf s).getD noIndex := vecGet_eq_slot _ _

theorem SameLookups.of_maps_eq {t t' : TapTables} (h : t.maps = t'.maps) : SameLookups t t' where
  tapFd s := by rw [lookupTapFd_eq, lookupTapFd_eq, h]
  tapIfIndex s := by rw [tapIfIndex_eq, tapIfIndex_eq, h]
  swIfIndexOfFd f := by rw [lookupSwIfIndexFromTapFd_eq, lookupSwIfIndexFromTapFd_eq, h]
  swIfIndexOfIfIndex k := congrFun (congrArg TapMaps.swOfIfIndex h) k

/-! ### Updates at different places -/

namespace TapMaps

/-- The four entries of an interface, a descriptor and a device, overwritten with these values. -/
def assign (m : TapMaps) (s f k : UInt32) (fd ifIndex swFd swIfIndex : Option UInt32) :
    TapMaps where
  fdOf := Function.update m.fdOf s fd
  ifIndexOf := Function.update m.ifIndexOf s ifIndex
  swOfFd := Function.update m.swOfFd f swFd
  swOfIfIndex := Function.update m.swOfIfIndex k swIfIndex

variable {m : TapMaps} {s f k : UInt32} {tap other : Tap}

theorem erase_eq_assign : m.erase s f k = m.assign s f k none none none none := rfl

theorem assign_insertTap (hs : s ≠ tap.swIfIndex) (hf : f ≠ tap.tapFd) (hk : k ≠ tap.tapIfIndex)
    (fd ifIndex swFd swIfIndex : Option UInt32) :
    (m.insertTap tap).assign s f k fd ifIndex swFd swIfIndex =
      (m.assign s f k fd ifIndex swFd swIfIndex).insertTap tap :=
  TapMaps.ext (Function.update_comm hs.symm _ _ _) (Function.update_comm hs.symm _ _ _)
    (Function.update_comm hf.symm _ _ _) (Function.update_comm hk.symm _ _ _)

theorem erase_insert_self (h : m.Unbound tap) :
    (m.insertTap tap).erase tap.swIfIndex tap.tapFd tap.tapIfIndex = m :=
  TapMaps.ext (update_some_none h.fdOf _) (update_some_none h.ifIndexOf _)
    (update_some_none h.swOfFd _) (update_some_none h.swOfIfIndex _)

theorem IsInverse.insert (h : m.IsInverse) (hfree : m.Unbound tap) :
    (m.insertTap tap).IsInverse :=
  ⟨h.fds.insert hfree.fdOf hfree.swOfFd, h.ifIndexes.insert hfree.ifIndexOf hfree.swOfIfIndex⟩

theorem IsInverse.erase (h : m.IsInverse) (hf : m.fdOf s = some f) (hk : m.ifIndexOf s = some k) :
    (m.erase s f k).IsInverse := ⟨h.fds.erase hf, h.ifIndexes.erase hk⟩

theorem Unbound.assign (h : m.Unbound tap) (hs : s ≠ tap.swIfIndex) (hf : f ≠ tap.tapFd)
    (hk : k ≠ tap.tapIfIndex) (fd ifIndex swFd swIfIndex : Option UInt32) :
    (m.assign s f k fd ifIndex swFd swIfIndex).Unbound tap where
  fdOf := (Function.update_of_ne hs.symm _ _).trans h.fdOf
  ifIndexOf := (Function.update_of_ne hs.symm _ _).trans h.ifIndexOf
  swOfFd := (Function.update_of_ne hf.symm _ _).trans h.swOfFd
  swOfIfIndex := (Function.update_of_ne hk.symm _ _).trans h.swOfIfIndex

theorem Unbound.of_insertTap (h : (m.insertTap tap).Unbound other) :
    other.swIfIndex ≠ tap.swIfIndex ∧ other.tapFd ≠ tap.tapFd ∧
      other.tapIfIndex ≠ tap.tapIfIndex ∧ m.Unbound other := by
  obtain ⟨hs, hfdOf⟩ := update_some_eq_none h.fdOf
  obtain ⟨-, hifIndexOf⟩ := update_some_eq_none h.ifIndexOf
  obtain ⟨hf, hswOfFd⟩ := update_some_eq_none h.swOfFd
  obtain ⟨hk, hswOfIfIndex⟩ := update_some_eq_none h.swOfIfIndex
  exact ⟨hs, hf, hk, hfdOf, hifIndexOf, hswOfFd, hswOfIfIndex⟩

end TapMaps

/-! ### The two sequences -/

/-- `present` is `absent`, in which no part of the tap is bound, with the tap inserted. -/
structure Carries (tap : Tap) (present absent : TapMaps) : Prop where
  inverse : absent.IsInverse
  unbound : absent.Unbound tap
  maps : present = absent.insertTap tap

namespace Carries

variable {tap other : Tap} {present absent : TapMaps} {s f k : UInt32}

theorem insert (h : Carries tap present absent) (hother : present.Unbound other) :
    Carries tap (present.insertTap other) (absent.insertTap other) := by
  rw [h.maps] at hother ⊢
  obtain ⟨hs, hf, hk, hfree⟩ := hother.of_insertTap
  exact ⟨h.inverse.insert hfree, h.unbound.assign hs hf hk _ _ _ _,
    TapMaps.assign_insertTap hs hf hk _ _ _ _⟩

theorem ne_of_bound (h : Carries tap present absent) (hs : s ≠ tap.swIfIndex)
    (hf : present.fdOf s = some f) (hk : present.ifIndexOf s = some k) :
    absent.fdOf s = some f ∧ absent.ifIndexOf s = some k ∧ f ≠ tap.tapFd ∧
      k ≠ tap.tapIfIndex := by
  have hf' : absent.fdOf s = some f := by
    rw [h.maps] at hf
    exact (Function.update_of_ne hs _ _).symm.trans hf
  have hk' : absent.ifIndexOf s = some k := by
    rw [h.maps] at hk
    exact (Function.update_of_ne hs _ _).symm.trans hk
  exact ⟨hf', hk', PartialInverse.ne_of_bound ((h.inverse.fds s f).mp hf') h.unbound.swOfFd,
    PartialInverse.ne_of_bound ((h.inverse.ifIndexes s k).mp hk') h.unbound.swOfIfIndex⟩

theorem erase (h : Carries tap present absent) (hs : s ≠ tap.swIfIndex)
    (hf : absent.fdOf s = some f) (hk : absent.ifIndexOf s = some k) (hf' : f ≠ tap.tapFd)
    (hk' : k ≠ tap.tapIfIndex) : Carries tap (present.erase s f k) (absent.erase s f k) where
  inverse := h.inverse.erase hf hk
  unbound := h.unbound.assign hs hf' hk' _ _ _ _
  maps := by
    rw [h.maps, TapMaps.erase_eq_assign, TapMaps.assign_insertTap hs hf' hk']
    rfl

end Carries

theorem TapOp.maps_insert (t : TapTables) (tap : Tap) :
    (run t (insert tap)).maps = t.maps.insertTap tap :=
  maps_insertTap t tap.swIfIndex_ne tap.tapFd_ne tap.tapIfIndex_ne

/-- One operation keeps the two sequences apart by the tap alone. -/
theorem Carries.run {tap : Tap} {t t' : TapTables} (h : Carries tap t.maps t'.maps) {op : TapOp}
    (hop : op.Spares tap.swIfIndex t.maps) : Carries tap (op.run t).maps (op.run t').maps := by
  cases op with
  | insert other =>
    rw [TapOp.maps_insert, TapOp.maps_insert]
    exact h.insert hop
  | delete s =>
    obtain ⟨hs, hbound⟩ := hop
    obtain ⟨f, hf⟩ := Option.ne_none_iff_exists'.mp hbound.fdOf
    obtain ⟨k, hk⟩ := Option.ne_none_iff_exists'.mp hbound.ifIndexOf
    -- without the tap the interface has the same descriptor and device
    obtain ⟨hf', hk', hnef, hnek⟩ := h.ne_of_bound hs hf hk
    have hdelete := h.erase hs hf' hk' hnef hnek
    rw [← maps_deleteTap t hf hk, ← maps_deleteTap t' hf' hk'] at hdelete
    exact hdelete
  | lookupTapFd s =>
    rw [TapOp.run, TapOp.run, maps_lookupTapFd, maps_lookupTapFd]
    exact h
  | lookupSwIfIndexFromTapFd f =>
    rw [TapOp.run, TapOp.run, maps_lookupSwIfIndexFromTapFd, maps_lookupSwIfIndexFromTapFd]
    exact h

theorem Carries.runAll {tap : Tap} {ops : List TapOp} {t t' : TapTables}
    (h : Carries tap t.maps t'.maps) (hops : TapOp.AllSpare tap.swIfIndex t ops) :
    Carries tap (TapOp.runAll t ops).maps (TapOp.runAll t' ops).maps := by
  induction ops generalizing t t' with
  | nil => exact h
  | cons op ops ih => exact ih (h.run hops.1) hops.2

theorem Carries.sameLookupsBeside {tap : Tap} {t t' : TapTables}
    (h : Carries tap t.maps t'.maps) : SameLookupsBeside tap t t' where
  tapFd s hs := by
    rw [lookupTapFd_eq, lookupTapFd_eq, h.maps]
    exact congrArg (Option.getD · noIndex) (Function.update_of_ne hs _ _)
  tapIfIndex s hs := by
    rw [tapIfIndex_eq, tapIfIndex_eq, h.maps]
    exact congrArg (Option.getD · noIndex) (Function.update_of_ne hs _ _)
  swIfIndexOfFd f hf := by
    rw [lookupSwIfIndexFromTapFd_eq, lookupSwIfIndexFromTapFd_eq, h.maps]
    exact congrArg (Option.getD · noIndex) (Function.update_of_ne hf _ _)
  swIfIndexOfIfIndex k hk := by
    have hmap : t.maps.swOfIfIndex k = t'.maps.swOfIfIndex k := by
      rw [h.maps]
      exact Function.update_of_ne hk _ _
    exact hmap

theorem Carries.maps_delete {tap : Tap} {t t' : TapTables} (h : Carries tap t.maps t'.maps) :
    (tapInjectDeleteTap t tap.swIfIndex).maps = t'.maps := by
  have hf : t.maps.fdOf tap.swIfIndex = some tap.tapFd := by
    rw [h.maps]
    exact Function.update_self ..
  have hk : t.maps.ifIndexOf tap.swIfIndex = some tap.tapIfIndex := by
    rw [h.maps]
    exact Function.update_self ..
  rw [maps_deleteTap t hf hk, h.maps, TapMaps.erase_insert_self h.unbound]

/-- A tap whose parts are unbound is inserted into tables that are inverse to each other, and
other operations follow, which bind what is unbound and delete other interfaces. The tables
are inverse to each other at every point, every lookup but those of the tap has the
answer it has after the same operations without the tap, and deleting the tap gives the
remaining lookups these answers as well. -/
theorem tap_leaves_no_trace (t : TapTables) (hinv : t.maps.IsInverse) (tap : Tap)
    (hfree : t.maps.Unbound tap) (ops : List TapOp)
    (hops : TapOp.AllSpare tap.swIfIndex
      (tapInjectInsertTap t tap.swIfIndex tap.tapFd tap.tapIfIndex) ops) :
    (TapOp.runAll t (.insert tap :: ops)).maps.IsInverse ∧
      SameLookupsBeside tap (TapOp.runAll t (.insert tap :: ops)) (TapOp.runAll t ops) ∧
      SameLookups (tapInjectDeleteTap (TapOp.runAll t (.insert tap :: ops)) tap.swIfIndex)
        (TapOp.runAll t ops) := by
  have hstart : Carries tap (TapOp.run t (.insert tap)).maps t.maps :=
    ⟨hinv, hfree, TapOp.maps_insert t tap⟩
  have h : Carries tap (TapOp.runAll t (.insert tap :: ops)).maps (TapOp.runAll t ops).maps :=
    hstart.runAll hops
  refine ⟨?_, h.sameLookupsBeside, SameLookups.of_maps_eq h.maps_delete⟩
  rw [h.maps]
  exact h.inverse.insert h.unbound

theorem isInverse_empty : TapTables.empty.maps.IsInverse := by
  constructor
  · intro s f
    constructor <;> intro h <;> cases h
  · intro s k
    constructor <;> intro h <;> cases h

def farTap : Tap := ⟨6, 19, 40, by decide, by decide, by decide⟩

def nearTap : Tap := ⟨1, 17, 3, by decide, by decide, by decide⟩

theorem tap_leaves_no_trace_far :
    (TapOp.runAll .empty [.insert farTap, .insert nearTap, .lookupTapFd 9, .delete 1]
        ).tapFdToSwIfIndex.length = 20 ∧
      SameLookups (tapInjectDeleteTap (TapOp.runAll .empty
          [.insert farTap, .insert nearTap, .lookupTapFd 9, .delete 1]) 6)
        (TapOp.runAll .empty [.insert nearTap, .lookupTapFd 9, .delete 1]) := by
  refine ⟨by decide, (tap_leaves_no_trace .empty isInverse_empty farTap ?_
    [.insert nearTap, .lookupTapFd 9, .delete 1] ?_).2.2⟩
  · exact ⟨rfl, rfl, rfl, rfl⟩
  · refine ⟨⟨rfl, rfl, rfl, rfl⟩, trivial, ⟨by decide, ?_, ?_⟩, trivial⟩
    · decide
    · decide

end Routerd
