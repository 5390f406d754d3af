import Routerd.TapInvariant

/-!
# When the tap tables are inverse to each other

A connect of an interface that has a tap overwrites the two tables by interface and
adds to the two others, so the old descriptor and device stay behind in them. No
later command clears such an entry, because a disconnect reads the descriptor from
the table by interface. The tables are therefore inverse in a state exactly if no
connect on the way to it was of that kind.
-/

namespace Routerd
open NumeralText PartialInverse

structure MutuallyInverse (m : TapMaps) (os : Os) : Prop where
  fds : Inverse m.fdOf m.swOfFd
  ifIndexes : Inverse m.ifIndexOf m.swOfIfIndex
  known : ∀ f ∈ os.tapFds, ∃ s, m.fdOf s = some f ∧ m.swOfFd f = some s

/-- The invariant, with the tables inverse to each other. -/
structure Consistent (m : TapMaps) (os : Os) : Prop where
  invariant : TapInvariant m os
  fds : Inverse m.fdOf m.swOfFd
  ifIndexes : Inverse m.ifIndexOf m.swOfIfIndex

/-- The invariant, with a descriptor whose interface has another tap or none. -/
structure Leaks (m : TapMaps) (os : Os) : Prop where
  invariant : TapInvariant m os
  stale : ∃ f, Stale m.fdOf m.swOfFd f

variable {m : TapMaps} {os : Os} {s f k : UInt32} {v : CplaneNetdev}

theorem Consistent.mutuallyInverse (h : Consistent m os) : MutuallyInverse m os := by
  refine ⟨h.fds, h.ifIndexes, fun f hf => ?_⟩
  obtain ⟨s, hs⟩ := h.invariant.open_known f hf
  exact ⟨s, (h.fds s f).mpr hs, hs⟩

theorem Leaks.not_mutuallyInverse (h : Leaks m os) : ¬ MutuallyInverse m os := by
  intro hinv
  obtain ⟨f, hf⟩ := h.stale
  exact not_inverse_of_stale hf hinv.fds

theorem consistent_init (nodes : GraphNodes) (dispatch : Dispatch) :
    Consistent (CplaneNetdev.init nodes dispatch).tables.maps
      (CplaneNetdev.init nodes dispatch).os := by
  refine ⟨tapInvariant_init nodes dispatch, ?_, ?_⟩
  · intro s f
    exact ⟨nofun, nofun⟩
  · intro s k
    exact ⟨nofun, nofun⟩

theorem eraseStable_consistent : EraseStable Consistent where
  invariant h := h.invariant
  erase h hf hk := ⟨h.invariant.erase hf hk, h.fds.erase hf, h.ifIndexes.erase hk⟩

theorem Consistent.insert (h : Consistent m os) (hs : m.fdOf s = none) (hf : f ∉ os.tapFds)
    (hk : k ∉ os.devices.map Netdev.ifindex) (name : Text) :
    Consistent (m.insert s f k) (os.addTap f ⟨k, name⟩) where
  invariant := h.invariant.insert hf hk name
  fds := h.fds.insert hs (h.invariant.swOfFd_of_notMem hf)
  ifIndexes := h.ifIndexes.insert (h.invariant.paired s hs) (h.invariant.swOfIfIndex_of_notMem hk)

theorem TapInvariant.leaks_of_rebind {f₀ : UInt32} (h : TapInvariant m os)
    (hs : m.fdOf s = some f₀) (hf : f ∉ os.tapFds) (hk : k ∉ os.devices.map Netdev.ifindex)
    (name : Text) : Leaks (m.insert s f k) (os.addTap f ⟨k, name⟩) where
  invariant := h.insert hf hk name
  stale := ⟨f₀, stale_of_rebind h.fds hs (h.swOfFd_of_notMem hf)⟩

theorem tapStable_leaks : TapStable Leaks where
  invariant h := h.invariant
  insert name h hf hk := by
    obtain ⟨f₀, hstale⟩ := h.stale
    exact ⟨h.invariant.insert hf hk name, f₀, hstale.insert (h.invariant.swOfFd_of_notMem hf)⟩
  erase h hf hk := by
    obtain ⟨f₀, hstale⟩ := h.stale
    exact ⟨h.invariant.erase hf hk, f₀, hstale.erase h.invariant.fds hf⟩

/-- If the connect succeeds, the interface had no tap before it. -/
def UntappedConnect (kernel : Kernel) (v : CplaneNetdev) (hw : HwInterface) : Prop :=
  (kernel.answer v.os hw).tap ≠ none → v.tables.maps.fdOf hw.hwIfIndex = none

/-- Every successful connect of the loop over these interfaces is of one without a tap. -/
def UntappedConnects (kernel : Kernel) (pool : HwPool) (v : CplaneNetdev) : List UInt32 → Prop
  | [] => True
  | i :: rest =>
    match vnetGetHwInterface pool i with
    | none => UntappedConnects kernel pool v rest
    | some hw =>
      if hw.ethernet then
        UntappedConnect kernel v hw ∧
          ((tapInjectTapConnect kernel v hw).2 = none →
            UntappedConnects kernel pool (tapInjectTapConnect kernel v hw).1 rest)
      else UntappedConnects kernel pool v rest

/-- Every successful connect of the history is of an interface without a tap. -/
def UntappedRun (v : CplaneNetdev) : List TapStep → Prop
  | [] => True
  | s :: rest =>
    UntappedConnects s.kernel s.pool (s.connects v).1 (s.connects v).2 ∧
      UntappedRun (tapStep v s) rest

/-- The two outcomes: `U` and consistent tables, or not `U` and a leak. -/
def Decided (U : Prop) (v : CplaneNetdev) : Prop :=
  (U ∧ Consistent v.tables.maps v.os) ∨ (¬ U ∧ Leaks v.tables.maps v.os)

theorem connect_decided (kernel : Kernel) {hw : HwInterface} (hs : hw.hwIfIndex ≠ noIndex)
    (h : Consistent v.tables.maps v.os) :
    Decided (UntappedConnect kernel v hw) (tapInjectTapConnect kernel v hw).1 := by
  rcases tapInjectTapConnect_cases kernel v hw with
    ⟨hnone, names, err, heq⟩ | ⟨f, k, name, names, htap, heq⟩
  · rw [heq]
    exact Or.inl ⟨fun hsome => absurd hnone hsome, h⟩
  · obtain ⟨hf, -, hk, -⟩ := (kernel.fresh v.os hw).tap htap
    have hsome : (kernel.answer v.os hw).tap ≠ none := by
      rw [htap]
      exact nofun
    have hmaps := maps_connected kernel v hs htap name names
    rw [heq]
    cases hfd : v.tables.maps.fdOf hw.hwIfIndex with
    | none =>
      refine Or.inl ⟨fun _ => hfd, ?_⟩
      rw [hmaps]
      exact h.insert hfd hf hk name
    | some f₀ =>
      refine Or.inr ⟨fun hu => ?_, ?_⟩
      · rw [hu hsome] at hfd
        cases hfd
      · rw [hmaps]
        exact h.invariant.leaks_of_rebind hfd hf hk name

theorem connectInterfaces_decided (kernel : Kernel) (pool : HwPool) (indices : List UInt32)
    (h : Consistent v.tables.maps v.os) :
    Decided (UntappedConnects kernel pool v indices)
      (connectInterfaces kernel pool v indices).1 := by
  induction indices generalizing v with
  | nil => exact Or.inl ⟨trivial, h⟩
  | cons i rest ih =>
    unfold UntappedConnects connectInterfaces
    cases hfind : vnetGetHwInterface pool i with
    | none => exact ih h
    | some hw =>
      by_cases heth : hw.ethernet = true
      · simp only [heth, if_true]
        have hone := connect_decided kernel (vnetGetHwInterface_mem hfind) h
        rcases hres : tapInjectTapConnect kernel v hw with ⟨v', _ | err⟩ <;> rw [hres] at hone
        · rcases hone with ⟨hu, hcons⟩ | ⟨hu, hleaks⟩
          · rcases ih hcons with ⟨hrest, hfinal⟩ | ⟨hrest, hfinal⟩
            · exact Or.inl ⟨⟨hu, fun _ => hrest⟩, hfinal⟩
            · exact Or.inr ⟨fun hall => hrest (hall.2 rfl), hfinal⟩
          · exact Or.inr ⟨fun hall => hu hall.1,
              tapStable_leaks.connectInterfaces kernel pool rest hleaks⟩
        · rcases hone with ⟨hu, hcons⟩ | ⟨hu, hleaks⟩
          · exact Or.inl ⟨⟨hu, nofun⟩, hcons⟩
          · exact Or.inr ⟨fun hall => hu hall.1, hleaks⟩
      · simp only [heth]
        exact ih h

theorem tapStep_decided (s : TapStep) (h : Consistent v.tables.maps v.os) :
    Decided (UntappedConnects s.kernel s.pool (s.connects v).1 (s.connects v).2)
      (tapStep v s) := by
  obtain ⟨ds, htables, hos⟩ := tapStep_tables v s
  obtain ⟨hqt, hqos⟩ := s.connects_tables v
  rw [← hqt, ← hqos] at h
  unfold Decided
  rw [htables, hos]
  rcases connectInterfaces_decided s.kernel s.pool (s.connects v).2 h with
    ⟨hu, hcons⟩ | ⟨hu, hleaks⟩
  · exact Or.inl ⟨hu, eraseStable_consistent.disconnectInterfaces ds hcons⟩
  · exact Or.inr ⟨hu, tapStable_leaks.disconnectInterfaces ds hleaks⟩

theorem tapRun_decided (steps : List TapStep) (h : Consistent v.tables.maps v.os) :
    Decided (UntappedRun v steps) (tapRun v steps) := by
  induction steps generalizing v with
  | nil => exact Or.inl ⟨trivial, h⟩
  | cons s rest ih =>
    rcases tapStep_decided s h with ⟨hu, hcons⟩ | ⟨hu, hleaks⟩
    · rcases ih hcons with ⟨hrest, hfinal⟩ | ⟨hrest, hfinal⟩
      · exact Or.inl ⟨⟨hu, hrest⟩, hfinal⟩
      · exact Or.inr ⟨fun hall => hrest hall.2, hfinal⟩
    · exact Or.inr ⟨fun hall => hu hall.1, tapStable_leaks.run rest hleaks⟩

/-- In every state that commands reach from the initialised plugin, the tables are
inverse and know every open tap exactly if each successful connect on the way was of
an interface that had no tap. -/
theorem tapTables_inverse_iff (nodes : GraphNodes) (dispatch : Dispatch)
    (steps : List TapStep) :
    MutuallyInverse (tapRun (CplaneNetdev.init nodes dispatch) steps).tables.maps
        (tapRun (CplaneNetdev.init nodes dispatch) steps).os ↔
      UntappedRun (CplaneNetdev.init nodes dispatch) steps := by
  rcases tapRun_decided steps (consistent_init nodes dispatch) with
    ⟨hu, hcons⟩ | ⟨hu, hleaks⟩
  · exact ⟨fun _ => hu, fun _ => hcons.mutuallyInverse⟩
  · exact ⟨fun hinv => absurd hinv hleaks.not_mutuallyInverse, fun hall => absurd hall hu⟩

/-- Created twice, interface 1 has tap 11, while descriptor 10 and device 3 of the first
tap still lead to it: the tables are not inverse. -/
theorem tapTables_created_twice :
    let v := tapRun freshPlugin [createOne 10 3, createOne 11 4]
    v.tables.maps.fdOf 1 = some 11 ∧ v.tables.maps.swOfFd 10 = some 1 ∧
      v.tables.maps.swOfIfIndex 3 = some 1 ∧ v.os.tapFds = [11, 10] ∧
      ¬ MutuallyInverse v.tables.maps v.os := by
  have hfd : (tapRun freshPlugin [createOne 10 3, createOne 11 4]).tables.maps.fdOf 1 =
      some 11 := rfl
  have hsw : (tapRun freshPlugin [createOne 10 3, createOne 11 4]).tables.maps.swOfFd 10 =
      some 1 := rfl
  refine ⟨hfd, hsw, rfl, rfl, fun hinv => ?_⟩
  have hback := (hinv.fds 1 10).mpr hsw
  rw [hfd] at hback
  exact absurd hback (by decide)

end Routerd
