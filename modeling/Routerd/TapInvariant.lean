import Routerd.TapTables

/-!
# What holds of the tap tables in every state

A connect inserts a tap that is new to the kernel and a disconnect deletes one the
tables hold. A property that both keep is kept by every command, and so by every
history of commands; `TapInvariant` is the one that follows from the freshness of
the kernel's answers alone.
-/

namespace Routerd
open NumeralText PartialInverse

/-- What holds of the tables and the kernel whatever the commands: the tables by
descriptor and by device index know every tap of the tables by interface, a tap that
is known is open, and one that is open is known. -/
structure TapInvariant (m : TapMaps) (os : Os) : Prop where
  fds : Tracks m.fdOf m.swOfFd
  ifIndexes : Tracks m.ifIndexOf m.swOfIfIndex
  known_open : ∀ f s, m.swOfFd f = some s → f ∈ os.tapFds
  open_known : ∀ f ∈ os.tapFds, ∃ s, m.swOfFd f = some s
  device : ∀ s f, m.fdOf s = some f → ∃ d, ⟨f, some d⟩ ∈ os.taps ∧ m.ifIndexOf s = some d.ifindex
  paired : ∀ s, m.fdOf s = none → m.ifIndexOf s = none
  live : ∀ k s, m.swOfIfIndex k = some s → ∃ d ∈ os.devices, d.ifindex = k
  nodup : os.tapFds.Nodup

theorem tapInvariant_init (nodes : GraphNodes) (dispatch : Dispatch) :
    TapInvariant (CplaneNetdev.init nodes dispatch).tables.maps
      (CplaneNetdev.init nodes dispatch).os := by
  constructor
  · intro s f h
    cases h
  · intro s k h
    cases h
  · intro f s h
    cases h
  · intro f hf
    cases hf
  · intro s f h
    cases h
  · intro s _
    rfl
  · intro k s h
    cases h
  · exact List.nodup_nil

namespace TapInvariant

variable {m : TapMaps} {os : Os} {s f k : UInt32}

theorem swOfFd_of_notMem (h : TapInvariant m os) (hf : f ∉ os.tapFds) : m.swOfFd f = none := by
  cases hs : m.swOfFd f with
  | none => rfl
  | some s => exact absurd (h.known_open f s hs) hf

theorem swOfIfIndex_of_notMem (h : TapInvariant m os)
    (hk : k ∉ os.devices.map Netdev.ifindex) : m.swOfIfIndex k = none := by
  cases hs : m.swOfIfIndex k with
  | none => rfl
  | some s =>
    obtain ⟨d, hd, rfl⟩ := h.live k s hs
    exact absurd (List.mem_map_of_mem hd) hk

theorem insert (h : TapInvariant m os) (hf : f ∉ os.tapFds)
    (hk : k ∉ os.devices.map Netdev.ifindex) (name : Text) :
    TapInvariant (m.insert s f k) (os.addTap f ⟨k, name⟩) := by
  have hsf := h.swOfFd_of_notMem hf
  have hsk := h.swOfIfIndex_of_notMem hk
  constructor
  · exact h.fds.insert hsf
  · exact h.ifIndexes.insert hsk
  · intro f' s' hfs
    rcases update_some_eq_some hfs with ⟨rfl, -⟩ | ⟨-, hfs⟩
    · exact List.mem_cons_self
    · exact List.mem_cons_of_mem _ (h.known_open f' s' hfs)
  · intro f' hmem
    by_cases hff : f' = f
    · subst hff
      exact ⟨s, Function.update_self _ _ _⟩
    · rcases List.mem_cons.mp hmem with heq | hmem
      · exact absurd heq hff
      · obtain ⟨s', hs'⟩ := h.open_known f' hmem
        exact ⟨s', (Function.update_of_ne hff _ _).trans hs'⟩
  · intro s' f' hfs
    rcases update_some_eq_some hfs with ⟨rfl, rfl⟩ | ⟨hss, hfs⟩
    · exact ⟨⟨k, name⟩, List.mem_cons_self, Function.update_self _ _ _⟩
    · obtain ⟨d, hd, hi⟩ := h.device s' f' hfs
      exact ⟨d, List.mem_cons_of_mem _ hd, (Function.update_of_ne hss _ _).trans hi⟩
  · intro s' hs'
    by_cases hss : s' = s
    · subst hss
      rw [TapMaps.insert_fdOf, Function.update_self] at hs'
      cases hs'
    · rw [TapMaps.insert_fdOf, Function.update_of_ne hss] at hs'
      rw [TapMaps.insert_ifIndexOf, Function.update_of_ne hss]
      exact h.paired s' hs'
  · intro k' s' hks
    rcases update_some_eq_some hks with ⟨hkk, -⟩ | ⟨-, hks⟩
    · exact ⟨⟨k, name⟩, List.mem_cons_self, hkk.symm⟩
    · obtain ⟨d, hd, hi⟩ := h.live k' s' hks
      exact ⟨d, List.mem_cons_of_mem _ hd, hi⟩
  · exact List.nodup_cons.mpr ⟨hf, h.nodup⟩

theorem erase (h : TapInvariant m os) (hf : m.fdOf s = some f) (hk : m.ifIndexOf s = some k) :
    TapInvariant (m.erase s f k) (os.close f) := by
  constructor
  · exact h.fds.erase (h.fds hf)
  · exact h.ifIndexes.erase (h.ifIndexes hk)
  · intro f' s' hfs
    obtain ⟨hff, hfs⟩ := update_none_eq_some hfs
    exact Os.mem_tapFds_close.mpr ⟨h.known_open f' s' hfs, hff⟩
  · intro f' hmem
    obtain ⟨hmem, hff⟩ := Os.mem_tapFds_close.mp hmem
    obtain ⟨s', hs'⟩ := h.open_known f' hmem
    exact ⟨s', (Function.update_of_ne hff _ _).trans hs'⟩
  · intro s' f' hfs
    obtain ⟨hss, hold⟩ := update_none_eq_some hfs
    obtain ⟨d, hd, hi⟩ := h.device s' f' hold
    have hff : f' ≠ f := by
      rintro rfl
      exact hss (h.fds.injective hold hf)
    exact ⟨d, Os.mem_taps_close.mpr ⟨hd, hff⟩, (Function.update_of_ne hss _ _).trans hi⟩
  · intro s' hs'
    by_cases hss : s' = s
    · rw [TapMaps.erase_ifIndexOf, hss, Function.update_self]
    · rw [TapMaps.erase_fdOf, Function.update_of_ne hss] at hs'
      rw [TapMaps.erase_ifIndexOf, Function.update_of_ne hss]
      exact h.paired s' hs'
  · intro k' s' hks
    obtain ⟨hkk, hks⟩ := update_none_eq_some hks
    obtain ⟨d, hd, rfl⟩ := h.live k' s' hks
    obtain ⟨f', hf'⟩ := Os.mem_devices.mp hd
    -- the closed descriptor owned the device of the deleted tap and no other
    have hff : f' ≠ f := by
      rintro rfl
      obtain ⟨d₀, hd₀, hi⟩ := h.device s f' hf
      have heq : (⟨f', some d⟩ : TunFile) = ⟨f', some d₀⟩ :=
        List.inj_on_of_nodup_map h.nodup hf' hd₀ rfl
      cases heq
      rw [hk] at hi
      exact hkk (Option.some.inj hi).symm
    exact ⟨d, Os.mem_devices.mpr ⟨f', Os.mem_taps_close.mpr ⟨hf', hff⟩⟩, rfl⟩
  · exact Os.nodup_tapFds_close h.nodup f

end TapInvariant

/-- A property of the tables and the kernel that every deleted tap keeps. -/
structure EraseStable (P : TapMaps → Os → Prop) : Prop where
  invariant : ∀ {m os}, P m os → TapInvariant m os
  erase : ∀ {m os s f k}, P m os → m.fdOf s = some f → m.ifIndexOf s = some k →
    P (m.erase s f k) (os.close f)

/-- A property that every new tap keeps as well, whatever interface it is for. -/
structure TapStable (P : TapMaps → Os → Prop) : Prop extends EraseStable P where
  insert : ∀ {m os s f k} (name : Text), P m os → f ∉ os.tapFds →
    k ∉ os.devices.map Netdev.ifindex → P (m.insert s f k) (os.addTap f ⟨k, name⟩)

theorem tapStable_tapInvariant : TapStable TapInvariant :=
  ⟨⟨id, fun h hf hk => h.erase hf hk⟩, fun name h hf hk => h.insert hf hk name⟩

namespace EraseStable

variable {P : TapMaps → Os → Prop} (hP : EraseStable P) {v : CplaneNetdev}
include hP

theorem disconnect (s : UInt32) (h : P v.tables.maps v.os) :
    P (tapInjectTapDisconnect v s).1.tables.maps (tapInjectTapDisconnect v s).1.os := by
  obtain ⟨t, ht, ⟨-, heq⟩ | ⟨f, hf, heq⟩⟩ := tapInjectTapDisconnect_cases v s
  · rw [heq, ht]
    exact h
  · obtain ⟨d, -, hk⟩ := (hP.invariant h).device s f hf
    rw [heq, maps_deleteTap t (ht ▸ hf) (ht ▸ hk), ht]
    exact hP.erase h hf hk

theorem disconnectInterfaces (indices : List UInt32) (h : P v.tables.maps v.os) :
    P (disconnectInterfaces v indices).tables.maps (disconnectInterfaces v indices).os := by
  induction indices generalizing v with
  | nil => exact h
  | cons i rest ih => exact ih (hP.disconnect i h)

end EraseStable

theorem vnetGetHwInterface_mem {pool : HwPool} {i : UInt32} {hw : HwInterface}
    (h : vnetGetHwInterface pool i = some hw) : hw.hwIfIndex ≠ noIndex :=
  pool.ne_noIndex hw (List.mem_of_find?_eq_some h)

theorem maps_connected (kernel : Kernel) (v : CplaneNetdev) {hw : HwInterface} {f k : UInt32}
    (hs : hw.hwIfIndex ≠ noIndex) (htap : (kernel.answer v.os hw).tap = some (f, k))
    (name : Text) (names : NameCounters) :
    (connected v hw.hwIfIndex f k name names).tables.maps =
      v.tables.maps.insert hw.hwIfIndex f k := by
  obtain ⟨-, hf, -, hk⟩ := (kernel.fresh v.os hw).tap htap
  exact maps_insertTap v.tables hs hf hk

namespace TapStable

variable {P : TapMaps → Os → Prop} (hP : TapStable P) {v : CplaneNetdev}
include hP

theorem connect (kernel : Kernel) {hw : HwInterface} (hs : hw.hwIfIndex ≠ noIndex)
    (h : P v.tables.maps v.os) :
    P (tapInjectTapConnect kernel v hw).1.tables.maps (tapInjectTapConnect kernel v hw).1.os := by
  rcases tapInjectTapConnect_cases kernel v hw with
    ⟨-, names, err, heq⟩ | ⟨f, k, name, names, htap, heq⟩
  · rw [heq]
    exact h
  · rw [heq, maps_connected kernel v hs htap]
    obtain ⟨hf, -, hk, -⟩ := (kernel.fresh v.os hw).tap htap
    exact hP.insert name h hf hk

theorem connectInterfaces (kernel : Kernel) (pool : HwPool) (indices : List UInt32)
    (h : P v.tables.maps v.os) :
    P (connectInterfaces kernel pool v indices).1.tables.maps
      (connectInterfaces kernel pool v indices).1.os := by
  induction indices generalizing v with
  | nil => exact h
  | cons i rest ih =>
    unfold Routerd.connectInterfaces
    cases hfind : vnetGetHwInterface pool i with
    | none => exact ih h
    | some hw =>
      have hconn := hP.connect kernel (vnetGetHwInterface_mem hfind) h
      by_cases heth : hw.ethernet = true
      · simp only [heth, if_true]
        rcases hres : tapInjectTapConnect kernel v hw with ⟨v', _ | err⟩
        · rw [hres] at hconn
          exact ih hconn
        · rw [hres] at hconn
          exact hconn
      · simp only [heth]
        exact ih h

end TapStable

theorem queueAllInterfaces_tables (pool : HwPool) (v : CplaneNetdev) (enable : Bool) :
    (queueAllInterfaces pool v enable).tables = v.tables ∧
      (queueAllInterfaces pool v enable).os = v.os := by
  unfold queueAllInterfaces tapInjectEnable tapInjectDisable
  cases enable <;> cases tapInjectIsEnabled v <;> exact ⟨rfl, rfl⟩

theorem tapInjectEnableDisableAllInterfaces_state (kernel : Kernel) (pool : HwPool)
    (v : CplaneNetdev) (enable : Bool) :
    (tapInjectEnableDisableAllInterfaces kernel pool v enable).1 =
      (tapInjectIfaceIsr kernel pool (queueAllInterfaces pool v enable)).1 := by
  unfold tapInjectEnableDisableAllInterfaces
  rcases tapInjectIfaceIsr kernel pool (queueAllInterfaces pool v enable) with ⟨v', _ | _⟩ <;> rfl

theorem createCplaneNetdev_state (kernel : Kernel) (pool : HwPool) (v : CplaneNetdev)
    (id : UInt32) :
    (createCplaneNetdev kernel pool v id).1 = (connectInterfaces kernel pool v [id]).1 := by
  unfold createCplaneNetdev connectInterfaces
  cases vnetGetHwInterface pool id with
  | none => rfl
  | some hw =>
    by_cases heth : hw.ethernet = true
    · simp only [heth, if_true]
      rcases tapInjectTapConnect kernel v hw with ⟨v', _ | err⟩ <;> rfl
    · simp only [heth]
      rfl

/-- The state in which a command starts to connect interfaces, and which ones it tries. -/
def TapStep.connects (s : TapStep) (v : CplaneNetdev) : CplaneNetdev × List UInt32 :=
  match s.command with
  | .enableDisableAll enable =>
    let v := queueAllInterfaces s.pool v enable
    (v, v.interfacesToEnable)
  | .create id => (v, [id])

theorem TapStep.connects_tables (s : TapStep) (v : CplaneNetdev) :
    (s.connects v).1.tables = v.tables ∧ (s.connects v).1.os = v.os := by
  unfold TapStep.connects
  cases s.command with
  | enableDisableAll enable => exact queueAllInterfaces_tables s.pool v enable
  | create id => exact ⟨rfl, rfl⟩

theorem tapStep_tables (v : CplaneNetdev) (s : TapStep) :
    ∃ ds, (tapStep v s).tables = (disconnectInterfaces (connectInterfaces s.kernel s.pool
        (s.connects v).1 (s.connects v).2).1 ds).tables ∧
      (tapStep v s).os = (disconnectInterfaces (connectInterfaces s.kernel s.pool
        (s.connects v).1 (s.connects v).2).1 ds).os := by
  unfold tapStep TapStep.connects
  cases s.command with
  | enableDisableAll enable =>
    refine ⟨(connectInterfaces s.kernel s.pool (queueAllInterfaces s.pool v enable)
      (queueAllInterfaces s.pool v enable).interfacesToEnable).1.interfacesToDisable, ?_⟩
    dsimp only
    rw [tapInjectEnableDisableAllInterfaces_state]
    exact ⟨rfl, rfl⟩
  | create id =>
    refine ⟨[], ?_⟩
    dsimp only
    rw [createCplaneNetdev_state]
    exact ⟨rfl, rfl⟩

theorem TapStable.step {P : TapMaps → Os → Prop} (hP : TapStable P) {v : CplaneNetdev}
    (s : TapStep) (h : P v.tables.maps v.os) : P (tapStep v s).tables.maps (tapStep v s).os := by
  obtain ⟨ds, ht, hos⟩ := tapStep_tables v s
  obtain ⟨hqt, hqos⟩ := s.connects_tables v
  rw [ht, hos]
  apply hP.disconnectInterfaces
  apply hP.connectInterfaces
  rw [hqt, hqos]
  exact h

theorem TapStable.run {P : TapMaps → Os → Prop} (hP : TapStable P) {v : CplaneNetdev}
    (steps : List TapStep) (h : P v.tables.maps v.os) :
    P (tapRun v steps).tables.maps (tapRun v steps).os := by
  induction steps generalizing v with
  | nil => exact h
  | cons s rest ih => exact ih (hP.step s h)

end Routerd
