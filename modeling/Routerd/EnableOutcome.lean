import Routerd.TapTableInverse
import Routerd.TapInjectRequests

/-!
# How a request to enable ends

The loop over the interfaces stops at the first connect that fails, and the handler
then disables everything again. Either way no descriptor is lost: the request ends as
if nothing had happened, or with exactly the taps whose devices could be made.
-/

namespace Routerd
open NumeralText PartialInverse

/-- VPP's interfaces at a request; an index is a position in the pool. -/
structure HwInterfaces extends HwPool where
  nodup : (interfaces.map HwInterface.hwIfIndex).Nodup

def TapMaps.empty : TapMaps := ⟨fun _ => none, fun _ => none, fun _ => none, fun _ => none⟩

/-- No tap is connected and no work is queued. -/
structure NoTap (v : CplaneNetdev) : Prop where
  maps : v.tables.maps = TapMaps.empty
  taps : v.os.taps = []
  toEnable : v.interfacesToEnable = []
  toDisable : v.interfacesToDisable = []

/-- The connects the loop makes, each with the answers of the kernel. -/
def connectAttempts (kernel : Kernel) (pool : HwPool) (v : CplaneNetdev) :
    List UInt32 → List (HwInterface × ConnectCalls)
  | [] => []
  | i :: rest =>
    match vnetGetHwInterface pool i with
    | none => connectAttempts kernel pool v rest
    | some hw =>
      if hw.ethernet then
        (hw, kernel.answer v.os hw) ::
          match tapInjectTapConnect kernel v hw with
          | (_, some _) => []
          | (v, none) => connectAttempts kernel pool v rest
      else connectAttempts kernel pool v rest

/-! ### The loop -/

section Loop

variable {kernel : Kernel} {pool : HwPool} {v : CplaneNetdev} {hw : HwInterface}

theorem vnetGetHwInterface_index {i : UInt32} (h : vnetGetHwInterface pool i = some hw) :
    hw.hwIfIndex = i := by
  have hfound := List.find?_some h
  exact of_decide_eq_true hfound

theorem connect_tap_of_ok (h : (tapInjectTapConnect kernel v hw).2 = none) :
    (kernel.answer v.os hw).tunSetIff = none ∨ (kernel.answer v.os hw).tap ≠ none := by
  generalize hc : kernel.answer v.os hw = c
  obtain ⟨openTun, tunSetIff, fionbio, socket, setHwAddr, getIfIndex⟩ := c
  simp only [tapInjectTapConnect, hc] at h
  cases openTun with
  | none => cases h
  | some f =>
    cases tunSetIff with
    | none => exact Or.inl rfl
    | some k =>
      refine Or.inr ?_
      cases fionbio <;> cases socket <;> cases setHwAddr <;> cases getIfIndex <;>
        first | exact Option.some_ne_none (f, k) | cases h

/-- The two tables by interface hold, for each interface, the last tap of the attempts,
and what they held before where there is none. -/
def TapsAdded (attempts : List (HwInterface × ConnectCalls)) (m m' : TapMaps) : Prop :=
  ∀ s, ((∀ a ∈ attempts, a.1.hwIfIndex = s → a.2.tap = none) ∧
      m'.fdOf s = m.fdOf s ∧ m'.ifIndexOf s = m.ifIndexOf s) ∨
    ∃ a ∈ attempts, ∃ f k, a.1.hwIfIndex = s ∧ a.2.tap = some (f, k) ∧
      m'.fdOf s = some f ∧ m'.ifIndexOf s = some k

theorem TapsAdded.refl (m : TapMaps) : TapsAdded [] m m :=
  fun _ => Or.inl ⟨nofun, rfl, rfl⟩

theorem TapsAdded.cons {a : HwInterface × ConnectCalls}
    {as : List (HwInterface × ConnectCalls)} {m m' m'' : TapMaps} (h : TapsAdded [a] m m')
    (h' : TapsAdded as m' m'') : TapsAdded (a :: as) m m'' := by
  intro s
  rcases h' s with ⟨hnone', hfd', hif'⟩ | ⟨b, hb, f, k, hs, htap, hfd', hif'⟩
  · rcases h s with ⟨hnone, hfd, hif⟩ | ⟨b, hb, f, k, hs, htap, hfd, hif⟩
    · refine Or.inl ⟨fun b hb => ?_, hfd'.trans hfd, hif'.trans hif⟩
      rcases List.mem_cons.mp hb with rfl | hb
      · exact hnone b List.mem_cons_self
      · exact hnone' b hb
    · rw [List.mem_singleton.mp hb] at hs htap
      exact Or.inr ⟨a, List.mem_cons_self, f, k, hs, htap, hfd'.trans hfd, hif'.trans hif⟩
  · exact Or.inr ⟨b, List.mem_cons_of_mem a hb, f, k, hs, htap, hfd', hif'⟩

theorem TapsAdded.attempt {attempts : List (HwInterface × ConnectCalls)} {m : TapMaps}
    (h : TapsAdded attempts TapMaps.empty m) {s : UInt32}
    (hs : m.fdOf s ≠ none ∨ m.ifIndexOf s ≠ none) :
    ∃ a ∈ attempts, ∃ f k, a.1.hwIfIndex = s ∧ a.2.tap = some (f, k) ∧
      m.fdOf s = some f ∧ m.ifIndexOf s = some k := by
  rcases h s with ⟨-, hfd, hif⟩ | htap
  · rcases hs with hs | hs
    · exact absurd hfd hs
    · exact absurd hif hs
  · exact htap

/-- With one attempt an interface, the tables hold the tap of each attempt that got one. -/
theorem TapsAdded.of_tap {attempts : List (HwInterface × ConnectCalls)} {m m' : TapMaps}
    (h : TapsAdded attempts m m')
    (hunique : ∀ a ∈ attempts, ∀ b ∈ attempts, a.1.hwIfIndex = b.1.hwIfIndex → a = b)
    {a : HwInterface × ConnectCalls} (ha : a ∈ attempts) {f k : UInt32}
    (htap : a.2.tap = some (f, k)) :
    m'.fdOf a.1.hwIfIndex = some f ∧ m'.ifIndexOf a.1.hwIfIndex = some k := by
  rcases h a.1.hwIfIndex with ⟨hnone, -, -⟩ | ⟨b, hb, f', k', hidx, htap', hfd, hif⟩
  · rw [hnone a ha rfl] at htap
    cases htap
  · rw [hunique b hb a ha hidx, htap] at htap'
    cases htap'
    exact ⟨hfd, hif⟩

section Connected

variable {attempts : List (HwInterface × ConnectCalls)} {m : TapMaps}

theorem TapsAdded.fdOf_iff (h : TapsAdded attempts TapMaps.empty m)
    (hunique : ∀ a ∈ attempts, ∀ b ∈ attempts, a.1.hwIfIndex = b.1.hwIfIndex → a = b)
    (hgot : ∀ a ∈ attempts, a.2.tunSetIff ≠ none → ∃ f k, a.2.tap = some (f, k))
    (s f : UInt32) : m.fdOf s = some f ↔
      ∃ a ∈ attempts, a.1.hwIfIndex = s ∧ a.2.tunSetIff ≠ none ∧ a.2.openTun = some f := by
  constructor
  · intro hf
    obtain ⟨a, ha, f', k, hidx, hfk, hfd, -⟩ := h.attempt (Or.inl (by rw [hf]; simp))
    obtain ⟨hopen, hset⟩ := ConnectCalls.tap_eq_some hfk
    exact ⟨a, ha, hidx, by rw [hset]; simp, hopen.trans (hfd.symm.trans hf)⟩
  · rintro ⟨a, ha, rfl, hset, hopen⟩
    obtain ⟨f', k, hfk⟩ := hgot a ha hset
    rw [(h.of_tap hunique ha hfk).1, ← (ConnectCalls.tap_eq_some hfk).1, hopen]

theorem TapsAdded.ifIndexOf_iff (h : TapsAdded attempts TapMaps.empty m)
    (hunique : ∀ a ∈ attempts, ∀ b ∈ attempts, a.1.hwIfIndex = b.1.hwIfIndex → a = b)
    (hgot : ∀ a ∈ attempts, a.2.tunSetIff ≠ none → ∃ f k, a.2.tap = some (f, k))
    (s k : UInt32) : m.ifIndexOf s = some k ↔
      ∃ a ∈ attempts, a.1.hwIfIndex = s ∧ a.2.tunSetIff = some k := by
  constructor
  · intro hk
    obtain ⟨a, ha, f, k', hidx, hfk, -, hif⟩ := h.attempt (Or.inr (by rw [hk]; simp))
    exact ⟨a, ha, hidx, (ConnectCalls.tap_eq_some hfk).2.trans (hif.symm.trans hk)⟩
  · rintro ⟨a, ha, rfl, hset⟩
    obtain ⟨f, k', hfk⟩ := hgot a ha (by rw [hset]; simp)
    rw [(h.of_tap hunique ha hfk).2, ← (ConnectCalls.tap_eq_some hfk).2, hset]

end Connected

theorem connect_tapsAdded (kernel : Kernel) (v : CplaneNetdev) (hs : hw.hwIfIndex ≠ noIndex) :
    TapsAdded [(hw, kernel.answer v.os hw)] v.tables.maps
      (tapInjectTapConnect kernel v hw).1.tables.maps := by
  intro s
  rcases tapInjectTapConnect_cases kernel v hw with
    ⟨hnone, names, err, heq⟩ | ⟨f, k, name, names, htap, heq⟩
  · rw [heq]
    refine Or.inl ⟨fun a ha _ => ?_, rfl, rfl⟩
    rw [List.mem_singleton.mp ha]
    exact hnone
  · rw [heq, maps_connected kernel v hs htap]
    by_cases hsw : s = hw.hwIfIndex
    · subst hsw
      exact Or.inr ⟨_, List.mem_cons_self, f, k, rfl, htap, Function.update_self _ _ _,
        Function.update_self _ _ _⟩
    · refine Or.inl ⟨fun a ha hidx => ?_, Function.update_of_ne hsw _ _,
        Function.update_of_ne hsw _ _⟩
      rw [List.mem_singleton.mp ha] at hidx
      exact absurd hidx.symm hsw

theorem connectInterfaces_tapsAdded (indices : List UInt32) :
    TapsAdded (connectAttempts kernel pool v indices) v.tables.maps
      (connectInterfaces kernel pool v indices).1.tables.maps := by
  fun_induction connectInterfaces kernel pool v indices with
  | case1 v => exact TapsAdded.refl _
  | case2 v i rest hfind ih =>
    simp only [connectAttempts, hfind]
    exact ih
  | case3 v i rest hw hfind heth w err hres =>
    have hone := connect_tapsAdded kernel v (vnetGetHwInterface_mem hfind)
    simp only [connectAttempts, hfind, heth, if_true, hres]
    rw [hres] at hone
    exact hone
  | case4 v i rest hw hfind heth w hres ih =>
    have hone := connect_tapsAdded kernel v (vnetGetHwInterface_mem hfind)
    simp only [connectAttempts, hfind, heth, if_true, hres]
    rw [hres] at hone
    exact hone.cons ih
  | case5 v i rest hw hfind heth ih =>
    simp only [connectAttempts, hfind, heth]
    exact ih

theorem connectAttempts_index (indices : List UInt32) :
    ∀ a ∈ connectAttempts kernel pool v indices, a.1.hwIfIndex ∈ indices := by
  fun_induction connectAttempts kernel pool v indices with
  | case1 v => exact nofun
  | case2 v i rest hfind ih => exact fun a ha => List.mem_cons_of_mem i (ih a ha)
  | case3 v i rest hw hfind heth ih =>
    intro a ha
    rcases List.mem_cons.mp ha with rfl | ha
    · rw [vnetGetHwInterface_index hfind]
      exact List.mem_cons_self
    · rcases hres : tapInjectTapConnect kernel v hw with ⟨w, _ | err⟩ <;> rw [hres] at ha
      · exact List.mem_cons_of_mem i (ih w a ha)
      · cases ha
  | case4 v i rest hw hfind heth ih => exact fun a ha => List.mem_cons_of_mem i (ih a ha)

theorem connectAttempts_of_ok (indices : List UInt32)
    (hok : (connectInterfaces kernel pool v indices).2 = none) :
    (connectAttempts kernel pool v indices).map Prod.fst =
        (indices.filterMap (vnetGetHwInterface pool)).filter HwInterface.ethernet ∧
      ∀ a ∈ connectAttempts kernel pool v indices, a.2.tunSetIff = none ∨ a.2.tap ≠ none := by
  fun_induction connectInterfaces kernel pool v indices with
  | case1 v => exact ⟨rfl, nofun⟩
  | case2 v i rest hfind ih =>
    simp only [connectAttempts, hfind, List.filterMap_cons]
    exact ih hok
  | case3 v i rest hw hfind heth w err hres => cases hok
  | case4 v i rest hw hfind heth w hres ih =>
    obtain ⟨hall, htaps⟩ := ih hok
    simp only [connectAttempts, hfind, heth, if_true, hres, List.filterMap_cons, List.filter_cons,
      List.map_cons]
    refine ⟨congrArg _ hall, fun a ha => ?_⟩
    rcases List.mem_cons.mp ha with rfl | ha
    · exact connect_tap_of_ok (by rw [hres])
    · exact htaps a ha
  | case5 v i rest hw hfind heth ih =>
    simp only [connectAttempts, hfind, heth, List.filterMap_cons, List.filter_cons]
    exact ih hok

end Loop

/-! ### No descriptor is lost -/

/-- Consistent tables, the sockets `sockets` open and none of them a tap. -/
structure CleanTaps (sockets : List UInt32) (m : TapMaps) (os : Os) : Prop where
  consistent : Consistent m os
  sockets_eq : os.sockets = sockets
  apart : ∀ f ∈ os.tapFds, f ∉ sockets

namespace CleanTaps

variable {sockets : List UInt32} {m : TapMaps} {os : Os} {v : CplaneNetdev}

theorem of_noTap (h : NoTap v) : CleanTaps v.os.sockets v.tables.maps v.os := by
  have hfds : v.os.tapFds = [] := by rw [Os.tapFds, h.taps]; rfl
  have hdevices : v.os.devices = [] := by rw [Os.devices, h.taps]; rfl
  refine ⟨⟨?_, ?_, ?_⟩, rfl, ?_⟩
  · rw [h.maps]
    constructor
    · exact fun _ _ h => by cases h
    · exact fun _ _ h => by cases h
    · exact fun _ _ h => by cases h
    · rw [hfds]
      exact fun _ h => by cases h
    · exact fun _ _ h => by cases h
    · exact fun _ _ => rfl
    · exact fun _ _ h => by cases h
    · rw [hfds]
      exact List.nodup_nil
  · rw [h.maps]
    exact fun _ _ => ⟨fun h => (by cases h), fun h => (by cases h)⟩
  · rw [h.maps]
    exact fun _ _ => ⟨fun h => (by cases h), fun h => (by cases h)⟩
  · rw [hfds]
    exact fun _ h => by cases h

theorem eraseStable (sockets : List UInt32) : EraseStable (CleanTaps sockets) where
  invariant h := h.consistent.invariant
  erase {m os s f k} h hf hk := by
    obtain ⟨d, hd, -⟩ := h.consistent.invariant.device s f hf
    have hnot : f ∉ sockets := h.apart f (List.mem_map_of_mem hd)
    refine ⟨eraseStable_consistent.erase h.consistent hf hk, ?_, fun g hg => ?_⟩
    · have hkeep : ∀ g ∈ os.sockets, decide (g ≠ f) = true := by
        intro g hg
        rw [h.sockets_eq] at hg
        exact decide_eq_true fun (hgf : g = f) => hnot (hgf ▸ hg)
      exact (List.filter_eq_self.mpr hkeep).trans h.sockets_eq
    · exact h.apart g (Os.mem_tapFds_close.mp hg).1

theorem connect (kernel : Kernel) {hw : HwInterface} (hs : hw.hwIfIndex ≠ noIndex)
    (hfree : v.tables.maps.fdOf hw.hwIfIndex = none)
    (h : CleanTaps sockets v.tables.maps v.os) :
    CleanTaps sockets (tapInjectTapConnect kernel v hw).1.tables.maps
      (tapInjectTapConnect kernel v hw).1.os := by
  rcases tapInjectTapConnect_cases kernel v hw with
    ⟨-, names, err, heq⟩ | ⟨f, k, name, names, htap, heq⟩
  · rw [heq]
    exact h
  · rw [heq, maps_connected kernel v hs htap]
    obtain ⟨hf, -, hk, -⟩ := (kernel.fresh v.os hw).tap htap
    obtain ⟨-, hsock, -⟩ := (kernel.fresh v.os hw).openTun f (ConnectCalls.tap_eq_some htap).1
    refine ⟨h.consistent.insert hfree hf hk name, h.sockets_eq, fun g hg => ?_⟩
    rcases List.mem_cons.mp hg with rfl | hg
    · rw [← h.sockets_eq]
      exact hsock
    · exact h.apart g hg

theorem connectInterfaces (kernel : Kernel) (pool : HwPool) (indices : List UInt32)
    (hnodup : indices.Nodup) (hfree : ∀ i ∈ indices, v.tables.maps.fdOf i = none)
    (h : CleanTaps sockets v.tables.maps v.os) :
    CleanTaps sockets (connectInterfaces kernel pool v indices).1.tables.maps
      (connectInterfaces kernel pool v indices).1.os := by
  fun_induction Routerd.connectInterfaces kernel pool v indices with
  | case1 v => exact h
  | case2 v i rest hfind ih =>
    exact ih (List.nodup_cons.mp hnodup).2 (fun j hj => hfree j (List.mem_cons_of_mem i hj)) h
  | case3 v i rest hw hfind heth w err hres =>
    have hidx := vnetGetHwInterface_index hfind
    have hone := h.connect kernel (vnetGetHwInterface_mem hfind)
      (hidx ▸ hfree i List.mem_cons_self)
    rw [hres] at hone
    exact hone
  | case4 v i rest hw hfind heth w hres ih =>
    have hidx := vnetGetHwInterface_index hfind
    have hone := h.connect kernel (vnetGetHwInterface_mem hfind)
      (hidx ▸ hfree i List.mem_cons_self)
    have hadded := connect_tapsAdded kernel v (vnetGetHwInterface_mem hfind)
    rw [hres] at hone hadded
    refine ih (List.nodup_cons.mp hnodup).2 (fun j hj => ?_) hone
    -- the connect was for interface `i`, which does not come again
    rcases hadded j with ⟨-, hfd, -⟩ | ⟨a, ha, -, -, hj', -⟩
    · exact hfd.trans (hfree j (List.mem_cons_of_mem i hj))
    · rw [List.mem_singleton.mp ha, hidx] at hj'
      exact absurd (hj' ▸ hj) (List.nodup_cons.mp hnodup).1
  | case5 v i rest hw hfind heth ih =>
    exact ih (List.nodup_cons.mp hnodup).2 (fun j hj => hfree j (List.mem_cons_of_mem i hj)) h

theorem empty_of_fdOf (h : CleanTaps sockets m os) (hnone : ∀ s, m.fdOf s = none) :
    m = TapMaps.empty ∧ os.taps = [] := by
  have hif : ∀ s, m.ifIndexOf s = none := fun s => h.consistent.invariant.paired s (hnone s)
  have hsw : ∀ f, m.swOfFd f = none := by
    intro f
    cases hf : m.swOfFd f with
    | none => rfl
    | some s => exact absurd ((h.consistent.fds s f).mpr hf) (by rw [hnone s]; exact nofun)
  have hswif : ∀ k, m.swOfIfIndex k = none := by
    intro k
    cases hk : m.swOfIfIndex k with
    | none => rfl
    | some s => exact absurd ((h.consistent.ifIndexes s k).mpr hk) (by rw [hif s]; exact nofun)
  refine ⟨TapMaps.ext (funext hnone) (funext hif) (funext hsw) (funext hswif), ?_⟩
  refine List.eq_nil_iff_forall_not_mem.mpr fun t ht => ?_
  obtain ⟨s, hs⟩ := h.consistent.invariant.open_known t.fd (List.mem_map_of_mem ht)
  rw [hsw] at hs
  cases hs

end CleanTaps

theorem disconnect_fdOf {v : CplaneNetdev} (h : TapInvariant v.tables.maps v.os) (i : UInt32) :
    (tapInjectTapDisconnect v i).1.tables.maps.fdOf =
      Function.update v.tables.maps.fdOf i none := by
  obtain ⟨t, ht, ⟨hnone, heq⟩ | ⟨f, hf, heq⟩⟩ := tapInjectTapDisconnect_cases v i
  · rw [heq, ht, ← hnone, Function.update_eq_self]
  · obtain ⟨d, -, hk⟩ := h.device i f hf
    rw [heq, maps_deleteTap t (ht ▸ hf) (ht ▸ hk), ht]
    rfl

theorem disconnectInterfaces_fdOf {v : CplaneNetdev} (h : TapInvariant v.tables.maps v.os)
    (indices : List UInt32) (s : UInt32) :
    (disconnectInterfaces v indices).tables.maps.fdOf s =
      if s ∈ indices then none else v.tables.maps.fdOf s := by
  induction indices generalizing v with
  | nil => rfl
  | cons i rest ih =>
    have hone := tapStable_tapInvariant.disconnect i h
    have hstep : (disconnectInterfaces v (i :: rest)).tables.maps.fdOf s =
        if s ∈ rest then none else (tapInjectTapDisconnect v i).1.tables.maps.fdOf s := ih hone
    rw [hstep, disconnect_fdOf h]
    by_cases hs : s = i
    · simp [hs]
    · simp [hs]

/-! ### The request -/

theorem queueAllInterfaces_queues (pool : HwPool) (v : CplaneNetdev) (enable : Bool) :
    let indices := pool.interfaces.map HwInterface.hwIfIndex
    (queueAllInterfaces pool v enable).interfacesToEnable =
        v.interfacesToEnable ++ (if enable then indices else []) ∧
      (queueAllInterfaces pool v enable).interfacesToDisable =
        v.interfacesToDisable ++ (if enable then [] else indices) := by
  unfold queueAllInterfaces tapInjectEnable tapInjectDisable
  cases enable <;> cases tapInjectIsEnabled v <;> simp

/-- Switching all interfaces connects the queued ones, as far as the loop gets, and
disconnects the others; it fails exactly if the loop does. -/
theorem enableDisableAllInterfaces_outcome (kernel : Kernel) (pool : HwPool) (v : CplaneNetdev)
    (enable : Bool) :
    let q := queueAllInterfaces pool v enable
    let r := connectInterfaces kernel pool q q.interfacesToEnable
    let w := tapInjectEnableDisableAllInterfaces kernel pool v enable
    w.1.tables = (disconnectInterfaces r.1 q.interfacesToDisable).tables ∧
      w.1.os = (disconnectInterfaces r.1 q.interfacesToDisable).os ∧
      (w.2 = none ↔ r.2 = none) := by
  intro q r w
  have hqueue : r.1.interfacesToDisable = q.interfacesToDisable :=
    congrArg TapControl.interfacesToDisable (connectInterfaces_control kernel pool q _)
  have hstate : w.1 = (tapInjectIfaceIsr kernel pool q).1 :=
    tapInjectEnableDisableAllInterfaces_state kernel pool v enable
  have herr : w.2 = none ↔ r.2 = none := by
    change (tapInjectEnableDisableAllInterfaces kernel pool v enable).2 = none ↔ r.2 = none
    have hisr : (tapInjectIfaceIsr kernel pool q).2 = r.2.isSome := rfl
    unfold tapInjectEnableDisableAllInterfaces
    rcases hres : tapInjectIfaceIsr kernel pool q with ⟨u, _ | _⟩ <;> rw [hres] at hisr
    · simpa using hisr.symm
    · simpa using Option.isSome_iff_ne_none.mp hisr.symm
  rw [hstate, ← hqueue]
  exact ⟨rfl, rfl, herr⟩

/-- The state after a failed request: as before it, and switched off. -/
structure RolledBack (v w : CplaneNetdev) : Prop where
  maps : w.tables.maps = TapMaps.empty
  disabled : tapInjectIsEnabled w = false
  toEnable : w.interfacesToEnable = []
  toDisable : w.interfacesToDisable = []
  os : w.os = v.os

/-- The state after a request that succeeded, `attempts` being the connects it made. -/
structure TapsConnected (pool : HwPool) (attempts : List (HwInterface × ConnectCalls))
    (v w : CplaneNetdev) : Prop where
  attempted : attempts.map Prod.fst = pool.interfaces.filter HwInterface.ethernet
  fdOf : ∀ s f, w.tables.maps.fdOf s = some f ↔
    ∃ a ∈ attempts, a.1.hwIfIndex = s ∧ a.2.tunSetIff ≠ none ∧ a.2.openTun = some f
  ifIndexOf : ∀ s k, w.tables.maps.ifIndexOf s = some k ↔
    ∃ a ∈ attempts, a.1.hwIfIndex = s ∧ a.2.tunSetIff = some k
  own : MutuallyInverse w.tables.maps w.os
  still_open : ∀ s f, w.tables.maps.fdOf s = some f → f ∈ w.os.tapFds
  sockets : w.os.sockets = v.os.sockets

theorem vnetGetHwInterface_of_mem (pool : HwInterfaces) {hw : HwInterface}
    (h : hw ∈ pool.interfaces) : vnetGetHwInterface pool.toHwPool hw.hwIfIndex = some hw := by
  cases hfind : vnetGetHwInterface pool.toHwPool hw.hwIfIndex with
  | none => exact absurd (List.find?_eq_none.mp hfind hw h) (by simp)
  | some hw' =>
    exact congrArg some (List.inj_on_of_nodup_map pool.nodup (List.mem_of_find?_eq_some hfind) h
      (vnetGetHwInterface_index hfind))

theorem filterMap_vnetGetHwInterface (pool : HwInterfaces) :
    (pool.interfaces.map HwInterface.hwIfIndex).filterMap (vnetGetHwInterface pool.toHwPool) =
      pool.interfaces := by
  rw [List.filterMap_map]
  calc pool.interfaces.filterMap (vnetGetHwInterface pool.toHwPool ∘ HwInterface.hwIfIndex)
      = pool.interfaces.filterMap some :=
        List.filterMap_congr fun hw hmem => vnetGetHwInterface_of_mem pool hmem
    _ = pool.interfaces := List.filterMap_some

section Request

variable {kernel : Kernel} {pool : HwInterfaces} {v : CplaneNetdev}

theorem NoTap.toEnable_queued (h : NoTap v) (pool : HwPool) :
    (queueAllInterfaces pool v true).interfacesToEnable =
      pool.interfaces.map HwInterface.hwIfIndex := by
  rw [(queueAllInterfaces_queues pool v true).1, h.toEnable]
  rfl

theorem NoTap.toDisable_queued (h : NoTap v) (pool : HwPool) :
    (queueAllInterfaces pool v true).interfacesToDisable = [] := by
  rw [(queueAllInterfaces_queues pool v true).2, h.toDisable]
  rfl

theorem NoTap.connected_clean (h : NoTap v) (kernel : Kernel) (pool : HwInterfaces) :
    let q := queueAllInterfaces pool.toHwPool v true
    let r := connectInterfaces kernel pool.toHwPool q q.interfacesToEnable
    CleanTaps v.os.sockets r.1.tables.maps r.1.os := by
  obtain ⟨htables, hos⟩ := queueAllInterfaces_tables pool.toHwPool v true
  have hclean := CleanTaps.of_noTap h
  rw [← htables] at hclean
  nth_rewrite 2 [← hos] at hclean
  refine hclean.connectInterfaces kernel pool.toHwPool _ ?_ fun i _ => ?_
  · rw [h.toEnable_queued]
    exact pool.nodup
  · rw [htables, h.maps]
    rfl

theorem NoTap.tapsAdded (h : NoTap v) (kernel : Kernel) (pool : HwPool) :
    let q := queueAllInterfaces pool v true
    TapsAdded (connectAttempts kernel pool q q.interfacesToEnable) TapMaps.empty
      (connectInterfaces kernel pool q q.interfacesToEnable).1.tables.maps := by
  intro q
  rw [← h.maps, ← (queueAllInterfaces_tables pool v true).1]
  exact connectInterfaces_tapsAdded q.interfacesToEnable

theorem NoTap.tapsConnected (h : NoTap v) (kernel : Kernel) (pool : HwInterfaces)
    {w : CplaneNetdev} :
    let q := queueAllInterfaces pool.toHwPool v true
    let r := connectInterfaces kernel pool.toHwPool q q.interfacesToEnable
    r.2 = none → w.tables = r.1.tables → w.os = r.1.os →
      TapsConnected pool.toHwPool (connectAttempts kernel pool.toHwPool q q.interfacesToEnable)
        v w := by
  intro q r hok htables hos
  obtain ⟨hattempted, htap⟩ := connectAttempts_of_ok q.interfacesToEnable hok
  rw [h.toEnable_queued, filterMap_vnetGetHwInterface, ← h.toEnable_queued] at hattempted
  have hadded : TapsAdded (connectAttempts kernel pool.toHwPool q q.interfacesToEnable)
      TapMaps.empty r.1.tables.maps := h.tapsAdded kernel pool.toHwPool
  have hclean := h.connected_clean kernel pool
  generalize connectAttempts kernel pool.toHwPool q q.interfacesToEnable = attempts
    at hattempted htap hadded ⊢
  have hunique : ∀ a ∈ attempts, ∀ b ∈ attempts, a.1.hwIfIndex = b.1.hwIfIndex → a = b := by
    have hnodup : (attempts.map fun a => a.1.hwIfIndex).Nodup := by
      have hmap : (attempts.map fun a => a.1.hwIfIndex) =
          (attempts.map Prod.fst).map HwInterface.hwIfIndex := by simp
      rw [hmap, hattempted]
      exact pool.nodup.sublist (List.filter_sublist.map _)
    exact fun a ha b hb hab => List.inj_on_of_nodup_map hnodup ha hb hab
  have hgot : ∀ a ∈ attempts, a.2.tunSetIff ≠ none → ∃ f k, a.2.tap = some (f, k) := by
    intro a ha hset
    obtain ⟨⟨f, k⟩, hfk⟩ := Option.ne_none_iff_exists'.mp ((htap a ha).resolve_left hset)
    exact ⟨f, k, hfk⟩
  constructor
  · exact hattempted
  · rw [htables]
    exact hadded.fdOf_iff hunique hgot
  · rw [htables]
    exact hadded.ifIndexOf_iff hunique hgot
  · rw [htables, hos]
    exact hclean.consistent.mutuallyInverse
  · intro s f hf
    rw [htables] at hf
    obtain ⟨d, hd, -⟩ := hclean.consistent.invariant.device s f hf
    rw [hos]
    exact List.mem_map_of_mem hd
  · rw [hos]
    exact hclean.sockets_eq

/-- The disable after a failed loop takes back every tap the loop connected. -/
theorem NoTap.rolledBack (h : NoTap v) (kernel : Kernel) (pool : HwInterfaces)
    {w : CplaneNetdev} :
    let q := queueAllInterfaces pool.toHwPool v true
    let r := connectInterfaces kernel pool.toHwPool q q.interfacesToEnable
    w.tables = r.1.tables → w.os = r.1.os → w.interfacesToEnable = [] →
      w.interfacesToDisable = [] →
      RolledBack v (tapInjectEnableDisableAllInterfaces kernel pool.toHwPool w false).1 := by
  intro q r htables hos hen hdis
  have hadded : TapsAdded (connectAttempts kernel pool.toHwPool q q.interfacesToEnable)
      TapMaps.empty r.1.tables.maps := h.tapsAdded kernel pool.toHwPool
  obtain ⟨htables', hos', -⟩ := enableDisableAllInterfaces_outcome kernel pool.toHwPool w false
  obtain ⟨hqen, hqdis⟩ := queueAllInterfaces_queues pool.toHwPool w false
  obtain ⟨hqt, hqos⟩ := queueAllInterfaces_tables pool.toHwPool w false
  have hcontrol := tapInjectEnableDisableAllInterfaces_control kernel pool.toHwPool w false
  rw [hen] at hqen
  rw [hdis] at hqdis
  rw [hqen, hqdis] at htables' hos'
  generalize queueAllInterfaces pool.toHwPool w false = u at htables' hos' hqt hqos
  have hclean : CleanTaps v.os.sockets u.tables.maps u.os := by
    rw [hqt, htables, hqos, hos]
    exact h.connected_clean kernel pool
  have hafter := (CleanTaps.eraseStable v.os.sockets).disconnectInterfaces
    (pool.interfaces.map HwInterface.hwIfIndex) hclean
  have hnone : ∀ s, (disconnectInterfaces u
      (pool.interfaces.map HwInterface.hwIfIndex)).tables.maps.fdOf s = none := by
    intro s
    rw [disconnectInterfaces_fdOf hclean.consistent.invariant]
    split
    · rfl
    · rename_i hs
      by_contra hsome
      rw [hqt, htables] at hsome
      obtain ⟨a, ha, f, k, hidx, -⟩ := hadded.attempt (Or.inl hsome)
      have hmem := connectAttempts_index q.interfacesToEnable a ha
      rw [h.toEnable_queued, hidx] at hmem
      exact hs hmem
  obtain ⟨hmaps, htaps⟩ := hafter.empty_of_fdOf hnone
  constructor
  · rw [htables']
    exact hmaps
  · have hflags : (tapInjectEnableDisableAllInterfaces kernel pool.toHwPool w false).1.flags =
        (tapInjectDisable w).flags := congrArg TapControl.flags hcontrol
    exact (tapInjectIsEnabled_congr hflags).trans (tapInjectIsEnabled_disable w)
  · exact congrArg TapControl.interfacesToEnable hcontrol
  · exact congrArg TapControl.interfacesToDisable hcontrol
  · rw [hos']
    calc (disconnectInterfaces u (pool.interfaces.map HwInterface.hwIfIndex)).os
        = ⟨[], v.os.sockets⟩ := by rw [← htaps, ← hafter.sockets_eq]
      _ = v.os := by rw [← h.taps]

/-- A request to enable from a state without taps is answered `-1` and leaves nothing
behind, or is answered `0` and has connected exactly the ethernet interfaces whose
device could be made, each with the descriptor and the device index it got. -/
theorem enable_request_outcome (kernel : Kernel) (pool : HwInterfaces) (v : CplaneNetdev)
    (h : NoTap v) :
    let r := vlApiTapInjectEnableDisableHandler kernel pool.toHwPool v 1
    let q := queueAllInterfaces pool.toHwPool v true
    (r.2 = -1 ∧ RolledBack v r.1) ∨
      (r.2 = 0 ∧ TapsConnected pool.toHwPool
        (connectAttempts kernel pool.toHwPool q q.interfacesToEnable) v r.1) := by
  intro r q
  obtain ⟨htables, hos, herr⟩ := enableDisableAllInterfaces_outcome kernel pool.toHwPool v true
  have hcontrol := tapInjectEnableDisableAllInterfaces_control kernel pool.toHwPool v true
  rw [h.toDisable_queued] at htables hos
  have hhandler : r = match tapInjectEnableDisableAllInterfaces kernel pool.toHwPool v true with
      | (w, some _) => ((tapInjectEnableDisableAllInterfaces kernel pool.toHwPool w false).1, -1)
      | (w, none) => (w, 0) := rfl
  rcases hres : tapInjectEnableDisableAllInterfaces kernel pool.toHwPool v true
    with ⟨w, _ | err⟩ <;> rw [hres] at htables hos herr hcontrol hhandler <;> rw [hhandler]
  · exact Or.inr ⟨rfl, h.tapsConnected kernel pool (herr.mp rfl) htables hos⟩
  · exact Or.inl ⟨rfl, h.rolledBack kernel pool htables hos
      (congrArg TapControl.interfacesToEnable hcontrol)
      (congrArg TapControl.interfacesToDisable hcontrol)⟩

/-- Two interfaces, of which the second is ethernet or not. -/
def twoInterfacePool (ethernet : Bool) : HwInterfaces where
  interfaces := [⟨1, "GigabitEthernet0/8/0".toList, true⟩, ⟨2, "memif0/0".toList, ethernet⟩]
  ne_noIndex := by
    intro hw hmem
    simp only [List.mem_cons, List.not_mem_nil, or_false] at hmem
    rcases hmem with rfl | rfl <;> simp [noIndex]
  nodup := by simp

/-- The kernel opens one tap. A request that needs two is refused at the second and closes the
first, one that needs one is accepted. -/
theorem enable_request_outcome_refused :
    let kernel := Kernel.ofCalls ⟨some 10, some 3, true, some 20, true, true⟩
    let request (ethernet : Bool) := vlApiTapInjectEnableDisableHandler kernel
      (twoInterfacePool ethernet).toHwPool freshPlugin 1
    (request true).2 = -1 ∧ RolledBack freshPlugin (request true).1 ∧ (request false).2 = 0 ∧
      (request false).1.tables.maps.fdOf 1 = some 10 ∧
      (request false).1.tables.maps.ifIndexOf 2 = none := by
  intro kernel request
  have hfresh : NoTap freshPlugin := ⟨rfl, rfl, rfl, rfl⟩
  have hrefused : (request true).2 = -1 := by decide
  have haccepted : (request false).2 = 0 := by decide
  rcases enable_request_outcome kernel (twoInterfacePool true) freshPlugin hfresh
    with ⟨-, hback⟩ | ⟨hok, -⟩
  · rcases enable_request_outcome kernel (twoInterfacePool false) freshPlugin hfresh
      with ⟨hfailed, -⟩ | ⟨-, htaps⟩
    · cases hfailed.symm.trans haccepted
    · refine ⟨hrefused, hback, haccepted, (htaps.fdOf 1 10).mpr ?_, ?_⟩
      · exact ⟨_, List.mem_cons_self, rfl, by decide, rfl⟩
      · cases hindex : (request false).1.tables.maps.ifIndexOf 2 with
        | none => rfl
        | some k =>
          obtain ⟨a, hmem, hsecond, -⟩ := (htaps.ifIndexOf 2 k).mp hindex
          obtain rfl := List.mem_singleton.mp hmem
          cases hsecond
  · cases hrefused.symm.trans hok

end Request

end Routerd
