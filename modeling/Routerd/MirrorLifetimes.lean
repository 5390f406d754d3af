import Routerd.MirrorTaps

/-!
# How long a tap lives

A disable closes the descriptor of a tap with its last live entry, but where nothing
was to be deleted it closes descriptor 0. A tap that was enabled is mirrored until it
is disabled, unless its context was already marked to be freed, since the next frame
then frees it with the new tap. Names are not prefixes of one another here.
-/

namespace Routerd
open NumeralText

/-! ### Disabling -/

def tapEntry (v : TapMirror) (i : ContextSlot) (j : ℕ) : Option MirrorTap :=
  (v.contexts i).bind fun ctx => ctx.taps[j]?

/-- The context of the node holds the live entry `e` of the tap. -/
def HoldsLive (v : TapMirror) (node tap : Text) (e : MirrorTap) : Prop :=
  ∃ i ctx, v.contexts i = some ctx ∧ ctx.targetNodeName = node ∧ e ∈ ctx.taps ∧ 0 < e.fd ∧
    e.name = some tap

/-- What a disable that leads from `v` to `w` should do. -/
structure DisableRight (v w : TapMirror) (node tap : Text) : Prop where
  closed_iff : ∀ e, HoldsLive v node tap e →
    (e.fd.toNat ∉ w.openFds ↔ ∀ e', LiveTap w.contexts e' → e'.name ≠ some tap)
  only : ∀ e, HoldsLive v node tap e → ∀ g ∈ v.openFds, (g : ℤ) ≠ e.fd → g ∈ w.openFds
  others : (∃ e, HoldsLive v node tap e) → ∀ i j e, tapEntry v i j = some e →
    e.name ≠ some tap → tapEntry w i j = some e
  unheld : (∀ e, ¬ HoldsLive v node tap e) →
    w.openFds = v.openFds ∧ ∀ i j, tapEntry w i j = tapEntry v i j

section Disable

variable {graph : NodeGraph} {names : MirrorNames} {v w : TapMirror} {node tap : Text}
variable {i : ContextSlot} {ctx : MirrorContext} {fd : ℤ}

theorem DisableRight.of_unheld (hunheld : ∀ e, ¬ HoldsLive v node tap e)
    (hopen : w.openFds = v.openFds) (hentry : ∀ k j, tapEntry w k j = tapEntry v k j) :
    DisableRight v w node tap where
  closed_iff e he := absurd he (hunheld e)
  only e he := absurd he (hunheld e)
  others := by
    rintro ⟨e, he⟩
    exact absurd he (hunheld e)
  unheld _ := ⟨hopen, hentry⟩

theorem TapDropped.tapEntry_eq (h : TapDropped v w node tap i ctx fd) (k : ContextSlot) (j : ℕ) :
    tapEntry w k j = (tapEntry v k j).map (if k = i then eraseTap tap else id) := by
  rw [tapEntry, tapEntry, h.dropped]
  by_cases hk : k = i
  · subst hk
    rw [Function.update_self, h.context, if_pos rfl]
    exact List.getElem?_map
  · rw [Function.update_of_ne hk, if_neg hk, Option.map_id]
    rfl

theorem TapDropped.holdsLive_iff (h : TapDropped v w node tap i ctx fd) (hv : Hooked graph v)
    (e : MirrorTap) : HoldsLive v node tap e ↔ e ∈ ctx.taps ∧ 0 < e.fd ∧ e.name = some tap := by
  constructor
  · rintro ⟨k, c, hk, hname, he⟩
    obtain rfl : k = i := hv.slot_unique hk h.context (hname.trans h.name.symm)
    cases hk.symm.trans h.context
    exact he
  · intro he
    exact ⟨i, ctx, h.context, h.name, he⟩

theorem TapDropped.right_of_held (h : TapDropped v w node tap i ctx fd)
    (hm : Mirroring graph names v) {e₀ : MirrorTap} (he₀ : e₀ ∈ ctx.taps) (hpos₀ : 0 < e₀.fd)
    (hname₀ : e₀.name = some tap) (hfd : fd = e₀.fd) : DisableRight v w node tap := by
  have hheld := h.holdsLive_iff hm.hooked
  have hlive₀ : LiveTap v.contexts e₀ := ⟨i, ctx, h.context, he₀, hpos₀⟩
  have hshared : ∀ e, HoldsLive v node tap e → LiveTap v.contexts e ∧ e.fd = fd := by
    intro e he
    obtain ⟨hmem, hpos, hname⟩ := (hheld e).mp he
    have hlive : LiveTap v.contexts e := ⟨i, ctx, h.context, hmem, hpos⟩
    rw [hfd]
    exact ⟨hlive, (hm.entries.shared e e₀ hlive hlive₀).mpr (hname.trans hname₀.symm)⟩
  constructor
  · intro e he
    obtain ⟨hlive, hsame⟩ := hshared e he
    obtain ⟨g, hg, hgfd⟩ := hm.entries.isOpen e hlive
    have hnat : e.fd.toNat = g := by omega
    rw [hnat]
    constructor
    · intro hclosed e' he' htap'
      rw [h.kept ⟨e', he', htap'⟩] at hclosed
      exact hclosed hg
    · intro hall hopen
      rw [h.closed hall] at hopen
      exact (TapEntries.mem_closeFd.mp hopen).2 (hgfd.trans hsame)
  · intro e he g hg hne
    by_cases hall : ∀ e', LiveTap w.contexts e' → e'.name ≠ some tap
    · rw [h.closed hall]
      exact TapEntries.mem_closeFd.mpr ⟨hg, fun hc => hne (hc.trans (hshared e he).2.symm)⟩
    · obtain ⟨e', hnot⟩ := not_forall.mp hall
      obtain ⟨he', hetap⟩ := Classical.not_imp.mp hnot
      rw [h.kept ⟨e', he', not_not.mp hetap⟩]
      exact hg
  · intro _ k j e he hname
    rw [h.tapEntry_eq, he, Option.map_some]
    split
    · rw [eraseTap, if_neg fun hc => hname hc.2]
    · rfl
  · intro hnone
    exact absurd ((hheld e₀).mpr ⟨he₀, hpos₀, hname₀⟩) (hnone e₀)

theorem TapDropped.right_iff_of_unheld (h : TapDropped v w node tap i ctx fd)
    (hv : Hooked graph v) (hnone : ∀ e ∈ ctx.taps, 0 < e.fd → e.name ≠ some tap) :
    DisableRight v w node tap ↔ w.openFds = v.openFds := by
  have hunheld : ∀ e, ¬ HoldsLive v node tap e := by
    intro e he
    obtain ⟨hmem, hpos, hname⟩ := (h.holdsLive_iff hv e).mp he
    exact hnone e hmem hpos hname
  constructor
  · intro hright
    exact (hright.unheld hunheld).1
  · intro hopen
    refine DisableRight.of_unheld hunheld hopen fun k j => ?_
    rw [h.tapEntry_eq]
    cases he : tapEntry v k j with
    | none => rfl
    | some e =>
      rw [Option.map_some]
      split
      · rename_i hk
        subst hk
        rw [tapEntry, h.context] at he
        rw [eraseTap, if_neg fun hc => hnone e (List.mem_of_getElem? he) hc.1 hc.2]
      · rfl

theorem TapDropped.live_iff_of_unheld (h : TapDropped v w node tap i ctx fd)
    (hnone : ∀ e ∈ ctx.taps, 0 < e.fd → e.name ≠ some tap) (e : MirrorTap) :
    LiveTap w.contexts e ↔ LiveTap v.contexts e := by
  rw [h.dropped]
  constructor
  · intro he
    exact he.of_dropTap h.context
  · rintro ⟨k, c, hk, hmem, hpos⟩
    by_cases hki : k = i
    · subst hki
      cases hk.symm.trans h.context
      exact ⟨k, _, Function.update_self .., (mem_dropTap hpos).mpr ⟨hmem, hnone e hmem hpos⟩, hpos⟩
    · exact ⟨k, c, by rw [Function.update_of_ne hki]; exact hk, hmem, hpos⟩

theorem closeFd_zero_eq_self_iff {fds : List ℕ} : closeFd fds 0 = fds ↔ 0 ∉ fds := by
  constructor
  · intro h hmem
    rw [← h] at hmem
    exact (TapEntries.mem_closeFd.mp hmem).2 rfl
  · intro h
    refine closeFd_of_notMem fun g hg hc => h ?_
    rw [Nat.cast_eq_zero.mp hc] at hg
    exact hg

end Disable

/-- In every state of a run with such names, a disable does what it should exactly if
the node is not mirrored, some context holds a live entry of the tap, or descriptor 0
is not open. -/
theorem disable_right_iff (graph : NodeGraph) (names : MirrorNames) (openFds : List ℕ)
    (steps : List MirrorStep) (hsteps : ∀ s ∈ steps, s.Uses names) (v : TapMirror)
    (hrun : mirrorRun (tapMirrorInit graph openFds) steps = .ok v) (node tap : Text)
    (hnode : node ∈ names.nodes) (htap : tap ∈ names.taps) (b : Behind) :
    DisableRight v (disableTapMirror b v node tap) node tap ↔
      (∀ i ctx, v.contexts i = some ctx → ctx.targetNodeName ≠ node) ∨
        (∃ e, LiveTap v.contexts e ∧ e.name = some tap) ∨ 0 ∉ v.openFds := by
  have hm := (Mirroring.init graph names openFds).run hsteps hrun
  rcases hm.entries.disable_cases hnode htap b with ⟨hnone, heq⟩ | ⟨i, ctx, fd, hd⟩
  · rw [heq]
    have hunheld : ∀ e, ¬ HoldsLive v node tap e := by
      rintro e ⟨i, ctx, hctx, hname, -⟩
      exact hnone i ctx hctx hname
    have hright := DisableRight.of_unheld hunheld rfl fun _ _ => rfl
    exact ⟨fun _ => Or.inl hnone, fun _ => hright⟩
  · rcases hd.descriptor with ⟨rfl, hnone⟩ | ⟨e₀, he₀, hpos₀, hname₀, hfd⟩
    · rw [hd.right_iff_of_unheld hm.hooked hnone]
      have hlive := hd.live_iff_of_unheld hnone
      by_cases hany : ∃ e, LiveTap v.contexts e ∧ e.name = some tap
      · obtain ⟨e, he, hname⟩ := id hany
        exact ⟨fun _ => Or.inr (Or.inl hany), fun _ => hd.kept ⟨e, (hlive e).mpr he, hname⟩⟩
      · rw [hd.closed fun e he hname => hany ⟨e, (hlive e).mp he, hname⟩, closeFd_zero_eq_self_iff]
        constructor
        · exact fun hzero => Or.inr (Or.inr hzero)
        · rintro (hother | hlive' | hzero)
          · exact absurd hd.name (hother i ctx hd.context)
          · exact absurd hlive' hany
          · exact hzero
    · have hlive : LiveTap v.contexts e₀ := ⟨i, ctx, hd.context, he₀, hpos₀⟩
      exact ⟨fun _ => Or.inr (Or.inl ⟨e₀, hlive, hname₀⟩), fun _ =>
        hd.right_of_held hm he₀ hpos₀ hname₀ hfd⟩

def smallNames : MirrorNames where
  nodes := {ethernetInput, ip4Input}
  taps := {tap0, tap1}
  nodes_prefixFree := by
    rintro a (rfl | rfl) b (rfl | rfl) h
    · rfl
    · exact absurd h (by decide)
    · exact absurd h (by decide)
    · rfl
  taps_prefixFree := by
    rintro a (rfl | rfl) b (rfl | rfl) h
    · rfl
    · exact absurd h (by decide)
    · exact absurd h (by decide)
    · rfl

theorem enableStep_uses {node tap : Text} (hnode : node ∈ smallNames.nodes)
    (htap : tap ∈ smallNames.taps) : (enableStep node tap).Uses smallNames := ⟨hnode, htap⟩

def oneTap : TapMirror :=
  (enableTapMirror .unrelated .above (tapMirrorInit smallGraph [0, 1, 2]) ip4Input tap0).1

/-- The only tap of a node is disabled. -/
theorem disable_right_iff_held :
    DisableRight oneTap (disableTapMirror .unrelated oneTap ip4Input tap0) ip4Input tap0 := by
  have hctx : (oneTap.contexts 0).map MirrorContext.taps =
      some (List.replicate 9 ⟨0, none⟩ ++ [⟨3, some tap0⟩]) := by decide
  obtain ⟨ctx, hctx, htaps⟩ := Option.map_eq_some_iff.mp hctx
  refine (disable_right_iff smallGraph smallNames [0, 1, 2] [enableStep ip4Input tap0] ?_ oneTap
    rfl ip4Input tap0 (Or.inr rfl) (Or.inl rfl) .unrelated).mpr (Or.inr (Or.inl ?_))
  · intro s hs
    rw [List.mem_singleton.mp hs]
    exact enableStep_uses (Or.inr rfl) (Or.inl rfl)
  · refine ⟨⟨3, some tap0⟩, ⟨0, ctx, hctx, ?_, by decide⟩, rfl⟩
    rw [htaps]
    exact List.mem_append_right _ List.mem_cons_self

/-- `tap1` is not in use, and its disable closes the standard input of VPP. -/
theorem disable_unknown_closes_zero :
    mirrorRun (tapMirrorInit smallGraph [0, 1, 2]) [enableStep ip4Input tap0] = .ok oneTap ∧
      oneTap.openFds = [3, 0, 1, 2] ∧
      (disableTapMirror .unrelated oneTap ip4Input tap1).openFds = [3, 1, 2] ∧
      (∀ e, ¬ HoldsLive oneTap ip4Input tap1 e) ∧
      ¬ DisableRight oneTap (disableTapMirror .unrelated oneTap ip4Input tap1) ip4Input tap1 := by
  have hbefore : oneTap.openFds = [3, 0, 1, 2] := by decide
  have hafter : (disableTapMirror .unrelated oneTap ip4Input tap1).openFds = [3, 1, 2] := by
    decide
  have htaps : ∀ i, (oneTap.contexts i).all (fun ctx =>
      ctx.taps.all fun e => e.name ≠ some tap1) = true := by decide
  have hunheld : ∀ e, ¬ HoldsLive oneTap ip4Input tap1 e := by
    rintro e ⟨i, ctx, hctx, -, hmem, -, hname⟩
    have hall := htaps i
    rw [hctx, Option.all_some, List.all_eq_true] at hall
    exact of_decide_eq_true (hall e hmem) hname
  refine ⟨rfl, hbefore, hafter, hunheld, fun hright => ?_⟩
  have hsame := (hright.unheld hunheld).1
  rw [hbefore, hafter] at hsame
  exact absurd hsame (by decide)

/-! ### Enabling -/

/-- Slot `i` holds a live context of the node with descriptor `fd` for the tap. -/
structure MirroredBy (v : TapMirror) (node tap : Text) (fd : ℕ) (i : ContextSlot)
    (ctx : MirrorContext) : Prop where
  context : v.contexts i = some ctx
  name : ctx.targetNodeName = node
  unmarked : ctx.requestToFree = false
  entry : ⟨fd, some tap⟩ ∈ ctx.taps
  positive : 0 < fd

namespace MirroredBy

variable {graph : NodeGraph} {names : MirrorNames} {v w : TapMirror} {node tap : Text} {fd : ℕ}
variable {i : ContextSlot} {ctx : MirrorContext} {b : Behind}

theorem live (h : MirroredBy v node tap fd i ctx) : LiveTap v.contexts ⟨fd, some tap⟩ :=
  ⟨i, ctx, h.context, h.entry, Int.natCast_pos.mpr h.positive⟩

theorem addTap (h : MirroredBy v node tap fd i ctx) {k : ContextSlot} {c : MirrorContext}
    (hk : v.contexts k = some c) {tapFd : ℤ} {tap' : Text}
    (hw : w.contexts = Function.update v.contexts k (some (c.addTap tapFd tap'))) :
    ∃ ctx', MirroredBy w node tap fd i ctx' := by
  by_cases hki : k = i
  · subst hki
    cases hk.symm.trans h.context
    exact ⟨ctx.addTap tapFd tap', by rw [hw, Function.update_self], h.name, h.unmarked,
      List.mem_append_left _ h.entry, h.positive⟩
  · exact ⟨ctx, by rw [hw, Function.update_of_ne (Ne.symm hki)]; exact h.context, h.name,
      h.unmarked, h.entry, h.positive⟩

theorem of_update (h : MirroredBy v node tap fd i ctx) {k : ContextSlot} (hki : k ≠ i)
    {c : Option MirrorContext} (hw : w.contexts = Function.update v.contexts k c) :
    MirroredBy w node tap fd i ctx :=
  ⟨by rw [hw, Function.update_of_ne (Ne.symm hki)]; exact h.context, h.name, h.unmarked, h.entry,
    h.positive⟩

theorem enable (h : MirroredBy v node tap fd i ctx) (b : Behind) (kernel : TunKernel)
    (node' tap' : Text) :
    ∃ ctx', MirroredBy (enableTapMirror b kernel v node' tap').1 node tap fd i ctx' := by
  rcases enableTapMirror_cases b kernel v node' tap' with
    heq | ⟨k, c, hfound, heq⟩ | ⟨k, fn, -, hfree, -, heq⟩ <;> rw [heq]
  · exact ⟨ctx, h.context, h.name, h.unmarked, h.entry, h.positive⟩
  · exact h.addTap (searchContexts_eq_some hfound).1 rfl
  · have hki : k ≠ i := by
      rintro rfl
      rw [h.context] at hfree
      cases hfree
    have hhooked : MirroredBy (hookedState (setEnabled v) k node' fn) node tap fd i ctx :=
      h.of_update hki rfl
    exact hhooked.addTap (Function.update_self ..) rfl

theorem dropTap (h : MirroredBy v node tap fd i ctx) {node' tap' : Text} {k : ContextSlot}
    {c : MirrorContext} {fd' : ℤ} (hd : TapDropped v w node' tap' k c fd')
    (hne : node' = node → tap' ≠ tap) : ∃ ctx', MirroredBy w node tap fd i ctx' := by
  by_cases hki : k = i
  · subst hki
    cases hd.context.symm.trans h.context
    have htap : tap ≠ tap' := fun hc => hne (hd.name.symm.trans h.name) hc.symm
    have hentry : ⟨fd, some tap⟩ ∈ (ctx.dropTap tap').taps :=
      (mem_dropTap (Int.natCast_pos.mpr h.positive)).mpr
        ⟨h.entry, fun hc => htap (Option.some.inj hc)⟩
    refine ⟨ctx.dropTap tap', by rw [hd.dropped, Function.update_self], h.name, ?_, hentry,
      h.positive⟩
    have hsome : ((ctx.dropTap tap').taps.all fun e => decide (e.fd ≤ 0)) = false := by
      refine List.all_eq_false.mpr ⟨_, hentry, ?_⟩
      have := h.positive
      simp only [decide_eq_true_eq]
      omega
    exact Bool.or_eq_false_iff.mpr ⟨h.unmarked, hsome⟩
  · exact ⟨ctx, h.of_update hki hd.dropped⟩

/-- Only its own disable ends a mirrored tap. -/
theorem step (h : MirroredBy v node tap fd i ctx) (hm : Mirroring graph names v)
    {s : MirrorStep} (hs : s.Uses names) (hne : s.command ≠ .disable node tap)
    {events : List MirrorEvent} (hw : mirrorStep v s = .ok (w, events)) :
    ∃ ctx', MirroredBy w node tap fd i ctx' := by
  obtain ⟨command, b⟩ := s
  cases command with
  | enable node' tap' kernel =>
    cases hw
    exact h.enable b kernel node' tap'
  | disable node' tap' =>
    cases hw
    rcases hm.entries.disable_cases hs.1 hs.2 b with ⟨-, heq⟩ | ⟨k, c, fd', hd⟩
    · rw [heq]
      exact ⟨ctx, h⟩
    · refine h.dropTap hd fun hnode htap => hne ?_
      rw [hnode, htap]
  | frame node' pkts =>
    rcases hm.hooked.dispatchFrame_cases b node' pkts with
      ⟨-, passed, heq⟩ | ⟨k, c, -, hfound, ⟨hmark, heq⟩ | ⟨-, heq⟩⟩ <;>
      simp only [mirrorStep, heq] at hw <;> cases hw
    · exact ⟨ctx, h⟩
    · have hki : k ≠ i := by
        rintro rfl
        cases (searchContexts_eq_some hfound).1.symm.trans h.context
        rw [h.unmarked] at hmark
        cases hmark
      exact ⟨ctx, h.of_update hki rfl⟩
    · exact ⟨ctx, h⟩

theorem run (h : MirroredBy v node tap fd i ctx) (hm : Mirroring graph names v)
    {steps : List MirrorStep}
    (hsteps : ∀ s ∈ steps, s.Uses names ∧ s.command ≠ .disable node tap)
    (hw : mirrorRun v steps = .ok w) : ∃ ctx', MirroredBy w node tap fd i ctx' := by
  induction steps generalizing v ctx with
  | nil =>
    cases hw
    exact ⟨ctx, h⟩
  | cons s rest ih =>
    obtain ⟨u, events, hstep, -⟩ := hm.hooked.step s
    rw [mirrorRun, hstep] at hw
    obtain ⟨huses, hne⟩ := hsteps s List.mem_cons_self
    obtain ⟨ctx', hu⟩ := h.step hm huses hne hstep
    exact ih hu (hm.step huses hstep) (fun s' hs' => hsteps s' (List.mem_cons_of_mem s hs')) hw

theorem frame (h : MirroredBy v node tap fd i ctx) (hm : Mirroring graph names v) (b : Behind)
    (pkts : List ℕ) :
    dispatchFrame b v node pkts =
      .ok (v, ⟨[ctx.targetFn], pkts.map fun p => ⟨i, p, ctx.serial⟩⟩) := by
  have hhook : v.function node = some .tapMirrorInputFn := by
    have hrt := hm.hooked.runtime i _ (hooks_eq h.context)
    have hfn := hm.hooked.hooked i _ (hooks_eq h.context)
    rw [hrt] at hfn
    exact h.name ▸ hfn
  have hnode : node ∈ names.nodes := h.name ▸ hm.entries.node i ctx h.context
  rcases hm.hooked.dispatchFrame_cases b node pkts with
    ⟨hne, -⟩ | ⟨k, c, -, hfound, hcases⟩
  · exact absurd hhook hne
  · obtain ⟨hk, hname⟩ := hm.entries.search_some hnode hfound
    obtain rfl : k = i :=
      hm.hooked.slot_unique hk h.context (hname.trans h.name.symm)
    cases hk.symm.trans h.context
    rcases hcases with ⟨hmark, -⟩ | ⟨-, heq⟩
    · rw [h.unmarked] at hmark
      cases hmark
    · exact heq

end MirroredBy

/-- The descriptor an enable enters for the tap. -/
def enabledTapFd (b : Behind) (kernel : TunKernel) (v : TapMirror) (node tap : Text) : ℤ :=
  (getOrOpenTapfd b kernel (getOrNewTapMirrorContext b (setEnabled v) node).1 tap).2

/-- An enable that returns 0 has entered the tap in the context that was found, or in a
new one where none was found. -/
theorem enableTapMirror_entered {b : Behind} {kernel : TunKernel} {v : TapMirror}
    {node tap : Text} (hret : (enableTapMirror b kernel v node tap).2 = 0) :
    ∃ i ctx, (enableTapMirror b kernel v node tap).1.contexts i =
        some (ctx.addTap (enabledTapFd b kernel v node tap) tap) ∧
      (searchContexts b v node = some (i, ctx) ∨
        (searchContexts b v node = none ∧ ctx.targetNodeName = node ∧
          ctx.requestToFree = false)) := by
  unfold enabledTapFd
  rcases getOrNewTapMirrorContext_cases b (setEnabled v) node with
    hnew | ⟨i, ctx, hfound, hnew⟩ | ⟨i, fn, hfound, -, -, hnew⟩
  · rw [enableTapMirror_of_none hnew] at hret
    cases hret
  · rw [enableTapMirror_of_some hnew, hnew]
    exact ⟨i, ctx, Function.update_self .., Or.inl hfound⟩
  · rw [enableTapMirror_of_some hnew, hnew]
    exact ⟨i, _, Function.update_self .., Or.inr ⟨hfound, rfl, rfl⟩⟩

/-- A frame of the node signals one event a packet, under a live context of the node
that holds the open descriptor of the tap. -/
def Mirrors (w : TapMirror) (node tap : Text) (fd : ℕ) (b : Behind) (pkts : List ℕ) : Prop :=
  ∃ i ctx u trace, MirroredBy w node tap fd i ctx ∧ fd ∈ w.openFds ∧
    dispatchFrame b w node pkts = .ok (u, trace) ∧
    trace.signalled = pkts.map fun p => ⟨i, p, ctx.serial⟩

/-- In every state of a run with such names, an enable that opened descriptor `fd` has
every later frame of the node mirrored, up to the disable, exactly if the context of the
node was not marked to be freed and the descriptor is not 0. -/
theorem enabled_mirrors_iff (graph : NodeGraph) (names : MirrorNames) (openFds : List ℕ)
    (steps : List MirrorStep) (hsteps : ∀ s ∈ steps, s.Uses names) (v : TapMirror)
    (hrun : mirrorRun (tapMirrorInit graph openFds) steps = .ok v) (node tap : Text)
    (hnode : node ∈ names.nodes) (htap : tap ∈ names.taps) (b : Behind) (kernel : TunKernel)
    (hret : (enableTapMirror b kernel v node tap).2 = 0) (fd : ℕ)
    (hfd : enabledTapFd b kernel v node tap = fd) :
    (∀ later, (∀ s ∈ later, s.Uses names ∧ s.command ≠ .disable node tap) →
        ∀ w, mirrorRun (enableTapMirror b kernel v node tap).1 later = .ok w →
          ∀ b' pkts, Mirrors w node tap fd b' pkts) ↔
      (∀ i ctx, v.contexts i = some ctx → ctx.targetNodeName = node →
        ctx.requestToFree = false) ∧ fd ≠ 0 := by
  have hm := (Mirroring.init graph names openFds).run hsteps hrun
  have hm' : Mirroring graph names (enableTapMirror b kernel v node tap).1 :=
    ⟨hm.hooked.enable b kernel node tap, hm.entries.enable hnode htap b kernel⟩
  obtain ⟨i, ctx, hentered, horigin⟩ := enableTapMirror_entered hret
  rw [hfd] at hentered
  constructor
  · intro hmirrors
    obtain ⟨k, c, -, -, hk, -⟩ := hmirrors [] nofun _ rfl b []
    refine ⟨fun j c' hj hname => ?_, hk.positive.ne'⟩
    -- the context found is the node's own, and still the one after the enable
    rcases horigin with hfound | ⟨hnone, -⟩
    · obtain ⟨hi, hiname⟩ := hm.entries.search_some hnode hfound
      obtain rfl : j = i := hm.hooked.slot_unique hj hi (hname.trans hiname.symm)
      cases hj.symm.trans hi
      obtain rfl : k = j :=
        hm'.hooked.slot_unique hk.context hentered (hk.name.trans hname.symm)
      cases hk.context.symm.trans hentered
      exact hk.unmarked
    · exact absurd hname (searchContexts_eq_none hnone hj)
  · rintro ⟨hunmarked, hne⟩ later hlater w hw b' pkts
    have hstart : MirroredBy (enableTapMirror b kernel v node tap).1 node tap fd i
        (ctx.addTap fd tap) := by
      have hctx : ctx.targetNodeName = node ∧ ctx.requestToFree = false := by
        rcases horigin with hfound | ⟨-, hnew⟩
        · obtain ⟨hi, hname⟩ := hm.entries.search_some hnode hfound
          exact ⟨hname, hunmarked i ctx hi hname⟩
        · exact hnew
      exact ⟨hentered, hctx.1, hctx.2, List.mem_append_right _ List.mem_cons_self,
        Nat.pos_of_ne_zero hne⟩
    obtain ⟨ctx', hmirrored⟩ := hstart.run hm' hlater hw
    have hmw := hm'.run (fun s hs => (hlater s hs).1) hw
    obtain ⟨g, hg, hgfd⟩ := hmw.entries.isOpen _ hmirrored.live
    rw [Nat.cast_inj] at hgfd
    exact ⟨i, ctx', w, _, hmirrored, hgfd ▸ hg, hmirrored.frame hmw b' pkts, rfl⟩

theorem enabled_mirrors_iff_first :
    enabledTapFd .unrelated .above (tapMirrorInit smallGraph [0, 1, 2]) ip4Input tap0 = 3 ∧
      ∀ later, (∀ s ∈ later, s.Uses smallNames ∧ s.command ≠ .disable ip4Input tap0) →
        ∀ w, mirrorRun oneTap later = .ok w → ∀ b pkts, Mirrors w ip4Input tap0 3 b pkts := by
  have hfd : enabledTapFd .unrelated .above (tapMirrorInit smallGraph [0, 1, 2]) ip4Input tap0 =
      3 := by decide
  refine ⟨hfd, (enabled_mirrors_iff smallGraph smallNames [0, 1, 2] [] ?_ _ rfl ip4Input tap0
    (Or.inr rfl) (Or.inl rfl) .unrelated .above rfl 3 hfd).mpr ⟨?_, by decide⟩⟩
  · exact fun s hs => absurd hs List.not_mem_nil
  · exact fun i ctx hctx => by cases hctx

def markedTap : TapMirror := disableTapMirror .unrelated oneTap ip4Input tap0

/-- Another tap is enabled before a frame came: the frame frees the context with the new
tap and signals nothing. -/
theorem enable_marked_context_lost :
    mirrorRun (tapMirrorInit smallGraph [0, 1, 2])
        [enableStep ip4Input tap0, disableStep ip4Input tap0] = .ok markedTap ∧
      ∃ w u trace, enableTapMirror .unrelated .above markedTap ip4Input tap1 = (w, 0) ∧
        enabledTapFd .unrelated .above markedTap ip4Input tap1 = 3 ∧
        dispatchFrame .unrelated w ip4Input [7] = .ok (u, trace) ∧ trace.signalled = [] ∧
        u.contexts 0 = none ∧ ¬ Mirrors w ip4Input tap1 3 .unrelated [7] := by
  have hvalues : (dispatchFrame .unrelated
      (enableTapMirror .unrelated .above markedTap ip4Input tap1).1 ip4Input [7]).toOption.map
      (fun r => (r.2.signalled, r.1.contexts 0)) = some ([], none) := by decide
  obtain ⟨⟨u, trace⟩, hframe, hr⟩ := ok_of_toOption_map hvalues
  obtain ⟨hsignalled, hfreed⟩ := Prod.mk.inj hr
  refine ⟨rfl, _, u, trace, rfl, by decide, hframe, hsignalled, hfreed, ?_⟩
  rintro ⟨i, ctx, u', trace', -, -, hframe', hsignalled'⟩
  cases hframe.symm.trans hframe'
  cases hsignalled.symm.trans hsignalled'

end Routerd
