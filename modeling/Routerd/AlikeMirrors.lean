import Routerd.EventBatches
import Routerd.ObservedRuns

/-!
# States of the plugin that cannot be told apart

Entries without an open descriptor are never looked at. How often a live entry stands in
a context is seen only by the redirector, and a context that is marked to be freed and
has no event queued is not seen by the redirector again. Two states that differ in
nothing else show the same writes and closes in every run.
-/

namespace Routerd
open NumeralText

/-! ### Live entries -/

namespace MirrorContext

variable {ctx : MirrorContext} {fd : ℤ} {tap : Text}

def liveTaps (ctx : MirrorContext) : List MirrorTap := ctx.taps.filter fun t => decide (0 < t.fd)

theorem liveFds_eq (ctx : MirrorContext) : ctx.liveFds = ctx.liveTaps.map MirrorTap.fd := rfl

theorem mem_liveTaps {e : MirrorTap} : e ∈ ctx.liveTaps ↔ e ∈ ctx.taps ∧ 0 < e.fd := by
  rw [liveTaps, List.mem_filter, decide_eq_true_iff]

theorem liveTaps_addTap (ctx : MirrorContext) (fd : ℤ) (tap : Text) :
    (ctx.addTap fd tap).liveTaps =
      ctx.liveTaps ++ [⟨fd, some tap⟩].filter fun t => decide (0 < t.fd) :=
  List.filter_append ..

theorem liveTaps_addTap_of_pos (ctx : MirrorContext) (hfd : 0 < fd) (tap : Text) :
    (ctx.addTap fd tap).liveTaps = ctx.liveTaps ++ [⟨fd, some tap⟩] := by
  rw [liveTaps_addTap]
  simp [hfd]

theorem liveTaps_addTap_of_neg (ctx : MirrorContext) (hfd : fd < 0) (tap : Text) :
    (ctx.addTap fd tap).liveTaps = ctx.liveTaps := by
  rw [liveTaps_addTap]
  simp [hfd.le]

theorem eraseTap_live_iff (tap : Text) (e : MirrorTap) :
    0 < (eraseTap tap e).fd ↔ 0 < e.fd ∧ e.name ≠ some tap := by
  unfold eraseTap
  split_ifs with herase
  · simp [herase]
  · exact ⟨fun hpos => ⟨hpos, fun hname => herase ⟨hpos, hname⟩⟩, And.left⟩

theorem liveTaps_dropTap (ctx : MirrorContext) (tap : Text) :
    (ctx.dropTap tap).liveTaps = ctx.liveTaps.filter fun e => decide (e.name ≠ some tap) := by
  have htest : (fun t : MirrorTap => decide (0 < t.fd)) ∘ eraseTap tap =
      fun e => decide (e.name ≠ some tap) && decide (0 < e.fd) := by
    funext e
    rw [Function.comp_apply, ← Bool.decide_and, decide_eq_decide, and_comm]
    exact eraseTap_live_iff tap e
  change (ctx.taps.map (eraseTap tap)).filter (fun t => decide (0 < t.fd)) =
    (ctx.taps.filter fun t => decide (0 < t.fd)).filter fun e => decide (e.name ≠ some tap)
  rw [List.filter_map, List.filter_filter, htest]
  refine (List.map_congr_left fun e he => ?_).trans (List.map_id _)
  have hname := of_decide_eq_true (Bool.and_eq_true_iff.mp (List.mem_filter.mp he).2).1
  exact if_neg fun herase => hname herase.2

theorem requestToFree_dropTap (ctx : MirrorContext) (tap : Text) :
    (ctx.dropTap tap).requestToFree =
      (ctx.requestToFree || (ctx.dropTap tap).liveTaps.isEmpty) := by
  have hall : ((ctx.dropTap tap).taps.all fun e => decide (e.fd ≤ 0)) =
      (ctx.dropTap tap).liveTaps.isEmpty := by
    rw [Bool.eq_iff_iff, List.all_eq_true, List.isEmpty_iff, liveTaps, List.filter_eq_nil_iff]
    simp
  rw [← hall]
  rfl

end MirrorContext

/-! ### Alike contexts -/

/-- The contexts differ at most in dead entries or, where the redirector does not come
again, in how often a live one stands there. -/
structure Alike (idle : Prop) (c c' : MirrorContext) : Prop where
  hook : c.hook = c'.hook
  marked : c.requestToFree = c'.requestToFree
  serial : c.serial = c'.serial
  live : c.liveTaps = c'.liveTaps ∨
    (c.requestToFree = true ∧ idle ∧ ∀ e, e ∈ c.liveTaps ↔ e ∈ c'.liveTaps)

namespace Alike

variable {idle idle' : Prop} {c c' : MirrorContext}

theorem of_eq (h : c = c') : Alike idle c c' := by
  subst h
  exact ⟨rfl, rfl, rfl, Or.inl rfl⟩

theorem symm (h : Alike idle c c') : Alike idle c' c where
  hook := h.hook.symm
  marked := h.marked.symm
  serial := h.serial.symm
  live := h.live.imp Eq.symm fun ⟨hmarked, hidle, hmem⟩ =>
    ⟨h.marked.symm.trans hmarked, hidle, fun e => (hmem e).symm⟩

theorem name (h : Alike idle c c') : c.targetNodeName = c'.targetNodeName :=
  congrArg MirrorHook.targetNodeName h.hook

theorem mem_iff (h : Alike idle c c') (e : MirrorTap) : e ∈ c.liveTaps ↔ e ∈ c'.liveTaps := by
  rcases h.live with hlive | ⟨-, -, hmem⟩
  · rw [hlive]
  · exact hmem e

/-- Where the redirector comes, the live entries are the same in the same order. -/
theorem liveFds_eq (h : Alike idle c c') (hbusy : ¬ idle) : c.liveFds = c'.liveFds := by
  rcases h.live with hlive | ⟨-, hidle, -⟩
  · rw [MirrorContext.liveFds_eq, hlive, MirrorContext.liveFds_eq]
  · exact absurd hidle hbusy

theorem mono (h : Alike idle c c') (himp : c.requestToFree = true → idle → idle') :
    Alike idle' c c' where
  hook := h.hook
  marked := h.marked
  serial := h.serial
  live := h.live.imp_right fun ⟨hmarked, hidle, hmem⟩ => ⟨hmarked, himp hmarked hidle, hmem⟩

theorem addTap (h : Alike idle c c') (fd : ℤ) (tap : Text) :
    Alike idle (c.addTap fd tap) (c'.addTap fd tap) where
  hook := h.hook
  marked := h.marked
  serial := h.serial
  live := by
    rw [MirrorContext.liveTaps_addTap, MirrorContext.liveTaps_addTap]
    refine h.live.imp (congrArg (· ++ _)) fun ⟨hmarked, hidle, hmem⟩ => ⟨hmarked, hidle, ?_⟩
    intro e
    rw [List.mem_append, List.mem_append, hmem e]

theorem addTap_dead (c : MirrorContext) {fd : ℤ} (hfd : fd < 0) (tap : Text) :
    Alike idle c (c.addTap fd tap) :=
  ⟨rfl, rfl, rfl, Or.inl (MirrorContext.liveTaps_addTap_of_neg c hfd tap).symm⟩

theorem addTap_again {fd : ℤ} {tap : Text} (hmarked : c.requestToFree = true) (hidle : idle)
    (hfd : 0 < fd) (hmem : ⟨fd, some tap⟩ ∈ c.taps) : Alike idle c (c.addTap fd tap) := by
  refine ⟨rfl, rfl, rfl, Or.inr ⟨hmarked, hidle, fun e => ?_⟩⟩
  rw [MirrorContext.liveTaps_addTap_of_pos c hfd, List.mem_append, List.mem_singleton]
  refine ⟨Or.inl, fun he => he.elim id ?_⟩
  rintro rfl
  exact MirrorContext.mem_liveTaps.mpr ⟨hmem, hfd⟩

theorem dropTap (h : Alike idle c c') (tap : Text) :
    Alike idle (c.dropTap tap) (c'.dropTap tap) := by
  have hlive : (c.dropTap tap).liveTaps = (c'.dropTap tap).liveTaps ∨
      (c.requestToFree = true ∧ idle ∧
        ∀ e, e ∈ (c.dropTap tap).liveTaps ↔ e ∈ (c'.dropTap tap).liveTaps) := by
    rw [MirrorContext.liveTaps_dropTap, MirrorContext.liveTaps_dropTap]
    refine h.live.imp (congrArg _) fun ⟨hmarked, hidle, hmem⟩ => ⟨hmarked, hidle, fun e => ?_⟩
    rw [List.mem_filter, List.mem_filter, hmem e]
  refine ⟨h.hook, ?_, h.serial, hlive.imp_right fun ⟨hmarked, hrest⟩ => ⟨?_, hrest⟩⟩
  · rw [MirrorContext.requestToFree_dropTap, MirrorContext.requestToFree_dropTap, ← h.marked]
    rcases hlive with hlive | ⟨hmarked, -⟩
    · rw [hlive]
    · rw [hmarked, Bool.true_or, Bool.true_or]
  · rw [MirrorContext.requestToFree_dropTap, hmarked, Bool.true_or]

variable {x y : Option MirrorContext}

theorem rel_symm (h : Option.Rel (Alike idle) x y) : Option.Rel (Alike idle) y x := by
  cases h with
  | none => exact .none
  | some halike => exact .some halike.symm

theorem rel_isNone (h : Option.Rel (Alike idle) x y) : x.isNone = y.isNone := by
  cases h <;> rfl

theorem rel_some (h : Option.Rel (Alike idle) (some c) y) : ∃ c', y = some c' ∧ Alike idle c c' := by
  cases h with
  | some halike => exact ⟨_, rfl, halike⟩

end Alike

/-! ### Alike states -/

def AlikeSlots (idle : ContextSlot → Prop) (s t : ContextSlot → Option MirrorContext) : Prop :=
  ∀ i, Option.Rel (Alike (idle i)) (s i) (t i)

namespace AlikeSlots

variable {idle idle' : ContextSlot → Prop} {s t : ContextSlot → Option MirrorContext}
variable {i : ContextSlot} {c : MirrorContext}

theorem refl (idle : ContextSlot → Prop) (s : ContextSlot → Option MirrorContext) :
    AlikeSlots idle s s := by
  intro i
  cases s i with
  | none => exact .none
  | some c => exact .some (.of_eq rfl)

theorem symm (h : AlikeSlots idle s t) : AlikeSlots idle t s := fun i => Alike.rel_symm (h i)

theorem some_right (h : AlikeSlots idle s t) (hc : s i = some c) :
    ∃ c', t i = some c' ∧ Alike (idle i) c c' :=
  Alike.rel_some (hc ▸ h i)

theorem liveTap_right (h : AlikeSlots idle s t) {e : MirrorTap} (he : LiveTap s e) :
    LiveTap t e := by
  obtain ⟨i, c, hc, hmem, hpos⟩ := he
  obtain ⟨c', hc', halike⟩ := h.some_right hc
  have hmem' := (halike.mem_iff e).mp (MirrorContext.mem_liveTaps.mpr ⟨hmem, hpos⟩)
  exact ⟨i, c', hc', (MirrorContext.mem_liveTaps.mp hmem').1, hpos⟩

theorem firstFree_eq (h : AlikeSlots idle s t) :
    SlotTable.firstFree s = SlotTable.firstFree t := by
  have hempty : (fun i => (s i).isNone) = fun i => (t i).isNone :=
    funext fun i => Alike.rel_isNone (h i)
  rw [SlotTable.firstFree, hempty, SlotTable.firstFree]

theorem update (h : AlikeSlots idle s t) (i : ContextSlot) {x y : Option MirrorContext}
    (hxy : Option.Rel (Alike (idle i)) x y) :
    AlikeSlots idle (Function.update s i x) (Function.update t i y) := by
  intro j
  by_cases hji : j = i
  · subst hji
    rw [Function.update_self, Function.update_self]
    exact hxy
  · rw [Function.update_of_ne hji, Function.update_of_ne hji]
    exact h j

theorem modify (idle : ContextSlot → Prop) {c' : MirrorContext} (hc : s i = some c)
    (halike : Alike (idle i) c c') : AlikeSlots idle s (Function.update s i (some c')) := by
  have hsame := (refl idle s).update i (.some halike)
  rw [← hc, Function.update_eq_self] at hsame
  exact hsame

theorem mono (h : AlikeSlots idle s t)
    (himp : ∀ i c, s i = some c → c.requestToFree = true → idle i → idle' i) :
    AlikeSlots idle' s t := by
  intro i
  have hrel := h i
  cases hc : s i with
  | none =>
    rw [hc] at hrel
    generalize t i = y at hrel ⊢
    cases hrel
    exact .none
  | some c =>
    obtain ⟨c', hc', halike⟩ := h.some_right hc
    rw [hc']
    exact .some (halike.mono (himp i c hc))

end AlikeSlots

/-- The states have alike contexts in the same slots and agree on nodes and descriptors. -/
structure AlikePlugins (idle : ContextSlot → Prop) (v w : TapMirror) : Prop where
  function : v.function = w.function
  openFds : v.openFds = w.openFds
  allocated : v.allocated = w.allocated
  contexts : AlikeSlots idle v.contexts w.contexts

theorem AlikePlugins.setEnabled {idle : ContextSlot → Prop} {v w : TapMirror}
    (h : AlikePlugins idle v w) : AlikePlugins idle (setEnabled v) (setEnabled w) :=
  ⟨h.function, h.openFds, h.allocated, h.contexts⟩

theorem AlikePlugins.of_setEnabled (idle : ContextSlot → Prop) (v : TapMirror) :
    AlikePlugins idle v (Routerd.setEnabled v) :=
  ⟨rfl, rfl, rfl, .refl idle v.contexts⟩

/-! ### Steps -/

/-- With such names the search finds the node's own context, whatever lies behind them. -/
theorem Mirroring.search_iff {graph : NodeGraph} {names : MirrorNames} {v : TapMirror}
    (hv : Mirroring graph names v) {node : Text} (hnode : node ∈ names.nodes) (b : Behind)
    {i : ContextSlot} {c : MirrorContext} :
    searchContexts b v node = some (i, c) ↔ v.contexts i = some c ∧ c.targetNodeName = node := by
  refine ⟨hv.entries.search_some hnode, fun ⟨hc, hname⟩ => ?_⟩
  cases hsearch : searchContexts b v node with
  | none => exact absurd hname (searchContexts_eq_none hsearch hc)
  | some found =>
    obtain ⟨k, c'⟩ := found
    obtain ⟨hk, hkname⟩ := hv.entries.search_some hnode hsearch
    obtain rfl : k = i := hv.hooked.slot_unique hk hc (hkname.trans hname.symm)
    cases hk.symm.trans hc
    rfl

namespace AlikePlugins

variable {graph : NodeGraph} {names : MirrorNames} {idle idle' : ContextSlot → Prop}
variable {v w : TapMirror} {i : ContextSlot} {c c' : MirrorContext} {node tap : Text}

theorem search (h : AlikePlugins idle v w) (hv : Mirroring graph names v)
    (hw : Mirroring graph names w) (hnode : node ∈ names.nodes) (b : Behind) :
    (searchContexts b v node = none ∧ searchContexts b w node = none) ∨
      ∃ i c c', searchContexts b v node = some (i, c) ∧ searchContexts b w node = some (i, c') ∧
        Alike (idle i) c c' := by
  cases hsearch : searchContexts b v node with
  | some found =>
    obtain ⟨i, c⟩ := found
    obtain ⟨hc, hname⟩ := (hv.search_iff hnode b).mp hsearch
    obtain ⟨c', hc', halike⟩ := h.contexts.some_right hc
    exact Or.inr ⟨i, c, c', rfl,
      (hw.search_iff hnode b).mpr ⟨hc', halike.name.symm.trans hname⟩, halike⟩
  | none =>
    cases hsearch' : searchContexts b w node with
    | none => exact Or.inl ⟨rfl, rfl⟩
    | some found =>
      obtain ⟨hc', hname⟩ := (hw.search_iff hnode b).mp hsearch'
      obtain ⟨c, hc, halike⟩ := h.contexts.symm.some_right hc'
      exact absurd (halike.name.symm.trans hname) (searchContexts_eq_none hsearch hc)

theorem getOrOpenTapfd_eq (h : AlikePlugins idle v w)
    (hv : TapEntries names v.contexts v.openFds) (hw : TapEntries names w.contexts w.openFds)
    (htap : tap ∈ names.taps) (b : Behind) (kernel : TunKernel) :
    getOrOpenTapfd b kernel v tap = getOrOpenTapfd b kernel w tap := by
  unfold getOrOpenTapfd
  rw [h.openFds]
  cases hfind : findTap b v.contexts tap with
  | some e =>
    obtain ⟨hlive, hname⟩ := hv.findTap_some htap hfind
    cases hfind' : findTap b w.contexts tap with
    | some e' =>
      obtain ⟨hlive', hname'⟩ := hw.findTap_some htap hfind'
      have hfd := (hv.shared e e' hlive (h.contexts.symm.liveTap_right hlive')).mpr
        (hname.trans hname'.symm)
      exact congrArg _ hfd
    | none => exact absurd hname (hw.findTap_none htap hfind' (h.contexts.liveTap_right hlive))
  | none =>
    cases hfind' : findTap b w.contexts tap with
    | some e' =>
      obtain ⟨hlive', hname'⟩ := hw.findTap_some htap hfind'
      exact absurd hname' (hv.findTap_none htap hfind (h.contexts.symm.liveTap_right hlive'))
    | none => rfl

theorem addNewTap (h : AlikePlugins idle v w)
    (hv : TapEntries names v.contexts v.openFds) (hw : TapEntries names w.contexts w.openFds)
    (htap : tap ∈ names.taps) (hc : Alike (idle i) c c') (b : Behind) (kernel : TunKernel) :
    AlikePlugins idle (tapMirrorContextAddNewTap b kernel v i c tap)
      (tapMirrorContextAddNewTap b kernel w i c' tap) := by
  have hfd := h.getOrOpenTapfd_eq hv hw htap b kernel
  unfold tapMirrorContextAddNewTap
  rw [hfd]
  exact ⟨h.function, rfl, h.allocated, h.contexts.update i (.some (hc.addTap _ tap))⟩

theorem newContext_eq (h : AlikePlugins idle v w) (node : Text) (fn : NodeFn) :
    newContext v node fn = newContext w node fn := by
  rw [newContext, newContext, h.allocated]

theorem hookedState (h : AlikePlugins idle v w) (i : ContextSlot) (node : Text) (fn : NodeFn) :
    AlikePlugins idle (hookedState v i node fn) (hookedState w i node fn) where
  function := congrArg (Function.update · node _) h.function
  openFds := h.openFds
  allocated := congrArg (· + 1) h.allocated
  contexts := h.contexts.update i (.some (.of_eq (h.newContext_eq node fn)))

theorem getOrNew (h : AlikePlugins idle v w) (hv : Mirroring graph names v)
    (hw : Mirroring graph names w) (hnode : node ∈ names.nodes) (b : Behind) :
    (getOrNewTapMirrorContext b v node = (v, none) ∧
        getOrNewTapMirrorContext b w node = (w, none)) ∨
      ∃ v' w' i c c', getOrNewTapMirrorContext b v node = (v', some (i, c)) ∧
        getOrNewTapMirrorContext b w node = (w', some (i, c')) ∧ AlikePlugins idle v' w' ∧
        Alike (idle i) c c' ∧ TapEntries names v'.contexts v'.openFds ∧
        TapEntries names w'.contexts w'.openFds := by
  unfold getOrNewTapMirrorContext
  rcases h.search hv hw hnode b with ⟨hnone, hnone'⟩ | ⟨i, c, c', hfound, hfound', halike⟩
  · rw [hnone, hnone', ← h.contexts.firstFree_eq, ← h.function]
    cases SlotTable.firstFree v.contexts with
    | none => exact Or.inl ⟨rfl, rfl⟩
    | some i =>
      cases hfn : v.function node with
      | none => exact Or.inl ⟨rfl, rfl⟩
      | some fn =>
        refine Or.inr ⟨Routerd.hookedState v i node fn, Routerd.hookedState w i node fn, i, _, _,
          rfl, ?_, h.hookedState i node fn, .of_eq (h.newContext_eq node fn),
          hv.entries.hookedState hnode i fn, hw.entries.hookedState hnode i fn⟩
        rw [Routerd.hookedState, ← h.function]
  · rw [hfound, hfound']
    exact Or.inr ⟨v, w, i, c, c', rfl, rfl, h, halike, hv.entries, hw.entries⟩

theorem enable (h : AlikePlugins idle v w) (hv : Mirroring graph names v)
    (hw : Mirroring graph names w) (hnode : node ∈ names.nodes) (htap : tap ∈ names.taps)
    (b : Behind) (kernel : TunKernel) :
    AlikePlugins idle (enableTapMirror b kernel v node tap).1
      (enableTapMirror b kernel w node tap).1 := by
  have hv' : Mirroring graph names (Routerd.setEnabled v) := ⟨hv.hooked, hv.entries⟩
  have hw' : Mirroring graph names (Routerd.setEnabled w) := ⟨hw.hooked, hw.entries⟩
  rcases h.setEnabled.getOrNew hv' hw' hnode b with
    ⟨hnone, hnone'⟩ | ⟨v', w', i, c, c', hnew, hnew', halike, hc, hentries, hentries'⟩
  · rw [enableTapMirror_of_none hnone, enableTapMirror_of_none hnone']
    exact h.setEnabled
  · rw [enableTapMirror_of_some hnew, enableTapMirror_of_some hnew']
    exact halike.addNewTap hentries hentries' htap hc b kernel

theorem deleted_eq (hv : TapEntries names v.contexts v.openFds) {v' w' : TapMirror}
    (hc : Alike (idle i) c c') {fd fd' : ℤ} (hd : TapDropped v v' node tap i c fd)
    (hd' : TapDropped w w' node tap i c' fd') : fd = fd' := by
  have hmem : ∀ e ∈ c'.taps, 0 < e.fd → e ∈ c.taps := fun e he hpos =>
    (MirrorContext.mem_liveTaps.mp
      ((hc.mem_iff e).mpr (MirrorContext.mem_liveTaps.mpr ⟨he, hpos⟩))).1
  have hmem' : ∀ e ∈ c.taps, 0 < e.fd → e ∈ c'.taps := fun e he hpos =>
    (MirrorContext.mem_liveTaps.mp
      ((hc.mem_iff e).mp (MirrorContext.mem_liveTaps.mpr ⟨he, hpos⟩))).1
  rcases hd.descriptor with ⟨hzero, hno⟩ | ⟨e, he, hpos, hname, hfd⟩ <;>
    rcases hd'.descriptor with ⟨hzero', hno'⟩ | ⟨e', he', hpos', hname', hfd'⟩
  · rw [hzero, hzero']
  · exact absurd hname' (hno e' (hmem e' he' hpos') hpos')
  · exact absurd hname (hno' e (hmem' e he hpos) hpos)
  · rw [hfd, hfd']
    exact (hv.shared e e' ⟨i, c, hd.context, he, hpos⟩
      ⟨i, c, hd.context, hmem e' he' hpos', hpos'⟩).mpr (hname.trans hname'.symm)

theorem disableTapMirror_allocated (b : Behind) (v : TapMirror) (node tap : Text) :
    (disableTapMirror b v node tap).allocated = v.allocated := by
  rcases disableTapMirror_cases b v node tap with ⟨-, heq⟩ | ⟨i, ctx, -, heq⟩ <;> rw [heq]

theorem disable (h : AlikePlugins idle v w) (hv : Mirroring graph names v)
    (hw : Mirroring graph names w) (hnode : node ∈ names.nodes) (htap : tap ∈ names.taps)
    (b : Behind) :
    AlikePlugins idle (disableTapMirror b v node tap) (disableTapMirror b w node tap) := by
  rcases hv.entries.disable_cases hnode htap b with ⟨hnone, heq⟩ | ⟨i, c, fd, hd⟩ <;>
    rcases hw.entries.disable_cases hnode htap b with ⟨hnone', heq'⟩ | ⟨k, c', fd', hd'⟩
  · rw [heq, heq']
    exact h
  · obtain ⟨c, hc, halike⟩ := h.contexts.symm.some_right hd'.context
    exact absurd (halike.name.symm.trans hd'.name) (hnone k c hc)
  · obtain ⟨c', hc', halike⟩ := h.contexts.some_right hd.context
    exact absurd (halike.name.symm.trans hd.name) (hnone' i c' hc')
  · obtain ⟨c'', hc'', halike⟩ := h.contexts.some_right hd.context
    obtain rfl : k = i := hw.hooked.slot_unique hd'.context hc''
      (hd'.name.trans (hd.name.symm.trans halike.name))
    cases hc''.symm.trans hd'.context
    obtain rfl := deleted_eq hv.entries halike hd hd'
    have hcontexts : AlikeSlots idle (disableTapMirror b v node tap).contexts
        (disableTapMirror b w node tap).contexts := by
      rw [hd.dropped, hd'.dropped]
      exact h.contexts.update k (.some (halike.dropTap tap))
    refine ⟨by rw [hd.function, hd'.function, h.function], ?_, ?_, hcontexts⟩
    · by_cases hkept : ∃ e, LiveTap (disableTapMirror b v node tap).contexts e ∧ e.name = some tap
      · obtain ⟨e, he, hname⟩ := hkept
        rw [hd.kept ⟨e, he, hname⟩, hd'.kept ⟨e, hcontexts.liveTap_right he, hname⟩, h.openFds]
      · have hclosed : ∀ e, LiveTap (disableTapMirror b v node tap).contexts e →
            e.name ≠ some tap := fun e he hname => hkept ⟨e, he, hname⟩
        rw [hd.closed hclosed, hd'.closed fun e he => hclosed e (hcontexts.symm.liveTap_right he),
          h.openFds]
    · rw [disableTapMirror_allocated, disableTapMirror_allocated, h.allocated]

theorem mono (h : AlikePlugins idle v w)
    (himp : ∀ i c, v.contexts i = some c → c.requestToFree = true → idle i → idle' i) :
    AlikePlugins idle' v w :=
  ⟨h.function, h.openFds, h.allocated, h.contexts.mono himp⟩

theorem silent (h : AlikePlugins idle v w) :
    AlikePlugins (fun i => idle i ∧ ∀ e ∈ ([] : List MirrorEvent), e.slot ≠ i) v w :=
  h.mono fun _ _ _ _ hidle => ⟨hidle, fun _ he => absurd he List.not_mem_nil⟩

theorem unhookedState (h : AlikePlugins idle v w) (hc : Alike (idle i) c c') :
    AlikePlugins idle (unhookedState v i c) (unhookedState w i c') where
  function := by
    have hrt : c.targetRt = c'.targetRt := congrArg MirrorHook.targetRt hc.hook
    have hfn : c.targetFn = c'.targetFn := congrArg MirrorHook.targetFn hc.hook
    rw [Routerd.unhookedState, Routerd.unhookedState, h.function, hrt, hfn]
  openFds := h.openFds
  allocated := h.allocated
  contexts := h.contexts.update i .none

/-- A frame frees the context in both or signals the same events in both. Events are
signalled under a slot whose context is not marked. -/
theorem frame (h : AlikePlugins idle v w) (hv : Mirroring graph names v)
    (hw : Mirroring graph names w) (b : Behind) (node : Text) (pkts : List ℕ) :
    ∃ v' w' events, mirrorStep v ⟨.frame node pkts, b⟩ = .ok (v', events) ∧
      mirrorStep w ⟨.frame node pkts, b⟩ = .ok (w', events) ∧
      AlikePlugins (fun i => idle i ∧ ∀ e ∈ events, e.slot ≠ i) v' w' := by
  unfold mirrorStep
  rcases hv.hooked.dispatchFrame_cases b node pkts with
    ⟨hne, passed, heq⟩ | ⟨i, c, hhook, hfound, hcase⟩ <;>
    rcases hw.hooked.dispatchFrame_cases b node pkts with
      ⟨hne', passed', heq'⟩ | ⟨k, c', hhook', hfound', hcase'⟩
  · simp only [heq, heq']
    exact ⟨v, w, [], rfl, rfl, h.silent⟩
  · exact absurd (h.function ▸ hhook') hne
  · exact absurd (h.function ▸ hhook) hne'
  · have hnode : node ∈ names.nodes := by
      obtain ⟨j, cj, hj, rfl⟩ := hv.hooked.context hhook
      exact hv.entries.node j cj hj
    rcases h.search hv hw hnode b with ⟨hnone, -⟩ | ⟨j, d, d', hd, hd', halike⟩
    · rw [hfound] at hnone
      cases hnone
    · cases hfound.symm.trans hd
      cases hfound'.symm.trans hd'
      rcases hcase with ⟨hmark, heq⟩ | ⟨hmark, heq⟩ <;>
        rcases hcase' with ⟨hmark', heq'⟩ | ⟨hmark', heq'⟩
      · simp only [heq, heq']
        exact ⟨_, _, [], rfl, rfl, (h.unhookedState halike).silent⟩
      · rw [halike.marked, hmark'] at hmark
        cases hmark
      · rw [halike.marked, hmark'] at hmark
        cases hmark
      · simp only [heq, heq']
        refine ⟨v, w, _, rfl, by rw [halike.serial], h.mono fun j cj hj hmarked hidle => ?_⟩
        refine ⟨hidle, fun e he hslot => ?_⟩
        obtain ⟨p, -, rfl⟩ := List.mem_map.mp he
        obtain rfl : i = j := hslot
        cases hj.symm.trans (searchContexts_eq_some hfound).1
        rw [hmark] at hmarked
        cases hmarked

theorem step (h : AlikePlugins idle v w) (hv : Mirroring graph names v)
    (hw : Mirroring graph names w) {s : MirrorStep} (hs : s.Uses names) :
    ∃ v' w' events, mirrorStep v s = .ok (v', events) ∧ mirrorStep w s = .ok (w', events) ∧
      AlikePlugins (fun i => idle i ∧ ∀ e ∈ events, e.slot ≠ i) v' w' := by
  obtain ⟨command, b⟩ := s
  cases command with
  | enable node tap kernel =>
    exact ⟨_, _, [], rfl, rfl, (h.enable hv hw hs.1 hs.2 b kernel).silent⟩
  | disable node tap =>
    exact ⟨_, _, [], rfl, rfl, (h.disable hv hw hs.1 hs.2 b).silent⟩
  | frame node pkts => exact h.frame hv hw b node pkts

end AlikePlugins

/-! ### What a run shows -/

inductive MirrorEffect where
  | write (fd : ℤ) (buffer : ℕ)
  | close (fd : ℕ)
  deriving DecidableEq

/-- The descriptors that are open before the step and not after it, and the buffers that
the redirector writes. -/
def stepEffects (sys : MirrorSystem) : SystemStep → List MirrorEffect
  | .plugin s =>
    match mirrorStep sys.plugin s with
    | .ok (v, _) => (sys.plugin.openFds.filter fun g => decide (g ∉ v.openFds)).map .close
    | .error _ => []
  | .wake eventType =>
    match tapMirrorRedirectorFn sys.plugin sys.queue eventType with
    | .ok (_, some pass) => pass.writes.map fun w => .write w.1 w.2
    | _ => []

def systemEffects (sys : MirrorSystem) (steps : List SystemStep) : List MirrorEffect :=
  ObservedRuns.observe systemStep stepEffects sys steps

def SystemStep.Uses (names : MirrorNames) : SystemStep → Prop
  | .plugin s => s.Uses names
  | .wake _ => True

structure AlikeSystems (graph : NodeGraph) (names : MirrorNames) (a b : MirrorSystem) : Prop where
  left : Mirroring graph names a.plugin
  right : Mirroring graph names b.plugin
  queue : a.queue = b.queue
  plugin : AlikePlugins (fun i => ∀ e ∈ a.queue, e.slot ≠ i) a.plugin b.plugin

namespace AlikeSystems

variable {graph : NodeGraph} {names : MirrorNames} {a b : MirrorSystem}

theorem step_plugin (h : AlikeSystems graph names a b) {s : MirrorStep} (hs : s.Uses names) :
    stepEffects a (.plugin s) = stepEffects b (.plugin s) ∧
      ObservedRuns.Together (AlikeSystems graph names) (systemStep a (.plugin s))
        (systemStep b (.plugin s)) := by
  obtain ⟨v, w, events, hv, hw, halike⟩ := h.plugin.step h.left h.right hs
  simp only [stepEffects, systemStep, hv, hw]
  refine ⟨by rw [h.plugin.openFds, halike.openFds], .ok ⟨?_, ?_, ?_, ?_⟩⟩
  · exact h.left.step hs hv
  · exact h.right.step hs hw
  · exact congrArg (· ++ events) h.queue
  · refine halike.mono fun i c _ _ hidle e he => ?_
    rcases List.mem_append.mp he with he | he
    · exact hidle.1 e he
    · exact hidle.2 e he

theorem step_wake (h : AlikeSystems graph names a b) (i : ContextSlot) :
    stepEffects a (.wake i) = stepEffects b (.wake i) ∧
      ObservedRuns.Together (AlikeSystems graph names) (systemStep a (.wake i))
        (systemStep b (.wake i)) := by
  have hqueue := h.queue
  cases hpending : a.queue.filter fun e => e.slot = i with
  | nil =>
    have hpass : tapMirrorRedirectorFn a.plugin a.queue i = .ok (a.queue, none) := by
      rw [tapMirrorRedirectorFn, hpending]
    have hpass' : tapMirrorRedirectorFn b.plugin b.queue i = .ok (b.queue, none) := by
      rw [tapMirrorRedirectorFn, ← hqueue, hpending]
    simp only [stepEffects, systemStep, hpass, hpass']
    exact ⟨trivial, .ok h⟩
  | cons e others =>
    have hmem : e ∈ a.queue.filter fun e => e.slot = i := hpending ▸ List.mem_cons_self
    obtain ⟨he, hslot⟩ := List.mem_filter.mp hmem
    obtain rfl := of_decide_eq_true hslot
    cases hc : a.plugin.contexts e.slot with
    | none =>
      have hempty := Alike.rel_isNone (h.plugin.contexts e.slot)
      rw [hc] at hempty
      have hc' := Option.isNone_iff_eq_none.mp hempty.symm
      have hpass : tapMirrorRedirectorFn a.plugin a.queue e.slot = .error .segv := by
        simp only [tapMirrorRedirectorFn, hpending, hc]
      have hpass' : tapMirrorRedirectorFn b.plugin b.queue e.slot = .error .segv := by
        simp only [tapMirrorRedirectorFn, ← hqueue, hpending, hc']
      simp only [stepEffects, systemStep, hpass, hpass']
      exact ⟨trivial, .error _ _⟩
    | some c =>
      obtain ⟨c', hc', halike⟩ := h.plugin.contexts.some_right hc
      have hbusy : ¬ ∀ e' ∈ a.queue, e'.slot ≠ e.slot := fun hidle => hidle e he rfl
      simp only [stepEffects, systemStep, tapMirrorRedirectorFn_of_pending hc hpending,
        tapMirrorRedirectorFn_of_pending hc' (hqueue ▸ hpending), halike.liveFds_eq hbusy]
      refine ⟨trivial, .ok ⟨h.left, h.right, congrArg (List.filter _) hqueue, ?_⟩⟩
      exact h.plugin.mono fun i c _ _ hidle e' he' => hidle e' (List.mem_filter.mp he').1

theorem lockstep (graph : NodeGraph) (names : MirrorNames) :
    ObservedRuns.Lockstep systemStep stepEffects (SystemStep.Uses names)
      (AlikeSystems graph names) := by
  have hstep : ∀ s, SystemStep.Uses names s → ∀ a b, AlikeSystems graph names a b →
      stepEffects a s = stepEffects b s ∧
        ObservedRuns.Together (AlikeSystems graph names) (systemStep a s) (systemStep b s) := by
    intro s hs a b h
    cases s with
    | plugin s => exact h.step_plugin hs
    | wake i => exact h.step_wake i
  exact ⟨fun s hs a b h => (hstep s hs a b h).1, fun s hs a b h => (hstep s hs a b h).2⟩

end AlikeSystems

end Routerd
