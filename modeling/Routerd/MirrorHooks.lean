import Routerd.TapMirror

/-!
# Hooked nodes

A node's function is the hook exactly while a context remembers the node, and the
function the context saved is the node's own. This holds whatever the names are, also
where a search ends at the context of another node. A frame is then handled as it
should be exactly because the search finds the context of its own node.
-/

namespace Routerd
open NumeralText

theorem nameMatches_self (behind : Text → Bool) (name : Text) :
    nameMatches behind name name = true := by
  rw [nameMatches, List.isPrefixOf_iff_prefix.mpr List.prefix_rfl, Bool.true_or]

/-- What a context remembers of the node it hooked. -/
@[ext]
structure MirrorHook where
  targetNodeName : Text
  targetFn : NodeFn
  targetRt : Text

def MirrorContext.hook (ctx : MirrorContext) : MirrorHook :=
  ⟨ctx.targetNodeName, ctx.targetFn, ctx.targetRt⟩

def hooks (contexts : ContextSlot → Option MirrorContext) : ContextSlot → Option MirrorHook :=
  fun i => (contexts i).map MirrorContext.hook

variable {contexts : ContextSlot → Option MirrorContext} {i : ContextSlot} {ctx : MirrorContext}

theorem hooks_eq (h : contexts i = some ctx) : hooks contexts i = some ctx.hook := by
  rw [hooks, h, Option.map_some]

theorem hooks_update (contexts : ContextSlot → Option MirrorContext) (i : ContextSlot)
    (c : Option MirrorContext) :
    hooks (Function.update contexts i c) =
      Function.update (hooks contexts) i (c.map MirrorContext.hook) := by
  funext j
  by_cases hj : j = i
  · subst hj
    rw [hooks, Function.update_self, Function.update_self]
  · rw [hooks, Function.update_of_ne hj, Function.update_of_ne hj, hooks]

theorem hooks_modify (h : contexts i = some ctx) {ctx' : MirrorContext}
    (hhook : ctx'.hook = ctx.hook) :
    hooks (Function.update contexts i (some ctx')) = hooks contexts := by
  rw [hooks_update, Option.map_some, hhook, ← hooks_eq h, Function.update_eq_self]

/-! ### What the steps do to contexts and functions -/

section Steps

variable {b : Behind} {kernel : TunKernel} {v : TapMirror} {node tap : Text}

theorem searchContexts_eq_some (h : searchContexts b v node = some (i, ctx)) :
    v.contexts i = some ctx ∧ nameMatches (b.node i) ctx.targetNodeName node = true :=
  ⟨(SlotTable.first_eq_some_iff.mp h).1, (SlotTable.first_eq_some_iff.mp h).2.1⟩

theorem searchContexts_eq_none (h : searchContexts b v node = none)
    (hctx : v.contexts i = some ctx) : ctx.targetNodeName ≠ node := by
  intro hname
  have hno := SlotTable.first_eq_none_iff.mp h i ctx hctx
  rw [hname, nameMatches_self] at hno
  cases hno

def hookedState (v : TapMirror) (i : ContextSlot) (node : Text) (fn : NodeFn) : TapMirror :=
  { v with
    contexts := Function.update v.contexts i (some (newContext v node fn))
    function := Function.update v.function node (some .tapMirrorInputFn)
    allocated := v.allocated + 1 }

theorem hooks_addNewTap_hookedState (b : Behind) (kernel : TunKernel) (v : TapMirror)
    (i : ContextSlot) (node : Text) (fn : NodeFn) (tap : Text) :
    hooks (tapMirrorContextAddNewTap b kernel (hookedState v i node fn) i
        (newContext v node fn) tap).contexts =
      hooks (Function.update v.contexts i (some (newContext v node fn))) := by
  have hself : (hookedState v i node fn).contexts i = some (newContext v node fn) :=
    Function.update_self ..
  exact hooks_modify hself rfl

theorem getOrNewTapMirrorContext_cases (b : Behind) (v : TapMirror) (node : Text) :
    getOrNewTapMirrorContext b v node = (v, none) ∨
      (∃ i ctx, searchContexts b v node = some (i, ctx) ∧
        getOrNewTapMirrorContext b v node = (v, some (i, ctx))) ∨
      ∃ i fn, searchContexts b v node = none ∧ v.contexts i = none ∧ v.function node = some fn ∧
        getOrNewTapMirrorContext b v node =
          (hookedState v i node fn, some (i, newContext v node fn)) := by
  unfold getOrNewTapMirrorContext
  cases searchContexts b v node with
  | some found => exact Or.inr (Or.inl ⟨found.1, found.2, rfl, rfl⟩)
  | none =>
    cases hfree : SlotTable.firstFree v.contexts with
    | none => exact Or.inl rfl
    | some i =>
      cases v.function node with
      | none => exact Or.inl rfl
      | some fn =>
        exact Or.inr (Or.inr ⟨i, fn, rfl, SlotTable.firstFree_eq_none_of hfree, rfl, rfl⟩)

def setEnabled (v : TapMirror) : TapMirror := { v with flags := v.flags ||| TAP_MIRROR_F_ENABLED }

/-- An enable adds a tap to the context the search found or to a new one, for which it
hooks the node, or it does nothing but set the flag. -/
theorem enableTapMirror_of_none {b : Behind} {kernel : TunKernel} {v w : TapMirror}
    {node tap : Text} (hnew : getOrNewTapMirrorContext b (setEnabled v) node = (w, none)) :
    enableTapMirror b kernel v node tap = (w, -1) := by
  unfold setEnabled at hnew
  unfold enableTapMirror
  simp only [hnew]

theorem enableTapMirror_of_some {b : Behind} {kernel : TunKernel} {v w : TapMirror}
    {node tap : Text} {i : ContextSlot} {ctx : MirrorContext}
    (hnew : getOrNewTapMirrorContext b (setEnabled v) node = (w, some (i, ctx))) :
    enableTapMirror b kernel v node tap = (tapMirrorContextAddNewTap b kernel w i ctx tap, 0) := by
  unfold setEnabled at hnew
  unfold enableTapMirror
  simp only [hnew]

theorem enableTapMirror_cases (b : Behind) (kernel : TunKernel) (v : TapMirror)
    (node tap : Text) :
    enableTapMirror b kernel v node tap = (setEnabled v, -1) ∨
      (∃ i ctx, searchContexts b v node = some (i, ctx) ∧ enableTapMirror b kernel v node tap =
        (tapMirrorContextAddNewTap b kernel (setEnabled v) i ctx tap, 0)) ∨
      ∃ i fn, searchContexts b v node = none ∧ v.contexts i = none ∧ v.function node = some fn ∧
        enableTapMirror b kernel v node tap = (tapMirrorContextAddNewTap b kernel
          (hookedState (setEnabled v) i node fn) i (newContext (setEnabled v) node fn) tap, 0) := by
  rcases getOrNewTapMirrorContext_cases b (setEnabled v) node with
    hnew | ⟨i, ctx, hfound, hnew⟩ | ⟨i, fn, hfound, hfree, hfn, hnew⟩
  · exact Or.inl (enableTapMirror_of_none hnew)
  · exact Or.inr (Or.inl ⟨i, ctx, hfound, enableTapMirror_of_some hnew⟩)
  · exact Or.inr (Or.inr ⟨i, fn, hfound, hfree, hfn, enableTapMirror_of_some hnew⟩)

def disabledContext (b : Behind) (i : ContextSlot) (ctx : MirrorContext) (tap : Text) :
    MirrorContext :=
  let taps := deleteTaps (tapHit b i tap) ctx.taps
  { ctx with
    taps := taps
    requestToFree := ctx.requestToFree || taps.all fun e => decide (e.fd ≤ 0) }

theorem disableTapMirror_cases (b : Behind) (v : TapMirror) (node tap : Text) :
    (searchContexts b v node = none ∧ disableTapMirror b v node tap = v) ∨
      ∃ i ctx, searchContexts b v node = some (i, ctx) ∧
        let contexts := Function.update v.contexts i (some (disabledContext b i ctx tap))
        disableTapMirror b v node tap =
          { v with
            contexts := contexts
            openFds := if getTapfd b contexts tap < 0 then
                closeFd v.openFds (deletedFd (tapHit b i tap) ctx.taps)
              else v.openFds } := by
  unfold disableTapMirror getTapMirrorContext
  cases searchContexts b v node with
  | none => exact Or.inl ⟨rfl, rfl⟩
  | some found => exact Or.inr ⟨found.1, found.2, rfl, rfl⟩

def unhookedState (v : TapMirror) (i : ContextSlot) (ctx : MirrorContext) : TapMirror :=
  { v with
    function := Function.update v.function ctx.targetRt (some ctx.targetFn)
    contexts := Function.update v.contexts i none }

/-- A frame at a hooked node ends in the context the search found: the node of that
context is unhooked, or the packets are signalled. -/
theorem tapMirrorInputFn_eq {pkts : List ℕ} (h : searchContexts b v node = some (i, ctx)) :
    tapMirrorInputFn b v node pkts =
      if ctx.requestToFree then .ok (unhookedState v i ctx, ⟨[ctx.targetFn], []⟩)
      else .ok (v, ⟨[ctx.targetFn], pkts.map fun p => ⟨i, p, ctx.serial⟩⟩) := by
  have hevent : getEventType b v node = some i := by rw [getEventType, h, Option.map_some]
  unfold tapMirrorInputFn
  rw [hevent]
  simp only [(searchContexts_eq_some h).1]
  rfl

end Steps

/-! ### The invariant -/

/-- What the slots remember of the nodes, against the functions the nodes have. -/
structure HookInvariant (graph : NodeGraph) (t : ContextSlot → Option MirrorHook)
    (function : Text → Option NodeFn) : Prop where
  runtime : ∀ i h, t i = some h → h.targetRt = h.targetNodeName
  saved : ∀ i h, t i = some h → graph.function h.targetRt = some h.targetFn
  distinct : SlotTable.DistinctKeys MirrorHook.targetNodeName t
  hooked : ∀ i h, t i = some h → function h.targetRt = some .tapMirrorInputFn
  unhooked : ∀ n, (∀ i h, t i = some h → h.targetRt ≠ n) → function n = graph.function n

namespace HookInvariant

variable {graph : NodeGraph} {t : ContextSlot → Option MirrorHook}
variable {function : Text → Option NodeFn} {h : MirrorHook}

theorem init (graph : NodeGraph) :
    HookInvariant graph (fun _ => none) graph.function where
  runtime _ _ := nofun
  saved _ _ := nofun
  distinct := SlotTable.distinctKeys_empty _
  hooked _ _ := nofun
  unhooked _ _ := rfl

theorem runtime_injective (hinv : HookInvariant graph t function) {j : ContextSlot}
    {h' : MirrorHook} (hi : t i = some h) (hj : t j = some h') (hrt : h.targetRt = h'.targetRt) :
    i = j :=
  hinv.distinct hi hj ((hinv.runtime i h hi).symm.trans (hrt.trans (hinv.runtime j h' hj)))

theorem hook (hinv : HookInvariant graph t function) (hi : t i = none) {node : Text}
    (hnew : ∀ j h, t j = some h → h.targetNodeName ≠ node) {fn : NodeFn}
    (hfn : function node = some fn) :
    HookInvariant graph (Function.update t i (some ⟨node, fn, node⟩))
      (Function.update function node (some .tapMirrorInputFn)) := by
  have hrt : ∀ j h, t j = some h → h.targetRt ≠ node := by
    intro j h hj
    rw [hinv.runtime j h hj]
    exact hnew j h hj
  constructor
  · intro j h hj
    rcases PartialInverse.update_some_eq_some hj with ⟨-, rfl⟩ | ⟨-, hj⟩
    · rfl
    · exact hinv.runtime j h hj
  · intro j h hj
    rcases PartialInverse.update_some_eq_some hj with ⟨-, rfl⟩ | ⟨-, hj⟩
    · rw [← hinv.unhooked node hrt]
      exact hfn
    · exact hinv.saved j h hj
  · exact hinv.distinct.write fun j _ h hj => hnew j h hj
  · intro j h hj
    rcases PartialInverse.update_some_eq_some hj with ⟨-, rfl⟩ | ⟨-, hj⟩
    · exact Function.update_self _ _ _
    · rw [Function.update_of_ne (hrt j h hj)]
      exact hinv.hooked j h hj
  · intro n hn
    have hne : n ≠ node := fun hc => hn i _ (Function.update_self _ _ _) hc.symm
    rw [Function.update_of_ne hne]
    refine hinv.unhooked n fun j h hj => hn j h ?_
    have hji : j ≠ i := by
      rintro rfl
      rw [hi] at hj
      cases hj
    rw [Function.update_of_ne hji]
    exact hj

theorem unhook (hinv : HookInvariant graph t function) (hi : t i = some h) :
    HookInvariant graph (Function.update t i none)
      (Function.update function h.targetRt (some h.targetFn)) := by
  constructor
  · exact fun j h' hj => hinv.runtime j h' (PartialInverse.update_none_eq_some hj).2
  · exact fun j h' hj => hinv.saved j h' (PartialInverse.update_none_eq_some hj).2
  · exact hinv.distinct.clear i
  · intro j h' hj
    obtain ⟨hji, hj⟩ := PartialInverse.update_none_eq_some hj
    have hne : h'.targetRt ≠ h.targetRt := fun hrt => hji (hinv.runtime_injective hj hi hrt)
    rw [Function.update_of_ne hne]
    exact hinv.hooked j h' hj
  · intro n hn
    by_cases hnrt : n = h.targetRt
    · rw [hnrt, Function.update_self]
      exact (hinv.saved i h hi).symm
    · rw [Function.update_of_ne hnrt]
      refine hinv.unhooked n fun j h' hj => ?_
      by_cases hji : j = i
      · subst hji
        rw [hi] at hj
        cases hj
        exact Ne.symm hnrt
      · exact hn j h' (by rw [Function.update_of_ne hji]; exact hj)

theorem hooked_iff (hinv : HookInvariant graph t function) (n : Text) :
    function n = some .tapMirrorInputFn ↔ ∃! i, ∃ h, t i = some h ∧ h.targetRt = n := by
  constructor
  · intro hn
    by_contra hnone
    have hfree : ∀ i h, t i = some h → h.targetRt ≠ n := by
      intro i h hi hrt
      refine hnone ⟨i, ⟨h, hi, hrt⟩, ?_⟩
      rintro j ⟨h', hj, hrt'⟩
      exact hinv.runtime_injective hj hi (hrt'.trans hrt.symm)
    exact graph.unhooked n ((hinv.unhooked n hfree).symm.trans hn)
  · rintro ⟨i, ⟨h, hi, rfl⟩, -⟩
    exact hinv.hooked i h hi

end HookInvariant

/-! ### Runs -/

/-- The invariant in a state of the plugin. -/
def Hooked (graph : NodeGraph) (v : TapMirror) : Prop :=
  HookInvariant graph (hooks v.contexts) v.function

section Runs

variable {graph : NodeGraph} {b : Behind} {v : TapMirror} {node tap : Text}

theorem hooks_eq_some {h : MirrorHook} (hi : hooks contexts i = some h) :
    ∃ ctx, contexts i = some ctx ∧ ctx.hook = h :=
  Option.map_eq_some_iff.mp hi

theorem Hooked.context (hv : Hooked graph v)
    (hnode : v.function node = some .tapMirrorInputFn) :
    ∃ i ctx, v.contexts i = some ctx ∧ ctx.targetNodeName = node := by
  obtain ⟨i, ⟨h, hi, hrt⟩, -⟩ := (hv.hooked_iff node).mp hnode
  obtain ⟨ctx, hctx, rfl⟩ := hooks_eq_some hi
  exact ⟨i, ctx, hctx, (hv.runtime i _ hi).symm.trans hrt⟩

theorem Hooked.slot_unique (hv : Hooked graph v) {j : ContextSlot} {c : MirrorContext}
    (hj : v.contexts j = some c) (hi : v.contexts i = some ctx)
    (hname : c.targetNodeName = ctx.targetNodeName) : j = i :=
  hv.distinct (hooks_eq hj) (hooks_eq hi) hname

/-- The search for a hooked node does not come back empty: the node's own context is there. -/
theorem Hooked.search (hv : Hooked graph v) (b : Behind)
    (hnode : v.function node = some .tapMirrorInputFn) :
    ∃ i ctx, searchContexts b v node = some (i, ctx) := by
  obtain ⟨i, ctx, hi, hname⟩ := hv.context hnode
  cases hsearch : searchContexts b v node with
  | some found => exact ⟨found.1, found.2, rfl⟩
  | none => exact absurd hname (searchContexts_eq_none hsearch hi)

theorem Hooked.enable (hv : Hooked graph v) (b : Behind) (kernel : TunKernel) (node tap : Text) :
    Hooked graph (enableTapMirror b kernel v node tap).1 := by
  rcases enableTapMirror_cases b kernel v node tap with
    heq | ⟨i, ctx, hfound, heq⟩ | ⟨i, fn, hnone, hfree, hfn, heq⟩
  · rw [heq]
    exact hv
  · have hhooks : hooks (enableTapMirror b kernel v node tap).1.contexts = hooks v.contexts := by
      rw [heq]
      exact hooks_modify (searchContexts_eq_some hfound).1 rfl
    rw [Hooked, hhooks, heq]
    exact hv
  · have hhooks : hooks (enableTapMirror b kernel v node tap).1.contexts =
        Function.update (hooks v.contexts) i (some ⟨node, fn, node⟩) := by
      rw [heq, hooks_addNewTap_hookedState]
      exact hooks_update v.contexts i _
    rw [Hooked, hhooks, heq]
    refine hv.hook (by rw [hooks, hfree, Option.map_none]) (fun j h hj => ?_) hfn
    obtain ⟨ctx, hctx, rfl⟩ := hooks_eq_some hj
    exact searchContexts_eq_none hnone hctx

theorem Hooked.disable (hv : Hooked graph v) (b : Behind) (node tap : Text) :
    Hooked graph (disableTapMirror b v node tap) := by
  rcases disableTapMirror_cases b v node tap with ⟨-, heq⟩ | ⟨i, ctx, hfound, heq⟩
  · rw [heq]
    exact hv
  · have hhooks : hooks (disableTapMirror b v node tap).contexts = hooks v.contexts := by
      rw [heq]
      exact hooks_modify (searchContexts_eq_some hfound).1 rfl
    rw [Hooked, hhooks, heq]
    exact hv

theorem Hooked.dispatchFrame_cases (hv : Hooked graph v) (b : Behind) (node : Text)
    (pkts : List ℕ) :
    (v.function node ≠ some .tapMirrorInputFn ∧
        ∃ passed, dispatchFrame b v node pkts = .ok (v, ⟨passed, []⟩)) ∨
      ∃ i ctx, v.function node = some .tapMirrorInputFn ∧
        searchContexts b v node = some (i, ctx) ∧
        ((ctx.requestToFree = true ∧ dispatchFrame b v node pkts =
            .ok (unhookedState v i ctx, ⟨[ctx.targetFn], []⟩)) ∨
          (ctx.requestToFree = false ∧ dispatchFrame b v node pkts =
            .ok (v, ⟨[ctx.targetFn], pkts.map fun p => ⟨i, p, ctx.serial⟩⟩))) := by
  unfold dispatchFrame
  cases hfn : v.function node with
  | none => exact Or.inl ⟨by simp, [], rfl⟩
  | some fn =>
    cases fn with
    | other address => exact Or.inl ⟨by simp, _, rfl⟩
    | tapMirrorInputFn =>
      obtain ⟨i, ctx, hfound⟩ := hv.search b hfn
      refine Or.inr ⟨i, ctx, rfl, hfound, ?_⟩
      simp only [tapMirrorInputFn_eq hfound]
      cases ctx.requestToFree with
      | true => exact Or.inl ⟨rfl, rfl⟩
      | false => exact Or.inr ⟨rfl, rfl⟩

theorem Hooked.unhookedState (hv : Hooked graph v) (hctx : v.contexts i = some ctx) :
    Hooked graph (unhookedState v i ctx) := by
  have hhooks : hooks (Routerd.unhookedState v i ctx).contexts =
      Function.update (hooks v.contexts) i none := hooks_update v.contexts i none
  rw [Hooked, hhooks]
  exact hv.unhook (hooks_eq hctx)

theorem Hooked.frame (hv : Hooked graph v) (b : Behind) (node : Text) (pkts : List ℕ) :
    ∃ w trace, dispatchFrame b v node pkts = .ok (w, trace) ∧ Hooked graph w := by
  rcases hv.dispatchFrame_cases b node pkts with
    ⟨-, passed, heq⟩ | ⟨i, ctx, -, hfound, ⟨-, heq⟩ | ⟨-, heq⟩⟩
  · exact ⟨v, _, heq, hv⟩
  · exact ⟨_, _, heq, hv.unhookedState (searchContexts_eq_some hfound).1⟩
  · exact ⟨v, _, heq, hv⟩

theorem Hooked.step (hv : Hooked graph v) (s : MirrorStep) :
    ∃ w events, mirrorStep v s = .ok (w, events) ∧ Hooked graph w := by
  unfold mirrorStep
  cases s.command with
  | enable node tap kernel => exact ⟨_, _, rfl, hv.enable s.behind kernel node tap⟩
  | disable node tap => exact ⟨_, _, rfl, hv.disable s.behind node tap⟩
  | frame node pkts =>
    obtain ⟨w, trace, hframe, hw⟩ := hv.frame s.behind node pkts
    exact ⟨w, trace.signalled, by simp only [hframe], hw⟩

theorem Hooked.run (hv : Hooked graph v) (steps : List MirrorStep) :
    ∃ w, mirrorRun v steps = .ok w ∧ Hooked graph w := by
  induction steps generalizing v with
  | nil => exact ⟨v, rfl, hv⟩
  | cons s rest ih =>
    obtain ⟨u, events, hstep, hu⟩ := hv.step s
    obtain ⟨w, hrun, hw⟩ := ih hu
    exact ⟨w, by rw [mirrorRun, hstep]; exact hrun, hw⟩

theorem Hooked.init (graph : NodeGraph) (openFds : List ℕ) :
    Hooked graph (tapMirrorInit graph openFds) := HookInvariant.init graph

theorem Hooked.of_run {openFds : List ℕ} {steps : List MirrorStep}
    (hrun : mirrorRun (tapMirrorInit graph openFds) steps = .ok v) : Hooked graph v := by
  obtain ⟨w, hw, hinv⟩ := (Hooked.init graph openFds).run steps
  rw [hrun] at hw
  cases hw
  exact hinv

end Runs

/-- Every run goes through. Where it ends, no two contexts have the same node name, a
node's function is the hook exactly if one context has its runtime, each context has
saved the node's own function, and the other nodes have theirs. -/
theorem mirrorRun_hooks (graph : NodeGraph) (openFds : List ℕ) (steps : List MirrorStep) :
    ∃ v, mirrorRun (tapMirrorInit graph openFds) steps = .ok v ∧
      SlotTable.DistinctKeys MirrorContext.targetNodeName v.contexts ∧
      (∀ n, v.function n = some .tapMirrorInputFn ↔
        ∃! i, ∃ ctx, v.contexts i = some ctx ∧ ctx.targetRt = n) ∧
      (∀ i ctx, v.contexts i = some ctx → graph.function ctx.targetRt = some ctx.targetFn ∧
        ctx.targetFn ≠ .tapMirrorInputFn) ∧
      ∀ n, v.function n ≠ some .tapMirrorInputFn → v.function n = graph.function n := by
  obtain ⟨v, hrun, hv⟩ := (Hooked.init graph openFds).run steps
  have hslot : ∀ n i, (∃ h, hooks v.contexts i = some h ∧ h.targetRt = n) ↔
      ∃ ctx, v.contexts i = some ctx ∧ ctx.targetRt = n := by
    intro n i
    constructor
    · rintro ⟨h, hi, hrt⟩
      obtain ⟨ctx, hctx, rfl⟩ := hooks_eq_some hi
      exact ⟨ctx, hctx, hrt⟩
    · rintro ⟨ctx, hctx, hrt⟩
      exact ⟨ctx.hook, hooks_eq hctx, hrt⟩
  refine ⟨v, hrun, ?_, fun n => ?_, fun i ctx hctx => ?_, fun n hn => ?_⟩
  · intro i j a b ha hb hab
    exact hv.slot_unique ha hb hab
  · rw [hv.hooked_iff n]
    simp only [hslot n]
  · have hsaved := hv.saved i _ (hooks_eq hctx)
    refine ⟨hsaved, fun hhook => graph.unhooked ctx.targetRt ?_⟩
    rw [← hhook]
    exact hsaved
  · refine hv.unhooked n fun i h hi hrt => hn ?_
    rw [← hrt]
    exact hv.hooked i h hi

/-! ### Frames at hooked nodes -/

/-- A frame of `node` was passed once, to the node's own function, and its packets were
signalled under the slot of the node's own context only. -/
structure FrameHandled (graph : NodeGraph) (v : TapMirror) (node : Text) (trace : FrameTrace) :
    Prop where
  passed : ∃ fn, graph.function node = some fn ∧ trace.passedTo = [fn]
  signalled : ∀ e ∈ trace.signalled, ∃ ctx, v.contexts e.slot = some ctx ∧
    ctx.targetNodeName = node

/-- The context in slot `i` is the first whose name compares equal with `node`. -/
def FirstMatch (b : Behind) (v : TapMirror) (node : Text) (i : ContextSlot)
    (ctx : MirrorContext) : Prop :=
  v.contexts i = some ctx ∧ nameMatches (b.node i) ctx.targetNodeName node = true ∧
    ∀ j < i, ∀ c, v.contexts j = some c → nameMatches (b.node j) c.targetNodeName node = false

theorem searchContexts_iff {b : Behind} {v : TapMirror} {node : Text} :
    searchContexts b v node = some (i, ctx) ↔ FirstMatch b v node i ctx :=
  SlotTable.first_eq_some_iff

theorem forall_firstMatch_iff {b : Behind} {v : TapMirror} {node : Text}
    (hfound : searchContexts b v node = some (i, ctx)) {P : MirrorContext → Prop} :
    (∀ j c, FirstMatch b v node j c → P c) ↔ P ctx := by
  constructor
  · exact fun hall => hall i ctx (searchContexts_iff.mp hfound)
  · intro hctx j c hj
    cases hfound.symm.trans (searchContexts_iff.mpr hj)
    exact hctx

/-- Packets signalled under slot `i` are handled as they should be if its context has the
function of `node` and its name, or if there are none. -/
theorem frameHandled_iff {graph : NodeGraph} {v : TapMirror} (hctx : v.contexts i = some ctx)
    (hfn : graph.function ctx.targetNodeName = some ctx.targetFn) (node : Text) (pkts : List ℕ) :
    FrameHandled graph v node ⟨[ctx.targetFn], pkts.map fun p => ⟨i, p, ctx.serial⟩⟩ ↔
      graph.function ctx.targetNodeName = graph.function node ∧
        (ctx.targetNodeName = node ∨ pkts = []) := by
  constructor
  · rintro ⟨⟨fn, hfn', hpassed⟩, hsignalled⟩
    cases hpassed
    refine ⟨hfn.trans hfn'.symm, ?_⟩
    cases pkts with
    | nil => exact Or.inr rfl
    | cons p rest =>
      obtain ⟨c, hc, hname⟩ := hsignalled _ List.mem_cons_self
      cases hctx.symm.trans hc
      exact Or.inl hname
  · rintro ⟨hsame, hown⟩
    refine ⟨⟨ctx.targetFn, hsame.symm.trans hfn, rfl⟩, fun e he => ?_⟩
    obtain ⟨p, hp, rfl⟩ := List.mem_map.mp he
    rcases hown with hname | rfl
    · exact ⟨ctx, hctx, hname⟩
    · cases hp

/-- In every state of a run, a frame at a hooked node is handled as it should be exactly
if the first context whose name compares equal is the node's own, or else is that of a
node with the same function and there is nothing to signal. -/
theorem hookedFrame_handled_iff (graph : NodeGraph) (openFds : List ℕ) (steps : List MirrorStep)
    (v : TapMirror) (hrun : mirrorRun (tapMirrorInit graph openFds) steps = .ok v)
    (node : Text) (hnode : v.function node = some .tapMirrorInputFn) (b : Behind)
    (pkts : List ℕ) :
    (∃ w trace, tapMirrorInputFn b v node pkts = .ok (w, trace) ∧
        FrameHandled graph v node trace) ↔
      ∀ i ctx, FirstMatch b v node i ctx → ctx.targetNodeName = node ∨
        (graph.function ctx.targetNodeName = graph.function node ∧
          (ctx.requestToFree = true ∨ pkts = [])) := by
  have hv := Hooked.of_run hrun
  obtain ⟨i, ctx, hfound⟩ := hv.search b hnode
  have hctx := (searchContexts_eq_some hfound).1
  have hfn : graph.function ctx.targetNodeName = some ctx.targetFn := by
    have hrt : ctx.targetRt = ctx.targetNodeName := hv.runtime i _ (hooks_eq hctx)
    rw [← hrt]
    exact hv.saved i _ (hooks_eq hctx)
  have hsame : ctx.targetNodeName = node →
      graph.function ctx.targetNodeName = graph.function node := fun hname => by rw [hname]
  rw [forall_firstMatch_iff hfound, tapMirrorInputFn_eq hfound]
  cases hmark : ctx.requestToFree with
  | true =>
    simp only [if_true, Except.ok.injEq, Prod.mk.injEq, and_assoc, exists_and_left,
      exists_eq_left', true_or, and_true]
    refine (frameHandled_iff hctx hfn node []).trans ?_
    grind
  | false =>
    simp only [Bool.false_eq_true, if_false, Except.ok.injEq, Prod.mk.injEq, and_assoc,
      exists_and_left, exists_eq_left', false_or]
    rw [frameHandled_iff hctx hfn]
    grind

/-- With one mirrored node there is no other context to find. -/
theorem hookedFrame_handled_single :
    let v := (enableTapMirror .unrelated .above (tapMirrorInit smallGraph [0, 1, 2])
      ip4Input tap1).1
    ∃ w trace, tapMirrorInputFn .unrelated v ip4Input [7] = .ok (w, trace) ∧
      FrameHandled smallGraph v ip4Input trace := by
  intro v
  have hall : ∀ i, (v.contexts i).all (fun ctx => ctx.targetNodeName = ip4Input) = true := by
    decide
  refine (hookedFrame_handled_iff smallGraph [0, 1, 2] [enableStep ip4Input tap1] v rfl
    ip4Input (by decide) .unrelated [7]).mpr fun i ctx hfirst => Or.inl ?_
  have hname := hall i
  rw [hfirst.1] at hname
  exact of_decide_eq_true hname

def overlappingRun : List MirrorStep :=
  [enableStep ethernetInput tap0, enableStep ip4Input tap1, disableStep ethernetInput tap0,
    frameStep ethernetInput [], enableStep ip4InputNoChecksum tap0]

/-- After that run a frame of `ip4-input` is passed to the other node's function and
signalled under the other node's slot. -/
theorem hookedFrame_other_node :
    ∃ v w trace, mirrorRun (tapMirrorInit smallGraph [0, 1, 2]) overlappingRun = .ok v ∧
      v.function ip4Input = some .tapMirrorInputFn ∧
      tapMirrorInputFn .unrelated v ip4Input [7] = .ok (w, trace) ∧
      smallGraph.function ip4Input = some (.other 2) ∧ trace.passedTo = [.other 3] ∧
      ¬ FrameHandled smallGraph v ip4Input trace := by
  have hvalues : (mirrorRun (tapMirrorInit smallGraph [0, 1, 2]) overlappingRun).toOption.map
      (fun v => (v.function ip4Input,
        (tapMirrorInputFn .unrelated v ip4Input [7]).toOption.map Prod.snd)) =
      some (some .tapMirrorInputFn, some ⟨[.other 3], [⟨0, 7, 2⟩]⟩) := by decide
  obtain ⟨v, hrun, hv⟩ := ok_of_toOption_map hvalues
  obtain ⟨hfn, hframe⟩ := Prod.mk.inj hv
  obtain ⟨⟨w, trace⟩, hok, htrace⟩ := ok_of_toOption_map hframe
  have htrace' : trace = ⟨[.other 3], [⟨0, 7, 2⟩]⟩ := htrace
  have hgraph : smallGraph.function ip4Input = some (.other 2) := by decide
  have hother : trace.passedTo = [.other 3] := congrArg FrameTrace.passedTo htrace'
  refine ⟨v, w, trace, hrun, hfn, hok, hgraph, hother, fun hhandled => ?_⟩
  obtain ⟨fn, hown, hpassed⟩ := hhandled.passed
  cases hgraph.symm.trans hown
  exact absurd (hother.symm.trans hpassed) (by decide)

end Routerd
