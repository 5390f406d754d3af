import Routerd.AlikeMirrors
import Routerd.MirrorFailures

/-!
# A tap enabled twice

An enable enters its tap in the context of the node without a look at the entries that
are there. Where the tap is live, a second enable enters its descriptor again, and the
redirector then writes every packet of the node to that tap twice. Where it is not, the
second enable may open what the first could not. The second call goes unnoticed only if
neither had a context to enter the tap in, if it enters a dead descriptor, or if the
redirector does not read the context again.
-/

namespace Routerd
open NumeralText

/-! ### What one enable enters -/

/-- What an enable does that looked for the descriptor of its tap in the state `v` and
entered `fd` in the context of its node. -/
structure TapEntered (names : MirrorNames) (kernel : TunKernel) (v w : TapMirror) (node tap : Text)
    (i : ContextSlot) (ctx : MirrorContext) (fd : ℤ) : Prop where
  entries : TapEntries names v.contexts v.openFds
  context : v.contexts i = some ctx
  name : ctx.targetNodeName = node
  entered : w.contexts = Function.update v.contexts i (some (ctx.addTap fd tap))
  function : w.function = v.function
  allocated : w.allocated = v.allocated
  descriptor : (∃ e, LiveTap v.contexts e ∧ e.name = some tap ∧ fd = e.fd ∧
      w.openFds = v.openFds) ∨
    ((∀ e, LiveTap v.contexts e → e.name ≠ some tap) ∧
      ((kernel.opens v.openFds = none ∧ fd < 0 ∧ w.openFds = v.openFds) ∨
        ∃ g, kernel.opens v.openFds = some g ∧ g ∉ v.openFds ∧ fd = g ∧
          w.openFds = g :: v.openFds))

theorem TapEntries.addNewTap {names : MirrorNames} {v : TapMirror} {node tap : Text}
    {i : ContextSlot} {ctx : MirrorContext} (h : TapEntries names v.contexts v.openFds)
    (hctx : v.contexts i = some ctx) (hname : ctx.targetNodeName = node)
    (htap : tap ∈ names.taps) (b : Behind) (kernel : TunKernel) :
    TapEntered names kernel v (tapMirrorContextAddNewTap b kernel v i ctx tap) node tap i ctx
      (getOrOpenTapfd b kernel v tap).2 where
  entries := h
  context := hctx
  name := hname
  entered := rfl
  function := rfl
  allocated := rfl
  descriptor := by
    unfold tapMirrorContextAddNewTap
    rcases getOrOpenTapfd_cases b kernel v tap with
      ⟨e, hfind, heq⟩ | ⟨hfind, hfails, heq, hneg⟩ | ⟨hfind, g, hopens, hg, heq⟩
    · obtain ⟨hlive, hetap⟩ := h.findTap_some htap hfind
      exact Or.inl ⟨e, hlive, hetap, by rw [heq], by rw [heq]⟩
    · exact Or.inr ⟨fun e he => h.findTap_none htap hfind he,
        Or.inl ⟨hfails, hneg, by rw [heq]⟩⟩
    · exact Or.inr ⟨fun e he => h.findTap_none htap hfind he,
        Or.inr ⟨g, hopens, hg, by rw [heq], by rw [heq]⟩⟩

theorem liveTap_hookedState_iff {v : TapMirror} {i : ContextSlot} (hfree : v.contexts i = none)
    (node : Text) (fn : NodeFn) (e : MirrorTap) :
    LiveTap (hookedState v i node fn).contexts e ↔ LiveTap v.contexts e := by
  constructor
  · intro he
    rcases he.of_update with ⟨hmem, hpos⟩ | ⟨j, -, c, hc, hmem, hpos⟩
    · rw [List.eq_of_mem_replicate hmem] at hpos
      exact absurd hpos (by decide)
    · exact ⟨j, c, hc, hmem, hpos⟩
  · rintro ⟨j, c, hc, hmem, hpos⟩
    have hji : j ≠ i := by
      rintro rfl
      rw [hfree] at hc
      cases hc
    exact ⟨j, c, (Function.update_of_ne hji _ _).trans hc, hmem, hpos⟩

/-- An enable that returns 0 enters its tap in the context the node had, or in a new one. -/
theorem Mirroring.tapEntered {graph : NodeGraph} {names : MirrorNames} {v : TapMirror}
    (hv : Mirroring graph names v) {node tap : Text} (hnode : node ∈ names.nodes)
    (htap : tap ∈ names.taps) (b : Behind) (kernel : TunKernel)
    (hret : (enableTapMirror b kernel v node tap).2 = 0) :
    ∃ u i ctx, TapEntered names kernel u (enableTapMirror b kernel v node tap).1 node tap i ctx
        (enabledTapFd b kernel v node tap) ∧
      (u = setEnabled v ∨ ((∀ j c, v.contexts j = some c → c.targetNodeName ≠ node) ∧
        ctx.requestToFree = false)) ∧
      (∀ e, LiveTap u.contexts e ↔ LiveTap v.contexts e) ∧ u.openFds = v.openFds := by
  unfold enabledTapFd
  rcases getOrNewTapMirrorContext_cases b (setEnabled v) node with
    hnew | ⟨i, ctx, hfound, hnew⟩ | ⟨i, fn, hfound, hfree, -, hnew⟩
  · rw [enableTapMirror_of_none hnew] at hret
    cases hret
  · rw [enableTapMirror_of_some hnew, hnew]
    obtain ⟨hctx, hname⟩ := (hv.search_iff hnode b).mp hfound
    have hentries : TapEntries names (setEnabled v).contexts (setEnabled v).openFds := hv.entries
    exact ⟨_, i, ctx, hentries.addNewTap hctx hname htap b kernel, Or.inl rfl, fun e => Iff.rfl, rfl⟩
  · rw [enableTapMirror_of_some hnew, hnew]
    have hentries := TapEntries.hookedState (v := setEnabled v) hv.entries hnode i fn
    refine ⟨_, i, newContext (setEnabled v) node fn,
      hentries.addNewTap (Function.update_self ..) rfl htap b kernel, Or.inr ⟨?_, rfl⟩,
      liveTap_hookedState_iff hfree node fn, rfl⟩
    exact fun j c hj => searchContexts_eq_none hfound hj

namespace TapEntered

variable {names : MirrorNames} {kernel : TunKernel} {v w : TapMirror} {node tap : Text}
variable {i : ContextSlot} {ctx : MirrorContext} {fd : ℤ}

theorem context_eq (h : TapEntered names kernel v w node tap i ctx fd) :
    w.contexts i = some (ctx.addTap fd tap) := by
  rw [h.entered, Function.update_self]

theorem of_setEnabled (h : TapEntered names kernel (setEnabled v) w node tap i ctx fd) :
    TapEntered names kernel v w node tap i ctx fd :=
  ⟨h.entries, h.context, h.name, h.entered, h.function, h.allocated, h.descriptor⟩

theorem mem_entry (ctx : MirrorContext) (fd : ℤ) (tap : Text) :
    ⟨fd, some tap⟩ ∈ (ctx.addTap fd tap).taps :=
  List.mem_append_right _ List.mem_cons_self

theorem live_iff (h : TapEntered names kernel v w node tap i ctx fd) :
    (∃ e, LiveTap w.contexts e ∧ e.name = some tap) ↔ 0 < fd := by
  constructor
  · rintro ⟨e, he, hname⟩
    rw [h.entered] at he
    rcases he.of_addTap h.context with hlive | ⟨-, hpos⟩
    · rcases h.descriptor with ⟨e', he', -, hfd, -⟩ | ⟨hno, -⟩
      · obtain ⟨-, -, -, -, hpos⟩ := he'
        exact hfd ▸ hpos
      · exact absurd hname (hno e hlive)
    · exact hpos
  · exact fun hpos => ⟨⟨fd, some tap⟩, ⟨i, _, h.context_eq, mem_entry ctx fd tap, hpos⟩, rfl⟩

end TapEntered

/-! ### Two enables -/

theorem Mirroring.systemStep {graph : NodeGraph} {names : MirrorNames} {sys sys' : MirrorSystem}
    (h : Mirroring graph names sys.plugin) {s : SystemStep} (hs : SystemStep.Uses names s)
    (hstep : systemStep sys s = .ok sys') : Mirroring graph names sys'.plugin := by
  cases s with
  | plugin s =>
    obtain ⟨v, events, hv, -⟩ := h.hooked.step s
    simp only [Routerd.systemStep, hv] at hstep
    cases hstep
    exact h.step hs hv
  | wake i =>
    simp only [Routerd.systemStep] at hstep
    split at hstep
    · cases hstep
      exact h
    · cases hstep

theorem Mirroring.systemRun {graph : NodeGraph} {names : MirrorNames} {sys sys' : MirrorSystem}
    (h : Mirroring graph names sys.plugin) {steps : List SystemStep}
    (hsteps : ∀ s ∈ steps, SystemStep.Uses names s) (hrun : systemRun sys steps = .ok sys') :
    Mirroring graph names sys'.plugin := by
  induction steps generalizing sys with
  | nil =>
    cases hrun
    exact h
  | cons s rest ih =>
    have hs := hsteps s List.mem_cons_self
    have hrest : ∀ s' ∈ rest, SystemStep.Uses names s' := fun s' hs' =>
      hsteps s' (List.mem_cons_of_mem s hs')
    cases hstep : Routerd.systemStep sys s with
    | error e =>
      rw [Routerd.systemRun, hstep] at hrun
      cases hrun
    | ok next =>
      rw [Routerd.systemRun, hstep] at hrun
      exact ih (h.systemStep hs hstep) hrest hrun

/-- A tap is enabled twice on a node, in a state that a run with such names has reached. -/
structure DoubleEnable where
  graph : NodeGraph
  names : MirrorNames
  openFds : List ℕ
  before : List SystemStep
  uses : ∀ s ∈ before, SystemStep.Uses names s
  sys : MirrorSystem
  reached : systemRun (systemInit graph openFds) before = .ok sys
  node : Text
  tap : Text
  node_mem : node ∈ names.nodes
  tap_mem : tap ∈ names.taps
  behind : Behind
  kernel : TunKernel
  behindAgain : Behind
  kernelAgain : TunKernel

namespace DoubleEnable

variable (d : DoubleEnable)

def first : TapMirror × ℤ := enableTapMirror d.behind d.kernel d.sys.plugin d.node d.tap

def second : TapMirror × ℤ := enableTapMirror d.behindAgain d.kernelAgain d.first.1 d.node d.tap

def once : MirrorSystem := ⟨d.first.1, d.sys.queue⟩

def twice : MirrorSystem := ⟨d.second.1, d.sys.queue⟩

/-- The descriptors the two calls enter. -/
def firstFd : ℤ := enabledTapFd d.behind d.kernel d.sys.plugin d.node d.tap

def secondFd : ℤ := enabledTapFd d.behindAgain d.kernelAgain d.first.1 d.node d.tap

/-- Every run of frames, commands and wake-ups writes the same packets to the same
descriptors, each as often, and closes the same descriptors. -/
def Unobservable : Prop :=
  ∀ steps, (∀ s ∈ steps, SystemStep.Uses d.names s) →
    ∀ effect, (systemEffects d.once steps).count effect = (systemEffects d.twice steps).count effect

/-- The tap is live before the calls. -/
def Live : Prop := ∃ e, LiveTap d.sys.plugin.contexts e ∧ e.name = some d.tap

/-- What the kernel would open the tap with for the first call. -/
def opened : Option ℕ := d.kernel.opens d.sys.plugin.openFds

/-- There is no context for the node and none can be had; or no tap is opened that could be
live, and none for the second call; or the tap is live after the first call and the context of
the node is marked to be freed with no event of its slot queued. -/
inductive Harmless : Prop where
  | refused (hnone : ∀ i ctx, d.sys.plugin.contexts i = some ctx → ctx.targetNodeName ≠ d.node)
      (hno : (∀ i, d.sys.plugin.contexts i ≠ none) ∨ d.sys.plugin.function d.node = none)
  | dead (hnone : ¬ d.Live) (hfirst : ∀ fd, d.opened = some fd → fd = 0)
      (hsecond : d.kernelAgain.opens (d.opened.toList ++ d.sys.plugin.openFds) = none)
  | unread (i : ContextSlot) (ctx : MirrorContext) (hctx : d.sys.plugin.contexts i = some ctx)
      (hname : ctx.targetNodeName = d.node) (hmarked : ctx.requestToFree = true)
      (hidle : ∀ e ∈ d.sys.queue, e.slot ≠ i) (hlive : d.Live ∨ ∃ fd, 0 < fd ∧ d.opened = some fd)

theorem mirroring : Mirroring d.graph d.names d.sys.plugin := by
  have hinit : Mirroring d.graph d.names (systemInit d.graph d.openFds).plugin :=
    Mirroring.init d.graph d.names d.openFds
  exact hinit.systemRun d.uses d.reached

theorem mirroring_once : Mirroring d.graph d.names d.once.plugin :=
  ⟨d.mirroring.hooked.enable d.behind d.kernel d.node d.tap,
    d.mirroring.entries.enable d.node_mem d.tap_mem d.behind d.kernel⟩

theorem mirroring_twice : Mirroring d.graph d.names d.twice.plugin :=
  ⟨d.mirroring_once.hooked.enable d.behindAgain d.kernelAgain d.node d.tap,
    d.mirroring_once.entries.enable d.node_mem d.tap_mem d.behindAgain d.kernelAgain⟩

/-- Both calls enter the tap, the second one in the context the first one left. -/
structure Entered (u : TapMirror) (i : ContextSlot) (ctx : MirrorContext) : Prop where
  first : TapEntered d.names d.kernel u d.first.1 d.node d.tap i ctx d.firstFd
  second : TapEntered d.names d.kernelAgain d.first.1 d.second.1 d.node d.tap i
    (ctx.addTap d.firstFd d.tap) d.secondFd
  live : ∀ e, LiveTap u.contexts e ↔ LiveTap d.sys.plugin.contexts e
  fds : u.openFds = d.sys.plugin.openFds
  origin : u = setEnabled d.sys.plugin ∨
    ((∀ j c, d.sys.plugin.contexts j = some c → c.targetNodeName ≠ d.node) ∧
      ctx.requestToFree = false)

theorem enable_returns (b : Behind) (kernel : TunKernel) (v : TapMirror) (node tap : Text) :
    (enableTapMirror b kernel v node tap).2 < 0 ∨ (enableTapMirror b kernel v node tap).2 = 0 := by
  rcases enableTapMirror_cases b kernel v node tap with
    heq | ⟨i, ctx, -, heq⟩ | ⟨i, fn, -, -, -, heq⟩ <;> rw [heq]
  · exact Or.inl (Int.negSucc_lt_zero 0)
  · exact Or.inr rfl
  · exact Or.inr rfl

theorem refused_or_entered : d.first.2 < 0 ∨ ∃ u i ctx, d.Entered u i ctx := by
  refine (enable_returns d.behind d.kernel d.sys.plugin d.node d.tap).imp_right fun hret => ?_
  obtain ⟨u, i, ctx, hfirst, horigin, hlive, hfds⟩ :=
    d.mirroring.tapEntered d.node_mem d.tap_mem d.behind d.kernel hret
  have hcontext : d.once.plugin.contexts i = some (ctx.addTap d.firstFd d.tap) := hfirst.context_eq
  have hname : (ctx.addTap d.firstFd d.tap).targetNodeName = d.node := hfirst.name
  -- the second call finds the context of the first
  have hret' : d.second.2 = 0 := by
    refine (enable_returns ..).resolve_left fun hneg => ?_
    have hfailed := (enableTapMirror_failed_iff ..).mp ((enableTapMirror_neg_iff ..).mp hneg)
    have hmatch := hfailed.1 i _ hcontext
    rw [hname, nameMatches_self] at hmatch
    cases hmatch
  obtain ⟨u', k, ctx', hsecond, horigin', -⟩ :=
    d.mirroring_once.tapEntered d.node_mem d.tap_mem d.behindAgain d.kernelAgain hret'
  rcases horigin' with rfl | ⟨hnone, -⟩
  · obtain rfl : k = i := d.mirroring_once.hooked.slot_unique hsecond.context hcontext
      (hsecond.name.trans hname.symm)
    cases hcontext.symm.trans hsecond.context
    exact ⟨u, k, ctx, hfirst, hsecond.of_setEnabled, hlive, hfds, horigin⟩
  · exact absurd hname (hnone i _ hcontext)

/-! ### Calls that go unnoticed -/

variable {d}

theorem alike_of_refused (hret : d.first.2 < 0) :
    AlikeSystems d.graph d.names d.once d.twice := by
  have hfirst : d.first = (setEnabled d.sys.plugin, -1) := (enableTapMirror_neg_iff ..).mp hret
  obtain ⟨hnone, hrest⟩ := (enableTapMirror_failed_iff ..).mp hfirst
  have hsecond : d.second = (setEnabled d.first.1, -1) := by
    refine (enableTapMirror_failed_iff ..).mpr ?_
    rw [hfirst]
    refine ⟨fun i ctx hctx => Bool.eq_false_iff.mpr fun hmatch => ?_, hrest⟩
    have hname := (nameMatches_iff d.names.nodes_prefixFree _
      (d.mirroring.entries.node i ctx hctx) d.node_mem).mp hmatch
    have hno := hnone i ctx hctx
    rw [hname, nameMatches_self] at hno
    cases hno
  refine ⟨d.mirroring_once, d.mirroring_twice, rfl, ?_⟩
  rw [once, twice, hsecond]
  exact .of_setEnabled _ _

section Entered

variable {u : TapMirror} {i : ContextSlot} {ctx : MirrorContext}

theorem Entered.alike (h : d.Entered u i ctx) (hfds : d.second.1.openFds = d.first.1.openFds)
    (hctx : Alike (∀ e ∈ d.sys.queue, e.slot ≠ i) (ctx.addTap d.firstFd d.tap)
      ((ctx.addTap d.firstFd d.tap).addTap d.secondFd d.tap)) :
    AlikeSystems d.graph d.names d.once d.twice where
  left := d.mirroring_once
  right := d.mirroring_twice
  queue := rfl
  plugin := by
    refine ⟨h.second.function.symm, hfds.symm, h.second.allocated.symm, ?_⟩
    have hcontexts := h.second.entered
    rw [twice, hcontexts]
    exact .modify _ h.second.context hctx

theorem Entered.alike_of_dead (h : d.Entered u i ctx) (hfd : d.secondFd < 0) :
    AlikeSystems d.graph d.names d.once d.twice := by
  have hfds : d.second.1.openFds = d.first.1.openFds := by
    rcases h.second.descriptor with ⟨e, -, -, -, hfds⟩ | ⟨-, ⟨-, -, hfds⟩ | ⟨g, -, -, hg, -⟩⟩
    · exact hfds
    · exact hfds
    · omega
  exact h.alike hfds (.addTap_dead _ hfd d.tap)

theorem Entered.found (h : d.Entered u i ctx) (hlive : 0 < d.firstFd) :
    d.secondFd = d.firstFd ∧ d.second.1.openFds = d.first.1.openFds := by
  have hentry : LiveTap d.first.1.contexts ⟨d.firstFd, some d.tap⟩ :=
    ⟨i, _, h.first.context_eq, TapEntered.mem_entry .., hlive⟩
  rcases h.second.descriptor with ⟨e, he, hname, hfd, hfds⟩ | ⟨hno, -⟩
  · have hshared := d.mirroring_once.entries.shared e ⟨d.firstFd, some d.tap⟩ he hentry
    exact ⟨hfd.trans (hshared.mpr hname), hfds⟩
  · exact absurd rfl (hno _ hentry)

theorem Entered.alike_of_unread (h : d.Entered u i ctx) (hlive : 0 < d.firstFd)
    (hmarked : ctx.requestToFree = true) (hidle : ∀ e ∈ d.sys.queue, e.slot ≠ i) :
    AlikeSystems d.graph d.names d.once d.twice := by
  obtain ⟨hfd, hfds⟩ := h.found hlive
  refine h.alike hfds ?_
  rw [hfd]
  exact .addTap_again hmarked hidle hlive (TapEntered.mem_entry ..)

theorem Entered.eq_of_context (h : d.Entered u i ctx) {j : ContextSlot} {c : MirrorContext}
    (hc : d.sys.plugin.contexts j = some c) (hname : c.targetNodeName = d.node) :
    j = i ∧ c = ctx := by
  rcases h.origin with hu | ⟨hnone, -⟩
  · have hctx := h.first.context
    rw [hu] at hctx
    obtain rfl : j = i :=
      d.mirroring.hooked.slot_unique hc hctx (hname.trans h.first.name.symm)
    exact ⟨rfl, Option.some_inj.mp (hc.symm.trans hctx)⟩
  · exact absurd hname (hnone j c hc)

end Entered

/-! ### The state before and the kernel's answers -/

theorem refused_iff : d.first.2 < 0 ↔
    (∀ i ctx, d.sys.plugin.contexts i = some ctx → ctx.targetNodeName ≠ d.node) ∧
      ((∀ i, d.sys.plugin.contexts i ≠ none) ∨ d.sys.plugin.function d.node = none) := by
  have hfailed := (enableTapMirror_neg_iff d.behind d.kernel d.sys.plugin d.node d.tap).trans
    (enableTapMirror_failed_iff ..)
  refine hfailed.trans (and_congr_left fun _ => ?_)
  refine forall₃_congr fun i ctx hctx => ?_
  rw [← Bool.not_eq_true, nameMatches_iff d.names.nodes_prefixFree _
    (d.mirroring.entries.node i ctx hctx) d.node_mem]

section Entered

variable {u : TapMirror} {i : ContextSlot} {ctx : MirrorContext}

theorem Entered.firstFd_pos_iff (h : d.Entered u i ctx) :
    0 < d.firstFd ↔ d.Live ∨ ∃ fd, 0 < fd ∧ d.opened = some fd := by
  have hdescriptor := h.first.descriptor
  simp only [h.live, h.fds] at hdescriptor
  rcases hdescriptor with ⟨e, he, hname, hfd, -⟩ | ⟨hno, hkernel⟩
  · obtain ⟨-, -, -, -, hpos⟩ := id he
    exact iff_of_true (hfd ▸ hpos) (Or.inl ⟨e, he, hname⟩)
  · have hdead : ¬ d.Live := fun ⟨e, he, hname⟩ => hno e he hname
    rw [or_iff_right hdead]
    rcases hkernel with ⟨hfails, hneg, -⟩ | ⟨g, hopens, -, hfd, -⟩
    · refine iff_of_false (by omega) ?_
      rintro ⟨fd, -, hopened⟩
      exact absurd (hfails.symm.trans hopened) (by simp)
    · rw [hfd, Nat.cast_pos]
      constructor
      · exact fun hpos => ⟨g, hpos, hopens⟩
      · rintro ⟨fd, hpos, hopened⟩
        cases hopens.symm.trans hopened
        exact hpos

theorem Entered.secondFd_neg_iff (h : d.Entered u i ctx) :
    d.secondFd < 0 ↔ ¬ d.Live ∧ (∀ fd, d.opened = some fd → fd = 0) ∧
      d.kernelAgain.opens (d.opened.toList ++ d.sys.plugin.openFds) = none := by
  have hpos := h.firstFd_pos_iff
  have hlive := h.first.live_iff
  rcases h.second.descriptor with ⟨e, he, hname, hfd, -⟩ | ⟨hno, hkernel⟩
  · have hfirst := hlive.mp ⟨e, he, hname⟩
    obtain ⟨-, -, -, -, hpos'⟩ := he
    refine iff_of_false (by omega) ?_
    rintro ⟨hdead, hzero, -⟩
    rcases hpos.mp hfirst with hbefore | ⟨fd, hfd', hopened⟩
    · exact hdead hbefore
    · have := hzero fd hopened
      omega
  · have hnot : ¬ 0 < d.firstFd := fun hfirst => by
      obtain ⟨e, he, hname⟩ := hlive.mpr hfirst
      exact hno e he hname
    have hdead : ¬ d.Live := fun hbefore => hnot (hpos.mpr (Or.inl hbefore))
    have hzero : ∀ fd, d.opened = some fd → fd = 0 := by
      intro fd hopened
      by_contra hne
      exact hnot (hpos.mpr (Or.inr ⟨fd, Nat.pos_of_ne_zero hne, hopened⟩))
    have hfds : d.first.1.openFds = d.opened.toList ++ d.sys.plugin.openFds := by
      have hdescriptor := h.first.descriptor
      simp only [h.live, h.fds] at hdescriptor
      rcases hdescriptor with ⟨e, he, hname, -⟩ | ⟨-, ⟨hfails, -, hfds⟩ | ⟨g, hopens, -, -, hfds⟩⟩
      · exact absurd ⟨e, he, hname⟩ hdead
      · rw [hfds, opened, hfails]
        rfl
      · rw [hfds, opened, hopens]
        rfl
    rw [← hfds, and_iff_right hdead, and_iff_right hzero]
    rcases hkernel with ⟨hfails, hneg, -⟩ | ⟨g, hopens, -, hfd, -⟩
    · exact iff_of_true hneg hfails
    · refine iff_of_false (by omega) ?_
      rw [hopens]
      simp

end Entered

theorem Harmless.alike (h : d.Harmless) : AlikeSystems d.graph d.names d.once d.twice := by
  rcases d.refused_or_entered with hret | ⟨u, i, ctx, hentered⟩
  · exact alike_of_refused hret
  · cases h with
    | refused hnone hno => exact alike_of_refused (refused_iff.mpr ⟨hnone, hno⟩)
    | dead hnone hfirst hsecond =>
      exact hentered.alike_of_dead (hentered.secondFd_neg_iff.mpr ⟨hnone, hfirst, hsecond⟩)
    | unread j c hc hname hmarked hidle hlive =>
      obtain ⟨rfl, rfl⟩ := hentered.eq_of_context hc hname
      exact hentered.alike_of_unread (hentered.firstFd_pos_iff.mpr hlive) hmarked hidle

theorem Harmless.unobservable (h : d.Harmless) : d.Unobservable := by
  intro steps hsteps effect
  have heq := (AlikeSystems.lockstep d.graph d.names).observe_eq hsteps h.alike
  rw [systemEffects, heq, systemEffects]

/-! ### Runs that tell -/

theorem systemEffects_wake {v : TapMirror} {queue : List MirrorEvent} {i : ContextSlot}
    {ctx : MirrorContext} (hctx : v.contexts i = some ctx) {e : MirrorEvent}
    {others : List MirrorEvent} (hpending : (queue.filter fun e => e.slot = i) = e :: others) :
    systemEffects ⟨v, queue⟩ [.wake i] = ctx.liveFds.map fun fd => .write fd e.buffer := by
  rw [systemEffects, ObservedRuns.observe_singleton]
  simp only [stepEffects, tapMirrorRedirectorFn_of_pending hctx hpending, List.map_map]
  rfl

/-- A frame that is signalled is seen only when the redirector wakes. -/
theorem systemEffects_frame {v : TapMirror} {b : Behind} {node : Text} {pkts : List ℕ}
    {trace : FrameTrace} (hframe : dispatchFrame b v node pkts = .ok (v, trace))
    (queue : List MirrorEvent) (rest : List SystemStep) :
    systemEffects ⟨v, queue⟩ (.plugin ⟨.frame node pkts, b⟩ :: rest) =
      systemEffects ⟨v, queue ++ trace.signalled⟩ rest := by
  have hstep : systemStep ⟨v, queue⟩ (.plugin ⟨.frame node pkts, b⟩) =
      .ok ⟨v, queue ++ trace.signalled⟩ := by simp only [systemStep, mirrorStep, hframe]
  have hnone : stepEffects ⟨v, queue⟩ (.plugin ⟨.frame node pkts, b⟩) = [] := by
    simp only [stepEffects, mirrorStep, hframe]
    simp
  rw [systemEffects, ObservedRuns.observe_cons_ok hstep, hnone, List.nil_append, systemEffects]

theorem close_mem_disable_iff {sys : MirrorSystem} {b : Behind} {node tap : Text} {g : ℕ} :
    .close g ∈ systemEffects sys [.plugin ⟨.disable node tap, b⟩] ↔
      g ∈ sys.plugin.openFds ∧ g ∉ (disableTapMirror b sys.plugin node tap).openFds := by
  rw [systemEffects, ObservedRuns.observe_singleton]
  simp [stepEffects, mirrorStep]

section Entered

variable {u : TapMirror} {i : ContextSlot} {ctx : MirrorContext}

theorem Entered.wake_tells (h : d.Entered u i ctx) (hlive : 0 < d.firstFd)
    {queue : List MirrorEvent} {e : MirrorEvent} {others : List MirrorEvent}
    (hpending : (queue.filter fun e => e.slot = i) = e :: others) :
    (systemEffects ⟨d.first.1, queue⟩ [.wake i]).count (.write d.firstFd e.buffer) ≠
      (systemEffects ⟨d.second.1, queue⟩ [.wake i]).count (.write d.firstFd e.buffer) := by
  have hinjective : Function.Injective fun fd => MirrorEffect.write fd e.buffer := fun _ _ heq => by
    cases heq
    rfl
  have hfds : ((ctx.addTap d.firstFd d.tap).addTap d.secondFd d.tap).liveFds =
      (ctx.addTap d.firstFd d.tap).liveFds ++ [d.firstFd] := by
    rw [(h.found hlive).1, MirrorContext.liveFds_eq,
      MirrorContext.liveTaps_addTap_of_pos _ hlive, List.map_append, ← MirrorContext.liveFds_eq]
    rfl
  rw [systemEffects_wake h.first.context_eq hpending,
    systemEffects_wake h.second.context_eq hpending, hfds,
    List.count_map_of_injective _ _ hinjective, List.count_map_of_injective _ _ hinjective,
    List.count_append, List.count_singleton_self]
  omega

theorem Entered.mirroredBy (h : d.Entered u i ctx) (hlive : 0 < d.firstFd)
    (hunmarked : ctx.requestToFree = false) :
    MirroredBy d.first.1 d.node d.tap d.firstFd.toNat i (ctx.addTap d.firstFd d.tap) ∧
      MirroredBy d.second.1 d.node d.tap d.firstFd.toNat i
        ((ctx.addTap d.firstFd d.tap).addTap d.secondFd d.tap) := by
  have hentry : ⟨d.firstFd.toNat, some d.tap⟩ ∈ (ctx.addTap d.firstFd d.tap).taps := by
    rw [Int.toNat_of_nonneg hlive.le]
    exact TapEntered.mem_entry ..
  have hpos : 0 < d.firstFd.toNat := Int.pos_iff_toNat_pos.mp hlive
  exact ⟨⟨h.first.context_eq, h.first.name, hunmarked, hentry, hpos⟩,
    ⟨h.second.context_eq, h.first.name, hunmarked, List.mem_append_left _ hentry, hpos⟩⟩

theorem Entered.frame_tells (h : d.Entered u i ctx) (hlive : 0 < d.firstFd)
    (hunmarked : ctx.requestToFree = false) : ¬ d.Unobservable := by
  intro hsame
  obtain ⟨honce, htwice⟩ := h.mirroredBy hlive hunmarked
  let signalled : MirrorEvent := ⟨i, 0, ctx.serial⟩
  have hmem : signalled ∈ (d.sys.queue ++ [signalled]).filter fun e => e.slot = i :=
    List.mem_filter.mpr ⟨List.mem_append_right _ List.mem_cons_self, decide_eq_true rfl⟩
  obtain ⟨e, others, hpending⟩ := List.exists_cons_of_ne_nil (List.ne_nil_of_mem hmem)
  have huses : ∀ s ∈ [SystemStep.plugin ⟨.frame d.node [0], d.behind⟩, .wake i],
      SystemStep.Uses d.names s := by simp [SystemStep.Uses, MirrorStep.Uses]
  have hcount := hsame _ huses (.write d.firstFd e.buffer)
  rw [once, twice, systemEffects_frame (honce.frame d.mirroring_once d.behind [0]),
    systemEffects_frame (htwice.frame d.mirroring_twice d.behind [0])] at hcount
  exact h.wake_tells hlive hpending hcount

/-- Where the tap was not live, a disable deletes the entry of the second call, and no
live entry of the tap is left. -/
theorem Entered.disable_closes (h : d.Entered u i ctx)
    (hno : ∀ e, LiveTap d.first.1.contexts e → e.name ≠ some d.tap) (hfd : 0 ≤ d.secondFd)
    (b : Behind) :
    (disableTapMirror b d.second.1 d.node d.tap).openFds =
      closeFd d.second.1.openFds d.secondFd := by
  have hentered : d.twice.plugin.contexts = Function.update d.first.1.contexts i
      (some ((ctx.addTap d.firstFd d.tap).addTap d.secondFd d.tap)) := h.second.entered
  have hcontext : d.twice.plugin.contexts i =
      some ((ctx.addTap d.firstFd d.tap).addTap d.secondFd d.tap) := h.second.context_eq
  have hnode : ((ctx.addTap d.firstFd d.tap).addTap d.secondFd d.tap).targetNodeName = d.node :=
    h.second.name
  rcases d.mirroring_twice.entries.disable_cases d.node_mem d.tap_mem b with
    ⟨hnone, -⟩ | ⟨k, c, fd, hd⟩
  · exact absurd hnode (hnone i _ hcontext)
  obtain rfl : k = i := d.mirroring_twice.hooked.slot_unique hd.context hcontext
    (hd.name.trans hnode.symm)
  cases hcontext.symm.trans hd.context
  have hfd' : fd = d.secondFd := by
    rcases hd.descriptor with ⟨hzero, hdead⟩ | ⟨e, he, hpos, hname, hfd'⟩
    · have hnot : ¬ 0 < d.secondFd := fun hpos =>
        hdead ⟨d.secondFd, some d.tap⟩ (TapEntered.mem_entry ..) hpos rfl
      omega
    · have hlive : LiveTap d.twice.plugin.contexts e := ⟨k, _, hcontext, he, hpos⟩
      rw [hentered] at hlive
      rcases hlive.of_addTap h.second.context with hlive | ⟨rfl, -⟩
      · exact absurd hname (hno e hlive)
      · exact hfd'
  rw [← hfd']
  refine hd.closed fun e he => ?_
  rw [hd.dropped, hentered, Function.update_idem] at he
  rcases he.of_update with ⟨hmem, hpos⟩ | ⟨j, -, c, hc, hmem, hpos⟩
  · exact ((mem_dropTap hpos).mp hmem).2
  · exact hno e ⟨j, c, hc, hmem, hpos⟩

theorem Entered.disable_tells (h : d.Entered u i ctx)
    (hno : ∀ e, LiveTap d.first.1.contexts e → e.name ≠ some d.tap) {g : ℕ}
    (hg : g ∉ d.first.1.openFds) (hfd : d.secondFd = g)
    (hfds : d.second.1.openFds = g :: d.first.1.openFds) : ¬ d.Unobservable := by
  intro hsame
  have huses : ∀ s ∈ [SystemStep.plugin ⟨.disable d.node d.tap, d.behind⟩],
      SystemStep.Uses d.names s := by
    simp [SystemStep.Uses, MirrorStep.Uses, d.node_mem, d.tap_mem]
  have hcount := hsame _ huses (.close g)
  have htwice : .close g ∈
      systemEffects d.twice [.plugin ⟨.disable d.node d.tap, d.behind⟩] := by
    refine close_mem_disable_iff.mpr ⟨hfds ▸ List.mem_cons_self, ?_⟩
    rw [twice, h.disable_closes hno (by omega), TapEntries.mem_closeFd, hfd]
    exact fun hmem => hmem.2 rfl
  have honce : .close g ∉
      systemEffects d.once [.plugin ⟨.disable d.node d.tap, d.behind⟩] :=
    fun hmem => hg (close_mem_disable_iff.mp hmem).1
  rw [List.count_eq_zero_of_not_mem honce] at hcount
  exact List.count_pos_iff.mpr htwice |>.ne hcount

theorem Entered.harmless (h : d.Entered u i ctx) (hsame : d.Unobservable) : d.Harmless := by
  rcases h.second.descriptor with ⟨e, he, hname, -⟩ | ⟨hno, ⟨-, hneg, -⟩ | ⟨g, -, hg, hfd, hfds⟩⟩
  · have hlive : 0 < d.firstFd := h.first.live_iff.mp ⟨e, he, hname⟩
    cases hmarked : ctx.requestToFree with
    | false => exact absurd hsame (h.frame_tells hlive hmarked)
    | true =>
      rcases h.origin with hu | ⟨-, hunmarked⟩
      · have hctx := h.first.context
        rw [hu] at hctx
        refine .unread i ctx hctx h.first.name hmarked (fun e he hslot => ?_)
          (h.firstFd_pos_iff.mp hlive)
        have hmem : e ∈ d.sys.queue.filter fun e => e.slot = i :=
          List.mem_filter.mpr ⟨he, decide_eq_true hslot⟩
        obtain ⟨e', others, hpending⟩ := List.exists_cons_of_ne_nil (List.ne_nil_of_mem hmem)
        exact h.wake_tells hlive hpending (hsame [.wake i] (by simp [SystemStep.Uses]) _)
      · rw [hunmarked] at hmarked
        cases hmarked
  · obtain ⟨hdead, hzero, hfails⟩ := h.secondFd_neg_iff.mp hneg
    exact .dead hdead hzero hfails
  · exact absurd hsame (h.disable_tells hno hg hfd hfds)

end Entered

/-- The second call makes no difference to any later run exactly if there is no context for the
node and none can be had, if both calls have the tap opened with nothing or the first with
descriptor 0 and the second with nothing, or if the tap is live and the node's context is marked
to be freed with no event of its slot queued. -/
theorem unobservable_iff (d : DoubleEnable) : d.Unobservable ↔ d.Harmless := by
  refine ⟨fun hsame => ?_, Harmless.unobservable⟩
  rcases d.refused_or_entered with hret | ⟨u, i, ctx, hentered⟩
  · obtain ⟨hnone, hno⟩ := refused_iff.mp hret
    exact .refused hnone hno
  · exact hentered.harmless hsame

end DoubleEnable

theorem smallUses : ∀ s ∈ ([] : List SystemStep), SystemStep.Uses smallNames s := nofun

def tap0Twice : DoubleEnable where
  graph := smallGraph
  names := smallNames
  openFds := [0, 1, 2]
  before := []
  uses := smallUses
  sys := systemInit smallGraph [0, 1, 2]
  reached := rfl
  node := ip4Input
  tap := tap0
  node_mem := Or.inr rfl
  tap_mem := Or.inl rfl
  behind := .unrelated
  kernel := .above
  behindAgain := .unrelated
  kernelAgain := .above

/-- The packet of the next frame goes to the tap twice. -/
theorem tap0Twice_packet_doubled :
    systemEffects tap0Twice.once [.plugin (frameStep ip4Input [7]), .wake 0] = [.write 3 7] ∧
      systemEffects tap0Twice.twice [.plugin (frameStep ip4Input [7]), .wake 0] =
        [.write 3 7, .write 3 7] ∧
      ¬ tap0Twice.Unobservable := by
  have honce : systemEffects tap0Twice.once [.plugin (frameStep ip4Input [7]), .wake 0] =
      [.write 3 7] := by decide
  have htwice : systemEffects tap0Twice.twice [.plugin (frameStep ip4Input [7]), .wake 0] =
      [.write 3 7, .write 3 7] := by decide
  refine ⟨honce, htwice, fun hsame => ?_⟩
  have hcount := hsame [.plugin (frameStep ip4Input [7]), .wake 0]
    (by simp [SystemStep.Uses, MirrorStep.Uses, frameStep]) (.write 3 7)
  rw [honce, htwice] at hcount
  exact absurd hcount (by decide)

end Routerd
