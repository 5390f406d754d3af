import Routerd.MirrorHooks

/-!
# Events on their way to the redirector

An event carries the number of a slot. Between the signal and the moment the
redirector takes the event, a frame can free the context in that slot and a command
can put another one there. The redirector finds the context that signalled exactly as
long as no context is freed while events of its slot are queued.
-/

namespace Routerd
open NumeralText

structure MirrorSystem where
  plugin : TapMirror
  queue : List MirrorEvent

/-- What one pass of the redirector did: the context it used, what it wrote to which
descriptor, and the buffers it freed. -/
structure RedirectorPass where
  handled : MirrorContext
  writes : List (ℤ × ℕ)
  freed : List ℕ

/-- One pass of the loop. `vlib_process_get_events` takes every pending event of one
type, of which only the first is looked at; without a pending event the pass ends with
the clock. -/
def tapMirrorRedirectorFn (v : TapMirror) (queue : List MirrorEvent) (eventType : ContextSlot) :
    Except Fault (List MirrorEvent × Option RedirectorPass) :=
  match queue.filter fun e => e.slot = eventType with
  | [] => .ok (queue, none)
  | e :: _ =>
    match v.contexts eventType with
    | none => .error .segv
    | some ctx =>
      let live := ctx.taps.filter fun t => decide (0 < t.fd)
      .ok (queue.filter fun e => e.slot ≠ eventType,
        some ⟨ctx, live.map fun t => (t.fd, e.buffer), [e.buffer]⟩)

inductive SystemStep where
  | plugin (s : MirrorStep)
  | wake (eventType : ContextSlot)

def systemStep (sys : MirrorSystem) : SystemStep → Except Fault MirrorSystem
  | .plugin s =>
    match mirrorStep sys.plugin s with
    | .ok (v, events) => .ok ⟨v, sys.queue ++ events⟩
    | .error e => .error e
  | .wake eventType =>
    match tapMirrorRedirectorFn sys.plugin sys.queue eventType with
    | .ok (queue, _) => .ok { sys with queue := queue }
    | .error e => .error e

def systemRun (sys : MirrorSystem) : List SystemStep → Except Fault MirrorSystem
  | [] => .ok sys
  | s :: rest =>
    match systemStep sys s with
    | .ok sys => systemRun sys rest
    | .error e => .error e

def systemInit (graph : NodeGraph) (openFds : List ℕ) : MirrorSystem :=
  ⟨tapMirrorInit graph openFds, []⟩

/-- Woken for this type, the redirector uses the context that signalled each event it takes. -/
def HandlesRight (sys : MirrorSystem) (eventType : ContextSlot) : Prop :=
  ∀ e ∈ sys.queue, e.slot = eventType → ∃ queue pass,
    tapMirrorRedirectorFn sys.plugin sys.queue eventType = .ok (queue, some pass) ∧
      sys.plugin.contexts eventType = some pass.handled ∧ pass.handled.serial = e.serial

/-- A frame that frees a context finds no queued event of its slot. -/
def FreesIdle (sys : MirrorSystem) : SystemStep → Prop
  | .plugin ⟨.frame node _, b⟩ =>
    sys.plugin.function node = some .tapMirrorInputFn →
      ∀ i ctx, FirstMatch b sys.plugin node i ctx → ctx.requestToFree = true →
        ∀ e ∈ sys.queue, e.slot ≠ i
  | _ => True

def IdleRun (sys : MirrorSystem) : List SystemStep → Prop
  | [] => True
  | s :: rest =>
    FreesIdle sys s ∧ ∀ sys', systemStep sys s = .ok sys' → IdleRun sys' rest

/-! ### Queued events and the slots -/

/-- The slot of every queued event holds the context that signalled it. -/
def EventsMatch (v : TapMirror) (queue : List MirrorEvent) : Prop :=
  ∀ e ∈ queue, ∃ ctx, v.contexts e.slot = some ctx ∧ ctx.serial = e.serial

theorem handlesRight_iff (sys : MirrorSystem) :
    (∀ eventType, HandlesRight sys eventType) ↔ EventsMatch sys.plugin sys.queue := by
  constructor
  · intro h e he
    obtain ⟨queue, pass, -, hctx, hserial⟩ := h e.slot e he rfl
    exact ⟨pass.handled, hctx, hserial⟩
  · rintro h eventType e he rfl
    obtain ⟨ctx, hctx, hserial⟩ := h e he
    have hmem : e ∈ sys.queue.filter fun x => x.slot = e.slot :=
      List.mem_filter.mpr ⟨he, decide_eq_true rfl⟩
    unfold tapMirrorRedirectorFn
    cases hbatch : sys.queue.filter fun x => x.slot = e.slot with
    | nil =>
      rw [hbatch] at hmem
      cases hmem
    | cons first others =>
      simp only [hctx]
      exact ⟨_, _, rfl, rfl, hserial⟩

/-- Every context of `v` is still in its slot in `w`. -/
def KeepsContexts (v w : TapMirror) : Prop :=
  ∀ i ctx, v.contexts i = some ctx → ∃ ctx', w.contexts i = some ctx' ∧ ctx'.serial = ctx.serial

section Keeps

variable {u v w : TapMirror} {queue : List MirrorEvent} {i : ContextSlot} {ctx : MirrorContext}

theorem EventsMatch.keeps (h : EventsMatch v queue) (hw : KeepsContexts v w) :
    EventsMatch w queue := by
  intro e he
  obtain ⟨ctx, hctx, hserial⟩ := h e he
  obtain ⟨ctx', hctx', hserial'⟩ := hw e.slot ctx hctx
  exact ⟨ctx', hctx', hserial'.trans hserial⟩

theorem KeepsContexts.of_eq (h : w.contexts = v.contexts) : KeepsContexts v w :=
  fun i ctx hctx => ⟨ctx, by rw [h]; exact hctx, rfl⟩

theorem KeepsContexts.trans (h : KeepsContexts u v) (h' : KeepsContexts v w) :
    KeepsContexts u w := by
  intro i ctx hctx
  obtain ⟨ctx', hctx', hserial⟩ := h i ctx hctx
  obtain ⟨ctx'', hctx'', hserial'⟩ := h' i ctx' hctx'
  exact ⟨ctx'', hctx'', hserial'.trans hserial⟩

theorem KeepsContexts.write {c : MirrorContext}
    (hw : w.contexts = Function.update v.contexts i (some c))
    (hc : ∀ ctx, v.contexts i = some ctx → c.serial = ctx.serial) : KeepsContexts v w := by
  intro j ctx hj
  rw [hw]
  by_cases hji : j = i
  · subst hji
    exact ⟨c, Function.update_self .., hc ctx hj⟩
  · exact ⟨ctx, by rw [Function.update_of_ne hji]; exact hj, rfl⟩

theorem KeepsContexts.modify {c : MirrorContext} (hctx : v.contexts i = some ctx)
    (hw : w.contexts = Function.update v.contexts i (some c)) (hserial : c.serial = ctx.serial) :
    KeepsContexts v w := by
  refine KeepsContexts.write hw fun ctx' hctx' => ?_
  cases hctx.symm.trans hctx'
  exact hserial

end Keeps

/-! ### The steps -/

theorem enableTapMirror_keeps (b : Behind) (kernel : TunKernel) (v : TapMirror)
    (node tap : Text) : KeepsContexts v (enableTapMirror b kernel v node tap).1 := by
  rcases enableTapMirror_cases b kernel v node tap with
    heq | ⟨i, ctx, hfound, heq⟩ | ⟨i, fn, -, hfree, -, heq⟩ <;> rw [heq]
  · exact KeepsContexts.of_eq rfl
  · exact KeepsContexts.modify (v := v) (searchContexts_eq_some hfound).1 rfl rfl
  · have hhooked : KeepsContexts v (hookedState (setEnabled v) i node fn) := by
      refine KeepsContexts.write rfl fun ctx hctx => ?_
      rw [hfree] at hctx
      cases hctx
    exact hhooked.trans (KeepsContexts.modify (Function.update_self ..) rfl rfl)

theorem disableTapMirror_keeps (b : Behind) (v : TapMirror) (node tap : Text) :
    KeepsContexts v (disableTapMirror b v node tap) := by
  rcases disableTapMirror_cases b v node tap with ⟨-, heq⟩ | ⟨i, ctx, hfound, heq⟩ <;> rw [heq]
  · exact KeepsContexts.of_eq rfl
  · exact KeepsContexts.modify (v := v) (searchContexts_eq_some hfound).1 rfl rfl

theorem tapMirrorRedirectorFn_ok {v : TapMirror} {queue : List MirrorEvent}
    (hmatch : EventsMatch v queue) (eventType : ContextSlot) :
    ∃ queue' pass, tapMirrorRedirectorFn v queue eventType = .ok (queue', pass) ∧
      queue' ⊆ queue := by
  unfold tapMirrorRedirectorFn
  cases hbatch : queue.filter fun e => e.slot = eventType with
  | nil => exact ⟨queue, none, rfl, List.Subset.refl queue⟩
  | cons e others =>
    have he : e ∈ queue.filter fun e => e.slot = eventType := hbatch ▸ List.mem_cons_self
    obtain ⟨hmem, hslot⟩ := List.mem_filter.mp he
    obtain ⟨ctx, hctx, -⟩ := hmatch e hmem
    rw [of_decide_eq_true hslot] at hctx
    simp only [hctx]
    exact ⟨_, _, rfl, List.filter_subset_self queue⟩

section Steps

variable {graph : NodeGraph} {sys : MirrorSystem}

theorem systemStep_match (hv : Hooked graph sys.plugin)
    (hmatch : EventsMatch sys.plugin sys.queue) {s : SystemStep} (hidle : FreesIdle sys s) :
    ∃ sys', systemStep sys s = .ok sys' ∧ Hooked graph sys'.plugin ∧
      EventsMatch sys'.plugin sys'.queue := by
  cases s with
  | wake eventType =>
    obtain ⟨queue, pass, heq, hsub⟩ := tapMirrorRedirectorFn_ok hmatch eventType
    refine ⟨⟨sys.plugin, queue⟩, by simp only [systemStep, heq], hv, ?_⟩
    exact fun e he => hmatch e (hsub he)
  | plugin s =>
    obtain ⟨command, b⟩ := s
    cases command with
    | enable node tap kernel =>
      refine ⟨_, rfl, hv.enable b kernel node tap, ?_⟩
      rw [List.append_nil]
      exact hmatch.keeps (enableTapMirror_keeps b kernel sys.plugin node tap)
    | disable node tap =>
      refine ⟨_, rfl, hv.disable b node tap, ?_⟩
      rw [List.append_nil]
      exact hmatch.keeps (disableTapMirror_keeps b sys.plugin node tap)
    | frame node pkts =>
      simp only [systemStep, mirrorStep]
      rcases hv.dispatchFrame_cases b node pkts with
        ⟨-, passed, heq⟩ | ⟨i, ctx, hhook, hfound, ⟨hmark, heq⟩ | ⟨-, heq⟩⟩ <;> simp only [heq]
      · refine ⟨_, rfl, hv, ?_⟩
        rw [List.append_nil]
        exact hmatch
      · refine ⟨_, rfl, hv.unhookedState (searchContexts_eq_some hfound).1, ?_⟩
        rw [List.append_nil]
        intro e he
        obtain ⟨c, hc, hserial⟩ := hmatch e he
        have hne := hidle hhook i ctx (searchContexts_iff.mp hfound) hmark e he
        exact ⟨c, (Function.update_of_ne hne _ _).trans hc, hserial⟩
      · refine ⟨_, rfl, hv, fun e he => ?_⟩
        rcases List.mem_append.mp he with he | he
        · exact hmatch e he
        · obtain ⟨p, -, rfl⟩ := List.mem_map.mp he
          exact ⟨ctx, (searchContexts_eq_some hfound).1, rfl⟩

/-- A context freed too early leaves an event whose slot is empty. -/
theorem freesIdle_of_match (hv : Hooked graph sys.plugin) {s : SystemStep}
    {sys' : MirrorSystem} (hstep : systemStep sys s = .ok sys')
    (hmatch : EventsMatch sys'.plugin sys'.queue) : FreesIdle sys s := by
  cases s with
  | wake eventType => trivial
  | plugin s =>
    obtain ⟨command, b⟩ := s
    cases command with
    | enable node tap kernel => trivial
    | disable node tap => trivial
    | frame node pkts =>
      intro hhook i ctx hfirst hmark e he hslot
      have hfound := searchContexts_iff.mpr hfirst
      simp only [systemStep, mirrorStep] at hstep
      rcases hv.dispatchFrame_cases b node pkts with
        ⟨hne, -⟩ | ⟨k, c, -, hfound', ⟨-, heq⟩ | ⟨hunmarked, -⟩⟩
      · exact hne hhook
      · cases hfound.symm.trans hfound'
        simp only [heq] at hstep
        cases hstep
        obtain ⟨c, hc, -⟩ := hmatch e (List.mem_append_left _ he)
        rw [hslot] at hc
        have hempty : (unhookedState sys.plugin i ctx).contexts i = none :=
          Function.update_self ..
        rw [hempty] at hc
        cases hc
      · cases hfound.symm.trans hfound'
        rw [hmark] at hunmarked
        cases hunmarked

theorem systemRun_match_iff (hv : Hooked graph sys.plugin)
    (hmatch : EventsMatch sys.plugin sys.queue) (steps : List SystemStep) :
    (∀ pre, pre <+: steps → ∃ sys', systemRun sys pre = .ok sys' ∧
        EventsMatch sys'.plugin sys'.queue) ↔ IdleRun sys steps := by
  induction steps generalizing sys with
  | nil =>
    refine ⟨fun _ => trivial, fun _ pre hpre => ?_⟩
    rw [List.prefix_nil.mp hpre]
    exact ⟨sys, rfl, hmatch⟩
  | cons s rest ih =>
    constructor
    · intro hall
      obtain ⟨sys₁, hrun, hmatch₁⟩ := hall [s] (List.prefix_append [s] rest)
      have hstep : systemStep sys s = .ok sys₁ := by
        rw [systemRun] at hrun
        cases hs : systemStep sys s with
        | error e =>
          rw [hs] at hrun
          cases hrun
        | ok sys₂ =>
          rw [hs] at hrun
          exact hrun
      have hidle := freesIdle_of_match hv hstep hmatch₁
      obtain ⟨sys₂, hstep₂, hv₂, -⟩ := systemStep_match hv hmatch hidle
      cases hstep.symm.trans hstep₂
      refine ⟨hidle, fun sys' hsys' => ?_⟩
      cases hstep.symm.trans hsys'
      refine (ih hv₂ hmatch₁).mp fun pre hpre => ?_
      obtain ⟨sys₃, hrun₃, hmatch₃⟩ := hall (s :: pre) (List.cons_prefix_cons.mpr ⟨rfl, hpre⟩)
      rw [systemRun, hstep] at hrun₃
      exact ⟨sys₃, hrun₃, hmatch₃⟩
    · rintro ⟨hidle, hrest⟩ pre hpre
      obtain ⟨sys₁, hstep, hv₁, hmatch₁⟩ := systemStep_match hv hmatch hidle
      cases pre with
      | nil => exact ⟨sys, rfl, hmatch⟩
      | cons s' pre' =>
        obtain ⟨rfl, hpre'⟩ := List.cons_prefix_cons.mp hpre
        obtain ⟨sys₂, hrun, hmatch₂⟩ :=
          (ih hv₁ hmatch₁).mpr (hrest sys₁ hstep) pre' hpre'
        exact ⟨sys₂, by rw [systemRun, hstep]; exact hrun, hmatch₂⟩

end Steps

/-- Along a run of frames, commands and wake-ups, the redirector finds the context that
signalled, whenever it is woken and for whatever type, exactly if no frame of the run
frees a context while events of its slot are queued. -/
theorem redirector_handles_iff (graph : NodeGraph) (openFds : List ℕ)
    (steps : List SystemStep) :
    (∀ pre, pre <+: steps → ∃ sys, systemRun (systemInit graph openFds) pre = .ok sys ∧
        ∀ eventType, HandlesRight sys eventType) ↔
      IdleRun (systemInit graph openFds) steps := by
  have hempty : EventsMatch (systemInit graph openFds).plugin (systemInit graph openFds).queue :=
    fun e he => absurd he List.not_mem_nil
  rw [← systemRun_match_iff (Hooked.init graph openFds) hempty steps]
  simp only [handlesRight_iff]

/-- Mirrored, disabled and freed by the next frame, with the event of the first frame
still queued. -/
def freedTooEarly : List SystemStep :=
  [.plugin (enableStep ip4Input tap0), .plugin (frameStep ip4Input [7]),
    .plugin (disableStep ip4Input tap0), .plugin (frameStep ip4Input [8])]

/-- The redirector then takes an event of a slot that is empty, and faults. -/
theorem redirector_slot_empty :
    ∃ sys, systemRun (systemInit smallGraph [0, 1, 2]) freedTooEarly = .ok sys ∧
      sys.queue = [⟨0, 7, 0⟩] ∧ sys.plugin.contexts 0 = none ∧
      systemStep sys (.wake 0) = .error .segv ∧ ¬ HandlesRight sys 0 := by
  have hvalues : (systemRun (systemInit smallGraph [0, 1, 2]) freedTooEarly).toOption.map
      (fun sys => (sys.queue, sys.plugin.contexts 0)) = some ([⟨0, 7, 0⟩], none) := by decide
  obtain ⟨sys, hrun, hr⟩ := ok_of_toOption_map hvalues
  obtain ⟨hqueue, hempty⟩ := Prod.mk.inj hr
  refine ⟨sys, hrun, hqueue, hempty, ?_, fun hright => ?_⟩
  · simp [systemStep, tapMirrorRedirectorFn, hqueue, hempty]
  · obtain ⟨queue, pass, -, hctx, -⟩ := hright ⟨0, 7, 0⟩ (by rw [hqueue]; simp) rfl
    rw [hempty] at hctx
    cases hctx

end Routerd
