import Routerd.MirrorHooks

/-!
# Enables that cannot be carried out

`enable_tap_mirror` sets its flag before it looks for anything, hooks the node before it
opens the tap, and enters the result of the open in the context whatever it is. A tap
that cannot be had is thus reported as a success. Only where no context can be had does
the command report a failure, and only the second time does that leave no trace.
-/

namespace Routerd
open NumeralText

/-- What stands in the way of mirroring a node to a tap. -/
inductive CannotEnable (kernel : TunKernel) (v : TapMirror) (node tap : Text) : Prop where
  | noNode (hnode : v.function node = none)
  | noSlot (hfull : ∀ i, v.contexts i ≠ none)
      (hnew : ∀ i ctx, v.contexts i = some ctx → ctx.targetNodeName ≠ node)
  | noTap (hnew : ∀ i ctx, v.contexts i = some ctx → ∀ e ∈ ctx.taps, e.name = some tap → e.fd ≤ 0)
      (hkernel : kernel.openTun v.openFds = none ∨ kernel.tunSetIff = false)

/-- An enable, in a state the plugin can be in, that cannot be carried out. -/
structure FailedEnable where
  graph : NodeGraph
  openFds : List ℕ
  before : List MirrorStep
  state : TapMirror
  reached : mirrorRun (tapMirrorInit graph openFds) before = .ok state
  behind : Behind
  kernel : TunKernel
  node : Text
  tap : Text
  cannot : CannotEnable kernel state node tap

def FailedEnable.result (f : FailedEnable) : TapMirror × ℤ :=
  enableTapMirror f.behind f.kernel f.state f.node f.tap

/-- The command reported a failure and left contexts, entries, nodes and flags alone. -/
structure Refused (v : TapMirror) (result : TapMirror × ℤ) : Prop where
  negative : result.2 < 0
  contexts : result.1.contexts = v.contexts
  function : result.1.function = v.function
  flags : result.1.flags = v.flags

def MirrorStep.IsEnable (s : MirrorStep) : Prop :=
  ∃ node tap kernel, s.command = .enable node tap kernel

/-! ### The flag -/

section Flag

variable {graph : NodeGraph} {v w : TapMirror}

theorem enableTapMirror_flags (b : Behind) (kernel : TunKernel) (v : TapMirror)
    (node tap : Text) :
    (enableTapMirror b kernel v node tap).1.flags = v.flags ||| TAP_MIRROR_F_ENABLED := by
  rcases enableTapMirror_cases b kernel v node tap with
    heq | ⟨i, ctx, -, heq⟩ | ⟨i, fn, -, -, -, heq⟩ <;> rw [heq] <;> rfl

theorem disableTapMirror_flags (b : Behind) (v : TapMirror) (node tap : Text) :
    (disableTapMirror b v node tap).flags = v.flags := by
  rcases disableTapMirror_cases b v node tap with ⟨-, heq⟩ | ⟨i, ctx, -, heq⟩ <;> rw [heq]

theorem Hooked.step_flags (hv : Hooked graph v) {s : MirrorStep} {events : List MirrorEvent}
    (hstep : mirrorStep v s = .ok (w, events)) :
    (s.IsEnable ∧ w.flags = v.flags ||| TAP_MIRROR_F_ENABLED) ∨
      (¬ s.IsEnable ∧ w.flags = v.flags) := by
  obtain ⟨command, b⟩ := s
  cases command with
  | enable node tap kernel =>
    cases hstep
    exact Or.inl ⟨⟨node, tap, kernel, rfl⟩, enableTapMirror_flags b kernel v node tap⟩
  | disable node tap =>
    cases hstep
    refine Or.inr ⟨?_, disableTapMirror_flags b v node tap⟩
    rintro ⟨node', tap', kernel', hcommand⟩
    cases hcommand
  | frame node pkts =>
    refine Or.inr ⟨?_, ?_⟩
    · rintro ⟨node', tap', kernel', hcommand⟩
      cases hcommand
    · rcases hv.dispatchFrame_cases b node pkts with
        ⟨-, passed, heq⟩ | ⟨i, ctx, -, -, ⟨-, heq⟩ | ⟨-, heq⟩⟩ <;>
        simp only [mirrorStep, heq] at hstep <;> cases hstep <;> rfl

theorem Hooked.run_flags (hv : Hooked graph v) {steps : List MirrorStep}
    (hrun : mirrorRun v steps = .ok w) :
    w.flags ||| TAP_MIRROR_F_ENABLED = w.flags ↔
      v.flags ||| TAP_MIRROR_F_ENABLED = v.flags ∨ ∃ s ∈ steps, s.IsEnable := by
  induction steps generalizing v with
  | nil =>
    cases hrun
    simp
  | cons s rest ih =>
    obtain ⟨u, events, hstep, hu⟩ := hv.step s
    rw [mirrorRun, hstep] at hrun
    rw [ih hu hrun]
    rcases hv.step_flags hstep with ⟨henable, hflags⟩ | ⟨hother, hflags⟩
    · have hset : u.flags ||| TAP_MIRROR_F_ENABLED = u.flags := by
        rw [hflags, UInt32.or_assoc, UInt32.or_self]
      exact ⟨fun _ => Or.inr ⟨s, List.mem_cons_self, henable⟩, fun _ => Or.inl hset⟩
    · rw [hflags]
      simp [hother]

end Flag

/-! ### Contexts -/

theorem getOrNewTapMirrorContext_eq_none_iff {b : Behind} {v : TapMirror} {node : Text} :
    getOrNewTapMirrorContext b v node = (v, none) ↔
      searchContexts b v node = none ∧
        (SlotTable.firstFree v.contexts = none ∨ v.function node = none) := by
  unfold getOrNewTapMirrorContext
  cases searchContexts b v node with
  | some found => simp
  | none =>
    cases SlotTable.firstFree v.contexts with
    | none => simp
    | some i => cases v.function node <;> simp

theorem enableTapMirror_neg_iff (b : Behind) (kernel : TunKernel) (v : TapMirror)
    (node tap : Text) :
    (enableTapMirror b kernel v node tap).2 < 0 ↔
      enableTapMirror b kernel v node tap = (setEnabled v, -1) := by
  rcases enableTapMirror_cases b kernel v node tap with
    heq | ⟨i, ctx, -, heq⟩ | ⟨i, fn, -, -, -, heq⟩ <;> rw [heq] <;> simp

theorem enableTapMirror_failed_iff (b : Behind) (kernel : TunKernel) (v : TapMirror)
    (node tap : Text) :
    enableTapMirror b kernel v node tap = (setEnabled v, -1) ↔
      (∀ i ctx, v.contexts i = some ctx →
          nameMatches (b.node i) ctx.targetNodeName node = false) ∧
        ((∀ i, v.contexts i ≠ none) ∨ v.function node = none) := by
  have hnone : (∀ i ctx, v.contexts i = some ctx →
      nameMatches (b.node i) ctx.targetNodeName node = false) ↔
        searchContexts b (setEnabled v) node = none := SlotTable.first_eq_none_iff.symm
  have hfull : (∀ i, v.contexts i ≠ none) ↔
      SlotTable.firstFree (setEnabled v).contexts = none := SlotTable.firstFree_eq_none_iff.symm
  rw [hnone, hfull]
  refine Iff.trans ?_ getOrNewTapMirrorContext_eq_none_iff
  have hsuccess : (0 : ℤ) ≠ -1 := by decide
  constructor
  · intro heq
    rcases getOrNewTapMirrorContext_cases b (setEnabled v) node with
      hnew | ⟨i, ctx, -, hnew⟩ | ⟨i, fn, -, -, -, hnew⟩
    · exact hnew
    · rw [enableTapMirror_of_some hnew] at heq
      exact absurd (congrArg Prod.snd heq) hsuccess
    · rw [enableTapMirror_of_some hnew] at heq
      exact absurd (congrArg Prod.snd heq) hsuccess
  · exact enableTapMirror_of_none

/-- An enable that cannot be carried out is refused without a trace exactly if an enable
was called before, no context has a name that compares equal with the node's, and there
is no such node or no slot for it. -/
theorem failedEnable_refused_iff (f : FailedEnable) :
    Refused f.state f.result ↔
      (∃ s ∈ f.before, s.IsEnable) ∧
        (∀ i ctx, f.state.contexts i = some ctx →
          nameMatches (f.behind.node i) ctx.targetNodeName f.node = false) ∧
        ((∀ i, f.state.contexts i ≠ none) ∨ f.state.function f.node = none) := by
  have hflag := (Hooked.init f.graph f.openFds).run_flags f.reached
  have hclear : (tapMirrorInit f.graph f.openFds).flags ||| TAP_MIRROR_F_ENABLED ≠
      (tapMirrorInit f.graph f.openFds).flags := by
    change (0 : UInt32) ||| 1 ≠ 0
    decide
  rw [← enableTapMirror_failed_iff f.behind f.kernel f.state f.node f.tap]
  constructor
  · intro h
    have heq := (enableTapMirror_neg_iff ..).mp h.negative
    have hsame := h.flags
    rw [FailedEnable.result, heq] at hsame
    exact ⟨(hflag.mp hsame).resolve_left hclear, heq⟩
  · rintro ⟨henable, heq⟩
    have hresult : f.result = (setEnabled f.state, -1) := heq
    rw [hresult]
    exact ⟨Int.negSucc_lt_zero 0, rfl, rfl, hflag.mpr (Or.inr henable)⟩

def TunKernel.missing : TunKernel where
  openTun _ := none
  tunSetIff := false
  fresh _ _ h := by cases h

theorem cannotEnable_missing (graph : NodeGraph) (openFds : List ℕ) (node tap : Text) :
    CannotEnable .missing (tapMirrorInit graph openFds) node tap := by
  refine .noTap (fun i ctx hctx => ?_) (Or.inl rfl)
  cases hctx

def enableWithoutTun : FailedEnable where
  graph := smallGraph
  openFds := [0, 1, 2]
  before := []
  state := tapMirrorInit smallGraph [0, 1, 2]
  reached := rfl
  behind := .unrelated
  kernel := .missing
  node := ip4Input
  tap := tap0
  cannot := cannotEnable_missing smallGraph [0, 1, 2] ip4Input tap0

/-- It reports a success: the node is hooked, and a context without a tap is left. -/
theorem enableWithoutTun_succeeds :
    enableWithoutTun.result.2 = 0 ∧ enableWithoutTun.result.1.flags = 1 ∧
      enableWithoutTun.result.1.function ip4Input = some .tapMirrorInputFn ∧
      (enableWithoutTun.result.1.contexts 0).map MirrorContext.taps =
        some (List.replicate 9 ⟨0, none⟩ ++ [⟨-1, some tap0⟩]) ∧
      ¬ Refused enableWithoutTun.state enableWithoutTun.result := by
  have hret : enableWithoutTun.result.2 = 0 := by decide
  refine ⟨hret, by decide, by decide, by decide, fun h => ?_⟩
  have hneg := h.negative
  rw [hret] at hneg
  cases hneg

end Routerd
