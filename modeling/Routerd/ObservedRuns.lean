import Mathlib.Logic.Basic

/-!
# Runs seen from outside

A machine takes actions one after the other, shows something at each, and may stop with
a fault. Two states in a relation that every action keeps, and under which every action
shows the same, cannot be told apart by any run.
-/

namespace ObservedRuns

variable {σ α ε ω : Type*}

def observe (step : σ → α → Except ε σ) (seen : σ → α → List ω) (s : σ) : List α → List ω
  | [] => []
  | a :: rest =>
    seen s a ++
      match step s a with
      | .ok t => observe step seen t rest
      | .error _ => []

/-- Both results are faults, or the states reached are related. -/
inductive Together (R : σ → σ → Prop) : Except ε σ → Except ε σ → Prop
  | ok {s t : σ} (h : R s t) : Together R (.ok s) (.ok t)
  | error (e e' : ε) : Together R (.error e) (.error e')

/-- The allowed actions keep the relation, and show the same in related states. -/
structure Lockstep (step : σ → α → Except ε σ) (seen : σ → α → List ω) (allowed : α → Prop)
    (R : σ → σ → Prop) : Prop where
  shows : ∀ a, allowed a → ∀ s t, R s t → seen s a = seen t a
  keeps : ∀ a, allowed a → ∀ s t, R s t → Together R (step s a) (step t a)

variable {step : σ → α → Except ε σ} {seen : σ → α → List ω} {allowed : α → Prop}
variable {R : σ → σ → Prop}

theorem observe_cons_ok {s t : σ} {a : α} (h : step s a = .ok t) (rest : List α) :
    observe step seen s (a :: rest) = seen s a ++ observe step seen t rest := by
  rw [observe, h]

theorem observe_singleton (step : σ → α → Except ε σ) (seen : σ → α → List ω) (s : σ) (a : α) :
    observe step seen s [a] = seen s a := by
  rw [observe]
  cases step s a <;> exact List.append_nil _

theorem Lockstep.observe_eq (h : Lockstep step seen allowed R) {actions : List α}
    (hall : ∀ a ∈ actions, allowed a) {s t : σ} (hst : R s t) :
    observe step seen s actions = observe step seen t actions := by
  induction actions generalizing s t with
  | nil => rfl
  | cons a rest ih =>
    have ha := hall a List.mem_cons_self
    have hkeeps := h.keeps a ha s t hst
    rw [observe, observe, h.shows a ha s t hst]
    generalize step s a = x at hkeeps ⊢
    generalize step t a = y at hkeeps ⊢
    cases hkeeps with
    | ok hnext => exact congrArg _ (ih (fun a' ha' => hall a' (List.mem_cons_of_mem a ha')) hnext)
    | error e e' => rfl

end ObservedRuns
