import Mathlib.Data.List.Basic

/-!
# Computations that record their accesses

A computation can fail; up to there it has recorded the accesses it made, in order. Every
access of a sequence satisfies a predicate exactly if those of its first part do and, where
that part succeeds, those of the rest. All statements are over arbitrary accesses, failures
and results.
-/

namespace AccessLog

universe u

variable {ρ ε α β : Type u}

structure Logged (ρ ε α : Type u) where
  log : List ρ
  outcome : Except ε α

namespace Logged

def silent (x : Except ε α) : Logged ρ ε α := ⟨[], x⟩

def access (r : ρ) (x : Except ε α) : Logged ρ ε α := ⟨[r], x⟩

protected def bind (x : Logged ρ ε α) (f : α → Logged ρ ε β) : Logged ρ ε β :=
  match x.outcome with
  | .ok a => ⟨x.log ++ (f a).log, (f a).outcome⟩
  | .error e => ⟨x.log, .error e⟩

instance : Monad (Logged ρ ε) where
  pure a := silent (.ok a)
  bind := Logged.bind

def All (P : ρ → Prop) (x : Logged ρ ε α) : Prop := ∀ r ∈ x.log, P r

variable (P : ρ → Prop)

@[simp] theorem outcome_pure (a : α) : (pure a : Logged ρ ε α).outcome = .ok a := rfl

@[simp] theorem outcome_silent (x : Except ε α) : (silent x : Logged ρ ε α).outcome = x := rfl

@[simp] theorem outcome_bind (x : Logged ρ ε α) (f : α → Logged ρ ε β) :
    (x >>= f).outcome = x.outcome >>= fun a => (f a).outcome := by
  change (Logged.bind x f).outcome = _
  unfold Logged.bind
  cases x.outcome <;> rfl

@[simp] theorem all_pure (a : α) : (pure a : Logged ρ ε α).All P :=
  List.forall_mem_nil P

@[simp] theorem all_silent (x : Except ε α) : (silent x : Logged ρ ε α).All P :=
  List.forall_mem_nil P

@[simp] theorem all_access (r : ρ) (x : Except ε α) : (access r x).All P ↔ P r :=
  List.forall_mem_singleton

theorem all_bind (x : Logged ρ ε α) (f : α → Logged ρ ε β) :
    (x >>= f).All P ↔ x.All P ∧ ∀ a, x.outcome = .ok a → (f a).All P := by
  change (Logged.bind x f).All P ↔ _
  unfold Logged.bind
  cases x.outcome with
  | error e =>
    constructor
    · refine fun h => ⟨h, fun a ha => ?_⟩
      cases ha
    · exact fun h => h.1
  | ok a =>
    constructor
    · intro h
      refine ⟨fun r hr => h r (List.mem_append_left _ hr), fun a' ha' => ?_⟩
      cases ha'
      exact fun r hr => h r (List.mem_append_right _ hr)
    · intro h r hr
      rcases List.mem_append.mp hr with hr | hr
      · exact h.1 r hr
      · exact h.2 a rfl r hr

theorem all_bind_of_ok {x : Logged ρ ε α} {f : α → Logged ρ ε β} {a : α}
    (hx : x.outcome = .ok a) : (x >>= f).All P ↔ x.All P ∧ (f a).All P := by
  rw [all_bind, hx]
  constructor
  · exact fun h => ⟨h.1, h.2 a rfl⟩
  · refine fun h => ⟨h.1, fun a' ha' => ?_⟩
    cases ha'
    exact h.2

end Logged

end AccessLog
