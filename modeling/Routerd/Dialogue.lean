import Mathlib.Data.List.Basic

/-!
# Programs that talk to an outside

A program acts through operations, and the outside answers each one. A loop whose rounds are
used up leaves the program running. A specification says for each operation what must hold
before it so that a postcondition holds after every answer; it extends to programs, where it
composes along sequences and loops. A discipline allows operations by a state that the
answers move: a program that keeps it keeps it along each of its runs. A result is settled by
an operation if its answer decides what the program returns. Everything is over arbitrary
operations, answers, failures and results.
-/

namespace Dialogue

variable {ι : Type} {ρ : ι → Type} {ε α β σ τ : Type}

inductive Prog (ρ : ι → Type) (ε α : Type) where
  | ret (a : α)
  | fault (e : ε)
  | running
  | op (i : ι) (k : ρ i → Prog ρ ε α)

abbrev Event (ρ : ι → Type) := Σ i, ρ i

/-- What has to hold before an operation, for a postcondition on its answer. -/
def Spec (ρ : ι → Type) (τ : Type) := (i : ι) → τ → (ρ i → τ → Prop) → Prop

def Spec.Mono (Φ : Spec ρ τ) : Prop :=
  ∀ i t (Q Q' : ρ i → τ → Prop), (∀ x t', Q x t' → Q' x t') → Φ i t Q → Φ i t Q'

namespace Prog

protected def bind : Prog ρ ε α → (α → Prog ρ ε β) → Prog ρ ε β
  | ret a, f => f a
  | fault e, _ => fault e
  | running, _ => running
  | op i k, f => op i fun x => (k x).bind f

instance : Monad (Prog ρ ε) where
  pure := ret
  bind := Prog.bind

def perform (i : ι) : Prog ρ ε (ρ i) := op i ret

def ofExcept : Except ε α → Prog ρ ε α
  | .ok a => ret a
  | .error e => fault e

/-- At most `n` rounds of a body that goes on with a state or ends with a result. -/
def loop (body : σ → Prog ρ ε (σ ⊕ α)) : ℕ → σ → Prog ρ ε α
  | 0, _ => running
  | n + 1, s => body s >>= Sum.elim (loop body n) ret

/-! ### Preconditions -/

/-- The specification of a program: `stop` has to hold where it fails or is left running. -/
def wp (Φ : Spec ρ τ) (stop : Prop) : Prog ρ ε α → (α → τ → Prop) → τ → Prop
  | ret a, post, t => post a t
  | fault _, _, _ => stop
  | running, _, _ => stop
  | op i k, post, t => Φ i t fun x t' => (k x).wp Φ stop post t'

variable {Φ : Spec ρ τ} {stop : Prop}

theorem wp_bind (p : Prog ρ ε α) (f : α → Prog ρ ε β) (post : β → τ → Prop) :
    (p >>= f).wp Φ stop post = p.wp Φ stop fun a => (f a).wp Φ stop post := by
  induction p with
  | ret a => rfl
  | fault e => rfl
  | running => rfl
  | op i k ih =>
    funext t
    exact congrArg (Φ i t) (funext fun x => ih x)

theorem wp_mono (hΦ : Φ.Mono) {p : Prog ρ ε α} {post post' : α → τ → Prop} {t : τ}
    (himp : ∀ a t', post a t' → post' a t') (h : p.wp Φ stop post t) : p.wp Φ stop post' t := by
  induction p generalizing t with
  | ret a => exact himp a t h
  | fault e => exact h
  | running => exact h
  | op i k ih => exact hΦ i t _ _ (fun x t' => ih x) h

theorem wp_loop (hΦ : Φ.Mono) {body : σ → Prog ρ ε (σ ⊕ α)} (inv : σ → τ → Prop)
    {post : α → τ → Prop} (hstop : stop)
    (hbody : ∀ s t, inv s t → (body s).wp Φ stop (Sum.elim inv post) t) (n : ℕ) {s : σ} {t : τ}
    (h : inv s t) : (loop body n s).wp Φ stop post t := by
  induction n generalizing s t with
  | zero => exact hstop
  | succ n ih =>
    rw [loop, wp_bind]
    refine wp_mono hΦ (fun r t' hr => ?_) (hbody s t h)
    cases r with
    | inl s' => exact ih hr
    | inr a => exact hr

/-! ### Runs -/

/-- A program makes some operations and becomes another one. -/
inductive Steps : Prog ρ ε α → List (Event ρ) → Prog ρ ε α → Prop
  | refl (p : Prog ρ ε α) : Steps p [] p
  | op {i : ι} {k : ρ i → Prog ρ ε α} (x : ρ i) {l : List (Event ρ)} {p : Prog ρ ε α} :
      Steps (k x) l p → Steps (.op i k) (⟨i, x⟩ :: l) p

/-! ### Results settled by an answer -/

section Settled

variable (W : ι → Prop)

/-- Whatever is answered from here on, the program returns `a`, without another operation
of `W`. -/
def Returns (a : α) : Prog ρ ε α → Prop
  | ret b => b = a
  | fault _ => False
  | running => False
  | op i k => ¬ W i ∧ ∀ x, (k x).Returns a

/-- Once an operation of `W` is answered, the program returns a result that fits the answer. -/
def SettledBy (fits : Event ρ → α → Prop) : Prog ρ ε α → Prop
  | ret _ => True
  | fault _ => True
  | running => True
  | op i k => (W i ∧ ∀ x, ∃ a, fits ⟨i, x⟩ a ∧ (k x).Returns W a) ∨
      (¬ W i ∧ ∀ x, (k x).SettledBy fits)

variable {W} {fits : Event ρ → α → Prop}

theorem Returns.steps {p p' : Prog ρ ε α} {a : α} {l : List (Event ρ)} (hrun : p.Steps l p')
    (h : p.Returns W a) : p'.Returns W a ∧ ∀ e ∈ l, ¬ W e.1 := by
  induction hrun with
  | refl p => exact ⟨h, List.forall_mem_nil _⟩
  | op x _ ih =>
    obtain ⟨hrest, hquiet⟩ := ih (h.2 x)
    exact ⟨hrest, List.forall_mem_cons.mpr ⟨h.1, hquiet⟩⟩

theorem SettledBy.steps {p p' : Prog ρ ε α} {l : List (Event ρ)} (hrun : p.Steps l p')
    (h : p.SettledBy W fits) {e : Event ρ} (he : e ∈ l) (hW : W e.1) :
    ∃ a, fits e a ∧ p'.Returns W a := by
  induction hrun with
  | refl p => exact absurd he List.not_mem_nil
  | op x hrest ih =>
    rcases h with ⟨-, hsettled⟩ | ⟨hquiet, hnext⟩
    · obtain ⟨a, hfits, hreturns⟩ := hsettled x
      obtain ⟨hreturns', hnone⟩ := hreturns.steps hrest
      rcases List.mem_cons.mp he with rfl | he
      · exact ⟨a, hfits, hreturns'⟩
      · exact absurd hW (hnone e he)
    · rcases List.mem_cons.mp he with rfl | he
      · exact absurd hW hquiet
      · exact ih (hnext x) he

end Settled

end Prog

/-- Which operations a state allows, and where their answers lead. -/
structure Discipline (ρ : ι → Type) (τ : Type) where
  allowed : τ → ι → Prop
  next : τ → Event ρ → τ

namespace Discipline

variable (D : Discipline ρ τ)

def after (t : τ) (l : List (Event ρ)) : τ := l.foldl D.next t

def Respects : τ → List (Event ρ) → Prop
  | _, [] => True
  | t, e :: l => D.allowed t e.1 ∧ Respects (D.next t e) l

/-- The operation is allowed, and the postcondition holds wherever an answer leads. -/
def spec : Spec ρ τ := fun i t Q => D.allowed t i ∧ ∀ x, Q x (D.next t ⟨i, x⟩)

theorem spec_mono : D.spec.Mono := fun _ _ _ _ himp h => ⟨h.1, fun x => himp x _ (h.2 x)⟩

/-- From `a` a program makes allowed operations and ends, if it ends, in `b`. -/
def Leads (a b : τ) (p : Prog ρ ε α) : Prop := p.wp D.spec True (fun _ t => t = b) a

variable {D} {a b c : τ}

theorem Leads.bind {p : Prog ρ ε α} {f : α → Prog ρ ε β} (hp : D.Leads a b p)
    (hf : ∀ x, D.Leads b c (f x)) : D.Leads a c (p >>= f) := by
  rw [Leads, Prog.wp_bind]
  refine Prog.wp_mono D.spec_mono (fun x t ht => ?_) hp
  rw [ht]
  exact hf x

theorem leads_pure (x : α) : D.Leads a a (pure x : Prog ρ ε α) := rfl

theorem leads_fault (e : ε) : D.Leads a b (.fault e : Prog ρ ε α) := trivial

theorem leads_ofExcept (x : Except ε α) : D.Leads a a (.ofExcept x : Prog ρ ε α) := by
  cases x with
  | error e => exact leads_fault e
  | ok x => exact leads_pure x

theorem Leads.ite {cond : Prop} [Decidable cond] {p q : Prog ρ ε α} (hp : D.Leads a b p)
    (hq : D.Leads a b q) : D.Leads a b (if cond then p else q) := by
  split
  · exact hp
  · exact hq

theorem leads_loop {body : σ → Prog ρ ε (σ ⊕ α)} (h : ∀ s, D.Leads a a (body s)) (n : ℕ) (s : σ) :
    D.Leads a a (Prog.loop body n s) := by
  refine Prog.wp_loop D.spec_mono (fun _ t => t = a) trivial (fun s t ht => ?_) n rfl
  rw [ht]
  refine Prog.wp_mono D.spec_mono (fun r t ht => ?_) (h s)
  cases r with
  | inl s => exact ht
  | inr x => exact ht

theorem Leads.steps {p p' : Prog ρ ε α} (h : D.Leads a b p) {l : List (Event ρ)}
    (hrun : p.Steps l p') : D.Respects a l ∧ D.Leads (D.after a l) b p' := by
  induction hrun generalizing a with
  | refl p => exact ⟨trivial, h⟩
  | op x _ ih =>
    obtain ⟨hallowed, hnext⟩ := h
    obtain ⟨hrest, hlead⟩ := ih (hnext x)
    exact ⟨⟨hallowed, hrest⟩, hlead⟩

end Discipline

end Dialogue
