import Routerd.Dialogue

/-!
# A program and a peer with queues between them

The program sends requests to a queue and takes messages from another one; the peer takes the
requests in order and appends all messages that answer one at once. The two run in any
interleaving. What is on its way, in the queue of messages or still owed for a request, is one
list: a step of the peer does not change it, and the program sees its first element. The
program can thus be followed as if every request were answered at once, and what holds of it
then holds at the end of every schedule, which all come to an end.
-/

namespace Dialogue

variable {ι : Type} {ρ : ι → Type} {ε α χ μ : Type}

inductive Port (χ μ β : Type) where
  | plain (allows : β → Prop)
  | send (c : χ) (answer : β)
  | take (answer : μ → β)

/-- A program, the requests it has sent and the messages for it. -/
structure Exchange (ρ : ι → Type) (ε α χ μ : Type) where
  prog : Prog ρ ε α
  requests : List χ
  messages : List μ

namespace Exchange

variable (port : (i : ι) → Port χ μ (ρ i)) (replies : χ → List μ)

def pending (qs : List χ) (ms : List μ) : List μ := ms ++ qs.flatMap replies

/-- A step of the program, with its operation and the answer, or a step of the peer. -/
inductive Step : Exchange ρ ε α χ μ → Option (Event ρ) → Exchange ρ ε α χ μ → Prop
  | plain {i : ι} {k : ρ i → Prog ρ ε α} {qs : List χ} {ms : List μ} {allows : ρ i → Prop}
      (hport : port i = .plain allows) (x : ρ i) (hx : allows x) :
      Step ⟨.op i k, qs, ms⟩ (some ⟨i, x⟩) ⟨k x, qs, ms⟩
  | send {i : ι} {k : ρ i → Prog ρ ε α} {qs : List χ} {ms : List μ} {c : χ} {x : ρ i}
      (hport : port i = .send c x) :
      Step ⟨.op i k, qs, ms⟩ (some ⟨i, x⟩) ⟨k x, qs ++ [c], ms⟩
  | take {i : ι} {k : ρ i → Prog ρ ε α} {qs : List χ} {m : μ} {ms : List μ} {f : μ → ρ i}
      (hport : port i = .take f) :
      Step ⟨.op i k, qs, m :: ms⟩ (some ⟨i, f m⟩) ⟨k (f m), qs, ms⟩
  | serve {p : Prog ρ ε α} {c : χ} {qs : List χ} {ms : List μ} :
      Step ⟨p, c :: qs, ms⟩ none ⟨p, qs, ms ++ replies c⟩

/-- On every schedule the program comes to an end, with a result, with messages still on their
way and with a history of operations for which `post` holds. -/
inductive Ends (post : α → List μ → List (Event ρ) → Prop) :
    List (Event ρ) → Exchange ρ ε α χ μ → Prop
  | done {a : α} {qs : List χ} {ms : List μ} {h : List (Event ρ)}
      (hpost : post a (pending replies qs ms) h) : Ends post h ⟨.ret a, qs, ms⟩
  | step {s : Exchange ρ ε α χ μ} {h : List (Event ρ)} (hcan : ∃ e s', Step port replies s e s')
      (hall : ∀ e s', Step port replies s e s' → Ends post (h ++ e.toList) s') : Ends post h s

def spec : Spec ρ (List μ × List (Event ρ)) := fun i t Q =>
  match port i with
  | .plain allows => (∃ x, allows x) ∧ ∀ x, allows x → Q x (t.1, t.2 ++ [⟨i, x⟩])
  | .send c x => Q x (t.1 ++ replies c, t.2 ++ [⟨i, x⟩])
  | .take f => ∃ m ms, t.1 = m :: ms ∧ Q (f m) (ms, t.2 ++ [⟨i, f m⟩])

variable {port replies}

theorem spec_mono : (spec port replies).Mono := by
  intro i t Q Q' himp h
  cases hport : port i with
  | plain allows =>
    simp only [spec, hport] at h ⊢
    exact ⟨h.1, fun x hx => himp _ _ (h.2 x hx)⟩
  | send c x =>
    simp only [spec, hport] at h ⊢
    exact himp _ _ h
  | take f =>
    simp only [spec, hport] at h ⊢
    obtain ⟨m, ms, hms, hQ⟩ := h
    exact ⟨m, ms, hms, himp _ _ hQ⟩

theorem pending_concat (qs : List χ) (c : χ) (ms : List μ) :
    pending replies (qs ++ [c]) ms = pending replies qs ms ++ replies c := by
  simp [pending]

theorem pending_cons (c : χ) (qs : List χ) (ms : List μ) :
    pending replies (c :: qs) ms = pending replies qs (ms ++ replies c) := by
  simp [pending]

theorem wp_step {stop : Prop} {post : α → List μ × List (Event ρ) → Prop}
    {s s' : Exchange ρ ε α χ μ} {e : Option (Event ρ)} (hstep : Step port replies s e s')
    {h : List (Event ρ)}
    (hwp : s.prog.wp (spec port replies) stop post (pending replies s.requests s.messages, h)) :
    s'.prog.wp (spec port replies) stop post
      (pending replies s'.requests s'.messages, h ++ e.toList) := by
  cases hstep with
  | plain hport x hx =>
    simp only [Prog.wp, spec, hport] at hwp
    exact hwp.2 x hx
  | send hport =>
    simp only [Prog.wp, spec, hport] at hwp
    rw [pending_concat]
    exact hwp
  | take hport =>
    simp only [Prog.wp, spec, hport] at hwp
    obtain ⟨m, ms, hms, hrest⟩ := hwp
    obtain ⟨rfl, rfl⟩ := List.cons.inj hms
    exact hrest
  | serve =>
    rw [pending_cons] at hwp
    simpa using hwp

/-- A message that is still owed comes: one of the two sides can move. -/
theorem step_of_wp {stop : Prop} {post : α → List μ × List (Event ρ) → Prop} {i : ι}
    {k : ρ i → Prog ρ ε α} {qs : List χ} {ms : List μ} {h : List (Event ρ)}
    (hwp : (Prog.op i k).wp (spec port replies) stop post (pending replies qs ms, h)) :
    ∃ e s', Step port replies ⟨.op i k, qs, ms⟩ e s' := by
  cases hport : port i with
  | plain allows =>
    simp only [Prog.wp, spec, hport] at hwp
    obtain ⟨⟨x, hx⟩, -⟩ := hwp
    exact ⟨_, _, .plain hport x hx⟩
  | send c x => exact ⟨_, _, .send hport⟩
  | take f =>
    simp only [Prog.wp, spec, hport] at hwp
    obtain ⟨m, rest, hpending, -⟩ := hwp
    cases ms with
    | cons m' ms => exact ⟨_, _, .take hport⟩
    | nil =>
      cases qs with
      | cons c qs => exact ⟨_, _, .serve⟩
      | nil => cases hpending

theorem ends_of_wp {post : α → List μ × List (Event ρ) → Prop} (p : Prog ρ ε α) (qs : List χ)
    (ms : List μ) (h : List (Event ρ))
    (hwp : p.wp (spec port replies) False post (pending replies qs ms, h)) :
    Ends port replies (fun a ms h => post a (ms, h)) h ⟨p, qs, ms⟩ := by
  induction p generalizing qs ms h with
  | ret a => exact .done hwp
  | fault e => exact hwp.elim
  | running => exact hwp.elim
  | op i k ih =>
    -- a step of the program leaves a smaller one, a step of the peer a shorter queue
    have hown : ∀ qs ms, (Prog.op i k).wp (spec port replies) False post (pending replies qs ms, h) →
        (∀ c qs', qs = c :: qs' → Ends port replies (fun a ms h => post a (ms, h)) h
          ⟨.op i k, qs', ms ++ replies c⟩) →
        Ends port replies (fun a ms h => post a (ms, h)) h ⟨.op i k, qs, ms⟩ := by
      intro qs ms hwp hserve
      refine .step (step_of_wp hwp) fun e s' hstep => ?_
      have hnext := wp_step hstep hwp
      cases hstep with
      | plain hport x hx => exact ih x _ _ _ hnext
      | send hport => exact ih _ _ _ _ hnext
      | take hport => exact ih _ _ _ _ hnext
      | serve => simpa using hserve _ _ rfl
    induction qs generalizing ms with
    | nil => exact hown [] ms hwp fun c qs' heq => by cases heq
    | cons c qs ihq =>
      refine hown (c :: qs) ms hwp fun c' qs' heq => ?_
      cases heq
      rw [pending_cons] at hwp
      exact ihq _ hwp

end Exchange

end Dialogue
