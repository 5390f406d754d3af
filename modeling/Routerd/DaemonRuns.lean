import Routerd.HookEffects

/-!
# Runs of the daemon over a sequence of messages

`Outputs Q` collects what a run emits when each step emits according to `Q`. A
view of the requests or calls that is computed one by one is then known for the
whole run.
-/

namespace Routerd
open ByteMemory NumeralText InetText

/-- `monitor` over the messages of a socket, in order. -/
def replay (env : Env) (d : Daemon) (ms : List Mem) : Except Fault Daemon :=
  ms.foldlM (monitor env) d

/-- The calls and requests of a run are those of its steps, one after the other. -/
inductive Outputs {α : Type} (Q : α → List SetCall → List Request → Prop) :
    List α → List SetCall → List Request → Prop where
  | nil : Outputs Q [] [] []
  | cons {a : α} {as : List α} {cs cs' : List SetCall} {rs rs' : List Request}
      (h : Q a cs rs) (hs : Outputs Q as cs' rs') : Outputs Q (a :: as) (cs ++ cs') (rs ++ rs')

variable {α β : Type} {Q : α → List SetCall → List Request → Prop}

theorem Outputs.requests_flatMap {view : Request → List β} {expect : α → List β}
    (hQ : ∀ a cs rs, Q a cs rs → rs.flatMap view = expect a) {as : List α} {cs : List SetCall}
    {rs : List Request} (h : Outputs Q as cs rs) : rs.flatMap view = as.flatMap expect := by
  induction h with
  | nil => rfl
  | cons h hs ih => rw [List.flatMap_append, List.flatMap_cons, hQ _ _ _ h, ih]

theorem Outputs.calls_flatMap {view : SetCall → List β} {expect : α → List β}
    (hQ : ∀ a cs rs, Q a cs rs → cs.flatMap view = expect a) {as : List α} {cs : List SetCall}
    {rs : List Request} (h : Outputs Q as cs rs) : cs.flatMap view = as.flatMap expect := by
  induction h with
  | nil => rfl
  | cons h hs ih => rw [List.flatMap_append, List.flatMap_cons, hQ _ _ _ h, ih]

theorem Outputs.sublist {view : Request → List β} {view' : SetCall → List β}
    (hQ : ∀ a cs rs, Q a cs rs → (rs.flatMap view).Sublist (cs.flatMap view')) {as : List α}
    {cs : List SetCall} {rs : List Request} (h : Outputs Q as cs rs) :
    (rs.flatMap view).Sublist (cs.flatMap view') := by
  induction h with
  | nil => exact List.Sublist.refl _
  | cons h hs ih =>
    rw [List.flatMap_append, List.flatMap_append]
    exact (hQ _ _ _ h).append ih

theorem Outputs.forall_requests {P : Request → Prop}
    (hQ : ∀ a cs rs, Q a cs rs → ∀ r ∈ rs, P r) {as : List α} {cs : List SetCall}
    {rs : List Request} (h : Outputs Q as cs rs) : ∀ r ∈ rs, P r := by
  induction h with
  | nil => simp
  | cons h hs ih =>
    intro r hr
    rcases List.mem_append.mp hr with hr | hr
    · exact hQ _ _ _ h r hr
    · exact ih r hr

theorem foldlM_emits {step : Daemon → α → Except Fault Daemon} {table : List RouterdInterface}
    {as : List α}
    (hstep : ∀ a ∈ as, ∀ d : Daemon, d.interfaces = table →
      ∃ d' cs rs, step d a = .ok d' ∧ Emits d d' cs rs ∧ Q a cs rs)
    {d : Daemon} (hd : d.interfaces = table) :
    ∃ d' cs rs, as.foldlM step d = .ok d' ∧ Emits d d' cs rs ∧ Outputs Q as cs rs := by
  induction as generalizing d with
  | nil => exact ⟨d, [], [], rfl, Emits.refl d, .nil⟩
  | cons a as ih =>
    obtain ⟨d₁, cs, rs, hrun, hemits, hQ⟩ := hstep a List.mem_cons_self d hd
    obtain ⟨d₂, cs', rs', hrun', hemits', houts⟩ :=
      ih (fun b hb => hstep b (List.mem_cons_of_mem _ hb)) (hemits.interfaces.trans hd)
    refine ⟨d₂, _, _, ?_, hemits.trans hemits', .cons hQ houts⟩
    rw [List.foldlM_cons, hrun]
    exact hrun'

theorem replay_emits {env : Env} {d : Daemon} {mem : α → Mem} {as : List α}
    (hstep : ∀ a ∈ as, ∀ d₁ : Daemon, d₁.interfaces = d.interfaces →
      ∃ d' cs rs, monitor env d₁ (mem a) = .ok d' ∧ Emits d₁ d' cs rs ∧ Q a cs rs) :
    ∃ d' cs rs, replay env d (as.map mem) = .ok d' ∧ Emits d d' cs rs ∧ Outputs Q as cs rs := by
  rw [replay, List.foldlM_map]
  exact foldlM_emits hstep rfl

end Routerd
