import Routerd.ThreadRuns

/-!
# The order in which tasks run

While nothing is cancelled, tasks that are ready run in the order in which they became so, and the
events that wait follow them before any timer or descriptor is looked at. A timer waits until `poll`
returns at or after the time at which it runs out, and no longer.
-/

namespace Routerd.Threads
open HeapOrder PQueue ThreadMaster

variable {F A : Type} [DecidableEq F]

/-! ### Steps without cancellation -/

def Label.ran {F A : Type} : Label F A → Option (Job F A)
  | .run job => some job
  | _ => none

/-- What an action can do while nothing is cancelled. -/
inductive QuietStep (s : System F A) : Action F A → List (Label F A) → System F A → Prop where
  | same {action : Action F A} {s' : System F A} (other : action ≠ .fetch)
      (master : s'.master = s.master) (polling : s.polling = false → s'.polling = false) :
      QuietStep s action [] s'
  | scheduled {action : Action F A} {type : ThreadType} {p : Place} {job : Job F A}
      {handler : FdHandler} {labels : List (Label F A)} (other : action ≠ .fetch)
      (notReady : p ≠ .ready) (added : labels.filterMap Label.ran = []) :
      QuietStep s action labels
        ⟨{ s.master.schedule type p job with handler := handler }, s.polling⟩
  | run {id : ℕ} {ready : List ℕ} {job : Job F A} (first : s.master.ready = id :: ready)
      (pending : s.master.jobs id = some job) :
      QuietStep s .fetch [.run job] ⟨s.master.leave id .ready, false⟩
  | posted {handler : FdHandler} {polling : Bool} (empty : s.master.ready = []) :
      QuietStep s .fetch []
        ⟨{ threadProcess s.master.event s.master with handler := handler }, polling⟩
  | polled {now : Timeval} {num : ℕ} {revents : ℕ → Revents} (polling : s.polling = true) :
      QuietStep s (.polled now num revents) []
        ⟨s.master.threadFetchPolled now num revents, false⟩

omit [DecidableEq F] in
theorem added_ran (m : ThreadMaster F A) (id : Option ℕ) :
    (added m id).filterMap Label.ran = [] := by
  cases id with
  | none => rfl
  | some id => cases hjob : m.jobs id <;> simp [added, hjob, Label.ran]

theorem QuietStep.jobs {s s' : System F A} {action : Action F A} {labels : List (Label F A)}
    (h : s.master.Consistent) (hstep : QuietStep s action labels s') {id : ℕ} {job : Job F A}
    (hjob : s.master.jobs id = some job)
    (hrest : ∀ ready, action = .fetch → s.master.ready ≠ id :: ready) :
    s'.master.jobs id = some job := by
  cases hstep with
  | same _ hmaster _ => rwa [hmaster]
  | @scheduled _ type p job' _ _ other notReady _ =>
    obtain ⟨hnone, hjobs⟩ := schedule_jobs h type p job'
    have hne : id ≠ s.master.threadAlloc.1 := by
      rintro rfl
      cases hnone.symm.trans hjob
    calc (s.master.schedule type p job').jobs id = s.master.jobs id := by
          rw [hjobs, Function.update_of_ne hne]
      _ = some job := hjob
  | @run id' ready job' first _ =>
    have hne : id ≠ id' := by
      rintro rfl
      exact hrest ready rfl first
    rw [leave_jobs, Function.update_of_ne hne, hjob]
  | posted empty =>
    have hjobs := (threadProcess_spec h (rfl : s.master.event = s.master.event)).2.1
    exact (congrFun hjobs id).trans hjob
  | @polled now num revents _ =>
    obtain ⟨expired, tasks, htimers, hio⟩ := threadFetchPolled_spec h now num revents
    exact (congrFun (hio.jobs.trans htimers.jobs) id).trans hjob

theorem schedule_lists {m : ThreadMaster F A} (h : m.Consistent) (type : ThreadType) {p : Place}
    (job : Job F A) (hp : p ≠ .ready) :
    (m.schedule type p job).ready = m.ready ∧ m.event <+: (m.schedule type p job).event := by
  have hqueues := (m.schedule_eq type p job).2
  rw [h.allocated.queues] at hqueues
  rw [hqueues]
  cases p with
  | ready => exact absurd rfl hp
  | event => exact ⟨rfl, List.prefix_append _ _⟩
  | read fd => exact ⟨rfl, List.prefix_refl _⟩
  | write fd => exact ⟨rfl, List.prefix_refl _⟩
  | timer => exact ⟨rfl, List.prefix_refl _⟩

theorem leave_lists {m : ThreadMaster F A} {id : ℕ} {ready : List ℕ} (first : m.ready = id :: ready) :
    (m.leave id .ready).ready = ready ∧ (m.leave id .ready).event = m.event := by
  rw [leave, release_toQueues]
  simp [Queues.erase, Queues.setPosition, first]

theorem ThreadMaster.Consistent.leave_rest {m : ThreadMaster F A} (h : m.Consistent) {id : ℕ}
    {ready : List ℕ} (first : m.ready = id :: ready) :
    ∀ i ∈ ready ++ m.event, ∀ job, m.jobs i = some job →
      (m.leave id .ready).jobs i = some job := by
  intro i hi job hjob
  have hne : i ≠ id := by
    rintro rfl
    rcases List.mem_append.mp hi with hi | hi
    · have hnodup := h.holds.nodup_ready
      rw [first] at hnodup
      exact (List.nodup_cons.mp hnodup).1 hi
    · have hready := (h.holds.ready i).mp (by simp [first])
      cases ((h.holds.event i).mp hi).symm.trans hready
  rw [leave_jobs, Function.update_of_ne hne, hjob]

/-! ### First come, first served -/

/-- Jobs whose tasks are the first in a list. -/
def First (m : ThreadMaster F A) (list : List ℕ) (jobs : List (Job F A)) : Prop :=
  ∃ tasks, tasks <+: list ∧ tasks.map m.jobs = jobs.map some

omit [DecidableEq F] in
theorem First.mono {m m' : ThreadMaster F A} {list list' : List ℕ} {jobs : List (Job F A)}
    (h : First m list jobs) (hlist : list <+: list')
    (hjobs : ∀ id ∈ list, ∀ job, m.jobs id = some job → m'.jobs id = some job) :
    First m' list' jobs := by
  obtain ⟨tasks, htasks, hmap⟩ := h
  refine ⟨tasks, htasks.trans hlist, ?_⟩
  rw [← hmap]
  refine List.map_congr_left fun id hid => ?_
  have hsome : m.jobs id ∈ jobs.map some := hmap ▸ List.mem_map_of_mem hid
  obtain ⟨job, -, hjob⟩ := List.mem_map.mp hsome
  rw [← hjob]
  exact hjobs id (htasks.subset hid) job hjob.symm

omit [DecidableEq F] in
theorem first_cons {m : ThreadMaster F A} {list : List ℕ} {job : Job F A} {jobs : List (Job F A)} :
    First m list (job :: jobs) ↔
      ∃ id rest, list = id :: rest ∧ m.jobs id = some job ∧ First m rest jobs := by
  constructor
  · rintro ⟨tasks, htasks, hmap⟩
    cases tasks with
    | nil => cases hmap
    | cons id tasks =>
      obtain ⟨rest, rfl⟩ := htasks
      obtain ⟨hid, hrest⟩ := List.cons.inj hmap
      exact ⟨id, tasks ++ rest, rfl, hid, tasks, List.prefix_append _ _, hrest⟩
  · rintro ⟨id, rest, rfl, hid, tasks, htasks, hmap⟩
    exact ⟨id :: tasks, (List.prefix_cons_inj id).mpr htasks, by simp [hid, hmap]⟩

omit [DecidableEq F] in
theorem first_nil (m : ThreadMaster F A) (list : List ℕ) : First m list [] :=
  ⟨[], List.nil_prefix, rfl⟩

theorem First.leave {m : ThreadMaster F A} (h : m.Consistent) {id : ℕ} {ready list : List ℕ}
    {job : Job F A} {jobs : List (Job F A)} (first : m.ready = id :: ready)
    (pending : m.jobs id = some job) (hlist : list ⊆ ready ++ m.event)
    (hjobs : First m (id :: list) jobs) :
    jobs = [] ∨ ∃ rest, jobs = job :: rest ∧ First (m.leave id .ready) list rest := by
  cases jobs with
  | nil => exact .inl rfl
  | cons job' rest =>
    obtain ⟨id', list', hcons, hjob', hrest⟩ := first_cons.mp hjobs
    obtain ⟨rfl, rfl⟩ := List.cons.inj hcons
    cases pending.symm.trans hjob'
    exact .inr ⟨rest, rfl, hrest.mono List.prefix_rfl fun i hi => h.leave_rest first i (hlist hi)⟩

/-- A task that is ready is run by a fetch if it is the first, and keeps its place otherwise. -/
theorem QuietStep.first_ready {s s' : System F A} {action : Action F A}
    {labels : List (Label F A)} (h : s.master.Consistent) (hstep : QuietStep s action labels s')
    {jobs : List (Job F A)} (hjobs : First s.master s.master.ready jobs) :
    (action ≠ .fetch ∧ labels.filterMap Label.ran = [] ∧ First s'.master s'.master.ready jobs) ∨
      (action = .fetch ∧ (jobs = [] ∨ ∃ job rest, jobs = job :: rest ∧
        labels.filterMap Label.ran = [job] ∧ First s'.master s'.master.ready rest)) := by
  have hkept : action ≠ .fetch → ∀ id ∈ s.master.ready, ∀ job, s.master.jobs id = some job →
      s'.master.jobs id = some job :=
    fun hother id _ job hjob => hstep.jobs h hjob fun _ hfetch => absurd hfetch hother
  cases hstep with
  | same other master _ =>
    exact .inl ⟨other, rfl, hjobs.mono (by rw [master]) (hkept other)⟩
  | @scheduled _ type p job _ _ other notReady hadded =>
    have hready := (schedule_lists h type job notReady).1
    exact .inl ⟨other, hadded, hjobs.mono (by rw [hready]) (hkept other)⟩
  | @run id ready job first pending =>
    rw [first] at hjobs
    refine .inr ⟨rfl, (hjobs.leave h first pending (List.subset_append_left _ _)).imp_right ?_⟩
    rintro ⟨rest, rfl, hrest⟩
    refine ⟨job, rest, rfl, rfl, ?_⟩
    rwa [(leave_lists first).1]
  | posted empty =>
    refine .inr ⟨rfl, .inl ?_⟩
    cases jobs with
    | nil => rfl
    | cons job rest =>
      obtain ⟨id, ready, hready, -⟩ := first_cons.mp hjobs
      cases empty.symm.trans hready
  | @polled now num revents _ =>
    obtain ⟨expired, tasks, htimers, hio⟩ := threadFetchPolled_spec h now num revents
    refine .inl ⟨by simp, rfl, hjobs.mono ?_ (hkept (by simp))⟩
    rw [hio.ready, htimers.ready, List.append_assoc]
    exact List.prefix_append _ _

/-- Events wait behind what is ready until a fetch finds nothing ready. -/
theorem QuietStep.first_event {s s' : System F A} {action : Action F A}
    {labels : List (Label F A)} (h : s.master.Consistent) (hstep : QuietStep s action labels s')
    (hpolling : s.polling = false) {jobs : List (Job F A)}
    (hjobs : First s.master (s.master.ready ++ s.master.event) jobs) :
    (action ≠ .fetch ∧ labels.filterMap Label.ran = [] ∧ s'.polling = false ∧
        First s'.master (s'.master.ready ++ s'.master.event) jobs) ∨
      (action = .fetch ∧ ((labels.filterMap Label.ran = [] ∧
          First s'.master s'.master.ready jobs) ∨ jobs = [] ∨
        ∃ job rest, jobs = job :: rest ∧ labels.filterMap Label.ran = [job] ∧
          s'.polling = false ∧ First s'.master (s'.master.ready ++ s'.master.event) rest)) := by
  have hkept : action ≠ .fetch → ∀ id ∈ s.master.ready ++ s.master.event, ∀ job,
      s.master.jobs id = some job → s'.master.jobs id = some job :=
    fun hother id _ job hjob => hstep.jobs h hjob fun _ hfetch => absurd hfetch hother
  cases hstep with
  | same other master polling =>
    exact .inl ⟨other, rfl, polling hpolling, hjobs.mono (by rw [master]) (hkept other)⟩
  | @scheduled _ type p job _ _ other notReady hadded =>
    obtain ⟨hready, hevent⟩ := schedule_lists h type job notReady
    refine .inl ⟨other, hadded, hpolling, hjobs.mono ?_ (hkept other)⟩
    rw [hready]
    exact (List.prefix_append_right_inj _).mpr hevent
  | @run id ready job first pending =>
    rw [first] at hjobs
    refine .inr ⟨rfl, .inr ((hjobs.leave h first pending (List.Subset.refl _)).imp_right ?_)⟩
    rintro ⟨rest, rfl, hrest⟩
    refine ⟨job, rest, rfl, rfl, rfl, ?_⟩
    rwa [(leave_lists first).1, (leave_lists first).2]
  | posted empty =>
    refine .inr ⟨rfl, .inl ⟨rfl, ?_⟩⟩
    obtain ⟨-, hsame, -, hready, -⟩ :=
      threadProcess_spec h (rfl : s.master.event = s.master.event)
    refine hjobs.mono ?_ fun id _ job hjob => ?_
    · rw [hready]
    · exact (congrFun hsame id).trans hjob
  | polled polling => cases hpolling.symm.trans polling

omit [DecidableEq F] in
theorem first_all {m : ThreadMaster F A} {list : List ℕ} (h : ∀ id ∈ list, m.jobs id ≠ none) :
    First m list (list.filterMap m.jobs) := by
  induction list with
  | nil => exact first_nil m []
  | cons id list ih =>
    cases hjob : m.jobs id with
    | none => exact absurd hjob (h id (by simp))
    | some job =>
      rw [List.filterMap_cons_some hjob]
      exact first_cons.mpr ⟨id, list, rfl, hjob, ih fun i hi => h i (List.mem_cons_of_mem _ hi)⟩

/-! ### Runs without cancellation -/

variable [DecidableEq A]

theorem doThreadCancel_nil {m : ThreadMaster F A} (hreq : m.cancelReq = []) :
    m.doThreadCancel = some m := by
  rw [doThreadCancel, hreq]
  simp only [cancelLoop, Option.bind_eq_bind, Option.bind_some]
  rw [← hreq]

theorem quietStep_fetch {s : System F A} (h : s.master.Consistent) (hreq : s.master.cancelReq = [])
    {r : Fetched F A} (hr : s.master.threadFetch = some r) :
    QuietStep s .fetch (fetched r).2 (fetched r).1 := by
  have horder : s.master.Orderly s.master.cancelReq := hreq ▸ List.Pairwise.nil
  obtain ⟨c, hc, -, -, hcases⟩ := h.threadFetch_cases horder
  cases (doThreadCancel_nil hreq).symm.trans hc
  rcases hcases with ⟨id, ready, job, hready, hjob, hfetch⟩ | ⟨hready, -, -, -, hfetch⟩ |
    ⟨hready, hfetch⟩ | ⟨-, hfetch⟩ <;> cases hr.symm.trans hfetch
  · have hlabel : (s.master.threads id).job.toList.map Label.run = [.run job] := by
      rw [show (s.master.threads id).job = some job from hjob]
      rfl
    simp only [fetched, hlabel]
    exact .run hready hjob
  · exact .posted hready
  · exact .posted hready

theorem Action.apply_quiet {s s' : System F A} {action : Action F A} {labels : List (Label F A)}
    (h : s.master.Consistent) (hquiet : Quiet s [action]) (hadmissible : action.Admissible s)
    (hstep : action.apply s = some (s', labels)) : QuietStep s action labels s' := by
  have hcancels := hquiet.2 action (List.mem_singleton_self _)
  cases action with
  | addReadWrite dir func arg fd ref =>
    obtain ⟨⟨m', r⟩, hadd, heq⟩ := Option.map_eq_some_iff.mp hstep
    obtain ⟨rfl, rfl⟩ := Prod.mk.inj heq
    obtain ⟨-, ⟨-, rfl, rfl⟩ | ⟨-, rfl, -, rfl⟩⟩ := threadAddReadWrite_cases hadd
    · exact .same (by simp) rfl id
    · exact .scheduled (by simp) (by cases dir <;> simp [Dir.place]) (added_ran _ _)
  | addTimer now timeRelative func arg ref =>
    obtain ⟨rfl, rfl⟩ := Prod.mk.inj (Option.some.inj hstep)
    rcases threadAddTimerTimeval_cases s.master now timeRelative func arg ref with
      ⟨-, heq⟩ | ⟨-, heq⟩
    · rw [heq]
      exact .same (by simp) rfl id
    · rw [heq]
      exact .scheduled (by simp) (by simp) (added_ran _ _)
  | addEvent func arg val ref =>
    obtain ⟨rfl, rfl⟩ := Prod.mk.inj (Option.some.inj hstep)
    rcases threadAddEvent_cases s.master func arg val ref with ⟨-, heq⟩ | ⟨-, heq⟩
    · rw [heq]
      exact .same (by simp) rfl id
    · rw [heq]
      exact .scheduled (by simp) (by simp) (added_ran _ _)
  | cancel id => cases hcancels
  | cancelEvent obj => cases hcancels
  | cancelAsync req => cases hcancels
  | fetch =>
    obtain ⟨r, hfetch, heq⟩ := Option.map_eq_some_iff.mp hstep
    have hquietStep := quietStep_fetch h hquiet.1 hfetch
    rwa [heq] at hquietStep
  | polled now num revents =>
    obtain ⟨rfl, rfl⟩ := Prod.mk.inj (Option.some.inj hstep)
    exact .polled hadmissible
  | interrupted =>
    obtain ⟨rfl, rfl⟩ := Prod.mk.inj (Option.some.inj hstep)
    exact .same (by simp) rfl fun _ => rfl

def Action.isFetch {F A : Type} : Action F A → Bool
  | .fetch => true
  | _ => false

def fetches (actions : List (Action F A)) : ℕ := (actions.filter Action.isFetch).length

omit [DecidableEq F] [DecidableEq A] in
theorem fetches_fetch (actions : List (Action F A)) :
    fetches (.fetch :: actions) = fetches actions + 1 := rfl

omit [DecidableEq F] [DecidableEq A] in
theorem fetches_other {action : Action F A} (hother : action ≠ .fetch)
    (actions : List (Action F A)) : fetches (action :: actions) = fetches actions := by
  cases action <;> first | rfl | exact absurd rfl hother

/-- A run without cancellation, by its steps. -/
inductive QuietRun : System F A → List (Action F A) → List (Label F A) → System F A → Prop where
  | nil (s : System F A) : QuietRun s [] [] s
  | cons {s s' s'' : System F A} {action : Action F A} {actions : List (Action F A)}
      {labels labels' : List (Label F A)} (consistent : s.master.Consistent)
      (step : QuietStep s action labels s') (rest : QuietRun s' actions labels' s'') :
      QuietRun s (action :: actions) (labels ++ labels') s''

theorem Run.toQuiet {s s' : System F A} {actions : List (Action F A)} {labels : List (Label F A)}
    (hrun : Run s actions labels s') (h : s.master.Consistent) (hquiet : Quiet s actions) :
    QuietRun s actions labels s' := by
  induction hrun with
  | nil s => exact .nil s
  | @cons s s' s'' action actions labels labels' hadmissible horder hstep _ ih =>
    have hfirst : Quiet s [action] := ⟨hquiet.1, by simp [hquiet.2 action (by simp)]⟩
    have hmatch := Action.apply_matches h hadmissible horder hstep
    have hrest : Quiet s' actions :=
      ⟨hmatch.quiet hfirst, fun a ha => hquiet.2 a (List.mem_cons_of_mem _ ha)⟩
    exact .cons h (Action.apply_quiet h hfirst hadmissible hstep) (ih hmatch.consistent hrest)

omit [DecidableEq A] in
theorem QuietRun.ready_first {s s' : System F A} {actions : List (Action F A)}
    {labels : List (Label F A)} (hrun : QuietRun s actions labels s') {jobs : List (Job F A)}
    (hjobs : First s.master s.master.ready jobs) :
    jobs.take (fetches actions) <+: labels.filterMap Label.ran := by
  induction hrun generalizing jobs with
  | nil s => simp [fetches]
  | cons h hstep _ ih =>
    rw [List.filterMap_append]
    rcases hstep.first_ready h hjobs with ⟨hother, hran, hrest⟩ | ⟨rfl, hcases⟩
    · rw [hran, fetches_other hother]
      exact ih hrest
    · obtain rfl | ⟨job, rest, rfl, hran, hrest⟩ := hcases
      · simp
      · rw [hran, fetches_fetch, List.take_succ_cons]
        exact (List.prefix_cons_inj job).mpr (ih hrest)

omit [DecidableEq A] in
theorem QuietRun.event_first {s s' : System F A} {actions : List (Action F A)}
    {labels : List (Label F A)} (hrun : QuietRun s actions labels s') (hpolling : s.polling = false)
    {jobs : List (Job F A)} (hjobs : First s.master (s.master.ready ++ s.master.event) jobs) :
    jobs.take (fetches actions - 1) <+: labels.filterMap Label.ran := by
  induction hrun generalizing jobs with
  | nil s => simp [fetches]
  | @cons _ _ _ _ actions _ labels' h hstep hsteps ih =>
    rw [List.filterMap_append]
    rcases hstep.first_event h hpolling hjobs with ⟨hother, hran, hpolling', hrest⟩ | ⟨rfl, hcases⟩
    · rw [hran, fetches_other hother]
      exact ih hpolling' hrest
    · rw [fetches_fetch, Nat.add_sub_cancel]
      obtain ⟨hran, hready⟩ | rfl | ⟨job, rest, rfl, hran, hpolling', hrest⟩ := hcases
      · rw [hran]
        exact hsteps.ready_first hready
      · simp
      · rw [hran]
        cases hcount : fetches actions with
        | zero => simp
        | succ n =>
          have := ih hpolling' hrest
          rw [hcount] at this
          exact (List.prefix_cons_inj job).mpr this

/-- While the owner is not in `poll`, the tasks that are ready and the events run before all others,
in the order in which they came to be there: the first ones are run by as many fetches and one more.
Timers, descriptors and tasks that are added meanwhile do not get in front. -/
theorem Run.first_come {s s' : System F A} {actions : List (Action F A)}
    {labels : List (Label F A)} (hrun : Run s actions labels s') (h : s.master.Consistent)
    (hpolling : s.polling = false) (hreq : s.master.cancelReq = [])
    (hcancels : ∀ action ∈ actions, action.cancels = false) :
    ((s.master.ready ++ s.master.event).filterMap s.master.jobs).take (fetches actions - 1) <+:
      labels.filterMap Label.ran := by
  refine (hrun.toQuiet h ⟨hreq, hcancels⟩).event_first hpolling (first_all fun id hid hnone => ?_)
  have hplace := (h.placed id).mpr hnone
  rcases List.mem_append.mp hid with hid | hid
  · cases hplace.symm.trans ((h.holds.ready id).mp hid)
  · cases hplace.symm.trans ((h.holds.event id).mp hid)

def numberedEvent (val : ℤ) : Job Unit Unit := ⟨.event, (), none, none, .val val⟩

/-- The first event is ready and two more wait when a timer is added; the three events are run in the
order in which they came. -/
theorem eventJob_first_come : ∃ (labels labels' : List (Label Unit Unit)) (s s' : System Unit Unit),
    Run (.start 8) [.addEvent () none 1 none, .fetch, .interrupted, .addEvent () none 2 none,
      .addEvent () none 3 none] labels s ∧
    Run s [.addTimer ⟨5, 0⟩ ⟨0, 0⟩ () none none, .fetch, .fetch, .interrupted, .fetch, .fetch]
      labels' s' ∧
    [1, 2, 3].map numberedEvent <+: labels'.filterMap Label.ran := by
  have hrun : ∃ (labels labels' : List (Label Unit Unit)) (s s' : System Unit Unit),
      Run (.start 8) [.addEvent () none 1 none, .fetch, .interrupted, .addEvent () none 2 none,
        .addEvent () none 3 none] labels s ∧
      Run s [.addTimer ⟨5, 0⟩ ⟨0, 0⟩ () none none, .fetch, .fetch, .interrupted, .fetch, .fetch]
        labels' s' ∧ s.polling = false ∧ s.master.cancelReq = [] ∧
      ((s.master.ready ++ s.master.event).filterMap s.master.jobs).take 3 =
        [1, 2, 3].map numberedEvent :=
    ⟨_, _, _, _, .cons trivial trivial rfl <| .cons rfl .nil rfl <| .cons rfl trivial rfl <|
      .cons trivial trivial rfl <| .cons trivial trivial rfl <| .nil _,
      .cons trivial trivial rfl <| .cons rfl .nil rfl <| .cons rfl .nil rfl <|
      .cons rfl trivial rfl <| .cons rfl .nil rfl <| .cons rfl .nil rfl <| .nil _, rfl, rfl, rfl⟩
  obtain ⟨labels, labels', s, s', hbefore, hrun, hpolling, hreq, hjobs⟩ := hrun
  refine ⟨labels, labels', s, s', hbefore, hrun, ?_⟩
  rw [← hjobs]
  exact hrun.first_come (hbefore.matches (consistent_create 8)).consistent hpolling hreq
    (by simp [Action.cancels])

end Routerd.Threads
