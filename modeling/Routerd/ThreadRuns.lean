import Routerd.ThreadCancel

/-!
# Runs of the scheduler

The owner of a scheduler adds and cancels tasks and fetches them one after the other. Other
processes add tasks and ask for cancellations at any time that the lock is free, which is also while
the owner is in `poll`. Whatever the order, the scheduler keeps a table of tasks: a task that is run
was scheduled with the same function, argument and value, and it has neither been run nor been
cancelled since.
-/

namespace Routerd.Threads
open ThreadMaster

/-! ### The table of tasks -/

inductive Label (F A : Type) where
  | schedule (id : ℕ) (job : Job F A)
  | run (job : Job F A)
  | cancel (id : ℕ)

def Label.isCancel {F A : Type} : Label F A → Bool
  | .cancel _ => true
  | _ => false

/-- A table with the tasks that are scheduled and neither run nor cancelled yet. -/
inductive TaskRun {F A : Type} :
    (ℕ → Option (Job F A)) → List (Label F A) → (ℕ → Option (Job F A)) → Prop where
  | nil (jobs : ℕ → Option (Job F A)) : TaskRun jobs [] jobs
  | schedule {jobs jobs' : ℕ → Option (Job F A)} {labels : List (Label F A)} {id : ℕ}
      {job : Job F A} (free : jobs id = none)
      (rest : TaskRun (Function.update jobs id (some job)) labels jobs') :
      TaskRun jobs (.schedule id job :: labels) jobs'
  | run {jobs jobs' : ℕ → Option (Job F A)} {labels : List (Label F A)} {id : ℕ} {job : Job F A}
      (pending : jobs id = some job) (rest : TaskRun (Function.update jobs id none) labels jobs') :
      TaskRun jobs (.run job :: labels) jobs'
  | cancel {jobs jobs' : ℕ → Option (Job F A)} {labels : List (Label F A)} {id : ℕ}
      {job : Job F A} (pending : jobs id = some job)
      (rest : TaskRun (Function.update jobs id none) labels jobs') :
      TaskRun jobs (.cancel id :: labels) jobs'

section Table
variable {F A : Type} {jobs jobs' jobs'' : ℕ → Option (Job F A)} {labels labels' : List (Label F A)}

theorem TaskRun.append (h : TaskRun jobs labels jobs') (h' : TaskRun jobs' labels' jobs'') :
    TaskRun jobs (labels ++ labels') jobs'' := by
  induction h with
  | nil => exact h'
  | schedule free _ ih => exact .schedule free (ih h')
  | run pending _ ih => exact .run pending (ih h')
  | cancel pending _ ih => exact .cancel pending (ih h')

theorem taskRun_cancel (jobs : ℕ → Option (Job F A)) (ids : List ℕ) :
    ∃ labels : List (Label F A), (∀ l ∈ labels, l.isCancel = true) ∧
      TaskRun jobs labels fun id => if id ∈ ids then none else jobs id := by
  induction ids generalizing jobs with
  | nil => exact ⟨[], by simp, by simpa using TaskRun.nil jobs⟩
  | cons id ids ih =>
    have hjoin : (fun i => if i ∈ id :: ids then none else jobs i) =
        fun i => if i ∈ ids then none else Function.update jobs id none i := by
      funext i
      by_cases hi : i = id
      · subst hi
        simp
      · simp [hi]
    rw [hjoin]
    obtain ⟨labels, hall, hrun⟩ := ih (Function.update jobs id none)
    cases hjob : jobs id with
    | none =>
      refine ⟨labels, hall, ?_⟩
      rwa [show Function.update jobs id none = jobs from hjob ▸ Function.update_eq_self id jobs]
        at hrun ⊢
    | some job => exact ⟨.cancel id :: labels, by simpa using ⟨rfl, hall⟩, .cancel hjob hrun⟩

end Table

/-! ### Actions -/

structure System (F A : Type) where
  master : ThreadMaster F A
  polling : Bool

inductive Action (F A : Type) where
  | addReadWrite (dir : Dir) (func : F) (arg : Option A) (fd : ℕ) (ref : Option ℕ)
  | addTimer (now timeRelative : Timeval) (func : F) (arg : Option A) (ref : Option ℕ)
  | addEvent (func : F) (arg : Option A) (val : ℤ) (ref : Option ℕ)
  | cancel (id : ℕ)
  | cancelEvent (obj : A)
  | cancelAsync (req : CancelReq A)
  | fetch
  | polled (now : Timeval) (num : ℕ) (revents : ℕ → Revents)
  | interrupted

def Action.cancels {F A : Type} : Action F A → Bool
  | .cancel _ | .cancelEvent _ | .cancelAsync _ => true
  | _ => false

variable {F A : Type} [DecidableEq F] [DecidableEq A]

/-- The task that was added, if one was. -/
def added (m : ThreadMaster F A) : Option ℕ → List (Label F A)
  | some id => (m.jobs id).toList.map (Label.schedule id)
  | none => []

def fetched : Fetched F A → System F A × List (Label F A)
  | .run fetch m => (⟨m, false⟩, fetch.job.toList.map Label.run)
  | .die m => (⟨m, false⟩, [])
  | .poll m => (⟨m, true⟩, [])

/-- What an action does, with the tasks that it adds or hands out; nothing where an assertion
fails. -/
def Action.apply (s : System F A) : Action F A → Option (System F A × List (Label F A))
  | .addReadWrite dir func arg fd ref =>
    (s.master.threadAddReadWrite dir func arg fd ref).map fun r =>
      (⟨r.1, s.polling⟩, added r.1 r.2)
  | .addTimer now timeRelative func arg ref =>
    let r := s.master.threadAddTimerTimeval now timeRelative func arg ref
    some (⟨r.1, s.polling⟩, added r.1 r.2)
  | .addEvent func arg val ref =>
    let r := s.master.threadAddEvent func arg val ref
    some (⟨r.1, s.polling⟩, added r.1 r.2)
  | .cancel id => (s.master.threadCancel id).map fun m => (⟨m, s.polling⟩, [])
  | .cancelEvent obj => (s.master.threadCancelEvent obj).map fun m => (⟨m, s.polling⟩, [])
  | .cancelAsync req => some (⟨s.master.post req, s.polling⟩, [])
  | .fetch => s.master.threadFetch.map fetched
  | .polled now num revents => some (⟨s.master.threadFetchPolled now num revents, false⟩, [])
  | .interrupted => some (⟨s.master, false⟩, [])

/-- What callers have to see to: a descriptor has one task for each direction, only tasks that are
scheduled are cancelled, and only by the owner while it is not in `poll`. -/
def Action.Admissible (s : System F A) : Action F A → Prop
  | .addReadWrite dir _ _ fd ref => s.master.isScheduled ref = true ∨ s.master.table dir fd = none
  | .cancel id => s.polling = false ∧ s.master.jobs id ≠ none
  | .cancelEvent _ => s.polling = false
  | .cancelAsync req => ∀ id, req ≠ .thread id
  | .fetch => s.polling = false
  | .polled .. => s.polling = true
  | .interrupted => s.polling = true
  | _ => True

/-- The requests that the action serves are in order. Those of other processes are among them, so
that nobody can see to this. -/
def Action.InOrder (s : System F A) : Action F A → Prop
  | .cancel id => s.master.Orderly (s.master.cancelReq ++ [.thread id])
  | .cancelEvent obj => s.master.Orderly (s.master.cancelReq ++ [.eventobj obj])
  | .fetch => s.master.Orderly s.master.cancelReq
  | _ => True

/-- The limits on descriptors: the table and the array have room, also for the pipe. -/
def Action.WithinLimits (s : System F A) : Action F A → Prop
  | .addReadWrite _ _ _ fd _ =>
    fd < s.master.fdLimit ∧ s.master.handler.pfdcount + 1 < s.master.handler.pfdsize
  | .fetch => ∀ c, s.master.doThreadCancel = some c → c.handler.pfdcount + 1 < c.handler.pfdsize
  | _ => True

/-- A run in which requests are served in order, with the tasks that were added and handed out. -/
inductive Run : System F A → List (Action F A) → List (Label F A) → System F A → Prop where
  | nil (s : System F A) : Run s [] [] s
  | cons {s s' s'' : System F A} {action : Action F A} {actions : List (Action F A)}
      {labels labels' : List (Label F A)} (admissible : action.Admissible s)
      (inOrder : action.InOrder s) (step : action.apply s = some (s', labels))
      (rest : Run s' actions labels' s'') : Run s (action :: actions) (labels ++ labels') s''

def System.start (fdLimit : ℕ) : System F A := ⟨threadMasterCreate fdLimit, false⟩

/-! ### One action -/

/-- Nothing asks for a task to be cancelled. -/
def Quiet (s : System F A) (actions : List (Action F A)) : Prop :=
  s.master.cancelReq = [] ∧ ∀ action ∈ actions, action.cancels = false

/-- Actions of the scheduler as steps of the table of tasks: the labels that are seen, and
cancellations in between if something asks for them. -/
structure Matches (s : System F A) (actions : List (Action F A)) (labels : List (Label F A))
    (s' : System F A) : Prop where
  consistent : s'.master.Consistent
  table : ∃ all : List (Label F A), TaskRun s.master.jobs all s'.master.jobs ∧
    all.filter (fun l => !l.isCancel) = labels ∧ (Quiet s actions → all = labels)
  quiet : Quiet s actions → s'.master.cancelReq = []

omit [DecidableEq A] in
theorem Matches.trans {s s' s'' : System F A} {actions actions' : List (Action F A)}
    {labels labels' : List (Label F A)} (h : Matches s actions labels s')
    (h' : Matches s' actions' labels' s'') :
    Matches s (actions ++ actions') (labels ++ labels') s'' := by
  have hquiet : Quiet s (actions ++ actions') → Quiet s actions ∧ Quiet s' actions' := by
    intro hq
    have hfirst : Quiet s actions := ⟨hq.1, fun a ha => hq.2 a (List.mem_append_left _ ha)⟩
    exact ⟨hfirst, h.quiet hfirst, fun a ha => hq.2 a (List.mem_append_right _ ha)⟩
  obtain ⟨all, hrun, hall, hexact⟩ := h.table
  obtain ⟨all', hrun', hall', hexact'⟩ := h'.table
  refine ⟨h'.consistent, ⟨all ++ all', hrun.append hrun', ?_, ?_⟩, fun hq => h'.quiet (hquiet hq).2⟩
  · rw [List.filter_append, hall, hall']
  · intro hq
    rw [hexact (hquiet hq).1, hexact' (hquiet hq).2]

omit [DecidableEq A] in
theorem matches_of_jobs_eq {s s' : System F A} {actions : List (Action F A)}
    (h : s'.master.Consistent) (hjobs : s'.master.jobs = s.master.jobs)
    (hquiet : Quiet s actions → s'.master.cancelReq = []) : Matches s actions [] s' :=
  ⟨h, ⟨[], hjobs ▸ .nil _, rfl, fun _ => rfl⟩, hquiet⟩

omit [DecidableEq A] in
theorem matches_schedule {m m' : ThreadMaster F A} {polling : Bool} (h : m.Consistent)
    {actions : List (Action F A)} {type : ThreadType} {p : Place} {job : Job F A}
    (hm' : m'.Consistent) (hjobs : m'.jobs = (m.schedule type p job).jobs)
    (hreq : m'.cancelReq = m.cancelReq) :
    Matches ⟨m, polling⟩ actions (added m' (some m.threadAlloc.1)) ⟨m', polling⟩ := by
  obtain ⟨hnone, hschedule⟩ := schedule_jobs h type p job
  have hadded : added m' (some m.threadAlloc.1) = [.schedule m.threadAlloc.1 job] := by
    simp [added, hjobs, hschedule]
  rw [hadded]
  refine ⟨hm', ⟨_, .schedule hnone ?_, rfl, fun _ => rfl⟩, fun hq => hreq.trans hq.1⟩
  rw [hjobs, hschedule]
  exact .nil _

theorem ThreadMaster.Consistent.doThreadCancel_matches {m : ThreadMaster F A} (h : m.Consistent)
    (horder : m.Orderly m.cancelReq) (polling : Bool) (actions : List (Action F A)) :
    ∃ m', m.doThreadCancel = some m' ∧ m'.cancelReq = [] ∧
      Matches ⟨m, polling⟩ actions [] ⟨m', polling⟩ := by
  refine ⟨_, h.doThreadCancel_eq horder, rfl, ?_⟩
  obtain ⟨ids, hdone⟩ := h.foldl_serve m.cancelReq
  have hconsistent : { m.cancelReq.foldl ThreadMaster.serve m with cancelReq := [] }.Consistent :=
    hdone.consistent.congr rfl rfl rfl rfl rfl rfl rfl
  obtain ⟨labels, hall, hrun⟩ := taskRun_cancel m.jobs ids
  refine ⟨hconsistent, ?_, fun _ => rfl⟩
  by_cases hreq : m.cancelReq = []
  · refine ⟨[], ?_, rfl, fun _ => rfl⟩
    have hsame : m.cancelReq.foldl ThreadMaster.serve m = m := by rw [hreq]; rfl
    rw [hsame]
    exact .nil _
  · refine ⟨labels, ?_, ?_, fun hq => absurd hq.1 hreq⟩
    · have hjobs : (fun id => if id ∈ ids then none else m.jobs id) =
          (m.cancelReq.foldl ThreadMaster.serve m).jobs := (funext hdone.jobs).symm
      rwa [hjobs] at hrun
    · rw [List.filter_eq_nil_iff]
      intro l hl
      simp [hall l hl]

theorem ThreadMaster.Consistent.threadFetch_cases {m : ThreadMaster F A} (h : m.Consistent)
    (horder : m.Orderly m.cancelReq) :
    ∃ c, m.doThreadCancel = some c ∧ c.Consistent ∧ c.cancelReq = [] ∧
      ((∃ id ready job, c.ready = id :: ready ∧ c.jobs id = some job ∧
          m.threadFetch = some (.run (c.threads id) (c.leave id .ready))) ∨
        (c.ready = [] ∧ (threadProcess c.event c).ready = [] ∧ c.timer.size = 0 ∧
          c.handler.pfdcount = 0 ∧ m.threadFetch = some (.die (threadProcess c.event c))) ∨
        (c.ready = [] ∧ m.threadFetch =
          some (.poll { threadProcess c.event c with handler := c.handler.memcpy })) ∨
        (¬ c.handler.pfdcount + 1 < c.handler.pfdsize ∧ m.threadFetch = none)) := by
  obtain ⟨c, hc, hreq, hmatch⟩ := h.doThreadCancel_matches horder false []
  refine ⟨c, hc, hmatch.consistent, hreq, ?_⟩
  rw [threadFetch, hc]
  simp only [Option.bind_eq_bind, Option.bind_some]
  cases hready : c.ready with
  | cons id ready =>
    refine .inl ⟨id, ready, ?_⟩
    have hplace := (hmatch.consistent.holds.ready id).mp (by simp [hready])
    cases hjob : c.jobs id with
    | none => cases ((hmatch.consistent.placed id).mpr hjob).symm.trans hplace
    | some job =>
      refine ⟨job, rfl, rfl, ?_⟩
      have hqueues : { c with ready := ready } =
          { c with toQueues := c.toQueues.erase c.sands id .ready } := by
        simp [Queues.erase, hready]
      change some (Fetched.run _ (threadRun { c with ready := ready } id)) = _
      rw [threadRun_eq_release, hqueues]
      rfl
  | nil =>
    obtain ⟨-, -, -, -, htimer, -, -, hhandler, -⟩ :=
      threadProcess_spec hmatch.consistent (rfl : c.event = c.event)
    refine .inr ?_
    simp only [htimer, hhandler]
    split
    · rename_i hall
      exact .inl ⟨trivial, hall.1, hall.2.1, hall.2.2, rfl⟩
    · split
      · exact .inr (.inl ⟨trivial, rfl⟩)
      · rename_i hfull
        exact .inr (.inr ⟨hfull, rfl⟩)

theorem post_matches {s s' : System F A} {action : Action F A} {labels : List (Label F A)}
    (h : s.master.Consistent) {req : CancelReq A} (hcancels : action.cancels = true)
    (horder : s.master.Orderly (s.master.cancelReq ++ [req]))
    (hstep : ((s.master.post req).doThreadCancel.map fun m => (⟨m, s.polling⟩, [])) =
      some (s', labels)) : Matches s [action] labels s' := by
  have hpost : (s.master.post req).Consistent := h.congr rfl rfl rfl rfl rfl rfl rfl
  obtain ⟨m', hm', hreq, hmatch⟩ := hpost.doThreadCancel_matches horder s.polling []
  rw [hm'] at hstep
  obtain ⟨rfl, rfl⟩ := Prod.mk.inj (Option.some.inj hstep)
  obtain ⟨all, hrun, hall, -⟩ := hmatch.table
  refine ⟨hmatch.consistent, ⟨all, hrun, hall, fun hq => ?_⟩, fun _ => hreq⟩
  cases hcancels.symm.trans (hq.2 action (List.mem_singleton_self _))

theorem fetch_matches {s : System F A} (h : s.master.Consistent)
    (horder : s.master.Orderly s.master.cancelReq) (actions : List (Action F A)) {r : Fetched F A}
    (hr : s.master.threadFetch = some r) : Matches s actions (fetched r).2 (fetched r).1 := by
  obtain ⟨c, hc, hconsistent, hreq, hcases⟩ := h.threadFetch_cases horder
  obtain ⟨c', hc', -, hmatch⟩ := h.doThreadCancel_matches horder s.polling actions
  cases hc.symm.trans hc'
  obtain ⟨hprocess, hjobs, -, -, -, -, -, -, hreqs, -⟩ :=
    threadProcess_spec hconsistent (rfl : c.event = c.event)
  have hposted : ∀ r : System F A, r.master.Consistent → r.master.jobs = c.jobs →
      r.master.cancelReq = [] → Matches s actions [] r := by
    intro r hr hrjobs hrreq
    have hstep : Matches ⟨c, s.polling⟩ [] [] r := matches_of_jobs_eq hr hrjobs fun _ => hrreq
    simpa using hmatch.trans hstep
  rcases hcases with ⟨id, ready, job, hready, hjob, hfetch⟩ | ⟨-, -, -, -, hfetch⟩ | ⟨-, hfetch⟩ |
    ⟨-, hfetch⟩ <;> cases hr.symm.trans hfetch
  · have hplace := (hconsistent.holds.ready id).mp (by simp [hready])
    have hrun : Matches ⟨c, s.polling⟩ [] [.run job] ⟨c.leave id .ready, false⟩ := by
      refine ⟨hconsistent.leave hplace, ⟨[.run job], .run hjob ?_, rfl, fun _ => rfl⟩, fun hq => ?_⟩
      · rw [leave_jobs]
        exact .nil _
      · exact (release_cancelReq _ id).trans hreq
    have hlabel : (c.threads id).job.toList.map Label.run = [.run job] := by
      rw [show (c.threads id).job = some job from hjob]
      rfl
    simpa [fetched, hlabel] using hmatch.trans hrun
  · exact hposted _ hprocess hjobs (hreqs.trans hreq)
  · exact hposted _ (hprocess.congr rfl rfl rfl rfl rfl rfl rfl) hjobs (hreqs.trans hreq)

theorem Action.apply_matches {s s' : System F A} {action : Action F A} {labels : List (Label F A)}
    (h : s.master.Consistent) (hadmissible : action.Admissible s) (horder : action.InOrder s)
    (hstep : action.apply s = some (s', labels)) : Matches s [action] labels s' := by
  cases action with
  | addReadWrite dir func arg fd ref =>
    obtain ⟨⟨m', r⟩, hadd, heq⟩ := Option.map_eq_some_iff.mp hstep
    obtain ⟨rfl, rfl⟩ := Prod.mk.inj heq
    obtain ⟨-, ⟨-, rfl, rfl⟩ | ⟨href, rfl, -, rfl⟩⟩ := threadAddReadWrite_cases hadd
    · exact matches_of_jobs_eq h rfl fun hq => hq.1
    · have hfree : s.master.toQueues.Free (dir.place fd) := by
        rcases hadmissible with hscheduled | hnone
        · cases href.symm.trans hscheduled
        · cases dir <;> exact hnone
      have hschedule := h.schedule (dir_place dir func arg ref fd) hfree href
      exact matches_schedule h (hschedule.congr rfl rfl rfl rfl rfl rfl rfl) rfl
        (schedule_cancelReq _ _ _ _)
  | addTimer now timeRelative func arg ref =>
    obtain ⟨rfl, rfl⟩ := Prod.mk.inj (Option.some.inj hstep)
    rcases threadAddTimerTimeval_cases s.master now timeRelative func arg ref with
      ⟨-, heq⟩ | ⟨href, heq⟩
    · rw [heq]
      exact matches_of_jobs_eq h rfl fun hq => hq.1
    · rw [heq]
      exact matches_schedule h (h.schedule rfl trivial href) rfl (schedule_cancelReq _ _ _ _)
  | addEvent func arg val ref =>
    obtain ⟨rfl, rfl⟩ := Prod.mk.inj (Option.some.inj hstep)
    rcases threadAddEvent_cases s.master func arg val ref with ⟨-, heq⟩ | ⟨href, heq⟩
    · rw [heq]
      exact matches_of_jobs_eq h rfl fun hq => hq.1
    · rw [heq]
      exact matches_schedule h (h.schedule rfl trivial href) rfl (schedule_cancelReq _ _ _ _)
  | cancel id => exact post_matches h rfl horder hstep
  | cancelEvent obj => exact post_matches h rfl horder hstep
  | cancelAsync req =>
    obtain ⟨rfl, rfl⟩ := Prod.mk.inj (Option.some.inj hstep)
    exact matches_of_jobs_eq (h.congr rfl rfl rfl rfl rfl rfl rfl) rfl
      fun hq => absurd (hq.2 _ (List.mem_singleton_self _)) (by simp [Action.cancels])
  | fetch =>
    obtain ⟨r, hfetch, heq⟩ := Option.map_eq_some_iff.mp hstep
    have hmatch := fetch_matches h horder [.fetch] hfetch
    rwa [heq] at hmatch
  | polled now num revents =>
    obtain ⟨rfl, rfl⟩ := Prod.mk.inj (Option.some.inj hstep)
    obtain ⟨expired, tasks, htimers, hio⟩ := threadFetchPolled_spec h now num revents
    exact matches_of_jobs_eq hio.consistent (hio.jobs.trans htimers.jobs)
      fun hq => hio.cancelReq.trans (htimers.cancelReq.trans hq.1)
  | interrupted =>
    obtain ⟨rfl, rfl⟩ := Prod.mk.inj (Option.some.inj hstep)
    exact matches_of_jobs_eq h rfl fun hq => hq.1

/-- No assertion fails in an action that callers may take, if the requests it serves are in order and
the limits on descriptors are kept. -/
theorem Action.apply_returns {s : System F A} {action : Action F A} (h : s.master.Consistent)
    (horder : action.InOrder s) (hroom : action.WithinLimits s) :
    ∃ r, action.apply s = some r := by
  have hposted : ∀ req, s.master.Orderly (s.master.cancelReq ++ [req]) →
      ∃ m', (s.master.post req).doThreadCancel = some m' := by
    intro req horder
    have hpost : (s.master.post req).Consistent := h.congr rfl rfl rfl rfl rfl rfl rfl
    exact ⟨_, hpost.doThreadCancel_eq horder⟩
  cases action with
  | addReadWrite dir func arg fd ref =>
    obtain ⟨hfd, hsize⟩ := hroom
    have hpos := s.master.handler.queuepos_le fd
    simp only [Action.apply, threadAddReadWrite, if_pos hfd]
    split
    · exact ⟨_, rfl⟩
    · rw [if_pos (by omega)]
      exact ⟨_, rfl⟩
  | addTimer now timeRelative func arg ref => exact ⟨_, rfl⟩
  | addEvent func arg val ref => exact ⟨_, rfl⟩
  | cancel id =>
    obtain ⟨m', hm'⟩ := hposted _ horder
    exact ⟨_, Option.map_eq_some_iff.mpr ⟨m', hm', rfl⟩⟩
  | cancelEvent obj =>
    obtain ⟨m', hm'⟩ := hposted _ horder
    exact ⟨_, Option.map_eq_some_iff.mpr ⟨m', hm', rfl⟩⟩
  | cancelAsync req => exact ⟨_, rfl⟩
  | fetch =>
    obtain ⟨c, hc, -, -, hcases⟩ := h.threadFetch_cases horder
    rcases hcases with ⟨_, _, _, -, -, hfetch⟩ | ⟨-, -, -, -, hfetch⟩ | ⟨-, hfetch⟩ | ⟨hfull, -⟩
    · exact ⟨_, Option.map_eq_some_iff.mpr ⟨_, hfetch, rfl⟩⟩
    · exact ⟨_, Option.map_eq_some_iff.mpr ⟨_, hfetch, rfl⟩⟩
    · exact ⟨_, Option.map_eq_some_iff.mpr ⟨_, hfetch, rfl⟩⟩
    · exact absurd (hroom c hc) hfull
  | polled now num revents => exact ⟨_, rfl⟩
  | interrupted => exact ⟨_, rfl⟩

/-! ### Runs -/

theorem Run.matches {s s' : System F A} {actions : List (Action F A)} {labels : List (Label F A)}
    (hrun : Run s actions labels s') (h : s.master.Consistent) : Matches s actions labels s' := by
  induction hrun with
  | nil s => exact matches_of_jobs_eq h rfl fun hq => hq.1
  | cons hadmissible horder hstep _ ih =>
    have hfirst := Action.apply_matches h hadmissible horder hstep
    exact hfirst.trans (ih hfirst.consistent)

/-- Every run of a new scheduler in which requests are served in order, however the actions of its
owner and of others interleave, keeps the containers, the pointers and the counts consistent, and it
is a run of the table of tasks: what it hands out was scheduled before, with the same job, and each
task is handed out at most once and never after it was cancelled. A run without requests to cancel
loses no task. An action that serves its requests in order, within the limits on descriptors, does
not fail an assertion. -/
theorem Run.tasks {fdLimit : ℕ} {s : System F A} {actions : List (Action F A)}
    {labels : List (Label F A)} (hrun : Run (.start fdLimit) actions labels s) :
    s.master.Consistent ∧
      (∃ all : List (Label F A), TaskRun (fun _ => none) all s.master.jobs ∧
        all.filter (fun l => !l.isCancel) = labels ∧
        ((∀ action ∈ actions, action.cancels = false) → all = labels)) ∧
      ∀ action : Action F A, action.InOrder s → action.WithinLimits s →
        ∃ r, action.apply s = some r := by
  have hmatch := hrun.matches (consistent_create fdLimit)
  obtain ⟨all, htable, hall, hexact⟩ := hmatch.table
  refine ⟨hmatch.consistent, ⟨all, htable, hall, fun hq => hexact ⟨rfl, hq⟩⟩, ?_⟩
  intro action horder hroom
  exact Action.apply_returns hmatch.consistent horder hroom

def eventJob : Job Unit Unit := ⟨.event, (), none, some 0, .val 3⟩

def readJob : Job Unit Unit := ⟨.read, (), none, some 1, .fd 3⟩

/-- While the owner is in `poll`, another process asks for the reader to be cancelled; the event is
run. -/
theorem eventJob_tasks : ∃ (labels : List (Label Unit Unit)) (s : System Unit Unit),
    Run (.start 8) [.addReadWrite .read () none 3 (some 1), .addEvent () none 3 (some 0), .fetch,
        .cancelAsync (.threadref 1), .interrupted, .fetch] labels s ∧
      labels = [.schedule 0 readJob, .schedule 1 eventJob, .run eventJob] ∧
      s.master.Consistent ∧ (∃ all, TaskRun (fun _ => none) all s.master.jobs ∧
        all.filter (fun l => !l.isCancel) = labels) := by
  have hrun : ∃ (labels : List (Label Unit Unit)) (s : System Unit Unit),
      Run (.start 8) [.addReadWrite .read () none 3 (some 1), .addEvent () none 3 (some 0), .fetch,
        .cancelAsync (.threadref 1), .interrupted, .fetch] labels s ∧
        labels = [.schedule 0 readJob, .schedule 1 eventJob, .run eventJob] :=
    ⟨_, _, .cons (.inr rfl) trivial rfl <| .cons trivial trivial rfl <| .cons rfl .nil rfl <|
      .cons (fun _ h => by cases h) trivial rfl <| .cons rfl trivial rfl <|
      .cons rfl (List.pairwise_singleton _ _) rfl <| .nil _, rfl⟩
  obtain ⟨labels, s, hrun, hlabels⟩ := hrun
  obtain ⟨hconsistent, ⟨all, htable, hall, -⟩, -⟩ := hrun.tasks
  exact ⟨labels, s, hrun, hlabels, hconsistent, all, htable, hall⟩

end Routerd.Threads
