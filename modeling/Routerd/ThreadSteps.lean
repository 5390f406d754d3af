import Routerd.ThreadInvariant

/-!
# The operations of the scheduler

The functions that add tasks schedule one, unless the pointer of the caller says that its task is
scheduled already. The second half of `thread_fetch` makes tasks ready: the timers that have run
out, by the times at which they did, and then the tasks on the descriptors that `poll` reports.
-/

namespace Routerd.Threads
open HeapOrder PQueue

namespace Queues

def table (q : Queues) : Dir → ℕ → Option ℕ
  | .read => q.read
  | .write => q.write

theorem dirTable_insert (q : Queues) (sands : ℕ → Timeval) (id : ℕ) (p : Place) (dir : Dir) (fd : ℕ) :
    (q.insert sands id p).table dir fd = if p = dir.place fd then some id else q.table dir fd := by
  cases p <;> cases dir <;>
    simp [insert, table, Dir.place, Function.update_apply, eq_comm]

theorem dirTable_erase (q : Queues) (sands : ℕ → Timeval) (id : ℕ) (p : Place) (dir : Dir) (fd : ℕ) :
    (q.erase sands id p).table dir fd = if p = dir.place fd then none else q.table dir fd := by
  cases p <;> cases dir <;>
    simp [erase, table, Dir.place, Function.update_apply, eq_comm]

theorem dirTable_setPosition (q : Queues) (id : ℕ) (position : ℤ) (dir : Dir) (fd : ℕ) :
    (q.setPosition id position).table dir fd = q.table dir fd := by
  cases dir <;> rfl

end Queues

theorem FdHandler.queuepos_le (h : FdHandler) (fd : ℕ) : (h.find fd).getD h.pfdcount ≤ h.pfdcount := by
  cases hfind : h.find fd with
  | none => exact le_rfl
  | some i => exact (List.mem_range.mp (List.mem_of_find?_eq_some hfind)).le

namespace ThreadMaster
variable {F A : Type} [DecidableEq F]

/-! ### Adding tasks -/

omit [DecidableEq F] in
theorem threadAlloc_handler (m : ThreadMaster F A) : m.threadAlloc.2.handler = m.handler := by
  unfold threadAlloc
  cases m.unuse <;> rfl

omit [DecidableEq F] in
theorem dir_place (dir : Dir) (func : F) (arg : Option A) (ref : Option ℕ) (fd : ℕ) :
    (⟨dir.type, some ⟨dir.type, func, arg, ref, .fd fd⟩⟩ : Thread F A).place =
      some (dir.place fd) := by
  cases dir <;> rfl

theorem threadAddReadWrite_cases {m m' : ThreadMaster F A} {dir : Dir} {func : F}
    {arg : Option A} {fd : ℕ} {ref r : Option ℕ}
    (h : m.threadAddReadWrite dir func arg fd ref = some (m', r)) :
    fd < m.fdLimit ∧ ((m.isScheduled ref = true ∧ m' = m ∧ r = none) ∨
      (m.isScheduled ref = false ∧ r = some m.threadAlloc.1 ∧
        (m.handler.find fd).getD m.handler.pfdcount + 1 < m.handler.pfdsize ∧
        m' = { m.schedule dir.type (dir.place fd) ⟨dir.type, func, arg, ref, .fd fd⟩ with
          handler := m.handler.want ((m.handler.find fd).getD m.handler.pfdcount) fd dir })) := by
  unfold threadAddReadWrite at h
  split at h
  · rename_i hlt
    refine ⟨hlt, ?_⟩
    split at h
    · rename_i hscheduled
      cases h
      exact .inl ⟨hscheduled, rfl, rfl⟩
    · rename_i hscheduled
      simp only at h
      split at h
      · rename_i hroom
        obtain ⟨rfl, rfl⟩ := Prod.mk.inj (Option.some.inj h)
        refine .inr ⟨by simpa using hscheduled, rfl, hroom, ?_⟩
        rw [← m.threadAlloc_handler]
        cases dir <;> cases ref <;> rfl
      · cases h
  · cases h

theorem threadAddTimerTimeval_cases (m : ThreadMaster F A) (now timeRelative : Timeval) (func : F)
    (arg : Option A) (ref : Option ℕ) :
    (m.isScheduled ref = true ∧ m.threadAddTimerTimeval now timeRelative func arg ref = (m, none)) ∨
    (m.isScheduled ref = false ∧ m.threadAddTimerTimeval now timeRelative func arg ref =
      (m.schedule .timer .timer ⟨.timer, func, arg, ref, .sands (timeradd now timeRelative)⟩,
        some m.threadAlloc.1)) := by
  unfold threadAddTimerTimeval
  cases hscheduled : m.isScheduled ref with
  | true => exact .inl ⟨rfl, rfl⟩
  | false => exact .inr ⟨rfl, rfl⟩

theorem threadAddEvent_cases (m : ThreadMaster F A) (func : F) (arg : Option A) (val : ℤ)
    (ref : Option ℕ) :
    (m.isScheduled ref = true ∧ m.threadAddEvent func arg val ref = (m, none)) ∨
    (m.isScheduled ref = false ∧ m.threadAddEvent func arg val ref =
      (m.schedule .event .event ⟨.event, func, arg, ref, .val val⟩, some m.threadAlloc.1)) := by
  unfold threadAddEvent
  cases hscheduled : m.isScheduled ref with
  | true => exact .inl ⟨rfl, rfl⟩
  | false => exact .inr ⟨rfl, rfl⟩

theorem schedule_jobs {m : ThreadMaster F A} (h : m.Consistent) (type : ThreadType) (p : Place)
    (job : Job F A) :
    m.jobs m.threadAlloc.1 = none ∧
      (m.schedule type p job).jobs = Function.update m.jobs m.threadAlloc.1 (some job) := by
  have ha := h.allocated
  refine ⟨by rw [jobs, ha.was]; rfl, ?_⟩
  rw [← jobs_update m _ ⟨type, some job⟩, ← ha.threads, ← (m.schedule_eq type p job).1]
  rfl

theorem schedule_cancelReq (m : ThreadMaster F A) (type : ThreadType) (p : Place) (job : Job F A) :
    (m.schedule type p job).cancelReq = m.cancelReq := by
  unfold schedule threadGet threadAlloc setRef
  cases m.unuse <;> cases job.ref <;> rfl

/-! ### Events -/

omit [DecidableEq F] in
theorem makeReady_event {m : ThreadMaster F A} {id : ℕ} {event : List ℕ}
    (hevent : m.event = id :: event) :
    { m.setReady id with event := event, ready := m.ready ++ [id] } = m.makeReady id .event := by
  simp [makeReady, setReady, Queues.erase, Queues.insert, hevent]

/-- All events become ready, in the order in which they were added. -/
theorem threadProcess_spec {m : ThreadMaster F A} (h : m.Consistent) {event : List ℕ}
    (hevent : m.event = event) :
    (threadProcess event m).Consistent ∧ (threadProcess event m).jobs = m.jobs ∧
      (threadProcess event m).event = [] ∧
      (threadProcess event m).ready = m.ready ++ event ∧
      (threadProcess event m).timer = m.timer ∧ (threadProcess event m).read = m.read ∧
      (threadProcess event m).write = m.write ∧ (threadProcess event m).handler = m.handler ∧
      (threadProcess event m).cancelReq = m.cancelReq ∧
      (threadProcess event m).fdLimit = m.fdLimit := by
  induction event generalizing m with
  | nil => simp [threadProcess, h, hevent]
  | cons id event ih =>
    have hp : (m.threads id).place = some .event := (h.holds.event id).mp (by simp [hevent])
    have hready := h.makeReady hp (by simp)
    rw [← makeReady_event hevent] at hready
    obtain ⟨hconsistent, hjobs, hempty, hlist, hrest⟩ := ih hready rfl
    refine ⟨hconsistent, ?_, hempty, ?_, hrest⟩
    · rw [threadProcess, hjobs, makeReady_event hevent, makeReady_jobs]
    · rw [threadProcess, hlist, List.append_assoc, List.singleton_append]

/-! ### Timers -/

theorem makeReady_timer {m : ThreadMaster F A} (h : m.Consistent) (hsize : m.timer.size ≠ 0) :
    (m.threads (m.timer.array 0)).place = some .timer ∧ m.timer.position (m.timer.array 0) = 0 ∧
    { m.setReady (m.timer.array 0) with
      timer := (dequeue (timerCmp m.sands) m.timer).2
      ready := m.ready ++ [m.timer.array 0] } = m.makeReady (m.timer.array 0) .timer := by
  have hpos := Nat.pos_of_ne_zero hsize
  have hposition : m.timer.position (m.timer.array 0) = 0 := h.holds.valid.recorded 0 hpos
  refine ⟨(h.holds.timer _).mp (mem_items.mpr ⟨0, hpos, rfl⟩), hposition, ?_⟩
  simp [makeReady, setReady, Queues.erase, Queues.insert, hposition, dequeue_eq]

/-- What the loop over the timers makes ready: the timers that have run out, by the times at which
they did, and no others. -/
structure TimersDone (now : Timeval) (m m' : ThreadMaster F A) (expired : List ℕ) : Prop where
  consistent : m'.Consistent
  jobs : m'.jobs = m.jobs
  ready : m'.ready = m.ready ++ expired
  split : (expired ++ items m'.timer.array m'.timer.size).Perm (items m.timer.array m.timer.size)
  sorted : expired.Pairwise fun a b => (m.sands a).key ≤ (m.sands b).key
  due : ∀ id ∈ expired, (m.sands id).key ≤ now.key
  later : ∀ id ∈ items m'.timer.array m'.timer.size, now.key < (m.sands id).key
  event : m'.event = m.event
  read : m'.read = m.read
  write : m'.write = m.write
  handler : m'.handler = m.handler
  cancelReq : m'.cancelReq = m.cancelReq
  fdLimit : m'.fdLimit = m.fdLimit

theorem timersDone_nil {now : Timeval} {m : ThreadMaster F A} (h : m.Consistent)
    (hlater : ∀ id ∈ items m.timer.array m.timer.size, now.key < (m.sands id).key) :
    TimersDone now m m [] where
  consistent := h
  jobs := rfl
  ready := (List.append_nil _).symm
  split := .refl _
  sorted := .nil
  due := by simp
  later := hlater
  event := rfl
  read := rfl
  write := rfl
  handler := rfl
  cancelReq := rfl
  fdLimit := rfl

theorem threadProcessTimers_spec (now : Timeval) {m : ThreadMaster F A} (h : m.Consistent)
    {rounds : ℕ} (hrounds : m.timer.size ≤ rounds) :
    ∃ expired, TimersDone now m (threadProcessTimers now rounds m) expired := by
  induction rounds generalizing m with
  | zero =>
    refine ⟨[], timersDone_nil h fun id hid => ?_⟩
    obtain ⟨i, hi, -⟩ := mem_items.mp hid
    omega
  | succ rounds ih =>
    rw [threadProcessTimers]
    split
    · rename_i hsize
      refine ⟨[], timersDone_nil h fun id hid => ?_⟩
      obtain ⟨i, hi, -⟩ := mem_items.mp hid
      omega
    · rename_i hsize
      simp only
      split
      · rename_i hnow
        refine ⟨[], timersDone_nil h fun id hid => ?_⟩
        obtain ⟨i, hi, rfl⟩ := mem_items.mp hid
        exact (timerLt_iff.mp hnow).trans_le (h.holds.valid.ordered.root_le hi)
      · rename_i hnow
        obtain ⟨hp, hfirst, heq⟩ := makeReady_timer h hsize
        have hpos := Nat.pos_of_ne_zero hsize
        obtain ⟨hvalid, hperm, -, -⟩ := removeAt_spec (compares_timerCmp m.sands)
          h.holds.valid hpos
        have hsands := m.makeReady_sands (m.timer.array 0) .timer
        have htimer : (m.makeReady (m.timer.array 0) .timer).timer =
            removeAt (timerCmp m.sands) 0 m.timer := by
          simp [makeReady, Queues.erase, Queues.insert, hfirst]
        have hready := h.makeReady hp fun _ => hfirst
        have hlen := hperm.length_eq
        simp only [List.length_cons, items, List.length_map, List.length_range] at hlen
        rw [heq]
        obtain ⟨expired, hdone⟩ := ih hready (by
          rw [htimer]
          exact Nat.le_of_succ_le_succ (hlen.trans_le hrounds))
        have hsplit := hdone.split
        rw [htimer] at hsplit
        refine ⟨m.timer.array 0 :: expired, ?_⟩
        exact
        { consistent := hdone.consistent
          jobs := hdone.jobs.trans (makeReady_jobs _ _ _)
          ready := by
            rw [hdone.ready, ← heq]
            simp
          split := (hsplit.cons _).trans hperm
          sorted := by
            rw [List.pairwise_cons]
            refine ⟨fun id hid => ?_, by simpa [hsands] using hdone.sorted⟩
            have hin : id ∈ items m.timer.array m.timer.size :=
              hperm.subset (List.mem_cons_of_mem _ (hsplit.subset (List.mem_append_left _ hid)))
            obtain ⟨i, hi, rfl⟩ := mem_items.mp hin
            exact h.holds.valid.ordered.root_le hi
          due := by
            rw [List.forall_mem_cons]
            refine ⟨not_lt.mp (mt timerLt_iff.mpr hnow), ?_⟩
            simpa [hsands] using hdone.due
          later := by simpa [hsands] using hdone.later
          event := hdone.event.trans rfl
          read := hdone.read.trans rfl
          write := hdone.write.trans rfl
          handler := hdone.handler.trans rfl
          cancelReq := hdone.cancelReq.trans rfl
          fdLimit := hdone.fdLimit.trans rfl }

/-! ### Descriptors -/

theorem Consistent.table_iff {m : ThreadMaster F A} (h : m.Consistent) {dir : Dir} {fd id : ℕ} :
    m.table dir fd = some id ↔ (m.threads id).place = some (dir.place fd) := by
  cases dir with
  | read => exact h.holds.read fd id
  | write => exact h.holds.write fd id

omit [DecidableEq F] in
theorem place_eq_dir {thread : Thread F A} {dir : Dir} {fd : ℕ}
    (h : thread.place = some (dir.place fd)) : thread.type = dir.type ∧ thread.fd = fd := by
  unfold Thread.place at h
  cases dir <;> cases ht : thread.type <;> rw [ht] at h <;> cases h <;> exact ⟨rfl, rfl⟩

omit [DecidableEq F] in
theorem threadProcessIoHelper_eq {m : ThreadMaster F A} {dir : Dir} {fd id : ℕ}
    (hp : (m.threads id).place = some (dir.place fd)) (pos : ℕ) :
    m.threadProcessIoHelper (some id) dir pos =
      { m.makeReady id (dir.place fd) with
        handler := (m.threadProcessIoHelper none dir pos).handler } := by
  obtain ⟨htype, hfd⟩ := place_eq_dir hp
  cases dir <;> simp [threadProcessIoHelper, htype, hfd, Dir.type, Dir.place, makeReady, setReady,
    setTable, Queues.erase, Queues.insert]

/-- What the reports on descriptors make of the state: tasks become ready. -/
structure IoDone (m m' : ThreadMaster F A) (tasks : List ℕ) : Prop where
  consistent : m'.Consistent
  jobs : m'.jobs = m.jobs
  ready : m'.ready = m.ready ++ tasks
  timer : items m'.timer.array m'.timer.size = items m.timer.array m.timer.size
  event : m'.event = m.event
  cancelReq : m'.cancelReq = m.cancelReq
  fdLimit : m'.fdLimit = m.fdLimit

theorem IoDone.trans {m m' m'' : ThreadMaster F A} {tasks tasks' : List ℕ} (h : IoDone m m' tasks)
    (h' : IoDone m' m'' tasks') : IoDone m m'' (tasks ++ tasks') where
  consistent := h'.consistent
  jobs := h'.jobs.trans h.jobs
  ready := by rw [h'.ready, h.ready, List.append_assoc]
  timer := h'.timer.trans h.timer
  event := h'.event.trans h.event
  cancelReq := h'.cancelReq.trans h.cancelReq
  fdLimit := h'.fdLimit.trans h.fdLimit

theorem ioDone_handler {m : ThreadMaster F A} (h : m.Consistent) (handler : FdHandler) :
    IoDone m { m with handler := handler } [] where
  consistent := h.congr rfl rfl rfl rfl rfl rfl rfl
  jobs := rfl
  ready := (List.append_nil _).symm
  timer := rfl
  event := rfl
  cancelReq := rfl
  fdLimit := rfl

theorem threadProcessIoHelper_spec {m : ThreadMaster F A} (h : m.Consistent) (dir : Dir)
    (fd pos : ℕ) :
    IoDone m (m.threadProcessIoHelper (m.table dir fd) dir pos) (m.table dir fd).toList := by
  cases htable : m.table dir fd with
  | none => exact ioDone_handler h _
  | some id =>
    have hp := h.table_iff.mp htable
    rw [threadProcessIoHelper_eq hp]
    have hready := h.makeReady hp (by cases dir <;> simp [Dir.place])
    exact
    { consistent := hready.congr rfl rfl rfl rfl rfl rfl rfl
      jobs := makeReady_jobs m id (dir.place fd)
      ready := by cases dir <;> rfl
      timer := by cases dir <;> rfl
      event := by cases dir <;> rfl
      cancelReq := rfl
      fdLimit := rfl }

/-- The tasks that an entry of the copy makes ready. -/
def entryTasks (m : ThreadMaster F A) (p : Pollfd) : List ℕ :=
  (if p.revents.pollin || p.revents.pollhup then (m.read p.fd).toList else []) ++
    if p.revents.pollout then (m.write p.fd).toList else []

theorem processEntry_spec {m : ThreadMaster F A} (h : m.Consistent) (i : ℕ) :
    IoDone m (m.processEntry i) (m.entryTasks (m.handler.copy i)) := by
  simp only [processEntry, entryTasks]
  generalize hfirst : (if (m.handler.copy i).revents.pollin || (m.handler.copy i).revents.pollhup
    then m.threadProcessIoHelper (m.read (m.handler.copy i).fd) .read i else m) = m'
  have hread : IoDone m m' (if (m.handler.copy i).revents.pollin ||
      (m.handler.copy i).revents.pollhup then (m.read (m.handler.copy i).fd).toList else []) := by
    rw [← hfirst]
    split
    · exact threadProcessIoHelper_spec h .read _ i
    · exact ioDone_handler h m.handler
  have hwrite : m'.write = m.write := by
    rw [← hfirst]
    split
    · cases htable : m.read (m.handler.copy i).fd with
      | none => rfl
      | some id =>
        have hp : (m.threads id).place = some (Dir.read.place (m.handler.copy i).fd) :=
          (h.holds.read _ id).mp htable
        rw [threadProcessIoHelper_eq hp]
        rfl
    · rfl
  rw [← hwrite]
  refine hread.trans ?_
  split
  · exact threadProcessIoHelper_spec hread.consistent .write _ i
  · exact ioDone_handler hread.consistent _

theorem processIoLoop_spec {m : ThreadMaster F A} (h : m.Consistent) (num rounds i ready : ℕ) :
    ∃ tasks, IoDone m (processIoLoop num rounds i ready m) tasks := by
  induction rounds generalizing m i ready with
  | zero => exact ⟨[], ioDone_handler h m.handler⟩
  | succ rounds ih =>
    rw [processIoLoop]
    split
    · split
      · exact ih h _ _
      · have hentry := processEntry_spec h i
        simp only
        split
        · obtain ⟨tasks, hrest⟩ := ih (hentry.trans (ioDone_handler hentry.consistent _)).consistent
            i (ready + 1)
          exact ⟨_, (hentry.trans (ioDone_handler hentry.consistent _)).trans hrest⟩
        · obtain ⟨tasks, hrest⟩ := ih hentry.consistent (i + 1) (ready + 1)
          exact ⟨_, hentry.trans hrest⟩
    · exact ⟨[], ioDone_handler h m.handler⟩

theorem threadFetchPolled_spec {m : ThreadMaster F A} (h : m.Consistent) (now : Timeval) (num : ℕ)
    (revents : ℕ → Revents) :
    ∃ expired tasks, TimersDone now (m.setRevents revents)
        (threadProcessTimers now m.timer.size (m.setRevents revents)) expired ∧
      IoDone (threadProcessTimers now m.timer.size (m.setRevents revents))
        (m.threadFetchPolled now num revents) tasks := by
  have hset : (m.setRevents revents).Consistent := h.congr rfl rfl rfl rfl rfl rfl rfl
  obtain ⟨expired, htimers⟩ := threadProcessTimers_spec now hset (le_refl m.timer.size)
  refine ⟨expired, ?_⟩
  simp only [threadFetchPolled]
  split
  · obtain ⟨tasks, hio⟩ := processIoLoop_spec htimers.consistent num _ 0 0
    exact ⟨tasks, htimers, hio⟩
  · exact ⟨[], htimers, ioDone_handler htimers.consistent _⟩

end ThreadMaster
end Routerd.Threads
