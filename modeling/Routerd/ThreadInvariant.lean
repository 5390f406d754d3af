import Routerd.ThreadMaster

/-!
# What holds of the scheduler between its operations

The type of every structure says in which container its task lies, the pointers of the callers
point to the tasks that were scheduled with them, and the counters count what they are meant to.
All operations are put together from three changes: a task is scheduled, a scheduled task becomes
ready, and a task leaves the scheduler.
-/

namespace Routerd.Threads
open HeapOrder PQueue

namespace ThreadMaster
variable {F A : Type}

def jobs (m : ThreadMaster F A) (id : ℕ) : Option (Job F A) := (m.threads id).job

def tally (p : Option (Job F A) → Bool) (n : ℕ) (jobs : ℕ → Option (Job F A)) : ℕ :=
  ∑ id ∈ Finset.range n, (p (jobs id)).toNat

theorem tally_succ {p : Option (Job F A) → Bool} {n : ℕ} {jobs : ℕ → Option (Job F A)}
    (h : p (jobs n) = false) : tally p (n + 1) jobs = tally p n jobs := by
  rw [tally, Finset.sum_range_succ, h]
  rfl

theorem tally_update (p : Option (Job F A) → Bool) {n id : ℕ} (h : id < n)
    (jobs : ℕ → Option (Job F A)) (job : Option (Job F A)) :
    tally p n (Function.update jobs id job) + (p (jobs id)).toNat =
      tally p n jobs + (p job).toNat := by
  have hmem := Finset.mem_range.mpr h
  have hupdate : (fun i => (p (Function.update jobs id job i)).toNat) =
      Function.update (fun i => (p (jobs i)).toNat) id (p job).toNat := by
    funext i
    by_cases hi : i = id
    · subst hi
      simp
    · simp [hi]
  have hsplit := Finset.add_sum_erase (Finset.range n) (fun i => (p (jobs i)).toNat) hmem
  rw [tally, tally, hupdate, Finset.sum_update_of_mem hmem, Finset.sdiff_singleton_eq_erase]
  omega

theorem setRef_refs (m : ThreadMaster F A) (ref value : Option ℕ) :
    (m.setRef ref value).refs =
      ref.elim m.refs fun ref => Function.update m.refs ref value := by
  cases ref <;> rfl

@[simp] theorem setRef_threads (m : ThreadMaster F A) (ref value : Option ℕ) :
    (m.setRef ref value).threads = m.threads := by
  cases ref <;> rfl

@[simp] theorem setRef_toQueues (m : ThreadMaster F A) (ref value : Option ℕ) :
    (m.setRef ref value).toQueues = m.toQueues := by
  cases ref <;> rfl

theorem jobs_update (m : ThreadMaster F A) (id : ℕ) (thread : Thread F A) :
    (fun i => (Function.update m.threads id thread i).job) = Function.update m.jobs id thread.job := by
  funext i
  by_cases hi : i = id
  · subst hi
    simp
  · simp [hi, jobs]

theorem place_update (m : ThreadMaster F A) (id : ℕ) (thread : Thread F A) :
    (fun i => (Function.update m.threads id thread i).place) =
      Function.update (fun i => (m.threads i).place) id thread.place := by
  funext i
  by_cases hi : i = id
  · subst hi
    simp
  · simp [hi]

theorem refs_insert {refs : ℕ → Option ℕ} {jobs : ℕ → Option (Job F A)}
    (hrefs : ∀ ref id, refs ref = some id ↔ ∃ job, jobs id = some job ∧ job.ref = some ref)
    {id : ℕ} {job : Job F A} (hid : jobs id = none) (href : ∀ ref ∈ job.ref, refs ref = none)
    (ref i : ℕ) :
    (job.ref.elim refs fun ref => Function.update refs ref (some id)) ref = some i ↔
      ∃ job', Function.update jobs id (some job) i = some job' ∧ job'.ref = some ref := by
  have hold : (∃ job', Function.update jobs id (some job) i = some job' ∧ job'.ref = some ref) ↔
      refs ref = some i ∨ (i = id ∧ job.ref = some ref) := by
    rw [hrefs]
    by_cases hi : i = id
    · subst hi
      simp [hid]
    · simp [hi]
  rw [hold]
  cases hjob : job.ref with
  | none => simp
  | some ref' =>
    have hnull := href ref' hjob
    by_cases heq : ref = ref'
    · subst heq
      simp [hnull, eq_comm]
    · simp [heq, Ne.symm heq]

theorem refs_erase {refs : ℕ → Option ℕ} {jobs : ℕ → Option (Job F A)}
    (hrefs : ∀ ref id, refs ref = some id ↔ ∃ job, jobs id = some job ∧ job.ref = some ref)
    {id : ℕ} {job : Job F A} (hid : jobs id = some job) (ref i : ℕ) :
    (job.ref.elim refs fun ref => Function.update refs ref none) ref = some i ↔
      ∃ job', Function.update jobs id none i = some job' ∧ job'.ref = some ref := by
  have hold : (∃ job', Function.update jobs id none i = some job' ∧ job'.ref = some ref) ↔
      refs ref = some i ∧ i ≠ id := by
    rw [hrefs]
    by_cases hi : i = id
    · subst hi
      simp
    · simp [hi]
  have hself : refs ref = some id ↔ job.ref = some ref := by
    rw [hrefs]
    simp [hid]
  rw [hold]
  cases hjob : job.ref with
  | none =>
    simp only [Option.elim_none]
    refine ⟨fun h => ⟨h, ?_⟩, And.left⟩
    rintro rfl
    rw [hself, hjob] at h
    cases h
  | some ref' =>
    rw [hjob] at hself
    by_cases heq : ref = ref'
    · subst heq
      rw [hself.mpr rfl]
      simp [eq_comm]
    · simp only [Option.elim_some, Function.update_of_ne heq]
      refine ⟨fun h => ⟨h, ?_⟩, And.left⟩
      rintro rfl
      exact heq (Option.some.inj (hself.mp h)).symm

variable [DecidableEq F]

structure Consistent (m : ThreadMaster F A) : Prop where
  holds : m.toQueues.Holds m.sands fun id => (m.threads id).place
  handed : ∀ id, m.fresh ≤ id → m.threads id = .unused
  placed : ∀ id, (m.threads id).place = none ↔ m.jobs id = none
  unused : ∀ id ∈ m.unuse, id < m.fresh ∧ m.threads id = .unused
  nodup : m.unuse.Nodup
  few : m.unuse.length ≤ THREAD_UNUSED_DEPTH
  refs : ∀ ref id, m.refs ref = some id ↔ ∃ job, m.jobs id = some job ∧ job.ref = some ref
  alloc : m.alloc = m.unuse.length + tally Option.isSome m.fresh m.jobs
  active : ∀ f, m.totalActive f = tally (fun job => job.any fun job => job.func = f) m.fresh m.jobs

theorem consistent_create (fdLimit : ℕ) :
    (threadMasterCreate fdLimit : ThreadMaster F A).Consistent where
  holds :=
    { read := by simp [threadMasterCreate, Thread.unused, Thread.place]
      write := by simp [threadMasterCreate, Thread.unused, Thread.place]
      timer := by simp [threadMasterCreate, Thread.unused, Thread.place, create, items]
      event := by simp [threadMasterCreate, Thread.unused, Thread.place]
      ready := by simp [threadMasterCreate, Thread.unused, Thread.place]
      valid := valid_create _ _ _
      nodup_event := List.nodup_nil
      nodup_ready := List.nodup_nil
      outside := by simp [threadMasterCreate, Thread.unused, Thread.place]
      left := by simp [threadMasterCreate, Thread.unused, Thread.place] }
  handed _ _ := rfl
  placed _ := by simp [threadMasterCreate, Thread.unused, Thread.place, jobs]
  unused := by simp [threadMasterCreate]
  nodup := List.nodup_nil
  few := Nat.zero_le _
  refs := by simp [threadMasterCreate, Thread.unused, jobs]
  alloc := rfl
  active _ := rfl

theorem Consistent.congr {m m' : ThreadMaster F A} (h : m.Consistent)
    (hqueues : m'.toQueues = m.toQueues) (hthreads : m'.threads = m.threads)
    (hfresh : m'.fresh = m.fresh) (hunuse : m'.unuse = m.unuse) (halloc : m'.alloc = m.alloc)
    (hactive : m'.totalActive = m.totalActive) (hrefs : m'.refs = m.refs) : m'.Consistent := by
  obtain ⟨q, threads, fresh, unuse, alloc, active, _, _, refs, _⟩ := m
  obtain ⟨q', threads', fresh', unuse', alloc', active', _, _, refs', _⟩ := m'
  cases hqueues
  cases hthreads
  cases hfresh
  cases hunuse
  cases halloc
  cases hactive
  cases hrefs
  exact ⟨h.holds, h.handed, h.placed, h.unused, h.nodup, h.few, h.refs, h.alloc, h.active⟩

theorem Consistent.lt_fresh {m : ThreadMaster F A} (h : m.Consistent) {id : ℕ} {job : Job F A}
    (hjob : m.jobs id = some job) : id < m.fresh := by
  by_contra hle
  have := h.handed id (not_lt.mp hle)
  rw [jobs, this] at hjob
  cases hjob

/-! ### Scheduling -/

/-- What `thread_get` makes of a structure that it finds or allocates: the state before it is
filled in. -/
structure Allocated (m : ThreadMaster F A) (id : ℕ) (m' : ThreadMaster F A) : Prop where
  was : m.threads id = .unused
  lt : id < m'.fresh
  queues : m'.toQueues = m.toQueues
  threads : m'.threads = m.threads
  refs : m'.refs = m.refs
  totalActive : m'.totalActive = m.totalActive
  handed : ∀ i, m'.fresh ≤ i → m.threads i = .unused
  unused : ∀ i ∈ m'.unuse, i < m'.fresh ∧ i ≠ id ∧ m.threads i = .unused
  nodup : m'.unuse.Nodup
  few : m'.unuse.length ≤ THREAD_UNUSED_DEPTH
  alloc : m'.alloc = m'.unuse.length + 1 + tally Option.isSome m'.fresh m.jobs
  tally : ∀ p : Option (Job F A) → Bool, p none = false →
    tally p m'.fresh m.jobs = tally p m.fresh m.jobs

theorem Consistent.allocated {m : ThreadMaster F A} (h : m.Consistent) :
    Allocated m m.threadAlloc.1 m.threadAlloc.2 := by
  unfold threadAlloc
  cases hunuse : m.unuse with
  | nil =>
    have hnew : m.threads m.fresh = .unused := h.handed _ le_rfl
    have htally : ∀ p : Option (Job F A) → Bool, p none = false →
        tally p (m.fresh + 1) m.jobs = tally p m.fresh m.jobs := by
      intro p hp
      exact tally_succ (by rw [jobs, hnew]; exact hp)
    exact
    { was := hnew
      lt := Nat.lt_succ_self _
      queues := rfl
      threads := rfl
      refs := rfl
      totalActive := rfl
      handed := fun i hi => h.handed i (Nat.le_of_succ_le hi)
      unused := fun i hi => absurd hi List.not_mem_nil
      nodup := List.nodup_nil
      few := Nat.zero_le _
      alloc := by
        have := h.alloc
        rw [hunuse, List.length_nil] at this
        change m.alloc + 1 = 0 + 1 + tally Option.isSome (m.fresh + 1) m.jobs
        rw [htally _ rfl]
        omega
      tally := htally }
  | cons id unuse =>
    have hnodup := h.nodup
    rw [hunuse, List.nodup_cons] at hnodup
    have hall : ∀ i ∈ id :: unuse, i < m.fresh ∧ m.threads i = .unused := by
      rw [← hunuse]
      exact h.unused
    have hfew := h.few
    rw [hunuse, List.length_cons] at hfew
    obtain ⟨hid, hrest⟩ := List.forall_mem_cons.mp hall
    exact
    { was := hid.2
      lt := hid.1
      queues := rfl
      threads := rfl
      refs := rfl
      totalActive := rfl
      handed := h.handed
      unused := fun i hi => ⟨(hrest i hi).1, fun heq => hnodup.1 ((show i = id from heq) ▸ hi), (hrest i hi).2⟩
      nodup := hnodup.2
      few := Nat.le_of_succ_le hfew
      alloc := by
        have := h.alloc
        rw [hunuse, List.length_cons] at this
        exact this
      tally := fun _ _ => rfl }

/-- A task is scheduled: it gets a structure and is put into a container, and the pointer of the
caller is set to it. -/
def schedule (m : ThreadMaster F A) (type : ThreadType) (p : Place) (job : Job F A) :
    ThreadMaster F A :=
  let got := m.threadGet type job
  ({ got.2 with toQueues := got.2.toQueues.insert got.2.sands got.1 p }).setRef job.ref (some got.1)

theorem schedule_eq (m : ThreadMaster F A) (type : ThreadType) (p : Place) (job : Job F A) :
    (m.schedule type p job).threads =
        Function.update m.threadAlloc.2.threads m.threadAlloc.1 ⟨type, some job⟩ ∧
      (m.schedule type p job).toQueues =
        (m.threadAlloc.2.toQueues.setPosition m.threadAlloc.1 (-1)).insert
          (m.schedule type p job).sands m.threadAlloc.1 p := by
  constructor
  · simp only [schedule, setRef_threads]
    rfl
  · have hsands : (m.schedule type p job).sands = (m.threadGet type job).2.sands := by
      funext i
      simp only [ThreadMaster.sands, schedule, setRef_threads]
    rw [hsands, schedule, setRef_toQueues]
    rfl

theorem Consistent.schedule {m : ThreadMaster F A} (h : m.Consistent) {type : ThreadType}
    {p : Place} {job : Job F A} (hplace : (⟨type, some job⟩ : Thread F A).place = some p)
    (hfree : m.toQueues.Free p) (href : m.isScheduled job.ref = false) :
    (m.schedule type p job).Consistent := by
  have ha := h.allocated
  obtain ⟨hthreads, hqueues⟩ := m.schedule_eq type p job
  generalize hid : m.threadAlloc.1 = id at *
  generalize hm : m.threadAlloc.2 = a at *
  rw [ha.threads] at hthreads
  have hnone : m.jobs id = none := by rw [jobs, ha.was]; rfl
  have hjobs : (m.schedule type p job).jobs = Function.update m.jobs id (some job) := by
    rw [← jobs_update m id ⟨type, some job⟩, ← hthreads]
    rfl
  have hfresh : (m.schedule type p job).fresh = a.fresh := by
    rw [ThreadMaster.schedule, threadGet, hid, hm]
    cases job.ref <;> rfl
  have hunuse : (m.schedule type p job).unuse = a.unuse := by
    rw [ThreadMaster.schedule, threadGet, hid, hm]
    cases job.ref <;> rfl
  have hrefs : (m.schedule type p job).refs =
      job.ref.elim m.refs fun ref => Function.update m.refs ref (some id) := by
    rw [ThreadMaster.schedule, threadGet, hid, hm, setRef_refs, ← ha.refs]
    rfl
  have halloc : (m.schedule type p job).alloc = a.alloc := by
    rw [ThreadMaster.schedule, threadGet, hid, hm]
    cases job.ref <;> rfl
  have hactive : (m.schedule type p job).totalActive =
      Function.update m.totalActive job.func (m.totalActive job.func + 1) := by
    rw [ThreadMaster.schedule, threadGet, hid, hm, ← ha.totalActive]
    cases job.ref <;> rfl
  have htally := fun q => tally_update q ha.lt m.jobs (some job)
  refine ⟨?_, ?_, ?_, ?_, ?_, ?_, ?_, ?_, ?_⟩
  · rw [hqueues, hthreads, place_update, hplace]
    have hwas : (m.threads id).place = none := by rw [ha.was]; rfl
    rw [ha.queues]
    refine ((h.holds.setPosition hwas (-1)).congr_sands fun i hi => ?_).insert hwas ?_ ?_ ?_
    · have hne : i ≠ id := by
        rintro rfl
        cases hwas.symm.trans hi
      rw [ThreadMaster.sands, hthreads, Function.update_of_ne hne]
      rfl
    · cases p <;> exact hfree
    · exact fun _ _ => Function.update_self _ _ _
    · exact fun _ => .inl (Function.update_self _ _ _)
  · intro i hi
    rw [hfresh] at hi
    rw [hthreads, Function.update_of_ne (by have := ha.lt; omega)]
    exact ha.handed i hi
  · intro i
    rw [hjobs, hthreads]
    by_cases hi : i = id
    · subst hi
      simp [hplace]
    · rw [Function.update_of_ne hi, Function.update_of_ne hi]
      exact h.placed i
  · rw [hunuse, hfresh, hthreads]
    intro i hi
    obtain ⟨hlt, hne, hwas⟩ := ha.unused i hi
    exact ⟨hlt, by rw [Function.update_of_ne hne]; exact hwas⟩
  · rw [hunuse]
    exact ha.nodup
  · rw [hunuse]
    exact ha.few
  · intro ref i
    rw [hjobs, hrefs]
    refine refs_insert h.refs hnone ?_ ref i
    intro ref' hmem
    rw [Option.mem_def.mp hmem] at href
    simpa [isScheduled] using href
  · have := htally Option.isSome
    rw [hnone] at this
    simp only [Option.isSome_none, Bool.toNat_false, Option.isSome_some, Bool.toNat_true] at this
    rw [halloc, hunuse, hfresh, hjobs, ha.alloc]
    omega
  · intro f
    have := htally fun job => job.any fun job => job.func = f
    rw [hnone, ha.tally _ rfl, ← h.active] at this
    rw [hactive, hfresh, hjobs]
    by_cases hf : job.func = f
    · subst hf
      simp at this
      simp [this]
    · simp [hf] at this
      rw [Function.update_of_ne (Ne.symm hf)]
      exact this.symm

/-! ### Becoming ready -/

/-- A scheduled task moves to the list of what is ready. -/
def makeReady (m : ThreadMaster F A) (id : ℕ) (p : Place) : ThreadMaster F A :=
  { m.setReady id with
    toQueues := (m.toQueues.erase m.sands id p).insert m.sands id .ready }

omit [DecidableEq F] in
theorem makeReady_jobs (m : ThreadMaster F A) (id : ℕ) (p : Place) :
    (m.makeReady id p).jobs = m.jobs :=
  (jobs_update m id { m.threads id with type := .ready }).trans (Function.update_eq_self id m.jobs)

omit [DecidableEq F] in
theorem makeReady_sands (m : ThreadMaster F A) (id : ℕ) (p : Place) :
    (m.makeReady id p).sands = m.sands := by
  funext i
  have := congrFun (m.makeReady_jobs id p) i
  simp only [ThreadMaster.sands, Thread.sands, jobs] at this ⊢
  rw [this]

theorem Consistent.makeReady {m : ThreadMaster F A} (h : m.Consistent) {id : ℕ} {p : Place}
    (hp : (m.threads id).place = some p) (hfirst : p = .timer → m.timer.position id = 0) :
    (m.makeReady id p).Consistent := by
  have hjobs := m.makeReady_jobs id p
  have hthreads : (m.makeReady id p).threads =
      Function.update m.threads id { m.threads id with type := .ready } := rfl
  have hlt : id < m.fresh := by
    cases hjob : m.jobs id with
    | none => cases ((h.placed id).mpr hjob).symm.trans hp
    | some job => exact h.lt_fresh hjob
  refine { h with
    holds := ?_, handed := ?_, placed := ?_, unused := ?_, refs := ?_, alloc := ?_, active := ?_ }
  · rw [makeReady_sands, hthreads, place_update]
    have hnone : Function.update (fun id => (m.threads id).place) id none id = none :=
      Function.update_self _ _ _
    have := (h.holds.erase hp).insert (p := .ready) hnone trivial
      (fun _ hne => absurd rfl hne) fun _ => h.holds.position_erase hp hfirst
    rwa [Function.update_idem] at this
  · intro i hi
    rw [hthreads, Function.update_of_ne (show i ≠ id by have : m.fresh ≤ i := hi; omega)]
    exact h.handed i hi
  · intro i
    rw [hjobs, hthreads]
    by_cases hi : i = id
    · subst hi
      rw [Function.update_self, ← h.placed, hp]
      simp [Thread.place]
    · rw [Function.update_of_ne hi]
      exact h.placed i
  · intro i hi
    obtain ⟨hi', hwas⟩ := h.unused i hi
    refine ⟨hi', ?_⟩
    rw [hthreads, Function.update_of_ne]
    · exact hwas
    · rintro rfl
      rw [hwas] at hp
      cases hp
  · rw [hjobs]
    exact h.refs
  · rw [hjobs]
    exact h.alloc
  · rw [hjobs]
    exact h.active

/-! ### Leaving -/

/-- A task leaves the scheduler: it is taken out of its container and its structure is given
back. -/
def leave (m : ThreadMaster F A) (id : ℕ) (p : Place) : ThreadMaster F A :=
  ({ m with toQueues := m.toQueues.erase m.sands id p }).release id

theorem release_threads (m : ThreadMaster F A) (id : ℕ) :
    (m.release id).threads = Function.update m.threads id .unused := by
  rw [release, threadAddUnuse]
  split <;> simp [wipe, setIndex]

theorem release_toQueues (m : ThreadMaster F A) (id : ℕ) :
    (m.release id).toQueues = m.toQueues.setPosition id 0 := by
  rw [release, threadAddUnuse]
  split <;> simp [wipe, setIndex]

theorem threadRun_eq_release (m : ThreadMaster F A) (id : ℕ) : m.threadRun id = m.release id := by
  have hwipe : ∀ ref : Option ℕ, (m.setRef ref none).wipe id = (m.wipe id).setRef ref none := by
    intro ref
    cases ref <;> rfl
  have hunuse : ∀ ref : Option ℕ, (m.setRef ref none).unuse = m.unuse := by
    intro ref
    cases ref <;> rfl
  rw [threadRun, release, threadAddUnuse, threadAddUnuse, hunuse, hwipe]
  cases (m.threads id).job.bind Job.ref with
  | none => rfl
  | some ref =>
    by_cases hroom : m.unuse.length < THREAD_UNUSED_DEPTH
    · rw [if_pos hroom, if_pos hroom]
      rfl
    · rw [if_neg hroom, if_neg hroom]
      rfl

theorem leave_jobs (m : ThreadMaster F A) (id : ℕ) (p : Place) :
    (m.leave id p).jobs = Function.update m.jobs id none := by
  funext i
  rw [jobs, leave, release_threads]
  exact congrFun (jobs_update m id .unused) i

theorem Consistent.leave {m : ThreadMaster F A} (h : m.Consistent) {id : ℕ} {p : Place}
    (hp : (m.threads id).place = some p) : (m.leave id p).Consistent := by
  have hjobs := m.leave_jobs id p
  have hthreads : (m.leave id p).threads = Function.update m.threads id .unused := by
    rw [ThreadMaster.leave, release_threads]
  have hqueues : (m.leave id p).toQueues = (m.toQueues.erase m.sands id p).setPosition id 0 := by
    rw [ThreadMaster.leave, release_toQueues]
  obtain ⟨job, hjob⟩ : ∃ job, m.jobs id = some job := by
    cases hjob : m.jobs id with
    | none => cases ((h.placed id).mpr hjob).symm.trans hp
    | some job => exact ⟨job, rfl⟩
  have hlt := h.lt_fresh hjob
  have hjob' : (m.threads id).job = some job := hjob
  have hrefs : (m.leave id p).refs =
      job.ref.elim m.refs fun ref => Function.update m.refs ref none := by
    simp only [ThreadMaster.leave, release, hjob', Option.bind_some, threadAddUnuse]
    split <;> exact setRef_refs _ _ _
  have hfresh : (m.leave id p).fresh = m.fresh := by
    simp only [ThreadMaster.leave, release, threadAddUnuse]
    split <;> cases (m.threads id).job.bind Job.ref <;> rfl
  have hactive : (m.leave id p).totalActive =
      Function.update m.totalActive job.func (m.totalActive job.func - 1) := by
    simp only [ThreadMaster.leave, release, threadAddUnuse, hjob', Option.bind_some]
    cases job.ref <;> split <;> simp [wipe, setIndex, setRef, hjob']
  have hunuse : ((m.leave id p).unuse = m.unuse ++ [id] ∧ (m.leave id p).alloc = m.alloc ∧
        m.unuse.length < THREAD_UNUSED_DEPTH) ∨
      ((m.leave id p).unuse = m.unuse ∧ (m.leave id p).alloc = m.alloc - 1) := by
    simp only [ThreadMaster.leave, release, threadAddUnuse, hjob', Option.bind_some]
    cases job.ref with
    | none =>
      split
      · exact .inl ⟨rfl, rfl, ‹_›⟩
      · exact .inr ⟨rfl, rfl⟩
    | some ref =>
      split
      · exact .inl ⟨rfl, rfl, ‹_›⟩
      · exact .inr ⟨rfl, rfl⟩
  have hout : id ∉ m.unuse := by
    intro hin
    rw [(h.unused id hin).2] at hp
    cases hp
  have htally := fun q => tally_update q hlt m.jobs none
  refine ⟨?_, ?_, ?_, ?_, ?_, ?_, ?_, ?_, ?_⟩
  · rw [hqueues, hthreads, place_update]
    have hnone : Function.update (fun id => (m.threads id).place) id none id = none :=
      Function.update_self _ _ _
    refine ((h.holds.erase hp).setPosition hnone 0).congr_sands fun i hi => ?_
    have hne : i ≠ id := by
      rintro rfl
      simp at hi
    rw [ThreadMaster.sands, hthreads, Function.update_of_ne hne]
    rfl
  · intro i hi
    rw [hfresh] at hi
    rw [hthreads, Function.update_of_ne (by omega)]
    exact h.handed i hi
  · intro i
    rw [hjobs, hthreads]
    by_cases hi : i = id
    · subst hi
      simp [Thread.unused, Thread.place]
    · rw [Function.update_of_ne hi, Function.update_of_ne hi]
      exact h.placed i
  · have hold : ∀ i ∈ m.unuse, i < m.fresh ∧ Function.update m.threads id .unused i = .unused := by
      intro i hi
      rw [Function.update_of_ne fun heq : i = id => hout (heq ▸ hi)]
      exact h.unused i hi
    rw [hfresh, hthreads]
    rcases hunuse with ⟨hunuse, -⟩ | ⟨hunuse, -⟩
    · rw [hunuse]
      intro i hi
      rcases List.mem_append.mp hi with hi | hi
      · exact hold i hi
      · obtain rfl := List.mem_singleton.mp hi
        exact ⟨hlt, Function.update_self _ _ _⟩
    · rw [hunuse]
      exact hold
  · rcases hunuse with ⟨hunuse, -⟩ | ⟨hunuse, -⟩
    · rw [hunuse, List.nodup_append_comm, List.singleton_append, List.nodup_cons]
      exact ⟨hout, h.nodup⟩
    · rw [hunuse]
      exact h.nodup
  · rcases hunuse with ⟨hunuse, -, hlen⟩ | ⟨hunuse, -⟩
    · rw [hunuse, List.length_append, List.length_singleton]
      exact hlen
    · rw [hunuse]
      exact h.few
  · intro ref i
    rw [hjobs, hrefs]
    exact refs_erase h.refs hjob ref i
  · have := htally Option.isSome
    have halloc := h.alloc
    rw [hjob] at this
    simp only [Option.isSome_none, Bool.toNat_false, Option.isSome_some, Bool.toNat_true] at this
    rw [hfresh, hjobs]
    rcases hunuse with ⟨hunuse, halloc', -⟩ | ⟨hunuse, halloc'⟩
    · rw [hunuse, halloc', List.length_append, List.length_singleton]
      omega
    · rw [hunuse, halloc']
      omega
  · intro f
    have := htally fun job => job.any fun job => job.func = f
    rw [hjob, ← h.active] at this
    rw [hactive, hfresh, hjobs]
    by_cases hf : job.func = f
    · subst hf
      simp at this
      rw [Function.update_self]
      omega
    · simp [hf] at this
      rw [Function.update_of_ne (Ne.symm hf)]
      exact this.symm

end ThreadMaster
end Routerd.Threads
