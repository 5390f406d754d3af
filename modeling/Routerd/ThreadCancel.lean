import Routerd.ThreadSteps

/-!
# Cancelling tasks

`do_thread_cancel` serves a batch of requests with locals that say where a task lies and that are
not cleared from one request to the next: a queue that was set is looked at first, then a list, then
a table. So a batch is served as if the requests came one by one if no request for a timer comes
before one for another task, and none for a listed task before one for a descriptor. In the other
order an assertion fails, or the table keeps the address of a structure that was given back.
-/

namespace Routerd.Threads
open HeapOrder PQueue

namespace ThreadMaster
variable {F A : Type} [DecidableEq F]

/-! ### One by one -/

/-- Tasks have left the scheduler. -/
structure Cancelled (m m' : ThreadMaster F A) (ids : List ℕ) : Prop where
  consistent : m'.Consistent
  jobs : ∀ id, m'.jobs id = if id ∈ ids then none else m.jobs id
  threads : ∀ id, m'.threads id = m.threads id ∨ m'.threads id = .unused
  refs : ∀ ref, m'.refs ref = m.refs ref ∨ m'.refs ref = none
  cancelReq : m'.cancelReq = m.cancelReq

theorem Cancelled.trans {m m' m'' : ThreadMaster F A} {ids ids' : List ℕ}
    (h : Cancelled m m' ids) (h' : Cancelled m' m'' ids') : Cancelled m m'' (ids ++ ids') where
  consistent := h'.consistent
  jobs := by
    intro id
    rw [h'.jobs, h.jobs]
    by_cases h1 : id ∈ ids <;> by_cases h2 : id ∈ ids' <;> simp [h1, h2]
  threads := by
    intro id
    rcases h'.threads id with heq | heq
    · rw [heq]
      exact h.threads id
    · exact .inr heq
  refs := by
    intro ref
    rcases h'.refs ref with heq | heq
    · rw [heq]
      exact h.refs ref
    · exact .inr heq
  cancelReq := h'.cancelReq.trans h.cancelReq

theorem cancelled_handler {m : ThreadMaster F A} (h : m.Consistent) (handler : FdHandler) :
    Cancelled m { m with handler := handler } [] where
  consistent := h.congr rfl rfl rfl rfl rfl rfl rfl
  jobs _ := rfl
  threads _ := .inl rfl
  refs _ := .inl rfl
  cancelReq := rfl

theorem release_refs (m : ThreadMaster F A) (id : ℕ) :
    (m.release id).refs = (m.setRef ((m.threads id).job.bind Job.ref) none).refs := by
  rw [release, threadAddUnuse]
  split <;> rfl

theorem release_cancelReq (m : ThreadMaster F A) (id : ℕ) :
    (m.release id).cancelReq = m.cancelReq := by
  rw [release, threadAddUnuse]
  split <;> cases (m.threads id).job.bind Job.ref <;> rfl

theorem Consistent.cancelled_leave {m : ThreadMaster F A} (h : m.Consistent) {id : ℕ} {p : Place}
    (hp : (m.threads id).place = some p) : Cancelled m (m.leave id p) [id] where
  consistent := h.leave hp
  jobs := by
    intro i
    rw [leave_jobs]
    by_cases hi : i = id <;> simp [hi]
  threads := by
    intro i
    rw [ThreadMaster.leave, release_threads]
    by_cases hi : i = id
    · subst hi
      exact .inr (Function.update_self _ _ _)
    · exact .inl (Function.update_of_ne hi _ _)
  refs := by
    intro ref
    rw [ThreadMaster.leave, release_refs, setRef_refs]
    cases (m.threads id).job.bind Job.ref with
    | none => exact .inl rfl
    | some ref' =>
      by_cases href : ref = ref'
      · subst href
        exact .inr (Function.update_self _ _ _)
      · exact .inl (Function.update_of_ne href _ _)
  cancelReq := release_cancelReq _ _

/-- The cancellation of one task: the events of its descriptor are given up, and it leaves. -/
def cancelOne (m : ThreadMaster F A) (id : ℕ) : ThreadMaster F A :=
  match (m.threads id).place with
  | some p => (m.cancelRw id).leave id p
  | none => m

omit [DecidableEq F] in
theorem cancelRw_eq (m : ThreadMaster F A) (id : ℕ) :
    ∃ handler, m.cancelRw id = { m with handler := handler } := by
  unfold cancelRw
  split
  · exact ⟨_, rfl⟩
  · exact ⟨_, rfl⟩
  · exact ⟨m.handler, rfl⟩

theorem Consistent.cancelOne {m : ThreadMaster F A} (h : m.Consistent) (id : ℕ) :
    Cancelled m (m.cancelOne id) [id] := by
  unfold ThreadMaster.cancelOne
  cases hp : (m.threads id).place with
  | none =>
    refine { cancelled_handler h m.handler with jobs := fun i => ?_ }
    by_cases hi : i = id
    · subst hi
      simp [(h.placed i).mp hp]
    · simp [hi]
  | some p =>
    obtain ⟨handler, heq⟩ := m.cancelRw_eq id
    have hfirst := cancelled_handler h handler
    rw [heq]
    exact hfirst.trans (hfirst.consistent.cancelled_leave hp)

theorem leave_listed (m : ThreadMaster F A) (id : ℕ) (name : ListName) :
    (m.threadListDel id name).release id = m.leave id name.place ∧
      (m.leave id name.place).list name = (m.list name).erase id ∧
      ∀ other, other ≠ name → (m.leave id name.place).list other = m.list other := by
  have hlist : ∀ m' : ThreadMaster F A, ∀ other, (m'.release id).list other = m'.list other := by
    intro m' other
    cases other <;> simp [list, release_toQueues, Queues.setPosition]
  cases name with
  | event =>
    refine ⟨rfl, hlist _ _, fun other hne => ?_⟩
    cases other with
    | event => exact absurd rfl hne
    | ready => exact hlist _ _
  | ready =>
    refine ⟨rfl, hlist _ _, fun other hne => ?_⟩
    cases other with
    | event => exact hlist _ _
    | ready => exact absurd rfl hne

theorem Consistent.mem_list {m : ThreadMaster F A} (h : m.Consistent) (name : ListName) (id : ℕ) :
    id ∈ m.list name ↔ (m.threads id).place = some name.place := by
  cases name with
  | event => exact h.holds.event id
  | ready => exact h.holds.ready id

theorem Consistent.nodup_list {m : ThreadMaster F A} (h : m.Consistent) (name : ListName) :
    (m.list name).Nodup := by
  cases name with
  | event => exact h.holds.nodup_event
  | ready => exact h.holds.nodup_ready

/-! ### The locals -/

/-- Tables are looked at last, lists before them, and the queue of timers first. -/
def typeRank : ThreadType → Option ℕ
  | .read | .write => some 0
  | .event | .ready => some 1
  | .timer => some 2
  | .unused | .execute => none

def reqRank (m : ThreadMaster F A) (req : CancelReq A) : Option ℕ :=
  (m.target req).bind fun id => typeRank (m.threads id).type

def CancelFrame.rank (frame : CancelFrame) : ℕ :=
  if frame.queue then 2 else if frame.list.isSome then 1 else 0

/-- No request comes before one for a task that lies in a container looked at later. -/
def Orderly (m : ThreadMaster F A) (reqs : List (CancelReq A)) : Prop :=
  reqs.Pairwise fun a b => ∀ i ∈ m.reqRank a, ∀ j ∈ m.reqRank b, i ≤ j

theorem Cancelled.reqRank {m m' : ThreadMaster F A} {ids : List ℕ} (h : Cancelled m m' ids)
    {req : CancelReq A} {k : ℕ} (hk : k ∈ m'.reqRank req) : k ∈ m.reqRank req := by
  obtain ⟨id, hid, hrank⟩ := Option.bind_eq_some_iff.mp hk
  have htarget : m.target req = some id := by
    cases req with
    | thread id' => exact hid
    | eventobj obj => cases hid
    | threadref ref =>
      rcases h.refs ref with heq | heq
      · exact heq.symm.trans hid
      · cases heq.symm.trans hid
  refine Option.bind_eq_some_iff.mpr ⟨id, htarget, ?_⟩
  rcases h.threads id with heq | heq
  · rwa [heq] at hrank
  · rw [heq] at hrank
    cases hrank

omit [DecidableEq F] in
theorem typeRank_of_place {thread : Thread F A} :
    (thread.place = none ↔ typeRank thread.type = none) := by
  unfold Thread.place
  cases thread.type <;> simp [typeRank]

theorem Consistent.unlink_eq {m : ThreadMaster F A} (h : m.Consistent) {id : ℕ} {p : Place}
    (hp : (m.threads id).place = some p) {frame frame' : CancelFrame}
    (hset : frame.set (m.threads id).type = some frame') {k : ℕ}
    (hk : typeRank (m.threads id).type = some k) (hrank : frame.rank ≤ k) :
    m.unlink frame' id = some { m with toQueues := m.toQueues.erase m.sands id p } ∧
      frame'.rank = k := by
  obtain ⟨queue, list, array⟩ := frame
  have hplace := hp
  unfold Thread.place at hplace
  cases htype : (m.threads id).type <;> rw [htype] at hset hk hplace <;> cases hset <;> cases hk <;>
    cases hplace
  case read | write =>
    cases queue <;> cases list <;> simp [CancelFrame.rank] at hrank
    simp [unlink, CancelFrame.rank, setTable, Queues.erase]
  case event | ready =>
    cases queue <;> simp [CancelFrame.rank] at hrank
    simp [unlink, CancelFrame.rank, threadListDel, Queues.erase]
  case timer =>
    obtain ⟨i, hi, hat, hposition⟩ := h.holds.position_timer hp
    simp [unlink, CancelFrame.rank, Queues.erase, hposition, hat]

omit [DecidableEq F] in
theorem set_eq_none {frame : CancelFrame} {thread : Thread F A} :
    frame.set thread.type = none ↔ thread.place = none := by
  rw [typeRank_of_place]
  cases thread.type <;> simp [CancelFrame.set, typeRank]

/-- A task is cancelled as it should be if the locals are not past its container. -/
theorem Consistent.cancelTask_eq {m : ThreadMaster F A} (h : m.Consistent) {frame : CancelFrame}
    {id : ℕ} (hrank : ∀ k ∈ typeRank (m.threads id).type, frame.rank ≤ k) :
    ∃ frame', m.cancelTask frame id = some (m.cancelOne id, frame') ∧
      ((m.threads id).place = none ∧ frame' = frame ∨
        frame'.rank ∈ typeRank (m.threads id).type) := by
  unfold cancelTask ThreadMaster.cancelOne
  cases hp : (m.threads id).place with
  | none =>
    rw [set_eq_none.mpr hp]
    exact ⟨frame, rfl, .inl ⟨rfl, rfl⟩⟩
  | some p =>
    cases hset : frame.set (m.threads id).type with
    | none => cases (set_eq_none.mp hset).symm.trans hp
    | some frame' =>
      cases hk : typeRank (m.threads id).type with
      | none => cases (typeRank_of_place.mpr hk).symm.trans hp
      | some k =>
        obtain ⟨handler, heq⟩ := m.cancelRw_eq id
        have hfirst := (cancelled_handler h handler).consistent
        have hfits : frame.rank ≤ k := hrank k hk
        obtain ⟨hunlink, hrank'⟩ := hfirst.unlink_eq hp hset hk hfits
        refine ⟨frame', ?_, .inr (by rw [hrank']; rfl)⟩
        rw [heq]
        simp only [hunlink, Option.bind_eq_bind, Option.bind_some]
        rfl

theorem Consistent.unlink_queue_eq_none {m : ThreadMaster F A} (h : m.Consistent) {id : ℕ}
    {p : Place} (hp : (m.threads id).place = some p) (htimer : p ≠ .timer) {frame : CancelFrame}
    (hqueue : frame.queue = true) (hfirst : m.timer.size = 0 → m.timer.array 0 ≠ id) :
    m.unlink frame id = none := by
  rw [unlink, if_pos hqueue, if_neg]
  rintro ⟨hnonneg, hat⟩
  by_cases hready : p = .ready
  · subst hready
    rcases h.holds.left id hp with hposition | hposition
    · omega
    · rw [hposition, Int.toNat_zero] at hat
      rcases Nat.eq_zero_or_pos m.timer.size with hsize | hsize
      · exact hfirst hsize hat
      · have := (h.holds.timer id).mp (mem_items.mpr ⟨0, hsize, hat⟩)
        cases this.symm.trans hp
  · have := h.holds.outside id p hp htimer hready
    omega

theorem Consistent.array_cancelOne {m : ThreadMaster F A} (h : m.Consistent) {id : ℕ}
    (hp : (m.threads id).place = some .timer) (hsize : (m.cancelOne id).timer.size = 0) :
    (m.cancelOne id).timer.array 0 = id := by
  obtain ⟨handler, heq⟩ := m.cancelRw_eq id
  obtain ⟨i, hi, hat, hposition⟩ := h.holds.position_timer hp
  have htimer : (m.cancelOne id).timer.size = (removeAt (timerCmp m.sands) i m.timer).size ∧
      (m.cancelOne id).timer.array = (removeAt (timerCmp m.sands) i m.timer).array := by
    simp only [ThreadMaster.cancelOne, hp, heq, ThreadMaster.leave, release_toQueues,
      Queues.setPosition, Queues.erase, hposition, Int.toNat_natCast]
    exact ⟨rfl, rfl⟩
  rw [htimer.1] at hsize
  rw [htimer.2]
  obtain ⟨-, hperm, -, -⟩ := removeAt_spec (compares_timerCmp m.sands) h.holds.valid hi
  have hlen := hperm.length_eq
  simp only [items, List.length_cons, List.length_map, List.length_range] at hlen
  have hone : i = 0 ∧ m.timer.size = 1 := by
    omega
  obtain ⟨rfl, hone⟩ := hone
  rw [removeAt_last (compares_timerCmp m.sands) h.holds.valid hone.symm]
  simp [place, hat]

theorem Cancelled.target_eq {m m' : ThreadMaster F A} {ids : List ℕ} (hc : Cancelled m m' ids)
    (h : m.Consistent) {req : CancelReq A} {id : ℕ} (hid : m.target req = some id) (hnot : id ∉ ids) :
    m'.target req = some id := by
  cases req with
  | eventobj obj => cases hid
  | thread id' => exact hid
  | threadref ref =>
    obtain ⟨job, hjob, href⟩ := (h.refs ref id).mp hid
    refine (hc.consistent.refs ref id).mpr ⟨job, ?_, href⟩
    rw [hc.jobs, if_neg hnot, hjob]

omit [DecidableEq F] in
theorem type_eq_timer {thread : Thread F A} : thread.type = .timer ↔ thread.place = some .timer := by
  unfold Thread.place
  cases thread.type <;> simp

theorem CancelFrame.queue_of_set {frame frame' : CancelFrame} {type : ThreadType}
    (hset : frame.set type = some frame') (hqueue : frame.queue = true) : frame'.queue = true := by
  cases type <;> cases hset <;> first | exact hqueue | rfl

/-- The assertions about the queue of timers fail. -/
theorem Consistent.cancelTask_queue_eq_none {m : ThreadMaster F A} (h : m.Consistent) {id : ℕ}
    {p : Place} (hp : (m.threads id).place = some p) (htimer : p ≠ .timer) {frame : CancelFrame}
    (hqueue : frame.queue = true) (hfirst : m.timer.size = 0 → m.timer.array 0 ≠ id) :
    m.cancelTask frame id = none := by
  obtain ⟨handler, hrw⟩ := m.cancelRw_eq id
  have hconsistent := (cancelled_handler h handler).consistent
  rw [cancelTask]
  cases hset : frame.set (m.threads id).type with
  | none => cases (set_eq_none.mp hset).symm.trans hp
  | some frame' =>
    rw [hrw]
    simp only [hconsistent.unlink_queue_eq_none hp htimer (CancelFrame.queue_of_set hset hqueue)
      hfirst, Option.bind_eq_bind, Option.bind_none]

/-- The task is looked for in a list, and its table is left as it is. -/
theorem Consistent.cancelTask_list {m : ThreadMaster F A} (h : m.Consistent) {id : ℕ} {dir : Dir}
    (hdir : (m.threads id).type = dir.type) {frame : CancelFrame} (hqueue : frame.queue ≠ true)
    {name : ListName} (hlist : frame.list = some name) {m' : ThreadMaster F A}
    {frame' : CancelFrame} (hstep : m.cancelTask frame id = some (m', frame')) :
    m'.table dir (m.threads id).fd = some id ∧ m'.threads id = .unused := by
  obtain ⟨handler, hrw⟩ := m.cancelRw_eq id
  have htable : m.table dir (m.threads id).fd = some id := by
    rw [h.table_iff, Thread.place, hdir]
    cases dir <;> rfl
  rw [cancelTask] at hstep
  cases hset : frame.set (m.threads id).type with
  | none =>
    rw [hdir] at hset
    cases dir <;> cases hset
  | some frame'' =>
    have hunlink : (m.cancelRw id).unlink frame'' id =
        some ((m.cancelRw id).threadListDel id name) := by
      rw [hdir] at hset
      cases dir <;> cases hset <;> simp [unlink, hqueue, hlist]
    rw [hset] at hstep
    simp only [hunlink, Option.bind_eq_bind, Option.bind_some] at hstep
    obtain ⟨rfl, -⟩ := Prod.mk.inj (Option.some.inj hstep)
    constructor
    · rw [← htable, hrw]
      cases dir <;> cases name <;>
        simp [Queues.table, release_toQueues, Queues.setPosition, threadListDel]
    · rw [release_threads, Function.update_self]

/-- The locals are past the container of the second task: it does not leave as it should. -/
theorem Consistent.cancelTask_late {m : ThreadMaster F A} (h : m.Consistent) {id j : ℕ}
    (hj : j ∈ typeRank (m.threads id).type) {frame : CancelFrame} (hlate : j < frame.rank)
    (hfirst : frame.queue = true → m.timer.size = 0 → m.timer.array 0 ≠ id) {m' : ThreadMaster F A}
    {frame' : CancelFrame} (hstep : m.cancelTask frame id = some (m', frame')) :
    ∃ dir fd, m'.table dir fd = some id ∧ m'.threads id = .unused := by
  by_cases hqueue : frame.queue = true
  · obtain ⟨p, hp⟩ : ∃ p, (m.threads id).place = some p := by
      rw [← Option.ne_none_iff_exists', Ne, typeRank_of_place, hj]
      simp
    have htimer : p ≠ .timer := by
      rintro rfl
      rw [type_eq_timer.mpr hp] at hj
      cases hj
      simp [CancelFrame.rank, hqueue] at hlate
    cases hstep.symm.trans (h.cancelTask_queue_eq_none hp htimer hqueue (hfirst hqueue))
  · simp only [CancelFrame.rank, hqueue, Bool.false_eq_true, if_false] at hlate
    cases hlist : frame.list with
    | none => simp [hlist] at hlate
    | some name =>
      obtain rfl : j = 0 := by simpa [hlist] using hlate
      obtain ⟨dir, hdir⟩ : ∃ dir : Dir, (m.threads id).type = dir.type := by
        cases htype : (m.threads id).type <;> rw [htype] at hj <;> cases hj
        · exact ⟨.read, rfl⟩
        · exact ⟨.write, rfl⟩
      exact ⟨dir, _, h.cancelTask_list hdir hqueue hlist hstep⟩

/-! ### Batches -/

section Events
variable [DecidableEq A]

def ofObject (m : ThreadMaster F A) (obj : A) (ids : List ℕ) : List ℕ :=
  ids.filter fun id => (m.jobs id).bind Job.arg = some obj

omit [DecidableEq F] in
theorem ofObject_congr {m m' : ThreadMaster F A} {obj : A} {ids : List ℕ}
    (h : ∀ id ∈ ids, m'.jobs id = m.jobs id) : m'.ofObject obj ids = m.ofObject obj ids :=
  List.filter_congr fun id hid => by rw [h id hid]

theorem cancelListed_spec {m : ThreadMaster F A} (h : m.Consistent) (name : ListName) (obj : A)
    {ids : List ℕ} (hids : ∀ id ∈ ids, id ∈ m.list name) (hnodup : ids.Nodup) :
    Cancelled m (cancelListed name obj ids m) (m.ofObject obj ids) ∧
      ∀ other, other ≠ name → (cancelListed name obj ids m).list other = m.list other := by
  induction ids generalizing m with
  | nil => exact ⟨cancelled_handler h m.handler, fun _ _ => rfl⟩
  | cons t ts ih =>
    obtain ⟨ht, hts⟩ := List.forall_mem_cons.mp hids
    obtain ⟨hnew, hnodup⟩ := List.nodup_cons.mp hnodup
    obtain ⟨heq, hlist, hothers⟩ := m.leave_listed t name
    have hsplit : m.ofObject obj (t :: ts) =
        (if (m.threads t).job.bind Job.arg = some obj then [t] else []) ++ m.ofObject obj ts := by
      by_cases harg : (m.threads t).job.bind Job.arg = some obj <;> simp [ofObject, jobs, harg]
    rw [cancelListed, hsplit]
    split
    · have hleave := h.cancelled_leave ((h.mem_list name t).mp ht)
      have hother : ∀ id ∈ ts, id ≠ t := fun id hid heq => hnew (heq ▸ hid)
      have hkeep : ∀ id ∈ ts, (m.leave t name.place).jobs id = m.jobs id := by
        intro id hid
        rw [hleave.jobs, if_neg (by simpa using hother id hid)]
      have hin : ∀ id ∈ ts, id ∈ (m.leave t name.place).list name := by
        intro id hid
        rw [hlist, (h.nodup_list name).mem_erase_iff]
        exact ⟨hother id hid, hts id hid⟩
      obtain ⟨hrest, hlists⟩ := ih hleave.consistent hin hnodup
      rw [ofObject_congr hkeep] at hrest
      rw [heq]
      exact ⟨hleave.trans hrest, fun other hne => (hlists other hne).trans (hothers other hne)⟩
    · exact ih h hts hnodup

theorem Consistent.cancelEventobj {m : ThreadMaster F A} (h : m.Consistent) (obj : A) :
    Cancelled m (m.cancelEventobj obj) (m.ofObject obj m.event ++ m.ofObject obj m.ready) := by
  obtain ⟨hevents, hothers⟩ := cancelListed_spec h .event obj
    (show ∀ id ∈ m.event, id ∈ m.event from fun _ => id) h.holds.nodup_event
  have hready : (cancelListed .event obj m.event m).ready = m.ready := hothers .ready (by simp)
  obtain ⟨hrest, -⟩ := cancelListed_spec hevents.consistent .ready obj
    (show ∀ id ∈ (cancelListed .event obj m.event m).ready, id ∈ _ from fun _ => id)
    hevents.consistent.holds.nodup_ready
  have hkeep : ∀ id ∈ m.ready, (cancelListed .event obj m.event m).jobs id = m.jobs id := by
    intro id hid
    rw [hevents.jobs, if_neg]
    intro hin
    have := (h.holds.event id).mp (List.mem_of_mem_filter hin)
    cases this.symm.trans ((h.holds.ready id).mp hid)
  rw [hready, ofObject_congr hkeep] at hrest
  simp only [ThreadMaster.cancelEventobj, hready]
  exact hevents.trans hrest

/-- The service of one request. -/
def serve (m : ThreadMaster F A) (req : CancelReq A) : ThreadMaster F A :=
  match req with
  | .eventobj obj => m.cancelEventobj obj
  | req =>
    match m.target req with
    | some id => m.cancelOne id
    | none => m

def targets (m : ThreadMaster F A) : CancelReq A → List ℕ
  | .eventobj obj => m.ofObject obj m.event ++ m.ofObject obj m.ready
  | .thread id => [id]
  | .threadref ref => (m.refs ref).toList

theorem Consistent.serve {m : ThreadMaster F A} (h : m.Consistent) (req : CancelReq A) :
    Cancelled m (m.serve req) (m.targets req) := by
  cases req with
  | eventobj obj => exact h.cancelEventobj obj
  | thread id => exact h.cancelOne id
  | threadref ref =>
    simp only [ThreadMaster.serve, target, targets]
    cases m.refs ref with
    | none => exact cancelled_handler h m.handler
    | some id => exact h.cancelOne id

theorem Consistent.cancelStep_eq {m : ThreadMaster F A} (h : m.Consistent) {frame : CancelFrame}
    {req : CancelReq A} (hrank : ∀ k ∈ m.reqRank req, frame.rank ≤ k) :
    ∃ frame', m.cancelStep frame req = some (m.serve req, frame') ∧
      (frame' = frame ∨ frame'.rank ∈ m.reqRank req) := by
  have htask : ∀ id, (∀ k ∈ typeRank (m.threads id).type, frame.rank ≤ k) →
      ∃ frame', m.cancelTask frame id = some (m.cancelOne id, frame') ∧
        (frame' = frame ∨ frame'.rank ∈ typeRank (m.threads id).type) := by
    intro id hrank
    obtain ⟨frame', hstep, hframe⟩ := h.cancelTask_eq hrank
    exact ⟨frame', hstep, hframe.imp And.right fun hin => hin⟩
  cases req with
  | eventobj obj => exact ⟨frame, rfl, .inl rfl⟩
  | thread id => exact htask id hrank
  | threadref ref =>
    simp only [cancelStep, ThreadMaster.serve, reqRank, target] at hrank ⊢
    cases href : m.refs ref with
    | none => exact ⟨frame, rfl, .inl rfl⟩
    | some id =>
      rw [href] at hrank
      exact htask id hrank

/-- A batch in order is served as if the requests came one by one. -/
theorem Consistent.cancelLoop_eq {m : ThreadMaster F A} (h : m.Consistent)
    {reqs : List (CancelReq A)} (horder : m.Orderly reqs) {frame : CancelFrame}
    (hrank : ∀ req ∈ reqs, ∀ k ∈ m.reqRank req, frame.rank ≤ k) :
    cancelLoop reqs frame m = some (reqs.foldl ThreadMaster.serve m) := by
  induction reqs generalizing m frame with
  | nil => rfl
  | cons req reqs ih =>
    obtain ⟨hfirst, hrest⟩ := List.forall_mem_cons.mp hrank
    obtain ⟨hbefore, horder⟩ := List.pairwise_cons.mp horder
    obtain ⟨frame', hstep, hframe⟩ := h.cancelStep_eq hfirst
    have hserve := h.serve req
    rw [cancelLoop, hstep]
    refine ih hserve.consistent (horder.imp fun hle i hi j hj => ?_) fun req' hreq' k hk => ?_
    · exact hle i (hserve.reqRank hi) j (hserve.reqRank hj)
    · have hk := hserve.reqRank hk
      rcases hframe with rfl | hin
      · exact hrest req' hreq' k hk
      · exact hbefore req' hreq' _ hin k hk

theorem Consistent.foldl_serve {m : ThreadMaster F A} (h : m.Consistent)
    (reqs : List (CancelReq A)) : ∃ ids, Cancelled m (reqs.foldl ThreadMaster.serve m) ids := by
  induction reqs generalizing m with
  | nil => exact ⟨[], cancelled_handler h m.handler⟩
  | cons req reqs ih =>
    have hserve := h.serve req
    obtain ⟨ids, hrest⟩ := ih hserve.consistent
    exact ⟨_, hserve.trans hrest⟩

theorem Consistent.doThreadCancel_eq {m : ThreadMaster F A} (h : m.Consistent)
    (horder : m.Orderly m.cancelReq) :
    m.doThreadCancel =
      some { m.cancelReq.foldl ThreadMaster.serve m with cancelReq := [] } := by
  have hstart : ∀ req ∈ m.cancelReq, ∀ k ∈ m.reqRank req, CancelFrame.start.rank ≤ k :=
    fun _ _ k _ => Nat.zero_le k
  rw [doThreadCancel, h.cancelLoop_eq horder hstart]
  rfl

/-! ### Two requests -/

theorem cancelStep_of_target {m : ThreadMaster F A} {req : CancelReq A} {id : ℕ}
    (h : m.target req = some id) (frame : CancelFrame) :
    m.cancelStep frame req = m.cancelTask frame id := by
  cases req with
  | eventobj obj => cases h
  | thread id' =>
    cases h
    rfl
  | threadref ref =>
    simp only [target] at h
    simp only [cancelStep, target, h]

theorem Consistent.serve_target {m : ThreadMaster F A} (h : m.Consistent) {req : CancelReq A}
    {id : ℕ} (hid : m.target req = some id) :
    Cancelled m (m.serve req) [id] ∧ m.serve req = m.cancelOne id := by
  have heq : m.serve req = m.cancelOne id := by
    cases req with
    | eventobj obj => cases hid
    | thread id' =>
      cases hid
      rfl
    | threadref ref =>
      simp only [target] at hid
      simp only [ThreadMaster.serve, target, hid]
  rw [heq]
  exact ⟨h.cancelOne id, rfl⟩

/-- In a batch whose first task lies in a container that is looked at before that of the second, the
table keeps the address of the second task, unless an assertion fails. -/
theorem Consistent.doThreadCancel_late {m : ThreadMaster F A} (h : m.Consistent)
    {r₁ r₂ : CancelReq A} (hreqs : m.cancelReq = [r₁, r₂]) {a b : ℕ} (ha : m.target r₁ = some a)
    (hb : m.target r₂ = some b) (hab : a ≠ b) (hja : m.jobs a ≠ none) {i j : ℕ}
    (hi : i ∈ m.reqRank r₁) (hj : j ∈ m.reqRank r₂) (hlt : j < i) {m' : ThreadMaster F A}
    (hcancel : m.doThreadCancel = some m') :
    ∃ dir fd, m'.table dir fd = some b ∧ m'.threads b = .unused := by
  obtain ⟨hfirst, heq⟩ := h.serve_target ha
  have hb' := hfirst.target_eq h hb (by simpa using hab.symm)
  have hrank : ∀ k ∈ typeRank (m.threads a).type, CancelFrame.start.rank ≤ k :=
    fun k _ => Nat.zero_le k
  obtain ⟨frame, hstep, hframe⟩ := h.cancelTask_eq hrank
  simp only [reqRank, ha, hb, Option.bind_some] at hi hj
  have hframe : frame.rank = i := by
    rcases hframe with ⟨hnone, -⟩ | hin
    · exact absurd ((h.placed a).mp hnone) hja
    · exact Option.some.inj (hin.symm.trans hi)
  rw [heq] at hfirst hb'
  have hthread : (m.cancelOne a).threads b = m.threads b := by
    rcases hfirst.threads b with hsame | hunused
    · exact hsame
    · have hnone : m.jobs b = none := by
        have := hfirst.jobs b
        rwa [jobs, hunused, if_neg (by simpa using hab.symm), eq_comm] at this
      rw [typeRank_of_place.mp ((h.placed b).mpr hnone)] at hj
      cases hj
  have hgone : frame.queue = true → (m.cancelOne a).timer.size = 0 →
      (m.cancelOne a).timer.array 0 ≠ b := by
    intro hqueue hsize
    have htype : (m.threads a).type = .timer := by
      rw [CancelFrame.rank, if_pos hqueue] at hframe
      rw [← hframe] at hi
      cases htype : (m.threads a).type <;> rw [htype] at hi <;> cases hi
    rw [h.array_cancelOne (type_eq_timer.mp htype) hsize]
    exact hab
  rw [doThreadCancel, hreqs] at hcancel
  simp only [cancelLoop, cancelStep_of_target ha, hstep, Option.bind_eq_bind, Option.bind_some,
    cancelStep_of_target hb'] at hcancel
  cases hsecond : (m.cancelOne a).cancelTask frame b with
  | none => simp [hsecond] at hcancel
  | some next =>
    simp only [hsecond, Option.bind_some, Option.some.injEq] at hcancel
    subst hcancel
    obtain ⟨dir, fd, htable, hunused⟩ := hfirst.consistent.cancelTask_late (hthread.symm ▸ hj)
      (by omega) hgone (show _ = some (next.1, next.2) from hsecond)
    exact ⟨dir, fd, htable, hunused⟩

/-- Two tasks are cancelled in one batch exactly when the container of the first is not looked at
before that of the second. Otherwise an assertion fails, or the scheduler is left with the address
of a structure that was given back. -/
theorem doThreadCancel_pair_iff {m : ThreadMaster F A} (h : m.Consistent) {r₁ r₂ : CancelReq A}
    (hreqs : m.cancelReq = [r₁, r₂]) {a b : ℕ} (ha : m.target r₁ = some a)
    (hb : m.target r₂ = some b) (hab : a ≠ b) (hja : m.jobs a ≠ none) :
    ((∃ m', m.doThreadCancel = some m' ∧ m'.Consistent ∧ m'.jobs a = none ∧ m'.jobs b = none) ↔
      ∀ i ∈ m.reqRank r₁, ∀ j ∈ m.reqRank r₂, i ≤ j) ∧
    ((∃ i ∈ m.reqRank r₁, ∃ j ∈ m.reqRank r₂, j < i) → m.doThreadCancel = none ∨
      ∃ m' dir fd, m.doThreadCancel = some m' ∧ m'.table dir fd = some b ∧
        m'.threads b = .unused) := by
  refine ⟨⟨?_, fun hle => ?_⟩, ?_⟩
  · rintro ⟨m', hcancel, hm', -, -⟩ i hi j hj
    by_contra hlt
    obtain ⟨dir, fd, htable, hunused⟩ :=
      h.doThreadCancel_late hreqs ha hb hab hja hi hj (by omega) hcancel
    have := hm'.table_iff.mp htable
    rw [hunused] at this
    cases this
  · obtain ⟨hfirst, -⟩ := h.serve_target ha
    obtain ⟨hsecond, -⟩ :=
      hfirst.consistent.serve_target (hfirst.target_eq h hb (by simpa using hab.symm))
    have horder : m.Orderly m.cancelReq := by
      rw [hreqs]
      simpa [Orderly] using hle
    have hall := hfirst.trans hsecond
    refine ⟨_, h.doThreadCancel_eq horder, ?_, ?_, ?_⟩
    · rw [hreqs]
      exact hall.consistent.congr rfl rfl rfl rfl rfl rfl rfl
    · rw [hreqs]
      exact (hall.jobs a).trans (by simp)
    · rw [hreqs]
      exact (hall.jobs b).trans (by simp)
  · rintro ⟨i, hi, j, hj, hlt⟩
    cases hcancel : m.doThreadCancel with
    | none => exact .inl rfl
    | some m' =>
      obtain ⟨dir, fd, hleft⟩ := h.doThreadCancel_late hreqs ha hb hab hja hi hj hlt hcancel
      exact .inr ⟨m', dir, fd, rfl, hleft⟩

def timerThenEvent : ThreadMaster Unit Unit :=
  let m := ((threadMasterCreate 4).threadAddTimer ⟨5, 0⟩ 1 () none (some 0)).1
  let m := (m.threadAddEvent () none 3 (some 1)).1
  (m.post (.threadref 0)).post (.threadref 1)

theorem timerThenEvent_consistent : timerThenEvent.Consistent := by
  have htimer : ((threadMasterCreate 4 : ThreadMaster Unit Unit).schedule .timer .timer
      ⟨.timer, (), none, some 0, .sands ⟨6, 0⟩⟩).Consistent :=
    (consistent_create 4).schedule rfl trivial rfl
  have hevent : ((((threadMasterCreate 4 : ThreadMaster Unit Unit).schedule .timer .timer
      ⟨.timer, (), none, some 0, .sands ⟨6, 0⟩⟩)).schedule .event .event
      ⟨.event, (), none, some 1, .val 3⟩).Consistent :=
    htimer.schedule rfl trivial rfl
  exact hevent.congr rfl rfl rfl rfl rfl rfl rfl

/-- The queue of timers is looked at first, and the event is not there. -/
theorem timerThenEvent_fails :
    timerThenEvent.Consistent ∧ (¬ ∃ m', timerThenEvent.doThreadCancel = some m' ∧ m'.Consistent ∧
      m'.jobs 0 = none ∧ m'.jobs 1 = none) ∧ (timerThenEvent.doThreadCancel = none ∨
      ∃ m' dir fd, timerThenEvent.doThreadCancel = some m' ∧ m'.table dir fd = some 1 ∧
        m'.threads 1 = .unused) := by
  have hc := timerThenEvent_consistent
  obtain ⟨hiff, hlate⟩ := doThreadCancel_pair_iff hc rfl (a := 0) (b := 1) rfl rfl Nat.zero_ne_one
    (Option.some_ne_none _)
  refine ⟨hc, fun hdone => ?_, hlate ⟨2, rfl, 1, rfl, by decide⟩⟩
  exact absurd (hiff.mp hdone 2 rfl 1 rfl) (by decide)

end Events
end ThreadMaster
end Routerd.Threads
