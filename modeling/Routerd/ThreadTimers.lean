import Routerd.ThreadOrder

/-!
# Timers

A timer waits until `poll` returns at or after the time at which it runs out, and it is ready then.
The timers that run out together become ready by their times. `poll` is told to return in time for
the first of them, as long as the time that is left fits an `int` of milliseconds.
-/

namespace Routerd.Threads
open HeapOrder PQueue ThreadMaster

/-! ### Times in microseconds -/

namespace Timeval

/-- The microseconds do not make up a second, as in what the clock returns. -/
def Normal (t : Timeval) : Prop := 0 ≤ t.usec ∧ t.usec < 1000000

def micros (t : Timeval) : ℤ := t.sec * 1000000 + t.usec

theorem key_lt_iff {a b : Timeval} (ha : a.Normal) (hb : b.Normal) :
    a.key < b.key ↔ a.micros < b.micros := by
  unfold Normal at ha hb
  rw [← timerLt_iff, timerLt, micros, micros]
  split <;> omega

theorem key_le_iff {a b : Timeval} (ha : a.Normal) (hb : b.Normal) :
    a.key ≤ b.key ↔ a.micros ≤ b.micros := by
  rw [← not_lt, key_lt_iff hb ha, not_lt]

theorem timeradd_spec {a b : Timeval} (ha : a.Normal) (hb : b.Normal) :
    (timeradd a b).Normal ∧ (timeradd a b).micros = a.micros + b.micros := by
  unfold Normal micros timeradd at *
  split <;> constructor <;> simp only <;> omega

theorem timersub_spec {a b : Timeval} (ha : a.Normal) (hb : b.Normal) :
    (timersub a b).Normal ∧ (timersub a b).micros = a.micros - b.micros := by
  unfold Normal micros timersub at *
  split <;> constructor <;> simp only <;> omega

theorem msec_spec {timer : ℤ} (h : 0 ≤ timer) :
    (⟨timer.tdiv 1000, 1000 * timer.tmod 1000⟩ : Timeval).Normal ∧
      (⟨timer.tdiv 1000, 1000 * timer.tmod 1000⟩ : Timeval).micros = 1000 * timer := by
  have hmod : timer.tmod 1000 = timer % 1000 := Int.tmod_eq_emod_of_nonneg h
  have hdiv : timer.tdiv 1000 = timer / 1000 := Int.tdiv_eq_ediv_of_nonneg h
  unfold Normal micros
  simp only [hmod, hdiv]
  omega

end Timeval

/-! ### Timers that wait -/

variable {F A : Type} [DecidableEq F]

omit [DecidableEq F] in
theorem place_eq_timer {thread : Thread F A} : thread.place = some .timer ↔ thread.type = .timer := by
  unfold Thread.place
  cases thread.type <;> simp

theorem ThreadMaster.Consistent.timer_iff {m : ThreadMaster F A} (h : m.Consistent) {id : ℕ} :
    id ∈ items m.timer.array m.timer.size ↔ (m.threads id).type = .timer :=
  (h.holds.timer id).trans place_eq_timer

theorem ThreadMaster.Consistent.waits {m : ThreadMaster F A} (h : m.Consistent) {id : ℕ}
    {job : Job F A} (hid : id ∈ items m.timer.array m.timer.size) (hjob : m.jobs id = some job) :
    m.threads id = ⟨.timer, some job⟩ := by
  have htype := h.timer_iff.mp hid
  cases hthread : m.threads id with
  | mk type job' =>
    rw [hthread] at htype
    rw [jobs, hthread] at hjob
    exact congrArg₂ Thread.mk htype hjob

theorem ThreadMaster.TimersDone.mem_iff {now : Timeval} {m m' : ThreadMaster F A}
    {expired : List ℕ} (hdone : TimersDone now m m' expired) (h : m.Consistent) (id : ℕ) :
    (id ∈ expired ↔ (m.threads id).type = .timer ∧ (m.sands id).key ≤ now.key) ∧
      (id ∈ items m'.timer.array m'.timer.size ↔
        (m.threads id).type = .timer ∧ now.key < (m.sands id).key) := by
  have hsplit : (m.threads id).type = .timer ↔
      id ∈ expired ∨ id ∈ items m'.timer.array m'.timer.size := by
    rw [← List.mem_append, hdone.split.mem_iff]
    exact h.timer_iff.symm
  constructor
  · constructor
    · intro hid
      exact ⟨hsplit.mpr (.inl hid), hdone.due id hid⟩
    · rintro ⟨htype, hdue⟩
      rcases hsplit.mp htype with hid | hid
      · exact hid
      · exact absurd (hdone.later id hid) (not_lt.mpr hdue)
  · constructor
    · intro hid
      exact ⟨hsplit.mpr (.inr hid), hdone.later id hid⟩
    · rintro ⟨htype, hlater⟩
      rcases hsplit.mp htype with hid | hid
      · exact absurd (hdone.due id hid) (not_le.mpr hlater)
      · exact hid

/-- `poll` returns: the timers that have run out are ready in the order of their times, before the
tasks on descriptors, and the others wait on. -/
theorem polled_timers {m : ThreadMaster F A} (h : m.Consistent) (now : Timeval) (num : ℕ)
    (revents : ℕ → Revents) :
    ∃ expired tasks,
      (m.threadFetchPolled now num revents).ready = m.ready ++ expired ++ tasks ∧
      (∀ id, id ∈ expired ↔ (m.threads id).type = .timer ∧ (m.sands id).key ≤ now.key) ∧
      expired.Pairwise (fun a b => (m.sands a).key ≤ (m.sands b).key) ∧
      ∀ id, id ∈ items (m.threadFetchPolled now num revents).timer.array
          (m.threadFetchPolled now num revents).timer.size ↔
        (m.threads id).type = .timer ∧ now.key < (m.sands id).key := by
  obtain ⟨expired, tasks, htimers, hio⟩ := threadFetchPolled_spec h now num revents
  have hset : (m.setRevents revents).Consistent := h.congr rfl rfl rfl rfl rfl rfl rfl
  refine ⟨expired, tasks, ?_, fun id => (htimers.mem_iff hset id).1, htimers.sorted, fun id => ?_⟩
  · rw [hio.ready, htimers.ready]
    rfl
  · rw [hio.timer]
    exact (htimers.mem_iff hset id).2

theorem QuietStep.timer {s s' : System F A} {action : Action F A} {labels : List (Label F A)}
    (h : s.master.Consistent) (hstep : QuietStep s action labels s') {id : ℕ} {job : Job F A}
    (hid : s.master.threads id = ⟨.timer, some job⟩)
    (hearly : ∀ now num revents, action = .polled now num revents →
      now.key < (s.master.sands id).key) :
    s'.master.threads id = ⟨.timer, some job⟩ := by
  have hjob : s.master.jobs id = some job := congrArg Thread.job hid
  have hplace : (s.master.threads id).place = some .timer := by rw [hid]; rfl
  have hready : ∀ ready, s.master.ready ≠ id :: ready := by
    intro ready hready
    cases hplace.symm.trans ((h.holds.ready id).mp (by simp [hready]))
  have hkept := hstep.jobs h hjob fun ready _ => hready ready
  cases hstep with
  | same other master _ => rw [master, hid]
  | @scheduled _ type p job' _ _ other notReady _ =>
    have hne : id ≠ s.master.threadAlloc.1 := by
      rintro rfl
      cases (schedule_jobs h type p job').1.symm.trans hjob
    have hthreads := (s.master.schedule_eq type p job').1
    rw [h.allocated.threads] at hthreads
    exact (congrFun hthreads id).trans ((Function.update_of_ne hne _ _).trans hid)
  | @run id' ready job' first _ =>
    have hne : id ≠ id' := by
      rintro rfl
      exact hready ready first
    rw [leave, release_threads]
    exact (Function.update_of_ne hne _ _).trans hid
  | @posted handler _ empty =>
    obtain ⟨hconsistent, -, -, -, htimer, -⟩ :=
      threadProcess_spec h (rfl : s.master.event = s.master.event)
    exact hconsistent.waits (htimer ▸ (h.holds.timer id).mpr hplace) hkept
  | @polled now num revents _ =>
    obtain ⟨-, -, -, -, -, hwaiting⟩ := polled_timers h now num revents
    obtain ⟨expired, tasks, htimers, hio⟩ := threadFetchPolled_spec h now num revents
    have hlater := hearly now num revents rfl
    exact hio.consistent.waits ((hwaiting id).mpr ⟨place_eq_timer.mp hplace, hlater⟩) hkept

theorem QuietRun.timer {s s' : System F A} {actions : List (Action F A)}
    {labels : List (Label F A)} (hrun : QuietRun s actions labels s') {id : ℕ} {job : Job F A}
    (hid : s.master.threads id = ⟨.timer, some job⟩)
    (hearly : ∀ now num revents, .polled now num revents ∈ actions →
      now.key < (s.master.sands id).key) :
    s'.master.threads id = ⟨.timer, some job⟩ := by
  induction hrun with
  | nil s => exact hid
  | @cons s s' s'' action actions labels labels' h hstep _ ih =>
    have hid' := hstep.timer h hid fun now num revents haction =>
      hearly now num revents (haction ▸ List.mem_cons_self ..)
    have hsands : s'.master.sands id = s.master.sands id := by
      rw [ThreadMaster.sands, ThreadMaster.sands, hid, hid']
    refine ih hid' fun now num revents hmem => ?_
    rw [hsands]
    exact hearly now num revents (List.mem_cons_of_mem _ hmem)

theorem ThreadMaster.Consistent.threadAddTimerTimeval {m m' : ThreadMaster F A} (h : m.Consistent)
    {now timeRelative : Timeval} {func : F} {arg : Option A} {ref : Option ℕ} {id : ℕ}
    (hadd : m.threadAddTimerTimeval now timeRelative func arg ref = (m', some id)) :
    m'.Consistent ∧ m'.cancelReq = m.cancelReq ∧ m'.threads id =
      ⟨.timer, some ⟨.timer, func, arg, ref, .sands (timeradd now timeRelative)⟩⟩ := by
  rcases threadAddTimerTimeval_cases m now timeRelative func arg ref with
    ⟨-, heq⟩ | ⟨href, heq⟩
  · cases hadd.symm.trans heq
  · obtain ⟨rfl, hid⟩ := Prod.mk.inj (hadd.symm.trans heq)
    obtain rfl := Option.some.inj hid
    refine ⟨h.schedule rfl trivial href, schedule_cancelReq _ _ _ _, ?_⟩
    rw [(m.schedule_eq _ _ _).1]
    exact Function.update_self _ _ _

variable [DecidableEq A]

/-- A timer of so many milliseconds is not ready before they are over, whatever is scheduled and run
meanwhile, and it is ready, among all timers that have run out and by their times, once `poll`
returns after that. -/
theorem threadAddTimerMsec_delay {m m' : ThreadMaster F A} (h : m.Consistent)
    (hreq : m.cancelReq = []) {now : Timeval} (hnow : now.Normal) {timer : ℤ} (htimer : 0 ≤ timer)
    {func : F} {arg : Option A} {ref : Option ℕ} {id : ℕ}
    (hadd : m.threadAddTimerMsec now timer func arg ref = (m', some id)) {polling : Bool}
    {actions : List (Action F A)} {labels : List (Label F A)} {s : System F A}
    (hrun : Run ⟨m', polling⟩ actions labels s)
    (hcancels : ∀ action ∈ actions, action.cancels = false)
    (hclock : ∀ t num revents, .polled t num revents ∈ actions →
      t.Normal ∧ t.micros < now.micros + 1000 * timer) :
    (s.master.threads id).type = .timer ∧
      ∀ t : Timeval, t.Normal → now.micros + 1000 * timer ≤ t.micros → ∀ num revents,
        ∃ expired tasks,
          (s.master.threadFetchPolled t num revents).ready = s.master.ready ++ expired ++ tasks ∧
          id ∈ expired ∧
          (∀ i, i ∈ expired ↔ (s.master.threads i).type = .timer ∧
            (s.master.sands i).key ≤ t.key) ∧
          expired.Pairwise fun a b => (s.master.sands a).key ≤ (s.master.sands b).key := by
  obtain ⟨hm', hreq', hid⟩ := h.threadAddTimerTimeval hadd
  obtain ⟨hrelative, hdelay⟩ := Timeval.msec_spec htimer
  obtain ⟨hnormal, hmicros⟩ := Timeval.timeradd_spec hnow hrelative
  rw [hdelay] at hmicros
  have hsands : ∀ n : ThreadMaster F A, n.threads id = m'.threads id →
      n.sands id = timeradd now ⟨timer.tdiv 1000, 1000 * timer.tmod 1000⟩ :=
    fun n hn => congrArg Thread.sands (hn.trans hid)
  have hquiet := hrun.toQuiet hm' ⟨hreq'.trans hreq, hcancels⟩
  have hwaits := hquiet.timer hid fun t num revents hmem => by
    obtain ⟨ht, hlt⟩ := hclock t num revents hmem
    rw [hsands m' rfl]
    exact (Timeval.key_lt_iff ht hnormal).mpr (hmicros ▸ hlt)
  refine ⟨by rw [hwaits], fun t ht hle num revents => ?_⟩
  have hconsistent := (hrun.matches hm').consistent
  obtain ⟨expired, tasks, hready, hexpired, hsorted, -⟩ :=
    polled_timers hconsistent t num revents
  refine ⟨expired, tasks, hready, (hexpired id).mpr ⟨by rw [hwaits], ?_⟩, hexpired, hsorted⟩
  rw [hsands s.master (hwaits.trans hid.symm)]
  exact (Timeval.key_le_iff hnormal ht).mpr (hmicros ▸ hle)

/-- A timer of a second and a half that waits when `poll` returns after one second. -/
theorem oneTimer_delay : ∃ (labels : List (Label Unit Unit)) (s : System Unit Unit),
    Run ⟨((threadMasterCreate 8).threadAddTimerMsec ⟨5, 0⟩ 1500 () none (some 0)).1, false⟩
      [.fetch, .polled ⟨6, 0⟩ 0 fun _ => .none] labels s ∧
    (s.master.threads 0).type = .timer ∧
    ∃ expired tasks, (s.master.threadFetchPolled ⟨6, 500000⟩ 0 fun _ => .none).ready =
      s.master.ready ++ expired ++ tasks ∧ 0 ∈ expired := by
  have hrun : ∃ (labels : List (Label Unit Unit)) (s : System Unit Unit),
      Run ⟨((threadMasterCreate 8).threadAddTimerMsec ⟨5, 0⟩ 1500 () none (some 0)).1, false⟩
        [.fetch, .polled ⟨6, 0⟩ 0 fun _ => .none] labels s :=
    ⟨_, _, .cons rfl .nil rfl <| .cons rfl trivial rfl <| .nil _⟩
  obtain ⟨labels, s, hrun⟩ := hrun
  have hadd : (threadMasterCreate 8 : ThreadMaster Unit Unit).threadAddTimerMsec ⟨5, 0⟩ 1500 () none
      (some 0) = (((threadMasterCreate 8).threadAddTimerMsec ⟨5, 0⟩ 1500 () none (some 0)).1, some 0) :=
    rfl
  obtain ⟨hwaits, hdue⟩ := threadAddTimerMsec_delay (consistent_create 8) rfl
    ⟨le_rfl, by decide⟩ (by decide) hadd hrun (by simp [Action.cancels]) (by
      intro t num revents hmem
      simp only [List.mem_cons, List.not_mem_nil, or_false, reduceCtorEq, false_or,
        Action.polled.injEq] at hmem
      rw [hmem.1]
      exact ⟨⟨le_rfl, by decide⟩, by decide⟩)
  obtain ⟨expired, tasks, hready, hid, -⟩ := hdue ⟨6, 500000⟩ ⟨by decide, by decide⟩
    (by simp [Timeval.micros]) 0 fun _ => .none
  exact ⟨labels, s, hrun, hwaits, expired, tasks, hready, hid⟩

/-! ### How long `poll` waits -/

omit [DecidableEq A] in
theorem ThreadMaster.Consistent.first_timer {m : ThreadMaster F A} (h : m.Consistent)
    (hsize : m.timer.size ≠ 0) :
    (m.threads (m.timer.array 0)).type = .timer ∧ ∀ id, (m.threads id).type = .timer →
      (m.sands (m.timer.array 0)).key ≤ (m.sands id).key := by
  refine ⟨h.timer_iff.mp (mem_items.mpr ⟨0, Nat.pos_of_ne_zero hsize, rfl⟩), fun id hid => ?_⟩
  obtain ⟨i, hi, rfl⟩ := mem_items.mp (h.timer_iff.mpr hid)
  exact h.holds.valid.ordered.root_le hi

omit [DecidableEq A] in
/-- What is left until the first timer runs out is what `poll` is told to wait, in milliseconds. -/
theorem ThreadMaster.Consistent.pollWait_eq {m : ThreadMaster F A} (h : m.Consistent)
    {now : Timeval} (hnow : now.Normal)
    (hsands : ∀ id, (m.threads id).type = .timer → (m.sands id).Normal) (hready : m.ready = [])
    {id : ℕ} (hid : (m.threads id).type = .timer)
    (hfirst : ∀ i, (m.threads i).type = .timer → (m.sands id).micros ≤ (m.sands i).micros) :
    ∃ tw : Timeval, m.pollWait now = some tw ∧
      tw.sec * 1000 + tw.usec / 1000 = max 0 ((m.sands id).micros - now.micros) / 1000 := by
  obtain ⟨i, hi, -⟩ := mem_items.mp (h.timer_iff.mpr hid)
  have hsize : m.timer.size ≠ 0 := by omega
  obtain ⟨htype, hroot⟩ := h.first_timer hsize
  have hmicros : (m.sands (m.timer.array 0)).micros = (m.sands id).micros :=
    le_antisymm ((Timeval.key_le_iff (hsands _ htype) (hsands id hid)).mp (hroot id hid))
      (hfirst _ htype)
  obtain ⟨hnormal, hleft⟩ := Timeval.timersub_spec (hsands _ htype) hnow
  rw [hmicros] at hleft
  refine ⟨_, by rw [pollWait, if_pos hready, threadTimerWait, if_neg hsize]; rfl, ?_⟩
  rw [← hleft]
  generalize timersub (m.sands (m.timer.array 0)) now = tw at hnormal
  have hzero : zerotime.Normal := ⟨le_rfl, by decide⟩
  have hpositive : timerLt zerotime tw ↔ 0 < tw.micros := by
    rw [timerLt_iff, Timeval.key_lt_iff hzero hnormal]
    rfl
  unfold Timeval.Normal at hnormal
  unfold Timeval.micros at hpositive ⊢
  beta_reduce
  by_cases hlt : timerLt zerotime tw
  · rw [if_pos hlt]
    have := hpositive.mp hlt
    omega
  · rw [if_neg hlt]
    have := mt hpositive.mpr hlt
    simp only [zerotime]
    omega

omit [DecidableEq A] in
/-- With the default setting, `poll` returns at once if a task is ready, waits without limit if there
is no timer either, and otherwise waits for the whole milliseconds that are left until the first timer
runs out. From 2³¹ of them on, which is 24 days, the timeout is negative and `poll` waits without
limit for that timer. -/
theorem fdPollTimeout_pollWait {m : ThreadMaster F A} (h : m.Consistent) {now : Timeval}
    (hnow : now.Normal) (hsands : ∀ id, (m.threads id).type = .timer → (m.sands id).Normal) :
    (m.ready ≠ [] → fdPollTimeout 0 (m.pollWait now) = 0) ∧
      (m.ready = [] → (∀ id, (m.threads id).type ≠ .timer) →
        fdPollTimeout 0 (m.pollWait now) = -1) ∧
      (m.ready = [] → ∀ id, (m.threads id).type = .timer →
        (∀ i, (m.threads i).type = .timer → (m.sands id).micros ≤ (m.sands i).micros) →
        ∀ left, left = max 0 ((m.sands id).micros - now.micros) / 1000 →
          (left < 2 ^ 31 → fdPollTimeout 0 (m.pollWait now) = left) ∧
          (2 ^ 31 ≤ left → left < 2 ^ 32 → fdPollTimeout 0 (m.pollWait now) < 0)) := by
  refine ⟨fun hready => ?_, fun hready hnone => ?_, fun hready id hid hfirst left hleft => ?_⟩
  · rw [pollWait, if_neg hready]
    rfl
  · have hsize : m.timer.size = 0 := by
      by_contra hsize
      exact hnone _ (h.first_timer hsize).1
    rw [pollWait, if_pos hready, threadTimerWait, if_pos hsize]
    rfl
  · obtain ⟨tw, htw, heq⟩ := h.pollWait_eq hnow hsands hready hid hfirst
    rw [htw, fdPollTimeout, if_pos rfl, heq, ← hleft, Int.bmod_def]
    have hpos : 0 ≤ left := by omega
    constructor
    · intro hlt
      rw [if_pos (by omega)]
      omega
    · intro hge hlt
      rw [if_neg (by omega)]
      omega

/-- The timer of a second and a half at the time when it is added. -/
theorem oneTimer_timeout :
    fdPollTimeout 0 (((threadMasterCreate 8 : ThreadMaster Unit Unit).threadAddTimerMsec ⟨5, 0⟩ 1500
      () none (some 0)).1.pollWait ⟨5, 0⟩) = 1500 := by
  have hm : ((threadMasterCreate 8 : ThreadMaster Unit Unit).schedule .timer .timer
      ⟨.timer, (), none, some 0, .sands ⟨6, 500000⟩⟩).Consistent :=
    (consistent_create 8).schedule rfl trivial rfl
  have honly : ∀ id, (((threadMasterCreate 8 : ThreadMaster Unit Unit).schedule .timer .timer
      ⟨.timer, (), none, some 0, .sands ⟨6, 500000⟩⟩).threads id).type = .timer → id = 0 := by
    intro id hid
    by_contra hne
    rw [(schedule_eq _ _ _ _).1] at hid
    cases (congrArg Thread.type (Function.update_of_ne hne _ _)).symm.trans hid
  refine ((fdPollTimeout_pollWait hm ⟨le_rfl, by decide⟩ ?_).2.2 rfl 0 rfl ?_ 1500 ?_).1 (by decide)
  · intro id hid
    rw [honly id hid]
    exact ⟨by decide, by decide⟩
  · intro id hid
    rw [honly id hid]
  · rfl

end Routerd.Threads
