import Routerd.ThreadTimers

/-!
# Descriptors

The scheduler keeps an array of descriptors with the events that are asked for, and hands a copy of it
to `poll`. As long as all descriptors are valid, every task on a descriptor has its event asked for,
whatever else is added, run or cancelled. What `poll` reports about the copy is then done to the
array itself, so the two have to agree on which entry is which descriptor's.
-/

namespace Routerd.Threads
open HeapOrder PQueue ThreadMaster

namespace Pollfd

theorem wants_ask (p : Pollfd) (dir dir' : Dir) :
    (p.ask dir).wants dir' = (p.wants dir' || decide (dir' = dir)) := by
  cases dir <;> cases dir' <;> simp [ask, wants]

theorem wants_drop (p : Pollfd) (dir dir' : Dir) :
    (p.drop dir).wants dir' = (p.wants dir' && decide (dir' ≠ dir)) := by
  cases dir <;> cases dir' <;> simp [drop, wants]

@[simp] theorem fd_ask (p : Pollfd) (dir : Dir) : (p.ask dir).fd = p.fd := by
  cases dir <;> rfl

@[simp] theorem fd_drop (p : Pollfd) (dir : Dir) : (p.drop dir).fd = p.fd := by
  cases dir <;> rfl

theorem not_idle_of_wants {p : Pollfd} {dir : Dir} (h : p.wants dir = true) : p.idle = false := by
  cases dir <;> simp_all [wants, idle]

end Pollfd

/-! ### The array -/

namespace FdHandler

/-- An entry asks for the event of a descriptor. -/
def Asks (h : FdHandler) (dir : Dir) (fd : ℕ) : Prop :=
  ∃ i < h.pfdcount, (h.pfds i).fd = fd ∧ (h.pfds i).wants dir = true

/-- No descriptor has two entries. -/
def Distinct (h : FdHandler) : Prop :=
  ∀ i < h.pfdcount, ∀ j < h.pfdcount, (h.pfds i).fd = (h.pfds j).fd → i = j

/-- The entries of the copy are those of the array, which may have more. -/
def Copied (h : FdHandler) : Prop :=
  h.copycount ≤ h.pfdcount ∧ ∀ i < h.copycount, (h.copy i).fd = (h.pfds i).fd

theorem find_eq_some {h : FdHandler} {fd i : ℕ} (hfind : h.find fd = some i) :
    i < h.pfdcount ∧ (h.pfds i).fd = fd := by
  have hmem := List.mem_range.mp (List.mem_of_find?_eq_some hfind)
  exact ⟨hmem, by simpa using List.find?_some hfind⟩

theorem find_eq_none {h : FdHandler} {fd : ℕ} (hfind : h.find fd = none) {i : ℕ}
    (hi : i < h.pfdcount) : (h.pfds i).fd ≠ fd := by
  simpa using List.find?_eq_none.mp hfind i (List.mem_range.mpr hi)

/-- An event more is asked for at the entry of a descriptor or at a new one. -/
theorem want_spec {h : FdHandler} (hd : h.Distinct) (fd : ℕ) (dir : Dir) :
    (h.want ((h.find fd).getD h.pfdcount) fd dir).Distinct ∧
      (h.want ((h.find fd).getD h.pfdcount) fd dir).Asks dir fd ∧
      (∀ dir' fd', h.Asks dir' fd' →
        (h.want ((h.find fd).getD h.pfdcount) fd dir).Asks dir' fd') ∧
      (h.Copied → (h.want ((h.find fd).getD h.pfdcount) fd dir).Copied) := by
  cases hfind : h.find fd with
  | some pos =>
    obtain ⟨hpos, hfd⟩ := find_eq_some hfind
    have hcount : (h.want pos fd dir).pfdcount = h.pfdcount := if_neg hpos.ne
    have hentry : ∀ i, ((h.want pos fd dir).pfds i).fd = (h.pfds i).fd := by
      intro i
      by_cases hi : i = pos
      · subst hi
        simp [want, hfd]
      · simp [want, hi]
    refine ⟨?_, ⟨pos, ?_, ?_, ?_⟩, ?_, ?_⟩
    · intro i hi j hj heq
      simp only [Option.getD_some, hcount, hentry] at hi hj heq
      exact hd i hi j hj heq
    · simpa [hcount] using hpos
    · simpa [hentry] using hfd
    · simp [want, Pollfd.wants_ask]
    · rintro dir' fd' ⟨i, hi, hifd, hwants⟩
      refine ⟨i, by simpa [hcount] using hi, by simpa [hentry] using hifd, ?_⟩
      by_cases heq : i = pos
      · subst heq
        simp only [Option.getD_some, want, Function.update_self, Pollfd.wants_ask]
        cases dir' <;> simp_all [Pollfd.wants]
      · simpa [want, heq] using hwants
    · rintro ⟨hle, hcopy⟩
      rw [Option.getD_some, Copied, hcount]
      refine ⟨hle, fun i hi => ?_⟩
      rw [hentry]
      exact hcopy i hi
  | none =>
    have hcount : (h.want h.pfdcount fd dir).pfdcount = h.pfdcount + 1 := if_pos rfl
    have hentry : ∀ i < h.pfdcount, (h.want h.pfdcount fd dir).pfds i = h.pfds i :=
      fun i hi => Function.update_of_ne hi.ne _ _
    have hnew : ((h.want h.pfdcount fd dir).pfds h.pfdcount).fd = fd := by simp [want]
    refine ⟨?_, ⟨h.pfdcount, ?_, hnew, ?_⟩, ?_, ?_⟩
    · intro i hi j hj heq
      simp only [Option.getD_none, hcount, Nat.lt_succ_iff_lt_or_eq] at hi hj heq
      rcases hi with hi | rfl <;> rcases hj with hj | rfl
      · rw [hentry i hi, hentry j hj] at heq
        exact hd i hi j hj heq
      · rw [hentry i hi, hnew] at heq
        exact absurd heq (find_eq_none hfind hi)
      · rw [hentry j hj, hnew] at heq
        exact absurd heq.symm (find_eq_none hfind hj)
      · rfl
    · simp [hcount]
    · simp [want, Pollfd.wants_ask]
    · rintro dir' fd' ⟨i, hi, hifd, hwants⟩
      refine ⟨i, by simp [hcount]; omega, ?_⟩
      rw [Option.getD_none, hentry i hi]
      exact ⟨hifd, hwants⟩
    · rintro ⟨hle, hcopy⟩
      refine ⟨by simp only [Option.getD_none, hcount]; exact hle.trans (Nat.le_succ _),
        fun i hi => ?_⟩
      rw [Option.getD_none, hentry i (lt_of_lt_of_le hi hle)]
      exact hcopy i hi

theorem dropAt_fd (h : FdHandler) (pos : ℕ) (dir : Dir) (i : ℕ) :
    ((h.dropAt pos dir).pfds i).fd = (h.pfds i).fd := by
  by_cases hi : i = pos
  · subst hi
    simp [dropAt]
  · simp [dropAt, hi]

theorem dropAt_distinct {h : FdHandler} (hd : h.Distinct) (pos : ℕ) (dir : Dir) :
    (h.dropAt pos dir).Distinct := by
  intro i hi j hj heq
  rw [dropAt_fd, dropAt_fd] at heq
  exact hd i hi j hj heq

theorem dropAt_wants {h : FdHandler} (pos : ℕ) (dir : Dir) {i : ℕ} {dir' : Dir}
    (hwants : (h.pfds i).wants dir' = true) (hne : dir' = dir → i ≠ pos) :
    ((h.dropAt pos dir).pfds i).wants dir' = true := by
  by_cases hi : i = pos
  · subst hi
    have hdir : dir' ≠ dir := fun heq => hne heq rfl
    simp [dropAt, Pollfd.wants_drop, hwants, hdir]
  · simpa [dropAt, hi] using hwants

theorem removePfd_pfds {h : FdHandler} {i j : ℕ} (hj : j < h.pfdcount - 1) :
    (h.removePfd i).pfds j = h.pfds (if i ≤ j then j + 1 else j) := by
  simp only [removePfd, moveDown]
  by_cases hij : i ≤ j
  · rw [if_pos ⟨hij, by omega⟩, if_pos hij]
  · rw [if_neg (fun h => hij h.1), if_neg hij]

theorem removePfd_distinct {h : FdHandler} (hd : h.Distinct) (i : ℕ) :
    (h.removePfd i).Distinct := by
  intro j hj k hk heq
  rw [removePfd_pfds hj, removePfd_pfds hk] at heq
  change j < h.pfdcount - 1 at hj
  change k < h.pfdcount - 1 at hk
  have := hd _ (by split <;> omega) _ (by split <;> omega) heq
  split at this <;> split at this <;> omega

theorem removePfd_keeps {h : FdHandler} {i j : ℕ} (hi : i < h.pfdcount) (hj : j < h.pfdcount)
    (hne : j ≠ i) : ∃ k < (h.removePfd i).pfdcount, (h.removePfd i).pfds k = h.pfds j := by
  change ∃ k < h.pfdcount - 1, _
  rcases Nat.lt_or_gt_of_ne hne with hlt | hgt
  · refine ⟨j, by omega, ?_⟩
    rw [removePfd_pfds (by omega), if_neg (by omega)]
  · refine ⟨j - 1, by omega, ?_⟩
    rw [removePfd_pfds (by omega), if_pos (by omega), Nat.sub_add_cancel (by omega)]

/-- What a cancellation does to the array; the copy is treated alike. -/
theorem cancelAt_pfds (h : FdHandler) (i : ℕ) (dir : Dir) :
    (h.cancelAt i dir).pfds = (if ((h.dropAt i dir).pfds i).idle then (h.dropAt i dir).removePfd i
        else h.dropAt i dir).pfds ∧
      (h.cancelAt i dir).pfdcount = (if ((h.dropAt i dir).pfds i).idle then
        (h.dropAt i dir).removePfd i else h.dropAt i dir).pfdcount := by
  have hcopy : ∀ h' : FdHandler, (h'.cancelCopyAt i dir).pfds = h'.pfds ∧
      (h'.cancelCopyAt i dir).pfdcount = h'.pfdcount := by
    intro h'
    simp only [cancelCopyAt]
    split
    · split <;> exact ⟨rfl, rfl⟩
    · exact ⟨rfl, rfl⟩
  exact hcopy _

theorem threadCancelRw_spec {h : FdHandler} (hd : h.Distinct) (fd : ℕ) (dir : Dir) :
    (h.threadCancelRw fd dir).Distinct ∧ ∀ dir' fd', (dir', fd') ≠ (dir, fd) → h.Asks dir' fd' →
      (h.threadCancelRw fd dir).Asks dir' fd' := by
  unfold threadCancelRw
  cases hfind : h.find fd with
  | none => exact ⟨hd, fun _ _ _ hasks => hasks⟩
  | some i =>
    obtain ⟨hi, hfd⟩ := find_eq_some hfind
    obtain ⟨hpfds, hcount⟩ := h.cancelAt_pfds i dir
    have hdrop := dropAt_distinct hd i dir
    simp only [Distinct, Asks, hpfds, hcount]
    by_cases hidle : ((h.dropAt i dir).pfds i).idle = true
    · rw [if_pos hidle]
      refine ⟨removePfd_distinct hdrop i, ?_⟩
      rintro dir' fd' hother ⟨j, hj, hjfd, hwants⟩
      have hkept := dropAt_wants i dir hwants fun hdir heq =>
        hother (by rw [hdir, ← hjfd, heq, hfd])
      have hne : j ≠ i := by
        rintro rfl
        exact absurd hidle (by simp [Pollfd.not_idle_of_wants hkept])
      obtain ⟨k, hk, hkeq⟩ := removePfd_keeps (h := h.dropAt i dir) hi hj hne
      exact ⟨k, hk, by rw [hkeq, dropAt_fd, hjfd], by rw [hkeq, hkept]⟩
    · rw [if_neg hidle]
      refine ⟨hdrop, ?_⟩
      rintro dir' fd' hother ⟨j, hj, hjfd, hwants⟩
      refine ⟨j, hj, by rw [dropAt_fd, hjfd], dropAt_wants i dir hwants fun hdir heq => ?_⟩
      exact hother (by rw [hdir, ← hjfd, heq, hfd])

theorem memcpy_spec (h : FdHandler) :
    h.memcpy.Copied ∧ ∀ dir fd, h.Asks dir fd →
      ∃ i < h.memcpy.copycount, (h.memcpy.copy i).fd = fd ∧ (h.memcpy.copy i).wants dir = true := by
  have hcopy : ∀ i < h.pfdcount, h.memcpy.copy i = h.pfds i := fun i hi => if_pos hi
  refine ⟨⟨le_rfl, fun i hi => by rw [hcopy i hi]; rfl⟩, ?_⟩
  rintro dir fd ⟨i, hi, hfd, hwants⟩
  refine ⟨i, hi, ?_⟩
  rw [hcopy i hi]
  exact ⟨hfd, hwants⟩

end FdHandler

/-! ### Tasks on descriptors -/

/-- Every task on a descriptor has its event asked for. -/
structure Watched {F A : Type} (m : ThreadMaster F A) : Prop where
  distinct : m.handler.Distinct
  asked : ∀ dir fd id, m.table dir fd = some id → m.handler.Asks dir fd

section Steps
variable {F A : Type}

theorem Watched.mono {m m' : ThreadMaster F A} (h : Watched m)
    (hpfds : m'.handler.pfds = m.handler.pfds) (hcount : m'.handler.pfdcount = m.handler.pfdcount)
    (htable : ∀ dir fd id, m'.table dir fd = some id → m.table dir fd = some id) : Watched m' := by
  constructor
  · rw [FdHandler.Distinct, hpfds, hcount]
    exact h.distinct
  · intro dir fd id hid
    rw [FdHandler.Asks, hpfds, hcount]
    exact h.asked dir fd id (htable dir fd id hid)

theorem watched_create (fdLimit : ℕ) : Watched (threadMasterCreate fdLimit : ThreadMaster F A) :=
  ⟨fun _ hi => absurd hi (Nat.not_lt_zero _), fun dir _ _ h => by cases dir <;> cases h⟩

variable [DecidableEq F]

theorem schedule_handler (m : ThreadMaster F A) (type : ThreadType) (p : Place) (job : Job F A) :
    (m.schedule type p job).handler = m.handler := by
  unfold schedule threadGet
  rw [← threadAlloc_handler m]
  cases job.ref <;> rfl

theorem schedule_table {m : ThreadMaster F A} (h : m.Consistent) (type : ThreadType) (p : Place)
    (job : Job F A) (dir : Dir) (fd : ℕ) :
    (m.schedule type p job).table dir fd =
      if p = dir.place fd then some m.threadAlloc.1 else m.table dir fd := by
  rw [(m.schedule_eq type p job).2, Queues.dirTable_insert, Queues.dirTable_setPosition,
    h.allocated.queues]

theorem release_handler (m : ThreadMaster F A) (id : ℕ) : (m.release id).handler = m.handler := by
  rw [release, threadAddUnuse]
  cases (m.threads id).job.bind Job.ref <;> split <;> rfl

theorem leave_handler (m : ThreadMaster F A) (id : ℕ) (p : Place) :
    (m.leave id p).handler = m.handler := by
  rw [leave, release_handler]

theorem leave_table (m : ThreadMaster F A) (id : ℕ) (p : Place) (dir : Dir) (fd : ℕ) :
    (m.leave id p).table dir fd = if p = dir.place fd then none else m.table dir fd := by
  rw [leave, release_toQueues, Queues.dirTable_setPosition, Queues.dirTable_erase]

theorem Watched.leave {m : ThreadMaster F A} (h : Watched m) (id : ℕ) (p : Place) :
    Watched (m.leave id p) := by
  refine h.mono (by rw [leave_handler]) (by rw [leave_handler]) fun dir fd i hi => ?_
  rw [leave_table] at hi
  split at hi
  · cases hi
  · exact hi

theorem Watched.schedule_other {m : ThreadMaster F A} (h : Watched m) (hm : m.Consistent)
    (type : ThreadType) {p : Place} (job : Job F A) (hp : ∀ dir fd, p ≠ Dir.place dir fd) :
    Watched (m.schedule type p job) := by
  refine h.mono (by rw [schedule_handler]) (by rw [schedule_handler]) fun dir fd id hid => ?_
  rwa [schedule_table hm, if_neg (hp dir fd)] at hid

theorem dir_place_injective {dir dir' : Dir} {fd fd' : ℕ} (h : dir.place fd = dir'.place fd') :
    (dir', fd') = (dir, fd) := by
  cases dir <;> cases dir' <;> cases h <;> rfl

theorem Watched.schedule_dir {m : ThreadMaster F A} (h : Watched m) (hm : m.Consistent)
    (type : ThreadType) (job : Job F A) (dir : Dir) (fd : ℕ) :
    Watched { m.schedule type (dir.place fd) job with
      handler := m.handler.want ((m.handler.find fd).getD m.handler.pfdcount) fd dir } := by
  obtain ⟨hdistinct, hnew, hold, -⟩ := FdHandler.want_spec h.distinct fd dir
  refine ⟨hdistinct, fun dir' fd' id hid => ?_⟩
  have hid' := (schedule_table hm type (dir.place fd) job dir' fd').symm.trans hid
  split at hid'
  · rename_i heq
    obtain ⟨rfl, rfl⟩ := Prod.mk.inj (dir_place_injective heq)
    exact hnew
  · exact hold dir' fd' (h.asked dir' fd' id hid')

omit [DecidableEq F] in
theorem cancelRw_handler {m : ThreadMaster F A} {id : ℕ} {p : Place}
    (hp : (m.threads id).place = some p) :
    (∃ dir fd, p = Dir.place dir fd ∧
        m.cancelRw id = { m with handler := m.handler.threadCancelRw fd dir }) ∨
      (m.cancelRw id = m ∧ ∀ dir fd, p ≠ Dir.place dir fd) := by
  unfold Thread.place at hp
  unfold cancelRw
  cases htype : (m.threads id).type <;> rw [htype] at hp <;> cases hp
  case read => exact .inl ⟨.read, _, rfl, rfl⟩
  case write => exact .inl ⟨.write, _, rfl, rfl⟩
  all_goals exact .inr ⟨rfl, fun dir fd => by cases dir <;> simp [Dir.place]⟩

theorem Watched.cancelOne {m : ThreadMaster F A} (h : Watched m) (id : ℕ) :
    Watched (m.cancelOne id) := by
  unfold ThreadMaster.cancelOne
  cases hp : (m.threads id).place with
  | none => exact h
  | some p =>
    rcases cancelRw_handler hp with ⟨dir, fd, rfl, heq⟩ | ⟨heq, hother⟩
    · obtain ⟨hdistinct, hkept⟩ := FdHandler.threadCancelRw_spec h.distinct fd dir
      simp only [heq]
      constructor
      · rw [leave_handler]
        exact hdistinct
      · intro dir' fd' i hi
        rw [leave_table] at hi
        rw [leave_handler]
        split at hi
        · cases hi
        · rename_i hne
          refine hkept dir' fd' (fun heq => hne ?_) (h.asked dir' fd' i hi)
          obtain ⟨rfl, rfl⟩ := Prod.mk.inj heq
          rfl
    · simp only [heq]
      exact h.leave id p

/-! ### Reports -/

/-- The events that are taken for one of reading or of writing. -/
def Revents.reports (r : Revents) : Dir → Bool
  | .read => r.pollin || r.pollhup
  | .write => r.pollout

omit [DecidableEq F] in
theorem helper_handler (m : ThreadMaster F A) (thread : Option ℕ) (dir : Dir) (pos : ℕ) :
    (m.threadProcessIoHelper thread dir pos).handler = m.handler.dropAt pos dir := by
  cases thread with
  | none => rfl
  | some id =>
    simp only [threadProcessIoHelper, setReady, setTable]
    split <;> rfl

theorem helper_table {m : ThreadMaster F A} (h : m.Consistent) (dir : Dir) (fd pos : ℕ)
    (dir' : Dir) (fd' : ℕ) :
    (m.threadProcessIoHelper (m.table dir fd) dir pos).table dir' fd' =
      if (dir', fd') = (dir, fd) then none else m.table dir' fd' := by
  cases htable : m.table dir fd with
  | none =>
    split
    · rename_i heq
      obtain ⟨rfl, rfl⟩ := Prod.mk.inj heq
      exact htable
    · rfl
  | some id =>
    rw [threadProcessIoHelper_eq (h.table_iff.mp htable)]
    change ((m.toQueues.erase m.sands id (dir.place fd)).insert m.sands id .ready).table dir' fd' = _
    rw [Queues.dirTable_insert, if_neg (by cases dir' <;> simp [Dir.place]), Queues.dirTable_erase]
    refine if_congr ⟨dir_place_injective, fun heq => ?_⟩ rfl rfl
    obtain ⟨rfl, rfl⟩ := Prod.mk.inj heq
    rfl

/-- What is done for the report of one direction. -/
def settle (m : ThreadMaster F A) (p : Pollfd) (dir : Dir) (i : ℕ) : ThreadMaster F A :=
  if p.revents.reports dir then m.threadProcessIoHelper (m.table dir p.fd) dir i else m

omit [DecidableEq F] in
theorem processEntry_eq (m : ThreadMaster F A) (i : ℕ) :
    m.processEntry i = settle (settle m (m.handler.copy i) .read i) (m.handler.copy i) .write i :=
  rfl

theorem settle_consistent {m : ThreadMaster F A} (h : m.Consistent) (p : Pollfd) (dir : Dir)
    (i : ℕ) : (settle m p dir i).Consistent := by
  unfold settle
  split
  · exact (threadProcessIoHelper_spec h dir p.fd i).consistent
  · exact h

theorem settle_table {m : ThreadMaster F A} (h : m.Consistent) (p : Pollfd) (dir : Dir) (i : ℕ)
    (dir' : Dir) (fd' : ℕ) :
    (settle m p dir i).table dir' fd' =
      if p.revents.reports dir = true ∧ (dir', fd') = (dir, p.fd) then none
      else m.table dir' fd' := by
  unfold settle
  by_cases hreports : p.revents.reports dir = true
  · rw [if_pos hreports, helper_table h]
    simp only [hreports, true_and]
  · rw [if_neg hreports, if_neg (fun h => hreports h.1)]

omit [DecidableEq F] in
theorem settle_handler (m : ThreadMaster F A) (p : Pollfd) (dir : Dir) (i : ℕ) :
    (settle m p dir i).handler.copy = m.handler.copy ∧
      (settle m p dir i).handler.copycount = m.handler.copycount ∧
      (settle m p dir i).handler.pfdcount = m.handler.pfdcount ∧
      ∀ j, ((settle m p dir i).handler.pfds j).fd = (m.handler.pfds j).fd := by
  unfold settle
  split
  · rw [helper_handler]
    exact ⟨rfl, rfl, rfl, m.handler.dropAt_fd i dir⟩
  · exact ⟨rfl, rfl, rfl, fun _ => rfl⟩

theorem Watched.settle {m : ThreadMaster F A} (h : Watched m) (hm : m.Consistent) {p : Pollfd}
    (dir : Dir) {i : ℕ} (hp : (m.handler.pfds i).fd = p.fd) : Watched (settle m p dir i) := by
  constructor
  · unfold Threads.settle
    split
    · rw [helper_handler]
      exact FdHandler.dropAt_distinct h.distinct i dir
    · exact h.distinct
  · intro dir' fd' id hid
    rw [settle_table hm] at hid
    split at hid
    · cases hid
    · rename_i hother
      obtain ⟨j, hj, hfd, hwants⟩ := h.asked dir' fd' id hid
      unfold Threads.settle
      split
      · rename_i hreports
        rw [helper_handler]
        refine ⟨j, hj, by rw [FdHandler.dropAt_fd, hfd], ?_⟩
        refine FdHandler.dropAt_wants i dir hwants fun hdir heq => hother ⟨hreports, ?_⟩
        rw [hdir, ← hfd, heq, hp]
      · exact ⟨j, hj, hfd, hwants⟩

omit [DecidableEq F] in
theorem processEntry_handler (m : ThreadMaster F A) (i : ℕ) :
    (m.processEntry i).handler.copy = m.handler.copy ∧
      (m.processEntry i).handler.copycount = m.handler.copycount ∧
      (m.processEntry i).handler.pfdcount = m.handler.pfdcount ∧
      ∀ j, ((m.processEntry i).handler.pfds j).fd = (m.handler.pfds j).fd := by
  rw [processEntry_eq]
  obtain ⟨h1, h2, h3, h4⟩ := settle_handler m (m.handler.copy i) .read i
  obtain ⟨h1', h2', h3', h4'⟩ :=
    settle_handler (settle m (m.handler.copy i) .read i) (m.handler.copy i) .write i
  exact ⟨h1'.trans h1, h2'.trans h2, h3'.trans h3, fun j => (h4' j).trans (h4 j)⟩

theorem processEntry_table {m : ThreadMaster F A} (h : m.Consistent) (i : ℕ) (dir : Dir) (fd : ℕ) :
    (m.processEntry i).table dir fd =
      if (m.handler.copy i).fd = fd ∧ (m.handler.copy i).revents.reports dir = true then none
      else m.table dir fd := by
  rw [processEntry_eq, settle_table (settle_consistent h _ _ _), settle_table h]
  by_cases hfd : (m.handler.copy i).fd = fd
  · subst hfd
    cases dir <;> simp
  · have hne : fd ≠ (m.handler.copy i).fd := fun heq => hfd heq.symm
    simp [hfd, hne]

theorem Watched.processEntry {m : ThreadMaster F A} (h : Watched m) (hm : m.Consistent) {i : ℕ}
    (hi : (m.handler.copy i).fd = (m.handler.pfds i).fd) : Watched (m.processEntry i) := by
  rw [processEntry_eq]
  refine (h.settle hm .read hi.symm).settle (settle_consistent hm _ _ _) .write ?_
  rw [(settle_handler m (m.handler.copy i) .read i).2.2.2, hi]

theorem Watched.processIoLoop {m : ThreadMaster F A} (h : Watched m) (hm : m.Consistent)
    (hcopied : m.handler.Copied)
    (hvalid : ∀ j < m.handler.copycount, (m.handler.copy j).revents.pollnval = false)
    (num rounds i ready : ℕ) : Watched (processIoLoop num rounds i ready m) := by
  induction rounds generalizing m i ready with
  | zero => exact h
  | succ rounds ih =>
    rw [ThreadMaster.processIoLoop]
    split
    · rename_i hmore
      split
      · exact ih h hm hcopied hvalid _ _
      · simp only [hvalid i hmore.1, Bool.false_eq_true, if_false]
        obtain ⟨hcopy, hcopycount, hpfdcount, hfd⟩ := processEntry_handler m i
        refine ih (h.processEntry hm (hcopied.2 i hmore.1)) (processEntry_spec hm i).consistent
          ⟨?_, fun j hj => ?_⟩ (fun j hj => ?_) _ _
        · rw [hcopycount, hpfdcount]
          exact hcopied.1
        · rw [hcopycount] at hj
          rw [hcopy, hfd]
          exact hcopied.2 j hj
        · rw [hcopycount] at hj
          rw [hcopy]
          exact hvalid j hj
    · exact h

theorem threadProcess_table {m : ThreadMaster F A} (h : m.Consistent) (dir : Dir) (fd : ℕ) :
    (threadProcess m.event m).table dir fd = m.table dir fd := by
  obtain ⟨-, -, -, -, -, hread, hwrite, -⟩ := threadProcess_spec h (rfl : m.event = m.event)
  cases dir with
  | read => exact congrFun hread fd
  | write => exact congrFun hwrite fd

theorem Watched.threadProcess {m : ThreadMaster F A} (h : Watched m) (hm : m.Consistent) :
    Watched (threadProcess m.event m) := by
  have hhandler : (ThreadMaster.threadProcess m.event m).handler = m.handler :=
    (threadProcess_spec hm (rfl : m.event = m.event)).2.2.2.2.2.2.2.1
  refine h.mono (by rw [hhandler]) (by rw [hhandler]) fun dir fd id hid => ?_
  rwa [threadProcess_table hm] at hid

theorem ThreadMaster.Consistent.no_job {m : ThreadMaster F A} (h : m.Consistent) (hw : Watched m)
    (hready : m.ready = []) (hevent : m.event = []) (htimer : m.timer.size = 0)
    (hcount : m.handler.pfdcount = 0) (id : ℕ) : m.jobs id = none := by
  rw [← h.placed]
  have hdir : ∀ dir fd, (m.threads id).place ≠ some (Dir.place dir fd) := by
    intro dir fd hp
    obtain ⟨i, hi, -⟩ := hw.asked dir fd id (h.table_iff.mpr hp)
    omega
  cases hp : (m.threads id).place with
  | none => rfl
  | some p =>
    exfalso
    cases p with
    | read fd => exact hdir .read fd hp
    | write fd => exact hdir .write fd hp
    | timer =>
      obtain ⟨i, hi, -⟩ := mem_items.mp ((h.holds.timer id).mpr hp)
      omega
    | event => simpa [hevent] using (h.holds.event id).mpr hp
    | ready => simpa [hready] using (h.holds.ready id).mpr hp

/-- The array is right, and so is the copy while the owner is in `poll`. -/
structure Watches (s : System F A) : Prop where
  watched : Watched s.master
  copied : s.polling = true → s.master.handler.Copied

theorem Watches.polled {s : System F A} (h : Watches s) (hm : s.master.Consistent)
    (hpolling : s.polling = true) (now : Timeval) (num : ℕ) {revents : ℕ → Revents}
    (hvalid : ∀ i, (revents i).pollnval = false) :
    Watches ⟨s.master.threadFetchPolled now num revents, false⟩ := by
  refine ⟨?_, fun hpolling => by cases hpolling⟩
  obtain ⟨expired, -, htimers, -⟩ := threadFetchPolled_spec hm now num revents
  have hwatched : Watched (threadProcessTimers now s.master.timer.size
      (s.master.setRevents revents)) := by
    refine h.watched.mono (by rw [htimers.handler]; rfl) (by rw [htimers.handler]; rfl) ?_
    intro dir fd id hid
    cases dir with
    | read => exact (congrFun htimers.read fd).symm.trans hid
    | write => exact (congrFun htimers.write fd).symm.trans hid
  simp only [threadFetchPolled]
  split
  · refine hwatched.processIoLoop htimers.consistent ?_ ?_ _ _ _ _
    · rw [htimers.handler]
      exact h.copied hpolling
    · rw [htimers.handler]
      exact fun j _ => hvalid j
  · exact hwatched

/-! ### Cancellations -/

variable [DecidableEq A]

theorem Watched.cancelListed {m : ThreadMaster F A} (h : Watched m) (name : ListName) (obj : A)
    (tasks : List ℕ) : Watched (cancelListed name obj tasks m) := by
  induction tasks generalizing m with
  | nil => exact h
  | cons id tasks ih =>
    rw [ThreadMaster.cancelListed]
    split
    · rw [(leave_listed m id name).1]
      exact ih (h.leave id _)
    · exact ih h

theorem Watched.serve {m : ThreadMaster F A} (h : Watched m) (req : CancelReq A) :
    Watched (m.serve req) := by
  cases req with
  | eventobj obj => exact (h.cancelListed .event obj _).cancelListed .ready obj _
  | thread id => exact h.cancelOne id
  | threadref ref =>
    simp only [ThreadMaster.serve, target]
    cases m.refs ref with
    | none => exact h
    | some id => exact h.cancelOne id

theorem Watched.foldl_serve {m : ThreadMaster F A} (h : Watched m) (reqs : List (CancelReq A)) :
    Watched (reqs.foldl ThreadMaster.serve m) := by
  induction reqs generalizing m with
  | nil => exact h
  | cons req reqs ih => exact ih (h.serve req)

theorem Watched.doThreadCancel {m m' : ThreadMaster F A} (h : Watched m) (hm : m.Consistent)
    (horder : m.Orderly m.cancelReq) (heq : m.doThreadCancel = some m') : Watched m' := by
  rw [hm.doThreadCancel_eq horder] at heq
  obtain rfl := Option.some.inj heq
  exact (h.foldl_serve m.cancelReq).mono rfl rfl fun _ _ _ hid => hid

/-! ### Runs -/

/-- `poll` does not report an invalid descriptor. -/
def Action.Valid {F A : Type} : Action F A → Prop
  | .polled _ _ revents => ∀ i, (revents i).pollnval = false
  | _ => True

theorem Watches.fetch {s : System F A} (h : Watches s) (hm : s.master.Consistent)
    (horder : s.master.Orderly s.master.cancelReq) {r : Fetched F A}
    (hfetch : s.master.threadFetch = some r) : Watches (fetched r).1 := by
  obtain ⟨c, hc, hconsistent, -, hcases⟩ := hm.threadFetch_cases horder
  have hcancelled := h.watched.doThreadCancel hm horder hc
  rcases hcases with ⟨id, ready, job, -, -, heq⟩ | ⟨-, -, -, -, heq⟩ | ⟨-, heq⟩ | ⟨-, heq⟩ <;>
    cases hfetch.symm.trans heq
  · exact ⟨hcancelled.leave id _, fun hpolling => by cases hpolling⟩
  · exact ⟨hcancelled.threadProcess hconsistent, fun hpolling => by cases hpolling⟩
  · refine ⟨hcancelled.mono rfl rfl fun dir fd id hid => ?_,
      fun _ => (FdHandler.memcpy_spec c.handler).1⟩
    exact (threadProcess_table hconsistent dir fd).symm.trans hid

theorem Action.apply_watches {s s' : System F A} {action : Action F A} {labels : List (Label F A)}
    (h : Watches s) (hm : s.master.Consistent) (hadmissible : action.Admissible s)
    (horder : action.InOrder s) (hvalid : action.Valid)
    (hstep : action.apply s = some (s', labels)) : Watches s' := by
  have hposted : ∀ req m', s.polling = false →
      s.master.Orderly (s.master.cancelReq ++ [req]) →
      (s.master.post req).doThreadCancel = some m' → Watches ⟨m', s.polling⟩ := by
    intro req m' hpolling horder heq
    have hpost : Watched (s.master.post req) := h.watched.mono rfl rfl fun _ _ _ hid => hid
    refine ⟨hpost.doThreadCancel (hm.congr rfl rfl rfl rfl rfl rfl rfl) horder heq, fun hp => ?_⟩
    cases hpolling.symm.trans hp
  have hscheduled : ∀ type p job, (∀ dir fd, p ≠ Dir.place dir fd) →
      Watches ⟨s.master.schedule type p job, s.polling⟩ := by
    intro type p job hp
    refine ⟨h.watched.schedule_other hm type job hp, fun hpolling => ?_⟩
    rw [schedule_handler]
    exact h.copied hpolling
  cases action with
  | addReadWrite dir func arg fd ref =>
    obtain ⟨⟨m', r⟩, hadd, heq⟩ := Option.map_eq_some_iff.mp hstep
    obtain ⟨rfl, rfl⟩ := Prod.mk.inj heq
    obtain ⟨-, ⟨-, rfl, rfl⟩ | ⟨-, rfl, -, rfl⟩⟩ := threadAddReadWrite_cases hadd
    · exact h
    · refine ⟨h.watched.schedule_dir hm _ _ dir fd, fun hpolling => ?_⟩
      exact (FdHandler.want_spec h.watched.distinct fd dir).2.2.2 (h.copied hpolling)
  | addTimer now timeRelative func arg ref =>
    obtain ⟨rfl, rfl⟩ := Prod.mk.inj (Option.some.inj hstep)
    rcases threadAddTimerTimeval_cases s.master now timeRelative func arg ref with
      ⟨-, heq⟩ | ⟨-, heq⟩
    · rw [heq]
      exact h
    · rw [heq]
      exact hscheduled _ _ _ fun dir fd => by cases dir <;> simp [Dir.place]
  | addEvent func arg val ref =>
    obtain ⟨rfl, rfl⟩ := Prod.mk.inj (Option.some.inj hstep)
    rcases threadAddEvent_cases s.master func arg val ref with ⟨-, heq⟩ | ⟨-, heq⟩
    · rw [heq]
      exact h
    · rw [heq]
      exact hscheduled _ _ _ fun dir fd => by cases dir <;> simp [Dir.place]
  | cancel id =>
    obtain ⟨m', hm', heq⟩ := Option.map_eq_some_iff.mp hstep
    obtain ⟨rfl, rfl⟩ := Prod.mk.inj heq
    exact hposted _ m' hadmissible.1 horder hm'
  | cancelEvent obj =>
    obtain ⟨m', hm', heq⟩ := Option.map_eq_some_iff.mp hstep
    obtain ⟨rfl, rfl⟩ := Prod.mk.inj heq
    exact hposted _ m' hadmissible horder hm'
  | cancelAsync req =>
    obtain ⟨rfl, rfl⟩ := Prod.mk.inj (Option.some.inj hstep)
    exact ⟨h.watched.mono rfl rfl fun _ _ _ hid => hid, h.copied⟩
  | fetch =>
    obtain ⟨r, hfetch, heq⟩ := Option.map_eq_some_iff.mp hstep
    have := h.fetch hm horder hfetch
    rwa [heq] at this
  | polled now num revents =>
    obtain ⟨rfl, rfl⟩ := Prod.mk.inj (Option.some.inj hstep)
    exact h.polled hm hadmissible now num hvalid
  | interrupted =>
    obtain ⟨rfl, rfl⟩ := Prod.mk.inj (Option.some.inj hstep)
    exact ⟨h.watched, fun hpolling => by cases hpolling⟩

theorem Run.watches {s s' : System F A} {actions : List (Action F A)} {labels : List (Label F A)}
    (hrun : Run s actions labels s') (hm : s.master.Consistent) (h : Watches s)
    (hvalid : ∀ action ∈ actions, action.Valid) : Watches s' := by
  induction hrun with
  | nil s => exact h
  | @cons s s' s'' action actions labels labels' hadmissible horder hstep _ ih =>
    have hmatch := Action.apply_matches hm hadmissible horder hstep
    exact ih hmatch.consistent
      (Action.apply_watches h hm hadmissible horder (hvalid action (by simp)) hstep)
      fun a ha => hvalid a (List.mem_cons_of_mem _ ha)

/-- As long as descriptors are valid and requests are served in order, no task on a descriptor is
forgotten: whenever `thread_fetch` calls `poll`, the copy that it hands over asks for the event of
every such task, and when it ends because there is nothing to wait for, no task is left. -/
theorem Run.fetch_watches {fdLimit : ℕ} {s : System F A} {actions : List (Action F A)}
    {labels : List (Label F A)} (hrun : Run (.start fdLimit) actions labels s)
    (hvalid : ∀ action ∈ actions, action.Valid) (horder : Action.fetch.InOrder s) :
    (∀ m, s.master.threadFetch = some (.poll m) → ∀ dir fd id, m.table dir fd = some id →
      ∃ i < m.handler.copycount, (m.handler.copy i).fd = fd ∧
        (m.handler.copy i).wants dir = true) ∧
      ∀ m, s.master.threadFetch = some (.die m) → ∀ id, m.jobs id = none := by
  have hm := (hrun.matches (consistent_create fdLimit)).consistent
  have hwatches := hrun.watches (consistent_create fdLimit)
    ⟨watched_create fdLimit, fun hpolling => by cases hpolling⟩ hvalid
  obtain ⟨c, hc, hconsistent, -, hcases⟩ := hm.threadFetch_cases horder
  have hcancelled := hwatches.watched.doThreadCancel hm horder hc
  rcases hcases with ⟨id, ready, job, -, -, heq⟩ | ⟨-, hready, htimer, hcount, heq⟩ | ⟨-, heq⟩ |
    ⟨-, heq⟩
  · constructor <;> intro m hfetch <;> cases hfetch.symm.trans heq
  · constructor <;> intro m hfetch <;> cases hfetch.symm.trans heq
    intro id
    obtain ⟨hprocess, -, hevent, -, hsame, -, -, hhandler, -⟩ :=
      threadProcess_spec hconsistent (rfl : c.event = c.event)
    exact hprocess.no_job (hcancelled.threadProcess hconsistent) hready hevent
      (hsame ▸ htimer) (hhandler ▸ hcount) id
  · constructor <;> intro m hfetch <;> cases hfetch.symm.trans heq
    intro dir fd id hid
    have hid' := (threadProcess_table hconsistent dir fd).symm.trans hid
    exact (FdHandler.memcpy_spec c.handler).2 dir fd (hcancelled.asked dir fd id hid')
  · constructor <;> intro m hfetch <;> cases hfetch.symm.trans heq

/-- A reader and a writer are added and the reader is cancelled; `poll` is asked for the writer. -/
theorem oneReader_watches : ∃ (labels : List (Label Unit Unit)) (s : System Unit Unit),
    Run (.start 8) [.addReadWrite .read () none 3 (some 0), .addReadWrite .write () none 4 (some 1),
      .cancel 0] labels s ∧
    s.master.table .write 4 = some 1 ∧ ∃ m, s.master.threadFetch = some (.poll m) ∧
      ∃ i < m.handler.copycount, (m.handler.copy i).fd = 4 ∧
        (m.handler.copy i).wants .write = true := by
  have hrun : ∃ (labels : List (Label Unit Unit)) (s : System Unit Unit),
      Run (.start 8) [.addReadWrite .read () none 3 (some 0),
        .addReadWrite .write () none 4 (some 1), .cancel 0] labels s ∧
      s.master.table .write 4 = some 1 ∧ s.master.cancelReq = [] ∧
      ∃ m, s.master.threadFetch = some (.poll m) ∧ m.table .write 4 = some 1 :=
    ⟨_, _, .cons (.inr rfl) trivial rfl <| .cons (.inr rfl) trivial rfl <|
      .cons ⟨rfl, Option.some_ne_none _⟩ (List.pairwise_singleton _ _) rfl <| .nil _,
      rfl, rfl, _, rfl, rfl⟩
  obtain ⟨labels, s, hrun, htable, hreq, m, hfetch, hwriter⟩ := hrun
  have horder : Action.fetch.InOrder s := by
    change s.master.Orderly s.master.cancelReq
    rw [hreq]
    exact .nil
  have hasks := (hrun.fetch_watches (by simp [Action.Valid]) horder).1 m hfetch
  exact ⟨labels, s, hrun, htable, m, hfetch, hasks .write 4 1 hwriter⟩

end Steps

end Routerd.Threads
