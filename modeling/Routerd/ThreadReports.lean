import Routerd.ThreadPolling

/-!
# What `poll` reports

The loop of `thread_process_io` walks over the copy and takes entries that are no descriptors out of
it on the way. Seen as the list of the entries that are still to come, the walk goes from an entry to
the next in either case. The tasks that become ready are those on the descriptors that were reported,
and no others leave the tables.
-/

namespace Routerd.Threads
open HeapOrder PQueue ThreadMaster

/-! ### Entries to come -/

/-- The entries of the copy from one on. -/
def FdHandler.entries (h : FdHandler) (i : ℕ) : List Pollfd := (items h.copy h.copycount).drop i

namespace FdHandler

theorem entries_of_le {h : FdHandler} {i : ℕ} (hi : h.copycount ≤ i) : h.entries i = [] := by
  rw [entries, List.drop_eq_nil_iff]
  simpa [items] using hi

theorem entries_cons {h : FdHandler} {i : ℕ} (hi : i < h.copycount) :
    h.entries i = h.copy i :: h.entries (i + 1) := by
  have hlt : i < (items h.copy h.copycount).length := by simpa [items] using hi
  rw [entries, List.drop_eq_getElem_cons hlt, entries]
  simp [items]

theorem entries_congr {h h' : FdHandler} (hcopy : h'.copy = h.copy)
    (hcount : h'.copycount = h.copycount) (i : ℕ) : h'.entries i = h.entries i := by
  rw [entries, entries, hcopy, hcount]

theorem entries_removeCopy {h : FdHandler} {i : ℕ} (hi : i < h.copycount) :
    (h.removeCopy i).entries i = h.entries (i + 1) := by
  refine List.ext_getElem ?_ fun k hk hk' => ?_
  · simp [entries, items, removeCopy]
    omega
  · have hlt : i + k + 1 < h.copycount := by
      simp only [entries, items, List.length_drop, List.length_map, List.length_range] at hk'
      omega
    simp only [entries, items, removeCopy, moveDown, List.getElem_drop, List.getElem_map,
      List.getElem_range]
    rw [if_pos ⟨by omega, hlt⟩]
    congr 1
    omega

end FdHandler

/-- One of the entries reports an event of a descriptor. -/
def Reported (entries : List Pollfd) (dir : Dir) (fd : ℕ) : Prop :=
  ∃ p ∈ entries, p.fd = fd ∧ p.revents.reports dir = true

theorem reported_cons {p : Pollfd} {entries : List Pollfd} {dir : Dir} {fd : ℕ} :
    Reported (p :: entries) dir fd ↔
      (p.fd = fd ∧ p.revents.reports dir = true) ∨ Reported entries dir fd := by
  simp [Reported]

/-- Entries that have something to report. -/
def active (entries : List Pollfd) : ℕ := entries.countP fun p => p.revents ≠ .none

theorem not_reports_none (dir : Dir) : Revents.none.reports dir = false := by
  cases dir <;> rfl

theorem not_reported_of_active {entries : List Pollfd} (h : active entries = 0) (dir : Dir)
    (fd : ℕ) : ¬ Reported entries dir fd := by
  rintro ⟨p, hp, -, hreports⟩
  have hnone := List.countP_eq_zero.mp h p hp
  simp only [ne_eq, decide_not, Bool.not_eq_true, Bool.not_eq_false', decide_eq_true_eq] at hnone
  rw [hnone, not_reports_none] at hreports
  cases hreports

section Loop
variable {F A : Type}

theorem mem_entryTasks {m : ThreadMaster F A} {p : Pollfd} {id : ℕ} :
    id ∈ m.entryTasks p ↔ ∃ dir, m.table dir p.fd = some id ∧ p.revents.reports dir = true := by
  constructor
  · intro hid
    rcases List.mem_append.mp hid with hid | hid
    · split at hid
      · rename_i hreports
        exact ⟨.read, Option.mem_toList.mp hid, hreports⟩
      · cases hid
    · split at hid
      · rename_i hreports
        exact ⟨.write, Option.mem_toList.mp hid, hreports⟩
      · cases hid
  · rintro ⟨dir, htable, hreports⟩
    cases dir with
    | read =>
      refine List.mem_append_left _ ?_
      change (p.revents.pollin || p.revents.pollhup) = true at hreports
      rw [if_pos hreports]
      exact Option.mem_toList.mpr htable
    | write =>
      refine List.mem_append_right _ ?_
      change p.revents.pollout = true at hreports
      rw [if_pos hreports]
      exact Option.mem_toList.mpr htable

/-- The tasks for what the entries report become ready and leave the tables. -/
structure Delivered (entries : List Pollfd) (m m' : ThreadMaster F A) (tasks : List ℕ) : Prop where
  mem_tasks : ∀ id, id ∈ tasks ↔ ∃ dir fd, m.table dir fd = some id ∧ Reported entries dir fd
  table : ∀ dir fd id, m'.table dir fd = some id ↔
    m.table dir fd = some id ∧ ¬ Reported entries dir fd

theorem delivered_of_active {entries : List Pollfd} (h : active entries = 0)
    (m : ThreadMaster F A) : Delivered entries m m [] where
  mem_tasks id := by simp [not_reported_of_active h]
  table dir fd id := by simp [not_reported_of_active h]

variable [DecidableEq F]

theorem Delivered.cons {m m' m'' : ThreadMaster F A} (h : m.Consistent) {i : ℕ}
    {entries : List Pollfd} {tasks : List ℕ}
    (hrest : Delivered entries m' m'' tasks)
    (hm' : ∀ dir fd, m'.table dir fd = (m.processEntry i).table dir fd) :
    Delivered (m.handler.copy i :: entries) m m'' (m.entryTasks (m.handler.copy i) ++ tasks) := by
  have htable : ∀ dir fd id, m'.table dir fd = some id ↔ m.table dir fd = some id ∧
      ¬ ((m.handler.copy i).fd = fd ∧ (m.handler.copy i).revents.reports dir = true) := by
    intro dir fd id
    rw [hm', processEntry_table h]
    split
    · rename_i hreported
      simp [hreported]
    · rename_i hreported
      simp [hreported]
  constructor
  · intro id
    rw [List.mem_append, mem_entryTasks, hrest.mem_tasks]
    constructor
    · rintro (⟨dir, hid, hreports⟩ | ⟨dir, fd, hid, hreported⟩)
      · exact ⟨dir, _, hid, reported_cons.mpr (.inl ⟨rfl, hreports⟩)⟩
      · exact ⟨dir, fd, ((htable dir fd id).mp hid).1, reported_cons.mpr (.inr hreported)⟩
    · rintro ⟨dir, fd, hid, hreported⟩
      by_cases hfirst : (m.handler.copy i).fd = fd ∧ (m.handler.copy i).revents.reports dir = true
      · exact .inl ⟨dir, hfirst.1 ▸ hid, hfirst.2⟩
      · have hlater := (reported_cons.mp hreported).resolve_left hfirst
        exact .inr ⟨dir, fd, (htable dir fd id).mpr ⟨hid, hfirst⟩, hlater⟩
  · intro dir fd id
    rw [hrest.table, htable, reported_cons, not_or, and_assoc]

theorem processIoLoop_delivers {m : ThreadMaster F A} (h : m.Consistent) {num rounds i ready : ℕ}
    (hrounds : m.handler.copycount ≤ i + rounds)
    (hnum : active (m.handler.entries i) + ready ≤ num) :
    ∃ tasks, IoDone m (processIoLoop num rounds i ready m) tasks ∧
      Delivered (m.handler.entries i) m (processIoLoop num rounds i ready m) tasks := by
  -- the rounds run over the entries that are left; an entry that is taken out shortens the copy
  induction rounds generalizing m i ready with
  | zero =>
    have hnone : active (m.handler.entries i) = 0 := by
      rw [FdHandler.entries_of_le (by omega)]
      rfl
    exact ⟨[], ioDone_handler h m.handler, delivered_of_active hnone m⟩
  | succ rounds ih =>
    rw [processIoLoop]
    split
    · rename_i hmore
      have hentries := FdHandler.entries_cons hmore.1
      obtain ⟨hcopy, hcopycount, -, -⟩ := processEntry_handler m i
      have hrest : (m.processEntry i).handler.entries (i + 1) = m.handler.entries (i + 1) :=
        FdHandler.entries_congr hcopy hcopycount _
      split
      · rename_i hnone
        have hactive : active (m.handler.entries i) = active (m.handler.entries (i + 1)) := by
          rw [hentries, active, active, List.countP_cons_of_neg (by simpa using hnone)]
        obtain ⟨tasks, hio, hdelivered⟩ := @ih m h (i + 1) ready (by omega) (by omega)
        refine ⟨tasks, hio, ?_⟩
        have hsame : ∀ dir fd, Reported (m.handler.entries i) dir fd ↔
            Reported (m.handler.entries (i + 1)) dir fd := by
          intro dir fd
          rw [hentries, reported_cons, hnone, not_reports_none]
          simp
        exact ⟨fun id => by simpa only [hsame] using hdelivered.mem_tasks id,
          fun dir fd id => by simpa only [hsame] using hdelivered.table dir fd id⟩
      · rename_i hsome
        have hactive : active (m.handler.entries i) = active (m.handler.entries (i + 1)) + 1 := by
          rw [hentries, active, active, List.countP_cons_of_pos (by simpa using hsome)]
        have hentry := processEntry_spec h i
        rw [hentries]
        simp only
        split
        · have hlt : i < (m.processEntry i).handler.copycount := hcopycount ▸ hmore.1
          have hdropped : ((m.processEntry i).dropInvalid i).handler.entries i =
              m.handler.entries (i + 1) :=
            (FdHandler.entries_congr rfl rfl i).trans
              ((FdHandler.entries_removeCopy hlt).trans hrest)
          have hdone := hentry.trans (ioDone_handler hentry.consistent
            ((m.processEntry i).dropInvalid i).handler)
          have hcount : ((m.processEntry i).dropInvalid i).handler.copycount =
              m.handler.copycount - 1 := congrArg (· - 1) hcopycount
          obtain ⟨tasks, hio, hdelivered⟩ := @ih ((m.processEntry i).dropInvalid i)
            hdone.consistent i (ready + 1) (by omega) (by rw [hdropped]; omega)
          rw [hdropped] at hdelivered
          refine ⟨_, hdone.trans hio, ?_⟩
          rw [List.append_nil]
          exact hdelivered.cons h fun _ _ => rfl
        · obtain ⟨tasks, hio, hdelivered⟩ := @ih (m.processEntry i) hentry.consistent (i + 1)
            (ready + 1) (by omega) (by rw [hrest]; omega)
          rw [hrest] at hdelivered
          exact ⟨_, hentry.trans hio, hdelivered.cons h fun _ _ => rfl⟩
    · rename_i hless
      have hnone : active (m.handler.entries i) = 0 := by
        by_cases hi : i < m.handler.copycount
        · have : ¬ ready < num := fun hready => hless ⟨hi, hready⟩
          omega
        · rw [FdHandler.entries_of_le (by omega)]
          rfl
      exact ⟨[], ioDone_handler h m.handler, delivered_of_active hnone m⟩

/-- The entries that `poll` was given, with what it reports. -/
def reports (m : ThreadMaster F A) (revents : ℕ → Revents) : List Pollfd :=
  items (fun i => { m.handler.copy i with revents := revents i }) m.handler.copycount

/-- `poll` returns with as many reports as it says: after the timers exactly the tasks on the
descriptors that it reports are ready, and all other tasks on descriptors stay where they are. It
makes no difference that entries which are no descriptors are taken out of the arrays on the way. -/
theorem polled_reports {m : ThreadMaster F A} (h : m.Consistent) (now : Timeval) {num : ℕ}
    {revents : ℕ → Revents} (hnum : active (reports m revents) ≤ num) :
    ∃ expired tasks,
      (m.threadFetchPolled now num revents).ready = m.ready ++ expired ++ tasks ∧
      (∀ id, id ∈ expired ↔ (m.threads id).type = .timer ∧ (m.sands id).key ≤ now.key) ∧
      (∀ id, id ∈ tasks ↔ ∃ dir fd, m.table dir fd = some id ∧ Reported (reports m revents) dir fd) ∧
      ∀ dir fd id, (m.threadFetchPolled now num revents).table dir fd = some id ↔
        m.table dir fd = some id ∧ ¬ Reported (reports m revents) dir fd := by
  have hset : (m.setRevents revents).Consistent := h.congr rfl rfl rfl rfl rfl rfl rfl
  obtain ⟨expired, htimers⟩ := threadProcessTimers_spec now hset (le_refl m.timer.size)
  have htable : ∀ dir fd, (threadProcessTimers now m.timer.size (m.setRevents revents)).table dir fd =
      m.table dir fd := by
    intro dir fd
    cases dir with
    | read => exact congrFun htimers.read fd
    | write => exact congrFun htimers.write fd
  have hentries : (threadProcessTimers now m.timer.size
      (m.setRevents revents)).handler.entries 0 = reports m revents := by
    rw [htimers.handler]
    rfl
  obtain ⟨tasks, hio, hdelivered⟩ : ∃ tasks,
      IoDone (threadProcessTimers now m.timer.size (m.setRevents revents))
        (m.threadFetchPolled now num revents) tasks ∧
      Delivered (reports m revents) (threadProcessTimers now m.timer.size (m.setRevents revents))
        (m.threadFetchPolled now num revents) tasks := by
    simp only [threadFetchPolled]
    split
    · rw [← hentries] at hnum ⊢
      exact processIoLoop_delivers htimers.consistent (Nat.zero_add _).ge (by omega)
    · have hnone : active (reports m revents) = 0 := by omega
      exact ⟨[], ioDone_handler htimers.consistent _, delivered_of_active hnone _⟩
  refine ⟨expired, tasks, ?_, fun id => (htimers.mem_iff hset id).1, fun id => ?_,
    fun dir fd id => ?_⟩
  · rw [hio.ready, htimers.ready]
    rfl
  · simp only [hdelivered.mem_tasks, htable]
  · rw [hdelivered.table, htable]

def readerAndWriter : ThreadMaster Unit Unit :=
  let m := (threadMasterCreate 8).schedule .read (.read 3) ⟨.read, (), none, none, .fd 3⟩
  let m := m.schedule .write (.write 4) ⟨.write, (), none, none, .fd 4⟩
  { m with handler := ((m.handler.want 0 3 .read).want 1 4 .write).memcpy }

theorem readerAndWriter_consistent : readerAndWriter.Consistent := by
  have hreader : ((threadMasterCreate 8 : ThreadMaster Unit Unit).schedule .read (.read 3)
      ⟨.read, (), none, none, .fd 3⟩).Consistent := (consistent_create 8).schedule rfl rfl rfl
  have hwriter : (((threadMasterCreate 8 : ThreadMaster Unit Unit).schedule .read (.read 3)
      ⟨.read, (), none, none, .fd 3⟩).schedule .write (.write 4)
      ⟨.write, (), none, none, .fd 4⟩).Consistent := hreader.schedule rfl rfl rfl
  exact hwriter.congr rfl rfl rfl rfl rfl rfl rfl

def invalidThenWritable (i : ℕ) : Revents :=
  if i = 0 then ⟨false, false, false, false, true⟩ else ⟨false, true, false, false, false⟩

/-- The descriptor that is read is no longer valid. Its entry is taken out, its task waits on, and the
task that writes is ready. -/
theorem twoTasks_reports :
    (readerAndWriter.threadFetchPolled ⟨0, 0⟩ 2 invalidThenWritable).handler.pfdcount = 1 ∧
      (readerAndWriter.threadFetchPolled ⟨0, 0⟩ 2 invalidThenWritable).table .read 3 = some 0 ∧
      (readerAndWriter.threadFetchPolled ⟨0, 0⟩ 2 invalidThenWritable).table .write 4 ≠ some 1 := by
  have htwo : active (reports readerAndWriter invalidThenWritable) = 2 := rfl
  obtain ⟨expired, tasks, -, -, -, htable⟩ :=
    polled_reports readerAndWriter_consistent ⟨0, 0⟩ htwo.le
  refine ⟨rfl, (htable .read 3 0).mpr ⟨rfl, ?_⟩, fun hwrite => ((htable .write 4 1).mp hwrite).2 ?_⟩
  · rintro ⟨p, hp, hfd, hreports⟩
    obtain ⟨i, -, rfl⟩ := mem_items.mp hp
    simp only [invalidThenWritable] at hreports
    split at hreports <;> cases hreports
  · exact ⟨_, List.mem_cons_of_mem _ List.mem_cons_self, rfl, rfl⟩

/-! ### Events that nobody asked for -/

omit [DecidableEq F] in
/-- The entry behind the array keeps the events of the last one when another is removed, and the next
descriptor gets that entry. -/
theorem FdHandler.cancelAt_want {h : FdHandler} {i : ℕ} (hi : i + 1 < h.pfdcount) {dir : Dir}
    (hidle : ((h.pfds i).drop dir).idle = true) {fd : ℕ}
    (hnew : (h.cancelAt i dir).find fd = none) (dir' : Dir) {d : Dir}
    (hlast : (h.pfds (h.pfdcount - 1)).wants d = true) :
    ((h.cancelAt i dir).want (((h.cancelAt i dir).find fd).getD (h.cancelAt i dir).pfdcount)
      fd dir').Asks d fd := by
  obtain ⟨hpfds, hcount⟩ := h.cancelAt_pfds i dir
  have hidle' : ((h.dropAt i dir).pfds i).idle = true := by simpa [dropAt] using hidle
  rw [if_pos hidle'] at hpfds hcount
  have hslot : (h.cancelAt i dir).pfds (h.pfdcount - 1) = h.pfds (h.pfdcount - 1) := by
    have hne : h.pfdcount - 1 ≠ i := by omega
    have hend : ¬ (i ≤ h.pfdcount - 1 ∧ h.pfdcount - 1 + 1 < h.pfdcount) := by omega
    rw [hpfds]
    simp only [removePfd, moveDown, dropAt]
    rw [if_neg hend, Function.update_of_ne hne]
  have hend : (h.cancelAt i dir).pfdcount = h.pfdcount - 1 := hcount
  rw [hnew, Option.getD_none, hend]
  refine ⟨h.pfdcount - 1, ?_, by simp [want], ?_⟩
  · simp [want, hend]
  · simp only [want, Function.update_self, Pollfd.wants_ask, hslot]
    cases d <;> simp_all [Pollfd.wants]

variable [DecidableEq A]

theorem threadCancel_of_table {m m₁ : ThreadMaster F A} (h : m.Consistent) (hreq : m.cancelReq = [])
    {id fd₀ i : ℕ} {dir : Dir} (hid : m.table dir fd₀ = some id)
    (hfind : m.handler.find fd₀ = some i) (hcancel : m.threadCancel id = some m₁) :
    m₁.Consistent ∧ m₁.handler = m.handler.cancelAt i dir ∧
      ∀ d fd, m.table d fd = none → m₁.table d fd = none := by
  have hplace := h.table_iff.mp hid
  have hpost : (m.post (.thread id)).Consistent := h.congr rfl rfl rfl rfl rfl rfl rfl
  have horder : (m.post (.thread id)).Orderly (m.post (.thread id)).cancelReq := by
    simp [post, hreq, Orderly]
  have hserved : m₁ = { (m.post (.thread id)).cancelOne id with cancelReq := [] } := by
    have heq := hcancel.symm.trans (hpost.doThreadCancel_eq horder)
    rw [Option.some.inj heq]
    simp only [post, hreq]
    rfl
  have hone : (m.post (.thread id)).cancelOne id =
      { m.post (.thread id) with handler := m.handler.cancelAt i dir }.leave id (dir.place fd₀) := by
    have hposted : ((m.post (.thread id)).threads id).place = some (dir.place fd₀) := hplace
    have hcancelRw : m.handler.threadCancelRw fd₀ dir = m.handler.cancelAt i dir := by
      simp [FdHandler.threadCancelRw, hfind]
    rcases cancelRw_handler hposted with ⟨dir₁, fd₁, hp, heq⟩ | ⟨-, hother⟩
    · obtain ⟨rfl, rfl⟩ := Prod.mk.inj (dir_place_injective hp)
      simp only [ThreadMaster.cancelOne, hposted, heq]
      rw [← hcancelRw]
      rfl
    · exact absurd rfl (hother dir fd₀)
  rw [hserved, hone]
  refine ⟨?_, leave_handler _ _ _, fun d fd hfree => (leave_table _ _ _ d fd).trans ?_⟩
  · rw [← hone]
    exact (hpost.cancelOne id).consistent.congr rfl rfl rfl rfl rfl rfl rfl
  · split
    · rfl
    · exact hfree

/-- After the only task on a descriptor is cancelled whose entry is not the last, the next descriptor
that is new is asked for every event of the descriptor that was last, although no task waits for
it. -/
theorem threadCancel_stale {m m₁ m₂ : ThreadMaster F A} (h : m.Consistent)
    (hreq : m.cancelReq = []) {id fd₀ i : ℕ} {dir : Dir} (hid : m.table dir fd₀ = some id)
    (hfind : m.handler.find fd₀ = some i) (hidle : ((m.handler.pfds i).drop dir).idle = true)
    (hi : i + 1 < m.handler.pfdcount) (hcancel : m.threadCancel id = some m₁) {dir' : Dir} {func : F}
    {arg : Option A} {fd id' : ℕ} {ref : Option ℕ} (hnew : m₁.handler.find fd = none)
    (hadd : m₁.threadAddReadWrite dir' func arg fd ref = some (m₂, some id')) {d : Dir}
    (hlast : (m.handler.pfds (m.handler.pfdcount - 1)).wants d = true) (hd : d ≠ dir')
    (hfree : m.table d fd = none) :
    m₂.handler.Asks d fd ∧ m₂.table d fd = none := by
  obtain ⟨hm₁, hhandler, htable⟩ := threadCancel_of_table h hreq hid hfind hcancel
  obtain ⟨-, ⟨-, -, hnone⟩ | ⟨-, -, -, rfl⟩⟩ := threadAddReadWrite_cases hadd
  · cases hnone
  · rw [hhandler] at hnew
    constructor
    · rw [hhandler]
      exact FdHandler.cancelAt_want hi hidle hnew dir' hlast
    · refine (schedule_table hm₁ _ _ _ d fd).trans ?_
      rw [if_neg fun heq => hd (Prod.mk.inj (dir_place_injective heq)).1, htable d fd hfree]

theorem readerAndWriter_stale : ∃ m₁ m₂ : ThreadMaster Unit Unit,
    readerAndWriter.threadCancel 0 = some m₁ ∧
      m₁.threadAddReadWrite .read () none 5 none = some (m₂, some 0) ∧
      m₂.handler.Asks .write 5 ∧ m₂.table .write 5 = none := by
  have hrun : ∃ m₁ m₂ : ThreadMaster Unit Unit, readerAndWriter.threadCancel 0 = some m₁ ∧
      m₁.handler.find 5 = none ∧
      m₁.threadAddReadWrite .read () none 5 none = some (m₂, some 0) :=
    ⟨_, _, rfl, rfl, rfl⟩
  obtain ⟨m₁, m₂, hcancel, hnew, hadd⟩ := hrun
  have hread : readerAndWriter.table .read 3 = some 0 := rfl
  exact ⟨m₁, m₂, hcancel, hadd, threadCancel_stale readerAndWriter_consistent rfl hread rfl rfl
    (by decide) hcancel hnew hadd rfl (by decide) rfl⟩

end Loop

end Routerd.Threads
