import Routerd.PriorityQueue

/-!
# The containers of the scheduler

A task that is scheduled lies in one container: in the table of its descriptor for reading or for
writing, in the queue of timers, in the list of events or in the list of what is ready to run. The
place of each task settles what all the containers hold. Putting a task into a container and taking
it out of it change its place alone.
-/

namespace Routerd.Threads
open HeapOrder PQueue

/-! ### Times -/

structure Timeval where
  sec : ℤ
  usec : ℤ
  deriving DecidableEq

/-- `timercmp(a, b, <)`. -/
def timerLt (a b : Timeval) : Prop := if a.sec = b.sec then a.usec < b.usec else a.sec < b.sec

instance (a b : Timeval) : Decidable (timerLt a b) :=
  inferInstanceAs (Decidable (if a.sec = b.sec then a.usec < b.usec else a.sec < b.sec))

def timeradd (a b : Timeval) : Timeval :=
  if 1000000 ≤ a.usec + b.usec then ⟨a.sec + b.sec + 1, a.usec + b.usec - 1000000⟩
  else ⟨a.sec + b.sec, a.usec + b.usec⟩

def timersub (a b : Timeval) : Timeval :=
  if a.usec - b.usec < 0 then ⟨a.sec - b.sec - 1, a.usec - b.usec + 1000000⟩
  else ⟨a.sec - b.sec, a.usec - b.usec⟩

def threadTimerCmp (a b : Timeval) : ℤ :=
  if timerLt a b then -1 else if timerLt b a then 1 else 0

/-- Times in the order of the clock: by seconds and then by microseconds. -/
def Timeval.key (t : Timeval) : ℤ ×ₗ ℤ := toLex (t.sec, t.usec)

theorem timerLt_iff {a b : Timeval} : timerLt a b ↔ a.key < b.key := by
  rw [timerLt, Timeval.key, Timeval.key, Prod.Lex.toLex_lt_toLex]
  by_cases h : a.sec = b.sec
  · simp [h]
  · simp [h]

/-- The comparison of two timers, given the times at which they run out. -/
def timerCmp (sands : ℕ → Timeval) (a b : ℕ) : ℤ := threadTimerCmp (sands a) (sands b)

theorem compares_timerCmp (sands : ℕ → Timeval) :
    Compares (timerCmp sands) fun id => (sands id).key := by
  intro a b
  simp only [timerCmp, threadTimerCmp, timerLt_iff]
  constructor
  · split
    · simpa
    · rename_i hlt
      split <;> simp [hlt]
  · split
    · rename_i hlt
      simpa using hlt.le
    · split
      · simpa
      · rename_i hgt
        simpa using hgt

/-! ### Containers -/

inductive Place where
  | read (fd : ℕ)
  | write (fd : ℕ)
  | timer
  | event
  | ready
  deriving DecidableEq

/-- The containers of tasks, which are known by the addresses of their structures. -/
structure Queues where
  read : ℕ → Option ℕ
  write : ℕ → Option ℕ
  timer : PQueue ℕ
  event : List ℕ
  ready : List ℕ

namespace Queues

def insert (q : Queues) (sands : ℕ → Timeval) (id : ℕ) : Place → Queues
  | .read fd => { q with read := Function.update q.read fd (some id) }
  | .write fd => { q with write := Function.update q.write fd (some id) }
  | .timer => { q with timer := enqueue (timerCmp sands) id q.timer }
  | .event => { q with event := q.event ++ [id] }
  | .ready => { q with ready := q.ready ++ [id] }

def erase (q : Queues) (sands : ℕ → Timeval) (id : ℕ) : Place → Queues
  | .read fd => { q with read := Function.update q.read fd none }
  | .write fd => { q with write := Function.update q.write fd none }
  | .timer => { q with timer := removeAt (timerCmp sands) (q.timer.position id).toNat q.timer }
  | .event => { q with event := q.event.erase id }
  | .ready => { q with ready := q.ready.erase id }

def setPosition (q : Queues) (id : ℕ) (position : ℤ) : Queues :=
  { q with timer := { q.timer with position := Function.update q.timer.position id position } }

/-- Another task may be put there: a descriptor has one at most. -/
def Free (q : Queues) : Place → Prop
  | .read fd => q.read fd = none
  | .write fd => q.write fd = none
  | _ => True

/-- The containers hold the tasks by their places. A task that was never a timer has no position in
their queue, and one that has left it was its first. -/
structure Holds (q : Queues) (sands : ℕ → Timeval) (place : ℕ → Option Place) : Prop where
  read : ∀ fd id, q.read fd = some id ↔ place id = some (.read fd)
  write : ∀ fd id, q.write fd = some id ↔ place id = some (.write fd)
  timer : ∀ id, id ∈ items q.timer.array q.timer.size ↔ place id = some .timer
  event : ∀ id, id ∈ q.event ↔ place id = some .event
  ready : ∀ id, id ∈ q.ready ↔ place id = some .ready
  valid : Valid (fun id => (sands id).key) q.timer
  nodup_event : q.event.Nodup
  nodup_ready : q.ready.Nodup
  outside : ∀ id p, place id = some p → p ≠ .timer → p ≠ .ready → q.timer.position id = -1
  left : ∀ id, place id = some .ready → q.timer.position id = -1 ∨ q.timer.position id = 0

variable {q : Queues} {sands : ℕ → Timeval} {place : ℕ → Option Place}

theorem Holds.congr_sands (h : q.Holds sands place) {sands' : ℕ → Timeval}
    (hsands : ∀ id, place id = some .timer → sands' id = sands id) : q.Holds sands' place where
  read := h.read
  write := h.write
  timer := h.timer
  event := h.event
  ready := h.ready
  nodup_event := h.nodup_event
  nodup_ready := h.nodup_ready
  outside := h.outside
  left := h.left
  valid :=
    { ordered := by
        intro i hpos hi
        have hin : ∀ j < q.timer.size, sands' (q.timer.array j) = sands (q.timer.array j) := by
          intro j hj
          exact hsands _ ((h.timer _).mp (mem_items.mpr ⟨j, hj, rfl⟩))
        change (sands' _).key ≤ (sands' _).key
        rw [hin i hi, hin _ ((parent_lt hpos).trans hi)]
        exact h.valid.ordered i hpos hi
      recorded := h.valid.recorded
      room := h.valid.room }

theorem Holds.setPosition (h : q.Holds sands place) {id : ℕ} (hid : place id = none)
    (position : ℤ) :
    (q.setPosition id position).Holds sands place where
  read := h.read
  write := h.write
  timer := h.timer
  event := h.event
  ready := h.ready
  nodup_event := h.nodup_event
  nodup_ready := h.nodup_ready
  valid :=
    { ordered := h.valid.ordered
      room := h.valid.room
      recorded := by
        intro i hi
        have hne : q.timer.array i ≠ id := by
          rintro rfl
          cases hid.symm.trans ((h.timer _).mp (mem_items.mpr ⟨i, hi, rfl⟩))
        change Function.update q.timer.position id position (q.timer.array i) = _
        rw [Function.update_of_ne hne]
        exact h.valid.recorded i hi }
  outside := by
    intro id' p hp htimer hready
    have hne : id' ≠ id := by
      rintro rfl
      cases hid.symm.trans hp
    change Function.update q.timer.position id position id' = _
    rw [Function.update_of_ne hne]
    exact h.outside id' p hp htimer hready
  left := by
    intro id' hp
    have hne : id' ≠ id := by
      rintro rfl
      cases hid.symm.trans hp
    change Function.update q.timer.position id position id' = _ ∨
      Function.update q.timer.position id position id' = _
    rw [Function.update_of_ne hne]
    exact h.left id' hp

/-- What the places say of a container when one task is put into it. -/
theorem update_some_iff {id id' : ℕ} {p p' : Place} (hid : place id = none) :
    Function.update place id (some p) id' = some p' ↔
      place id' = some p' ∨ (id' = id ∧ p = p') := by
  by_cases heq : id' = id
  · subst heq
    simp [hid]
  · simp [heq]

theorem update_none_iff {id id' : ℕ} {p' : Place} :
    Function.update place id none id' = some p' ↔ place id' = some p' ∧ id' ≠ id := by
  by_cases heq : id' = id
  · subst heq
    simp
  · simp [heq]

theorem table_insert {table : ℕ → Option ℕ} {f : ℕ → Place} (hf : Function.Injective f)
    (htable : ∀ fd id, table fd = some id ↔ place id = some (f fd)) {id fd : ℕ}
    (hid : place id = none) (hfree : table fd = none) (fd' id' : ℕ) :
    Function.update table fd (some id) fd' = some id' ↔
      Function.update place id (some (f fd)) id' = some (f fd') := by
  rw [update_some_iff hid, ← htable]
  by_cases hfd : fd' = fd
  · subst hfd
    simp [hfree, eq_comm]
  · simp only [Function.update_of_ne hfd, hf.eq_iff]
    constructor
    · exact .inl
    · rintro (h | ⟨-, h⟩)
      · exact h
      · exact absurd h.symm hfd

theorem table_erase {table : ℕ → Option ℕ} {f : ℕ → Place} (hf : Function.Injective f)
    (htable : ∀ fd id, table fd = some id ↔ place id = some (f fd)) {id fd : ℕ}
    (hid : place id = some (f fd)) (fd' id' : ℕ) :
    Function.update table fd none fd' = some id' ↔
      Function.update place id none id' = some (f fd') := by
  rw [update_none_iff, ← htable]
  by_cases hfd : fd' = fd
  · subst hfd
    rw [(htable _ _).mpr hid]
    simp [eq_comm]
  · rw [Function.update_of_ne hfd]
    constructor
    · intro h
      refine ⟨h, ?_⟩
      rintro rfl
      exact hfd (hf (Option.some.inj (((htable _ _).mp h).symm.trans hid)))
    · exact And.left

theorem other_insert {id : ℕ} {p p' : Place} (hid : place id = none) (hne : p ≠ p') (id' : ℕ) :
    place id' = some p' ↔ Function.update place id (some p) id' = some p' := by
  rw [update_some_iff hid]
  simp [hne]

theorem other_erase {id : ℕ} {p p' : Place} (hid : place id = some p) (hne : p ≠ p') (id' : ℕ) :
    place id' = some p' ↔ Function.update place id none id' = some p' := by
  rw [update_none_iff]
  refine ⟨fun h => ⟨h, ?_⟩, And.left⟩
  rintro rfl
  exact hne (Option.some.inj (hid.symm.trans h))

theorem list_insert {l : List ℕ} {p : Place} (hl : ∀ id, id ∈ l ↔ place id = some p) {id : ℕ}
    (hid : place id = none) (id' : ℕ) :
    id' ∈ l ++ [id] ↔ Function.update place id (some p) id' = some p := by
  rw [update_some_iff hid, List.mem_append, List.mem_singleton, hl]
  simp

theorem list_erase {l : List ℕ} {p : Place} (hl : ∀ id, id ∈ l ↔ place id = some p)
    (hnodup : l.Nodup) {id : ℕ} (id' : ℕ) :
    id' ∈ l.erase id ↔ Function.update place id none id' = some p := by
  rw [update_none_iff, hnodup.mem_erase_iff, hl, and_comm]

theorem nodup_insert {l : List ℕ} {p : Place} (hl : ∀ id, id ∈ l ↔ place id = some p)
    (hnodup : l.Nodup) {id : ℕ} (hid : place id = none) : (l ++ [id]).Nodup := by
  rw [List.nodup_append_comm, List.singleton_append, List.nodup_cons]
  refine ⟨fun h => ?_, hnodup⟩
  cases ((hl id).mp h).symm.trans hid

theorem outside_insert (h : q.Holds sands place) {id : ℕ} {p : Place} (hid : place id = none)
    (hposition : p ≠ .timer → p ≠ .ready → q.timer.position id = -1) (id' : ℕ) (p' : Place)
    (hp : Function.update place id (some p) id' = some p') (htimer : p' ≠ .timer)
    (hready : p' ≠ .ready) : q.timer.position id' = -1 := by
  rcases (update_some_iff hid).mp hp with hp | ⟨rfl, rfl⟩
  · exact h.outside id' p' hp htimer hready
  · exact hposition htimer hready

theorem outside_erase (h : q.Holds sands place) {id : ℕ} (id' : ℕ) (p' : Place)
    (hp : Function.update place id none id' = some p') (htimer : p' ≠ .timer)
    (hready : p' ≠ .ready) : q.timer.position id' = -1 :=
  h.outside id' p' (update_none_iff.mp hp).1 htimer hready

theorem left_insert (h : q.Holds sands place) {id : ℕ} {p : Place} (hid : place id = none)
    (hready : p = .ready → q.timer.position id = -1 ∨ q.timer.position id = 0) (id' : ℕ)
    (hp : Function.update place id (some p) id' = some .ready) :
    q.timer.position id' = -1 ∨ q.timer.position id' = 0 := by
  rcases (update_some_iff hid).mp hp with hp | ⟨rfl, rfl⟩
  · exact h.left id' hp
  · exact hready rfl

theorem left_erase (h : q.Holds sands place) {id : ℕ} (id' : ℕ)
    (hp : Function.update place id none id' = some .ready) :
    q.timer.position id' = -1 ∨ q.timer.position id' = 0 :=
  h.left id' (update_none_iff.mp hp).1

theorem read_injective : Function.Injective Place.read := fun _ _ h => by cases h; rfl

theorem write_injective : Function.Injective Place.write := fun _ _ h => by cases h; rfl

theorem Holds.insert (h : q.Holds sands place) {id : ℕ} {p : Place} (hid : place id = none)
    (hfree : q.Free p) (hposition : p ≠ .timer → p ≠ .ready → q.timer.position id = -1)
    (hready : p = .ready → q.timer.position id = -1 ∨ q.timer.position id = 0) :
    (q.insert sands id p).Holds sands (Function.update place id (some p)) := by
  have hout := outside_insert h hid hposition
  have hleft := left_insert h hid hready
  cases p with
  | read fd =>
    exact { h with
      read := table_insert read_injective h.read hid hfree
      write := fun fd' id' => (h.write fd' id').trans (other_insert hid (by simp) id')
      timer := fun id' => (h.timer id').trans (other_insert hid (by simp) id')
      event := fun id' => (h.event id').trans (other_insert hid (by simp) id')
      ready := fun id' => (h.ready id').trans (other_insert hid (by simp) id')
      outside := hout
      left := hleft }
  | write fd =>
    exact { h with
      read := fun fd' id' => (h.read fd' id').trans (other_insert hid (by simp) id')
      write := table_insert write_injective h.write hid hfree
      timer := fun id' => (h.timer id').trans (other_insert hid (by simp) id')
      event := fun id' => (h.event id').trans (other_insert hid (by simp) id')
      ready := fun id' => (h.ready id').trans (other_insert hid (by simp) id')
      outside := hout
      left := hleft }
  | timer =>
    have hnew : id ∉ items q.timer.array q.timer.size := fun hin => by
      cases ((h.timer id).mp hin).symm.trans hid
    obtain ⟨hvalid, hperm, hothers⟩ :=
      enqueue_spec (compares_timerCmp sands) h.valid hnew
    exact
    { read := fun fd' id' => (h.read fd' id').trans (other_insert hid (by simp) id')
      write := fun fd' id' => (h.write fd' id').trans (other_insert hid (by simp) id')
      timer := by
        intro id'
        rw [update_some_iff hid, ← h.timer]
        exact hperm.mem_iff.trans (by simp [or_comm])
      event := fun id' => (h.event id').trans (other_insert hid (by simp) id')
      ready := fun id' => (h.ready id').trans (other_insert hid (by simp) id')
      valid := hvalid
      nodup_event := h.nodup_event
      nodup_ready := h.nodup_ready
      outside := by
        intro id' p' hp htimer hready
        rcases (update_some_iff hid).mp hp with hold | ⟨-, rfl⟩
        · refine (hothers id' ?_ fun hin => ?_).trans (h.outside id' p' hold htimer hready)
          · rintro rfl
            cases hid.symm.trans hold
          · cases ((h.timer id').mp hin).symm.trans hold
            exact htimer rfl
        · exact absurd rfl htimer
      left := by
        intro id' hp
        rcases (update_some_iff hid).mp hp with hold | ⟨-, heq⟩
        · have hkeep := hothers id' (by rintro rfl; cases hid.symm.trans hold)
            fun hin => by cases ((h.timer id').mp hin).symm.trans hold
          rcases h.left id' hold with hleft | hleft
          · exact .inl (hkeep.trans hleft)
          · exact .inr (hkeep.trans hleft)
        · cases heq }
  | event =>
    exact { h with
      read := fun fd' id' => (h.read fd' id').trans (other_insert hid (by simp) id')
      write := fun fd' id' => (h.write fd' id').trans (other_insert hid (by simp) id')
      timer := fun id' => (h.timer id').trans (other_insert hid (by simp) id')
      event := list_insert h.event hid
      ready := fun id' => (h.ready id').trans (other_insert hid (by simp) id')
      nodup_event := nodup_insert h.event h.nodup_event hid
      outside := hout
      left := hleft }
  | ready =>
    exact { h with
      read := fun fd' id' => (h.read fd' id').trans (other_insert hid (by simp) id')
      write := fun fd' id' => (h.write fd' id').trans (other_insert hid (by simp) id')
      timer := fun id' => (h.timer id').trans (other_insert hid (by simp) id')
      event := fun id' => (h.event id').trans (other_insert hid (by simp) id')
      ready := list_insert h.ready hid
      nodup_ready := nodup_insert h.ready h.nodup_ready hid
      outside := hout
      left := hleft }

theorem Holds.position_timer (h : q.Holds sands place) {id : ℕ} (hid : place id = some .timer) :
    ∃ i < q.timer.size, q.timer.array i = id ∧ q.timer.position id = i := by
  obtain ⟨i, hi, rfl⟩ := mem_items.mp ((h.timer id).mpr hid)
  exact ⟨i, hi, rfl, h.valid.recorded i hi⟩

theorem Holds.erase (h : q.Holds sands place) {id : ℕ} {p : Place} (hid : place id = some p) :
    (q.erase sands id p).Holds sands (Function.update place id none) := by
  have hout := @outside_erase _ _ _ h id
  have hleft := @left_erase _ _ _ h id
  cases p with
  | read fd =>
    exact { h with
      read := table_erase read_injective h.read hid
      write := fun fd' id' => (h.write fd' id').trans (other_erase hid (by simp) id')
      timer := fun id' => (h.timer id').trans (other_erase hid (by simp) id')
      event := fun id' => (h.event id').trans (other_erase hid (by simp) id')
      ready := fun id' => (h.ready id').trans (other_erase hid (by simp) id')
      outside := hout
      left := hleft }
  | write fd =>
    exact { h with
      read := fun fd' id' => (h.read fd' id').trans (other_erase hid (by simp) id')
      write := table_erase write_injective h.write hid
      timer := fun id' => (h.timer id').trans (other_erase hid (by simp) id')
      event := fun id' => (h.event id').trans (other_erase hid (by simp) id')
      ready := fun id' => (h.ready id').trans (other_erase hid (by simp) id')
      outside := hout
      left := hleft }
  | timer =>
    obtain ⟨i, hi, hat, hposition⟩ := h.position_timer hid
    obtain ⟨hvalid, hperm, hothers, -⟩ := removeAt_spec (compares_timerCmp sands) h.valid hi
    have hqueue : (q.erase sands id .timer).timer = removeAt (timerCmp sands) i q.timer := by
      simp [Queues.erase, hposition]
    exact
    { read := fun fd' id' => (h.read fd' id').trans (other_erase hid (by simp) id')
      write := fun fd' id' => (h.write fd' id').trans (other_erase hid (by simp) id')
      timer := by
        intro id'
        have hnodup := hperm.nodup_iff.mpr h.valid.nodup_items
        rw [update_none_iff, ← h.timer, ← hperm.mem_iff, hat, hqueue, List.mem_cons]
        rw [hat] at hnodup
        constructor
        · intro hin
          refine ⟨.inr hin, ?_⟩
          rintro rfl
          exact (List.nodup_cons.mp hnodup).1 hin
        · rintro ⟨rfl | hin, hne⟩
          · exact absurd rfl hne
          · exact hin
      event := fun id' => (h.event id').trans (other_erase hid (by simp) id')
      ready := fun id' => (h.ready id').trans (other_erase hid (by simp) id')
      valid := by
        rw [hqueue]
        exact hvalid
      nodup_event := h.nodup_event
      nodup_ready := h.nodup_ready
      outside := by
        intro id' p' hp htimer hready
        have hp := (update_none_iff.mp hp).1
        rw [hqueue]
        refine (hothers id' fun hin => ?_).trans (h.outside id' p' hp htimer hready)
        cases ((h.timer id').mp hin).symm.trans hp
        exact htimer rfl
      left := by
        intro id' hp
        have hp := (update_none_iff.mp hp).1
        have hkeep := hothers id' fun hin => by cases ((h.timer id').mp hin).symm.trans hp
        rw [hqueue]
        rcases h.left id' hp with hleft | hleft
        · exact .inl (hkeep.trans hleft)
        · exact .inr (hkeep.trans hleft) }
  | event =>
    exact { h with
      read := fun fd' id' => (h.read fd' id').trans (other_erase hid (by simp) id')
      write := fun fd' id' => (h.write fd' id').trans (other_erase hid (by simp) id')
      timer := fun id' => (h.timer id').trans (other_erase hid (by simp) id')
      event := list_erase h.event h.nodup_event
      ready := fun id' => (h.ready id').trans (other_erase hid (by simp) id')
      nodup_event := h.nodup_event.erase id
      outside := hout
      left := hleft }
  | ready =>
    exact { h with
      read := fun fd' id' => (h.read fd' id').trans (other_erase hid (by simp) id')
      write := fun fd' id' => (h.write fd' id').trans (other_erase hid (by simp) id')
      timer := fun id' => (h.timer id').trans (other_erase hid (by simp) id')
      event := fun id' => (h.event id').trans (other_erase hid (by simp) id')
      ready := list_erase h.ready h.nodup_ready
      nodup_ready := h.nodup_ready.erase id
      outside := hout
      left := hleft }

theorem Holds.position_erase (h : q.Holds sands place) {id : ℕ} {p : Place}
    (hid : place id = some p) (hfirst : p = .timer → q.timer.position id = 0) :
    (q.erase sands id p).timer.position id = -1 ∨ (q.erase sands id p).timer.position id = 0 := by
  cases p with
  | read fd => exact .inl (h.outside id _ hid (by simp) (by simp))
  | write fd => exact .inl (h.outside id _ hid (by simp) (by simp))
  | event => exact .inl (h.outside id _ hid (by simp) (by simp))
  | ready => exact h.left id hid
  | timer =>
    obtain ⟨i, hi, hat, hposition⟩ := h.position_timer hid
    obtain ⟨-, -, -, hgone⟩ := removeAt_spec (compares_timerCmp sands) h.valid hi
    rw [hat] at hgone
    have hzero : (i : ℤ) = 0 := hposition.symm.trans (hfirst rfl)
    right
    change (removeAt (timerCmp sands) (q.timer.position id).toNat q.timer).position id = 0
    rw [hposition, Int.toNat_natCast]
    exact hgone.trans hzero

end Queues
end Routerd.Threads
