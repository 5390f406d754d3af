import Routerd.OutputBuffer

/-!
# Windows and runs of an output buffer

A window is cut from the bytes by their lines and columns, so that the chunks do not show in it. With
that each call takes bytes from the head of one queue and adds bytes to its tail, and a run of calls
sends what it was given, in its order, and says so when all of it is sent.
-/

namespace Routerd.Buffers
namespace Buffer

/-! ### Windows -/

/-- How many lines are ended when the bytes are displayed from a column on. -/
def lineEnds (width : ℕ) : ℕ → List UInt8 → ℕ
  | _, [] => 0
  | column, c :: cs =>
    if c = carriageReturn then lineEnds width 1 cs
    else if c = lineFeed ∨ column = width then lineEnds width 1 cs + 1
    else lineEnds width (column + 1) cs

theorem lineEnds_cons (width column : ℕ) {height : ℕ} (hheight : height ≠ 0) (c : UInt8)
    (cs : List UInt8) :
    lineEnds width column (c :: cs) + (display width column height c).2 =
      lineEnds width (display width column height c).1 cs + height := by
  rw [lineEnds]
  unfold display
  split
  · rfl
  split
  · simp only
    omega
  · rfl

/-- The bytes are displayed up to the one that ends the last line. -/
structure Window (width column height : ℕ) (bytes : List UInt8) (n left : ℕ) : Prop where
  length_le : n ≤ bytes.length
  lines : lineEnds width column (bytes.take n) + left = height
  full : n = bytes.length ∨ left = 0
  least : ∀ j < n, lineEnds width column (bytes.take j) < height

theorem scan_window (width column height : ℕ) (bytes : List UInt8) :
    Window width column height bytes (scan width column height bytes).1
      (scan width column height bytes).2.2 := by
  induction bytes generalizing column height with
  | nil => exact ⟨le_rfl, by simp [scan, lineEnds], .inl rfl, fun j hj => absurd hj (Nat.not_lt_zero j)⟩
  | cons c cs ih =>
    rw [scan]
    split
    · rename_i hzero
      exact ⟨Nat.zero_le _, by simp [lineEnds], .inr hzero, fun j hj => absurd hj (Nat.not_lt_zero j)⟩
    · rename_i hheight
      have hrest := ih (display width column height c).1 (display width column height c).2
      have hcons := lineEnds_cons width column hheight c
      constructor
      · exact Nat.succ_le_succ hrest.length_le
      · have hlines := hrest.lines
        have hends := hcons (cs.take (scan width (display width column height c).1
          (display width column height c).2 cs).1)
        rw [List.take_succ_cons]
        simp only
        omega
      · exact hrest.full.imp_left (congrArg (· + 1))
      · rintro (_ | j) hj
        · simpa [lineEnds] using Nat.pos_of_ne_zero hheight
        · have hleast := hrest.least j (Nat.lt_of_succ_lt_succ hj)
          have hends := hcons (cs.take j)
          rw [List.take_succ_cons]
          omega

theorem scan_of_height_zero (width column : ℕ) (bytes : List UInt8) :
    scan width column 0 bytes = (0, column, 0) := by
  cases bytes <;> rfl

theorem scan_append (width column height : ℕ) (xs ys : List UInt8) :
    scan width column height (xs ++ ys) =
      let first := scan width column height xs
      let rest := scan width first.2.1 first.2.2 ys
      (first.1 + rest.1, rest.2) := by
  induction xs generalizing column height with
  | nil => simp [scan]
  | cons c cs ih =>
    rw [List.cons_append, scan, scan]
    split
    · rename_i hzero
      simp [hzero, scan_of_height_zero]
    · simp only [ih]
      rw [Nat.add_right_comm]

theorem windowLoop_of_height_zero (width column : ℕ) (ds : List BufferData) :
    windowLoop width column 0 ds = ([], ds) := by
  cases ds <;> rfl

/-- The window is the same whatever the chunks. -/
theorem windowLoop_spec (width column height : ℕ) (ds : List BufferData) :
    (windowLoop width column height ds).1.flatten = (ds.flatMap BufferData.pending).take
        (scan width column height (ds.flatMap BufferData.pending)).1 ∧
      (windowLoop width column height ds).2.flatMap BufferData.pending =
        (ds.flatMap BufferData.pending).drop
          (scan width column height (ds.flatMap BufferData.pending)).1 := by
  induction ds generalizing column height with
  | nil => simp [windowLoop, scan]
  | cons d ds ih =>
    rw [windowLoop, List.flatMap_cons]
    split
    · rename_i hzero
      rw [hzero, scan_of_height_zero]
      exact ⟨rfl, by simp⟩
    · have hwindow := scan_window width column height d.pending
      rw [scan_append]
      simp only
      generalize scan width column height d.pending = shown at hwindow ⊢
      obtain ⟨htaken, hleft⟩ := ih shown.2.1 shown.2.2
      have hpending : BufferData.pending { d with sp := d.sp + shown.1 } =
          d.pending.drop shown.1 := by
        simp [BufferData.pending, List.drop_drop]
      rw [List.flatten_cons, htaken, List.flatMap_cons, hleft, hpending]
      rcases hwindow.full with hall | hzero
      · rw [hall, List.take_length_add_append, List.take_length, List.drop_length_add_append,
          List.drop_length, List.nil_append]
        exact ⟨rfl, rfl⟩
      · rw [hzero, scan_of_height_zero, Nat.add_zero, List.take_zero, List.append_nil,
          List.drop_zero, List.take_append_of_le_length hwindow.length_le,
          List.drop_append_of_le_length hwindow.length_le]
        exact ⟨rfl, rfl⟩

theorem freePrinted_pending (ds : List BufferData) :
    (freePrinted ds).flatMap BufferData.pending = ds.flatMap BufferData.pending := by
  induction ds with
  | nil => rfl
  | cons d ds ih =>
    rw [freePrinted]
    split
    · rename_i hprinted
      rw [ih, List.flatMap_cons, BufferData.pending, hprinted, List.drop_length, List.nil_append]
    · rfl

theorem freePrinted_of_loaded {size : ℕ} {d : BufferData} {ds : List BufferData}
    (h : ∀ d' ∈ d :: ds, BufferData.Loaded size d') :
    (∀ d' ∈ freePrinted (d :: ds), BufferData.Loaded size d') ∧
      ∀ d', (d :: ds).getLast? = some d' →
        (d'.sp < d'.data.length ↔ freePrinted (d :: ds) ≠ []) := by
  rw [freePrinted, if_neg (h d List.mem_cons_self).1.ne]
  refine ⟨h, fun d' hd' => ?_⟩
  simp [(h d' (List.mem_of_getLast? hd')).1]

/-- The chunks that were displayed are the first ones, and all but one of them to the end. The last
chunk has bytes left as long as any has. -/
theorem windowLoop_loaded {size : ℕ} (width column height : ℕ) {ds : List BufferData}
    (h : ∀ d ∈ ds, BufferData.Loaded size d) :
    (∀ d ∈ freePrinted (windowLoop width column height ds).2, BufferData.Loaded size d) ∧
      ∀ d, (windowLoop width column height ds).2.getLast? = some d →
        (d.sp < d.data.length ↔ freePrinted (windowLoop width column height ds).2 ≠ []) := by
  induction ds generalizing column height with
  | nil => simp [windowLoop, freePrinted]
  | cons d ds ih =>
    obtain ⟨hd, hds⟩ := List.forall_mem_cons.mp h
    rw [windowLoop]
    split
    · exact freePrinted_of_loaded h
    · have hwindow := scan_window width column height d.pending
      simp only
      generalize scan width column height d.pending = shown at hwindow ⊢
      have hlength : d.pending.length = d.data.length - d.sp := List.length_drop
      have hsp := hd.1
      by_cases hall : shown.1 = d.pending.length
      · have hprinted : d.sp + shown.1 = d.data.length := by omega
        obtain ⟨hloaded, hlast⟩ := ih shown.2.1 shown.2.2 hds
        rw [freePrinted, if_pos hprinted]
        refine ⟨hloaded, fun d' hd' => ?_⟩
        rw [List.getLast?_cons] at hd'
        cases hrest : (windowLoop width shown.2.1 shown.2.2 ds).2.getLast? with
        | none =>
          rw [hrest, Option.getD_none, Option.some_inj] at hd'
          rw [List.getLast?_eq_none_iff.mp hrest, ← hd']
          simp [freePrinted, hprinted]
        | some last =>
          rw [hrest, Option.getD_some, Option.some_inj] at hd'
          exact hd' ▸ hlast last hrest
      · have hle := hwindow.length_le
        rw [hwindow.full.resolve_left hall, windowLoop_of_height_zero]
        refine freePrinted_of_loaded (List.forall_mem_cons.mpr ⟨⟨?_, hd.2⟩, hds⟩)
        simp only
        omega

theorem Fits.bufferFlushWindow {b : Buffer} (h : b.Fits) (width height : ℤ)
    (eraseFlag noMoreFlag failed : Bool) :
    let r := b.bufferFlushWindow width height eraseFlag noMoreFlag failed
    let n := (scan (windowWidth width) 1 (windowHeight height) b.pending).1
    r.2.1.Fits ∧ r.2.2.1 = b.pending.take n ∧ r.2.1.pending = b.pending.drop n := by
  unfold Buffer.bufferFlushWindow
  simp only
  split
  · rename_i hempty
    have hnone := h.pending_eq_nil_iff.mpr hempty
    exact ⟨h, by simp [hnone], by simp [hnone]⟩
  · obtain ⟨htaken, hleft⟩ := windowLoop_spec (windowWidth width) 1 (windowHeight height) b.chunks
    obtain ⟨hloaded, -⟩ := windowLoop_loaded (windowWidth width) 1 (windowHeight height) h.loaded
    refine ⟨⟨h.pos, hloaded⟩, htaken, ?_⟩
    rw [pending, freePrinted_pending, hleft, pending]

theorem Fits.status_eq_empty_iff {b : Buffer} (h : b.Fits) : b.status = .empty ↔ b.pending = [] := by
  rw [h.pending_eq_nil_iff, status]
  split <;> simp [*]

theorem Fits.offered_eq_nil_iff {b : Buffer} (h : b.Fits) :
    (iov MAX_CHUNKS 0 b.chunks).flatten = [] ↔ b.pending = [] := by
  constructor
  · intro hnone
    rw [h.pending_eq_nil_iff]
    cases hchunks : b.chunks with
    | nil => rfl
    | cons d ds =>
      rw [hchunks, MAX_CHUNKS, iov, if_pos (by decide), List.flatten_cons,
        List.append_eq_nil_iff] at hnone
      have hsent : d.data.length ≤ d.sp := List.drop_eq_nil_iff.mp hnone.1
      exact absurd (h.loaded d (by simp [hchunks])).1 (Nat.not_lt.mpr hsent)
  · intro hnone
    exact List.prefix_nil.mp (hnone ▸ iov_flatten_isPrefix MAX_CHUNKS 0 b.chunks)

theorem Fits.bufferFlushAvailable_status {b : Buffer} (h : b.Fits) (fd : ℤ) (written : Written)
    (hok : (b.bufferFlushAvailable fd written).1 ≠ .error) :
    (b.bufferFlushAvailable fd written).1 = .empty ↔
      (b.bufferFlushAvailable fd written).2.1.pending = [] := by
  unfold Buffer.bufferFlushAvailable at hok ⊢
  simp only at hok ⊢
  split at hok
  · exact absurd rfl hok
  rename_i hfd
  rw [if_neg hfd]
  split at hok
  · rename_i hnone
    rw [if_pos hnone]
    exact ⟨fun _ => h.offered_eq_nil_iff.mp hnone, fun _ => rfl⟩
  · rename_i hsome
    rw [if_neg hsome]
    cases written with
    | retry => exact ⟨nofun, fun hnone => absurd (h.offered_eq_nil_iff.mpr hnone) hsome⟩
    | failed => exact absurd rfl hok
    | bytes n => exact Fits.status_eq_empty_iff ⟨h.pos, (consume_spec n h.loaded).1⟩

theorem Fits.bufferWrite_status {b : Buffer} (h : b.Fits) (bytes : List UInt8) (written : Written)
    (hok : (b.bufferWrite bytes written).1 ≠ .error) :
    (b.bufferWrite bytes written).1 = .empty ↔ (b.bufferWrite bytes written).2.1.pending = [] := by
  rw [← (h.bufferWrite bytes written).1.status_eq_empty_iff]
  unfold Buffer.bufferWrite at hok ⊢
  split
  · rename_i hempty
    rw [if_pos hempty] at hok
    cases written with
    | failed => exact absurd rfl hok
    | retry => rfl
    | bytes n => rfl
  · rfl

theorem Fits.bufferFlushWindow_status {b : Buffer} (h : b.Fits) (width height : ℤ)
    (eraseFlag noMoreFlag failed : Bool)
    (hok : (b.bufferFlushWindow width height eraseFlag noMoreFlag failed).1 ≠ .error) :
    (b.bufferFlushWindow width height eraseFlag noMoreFlag failed).1 = .empty ↔
      (b.bufferFlushWindow width height eraseFlag noMoreFlag failed).2.1.pending = [] := by
  rw [← (h.bufferFlushWindow width height eraseFlag noMoreFlag failed).1.status_eq_empty_iff]
  unfold Buffer.bufferFlushWindow at hok ⊢
  split
  · rename_i hempty
    simp [status, hempty]
  · rename_i hsome
    rw [if_neg hsome] at hok
    cases failed with
    | true => exact absurd rfl hok
    | false => rfl

/-! ### Runs -/

inductive Call where
  | put (bytes : List UInt8)
  | putCrlf (bytes : List UInt8)
  | write (bytes : List UInt8) (written : Written)
  | flushAvailable (fd : ℤ) (written : Written)
  | flushWindow (width height : ℤ) (eraseFlag noMoreFlag failed : Bool)

namespace Call

/-- The status that is returned, the buffer, and the bytes that left it. -/
def apply (b : Buffer) : Call → Option BufferStatus × Buffer × List UInt8
  | put bytes => (none, b.bufferPut bytes, [])
  | putCrlf bytes => (none, b.bufferPutCrlf bytes, [])
  | write bytes written =>
    let r := b.bufferWrite bytes written
    (some r.1, r.2.1, r.2.2)
  | flushAvailable fd written =>
    let r := b.bufferFlushAvailable fd written
    (some r.1, r.2.1, r.2.2)
  | flushWindow width height eraseFlag noMoreFlag failed =>
    let r := b.bufferFlushWindow width height eraseFlag noMoreFlag failed
    (some r.1, r.2.1, r.2.2.1)

/-- The bytes that a call hands over for good. -/
def accepted (b : Buffer) : Call → List UInt8
  | put bytes => bytes
  | putCrlf bytes => crlf bytes
  | write bytes written => b.writeAccepts bytes written
  | flushAvailable _ _ => []
  | flushWindow .. => []

/-- `writev` writes no more than it was offered. -/
def Possible (b : Buffer) : Call → Prop
  | flushAvailable _ (.bytes n) => n ≤ (iov MAX_CHUNKS 0 b.chunks).flatten.length
  | _ => True

theorem apply_spec {b : Buffer} (h : b.Fits) {call : Call} (possible : call.Possible b) :
    (call.apply b).2.1.Fits ∧
      (call.apply b).2.2 ++ (call.apply b).2.1.pending = b.pending ++ call.accepted b := by
  cases call with
  | put bytes => exact h.bufferPut bytes
  | putCrlf bytes => exact h.bufferPutCrlf bytes
  | write bytes written => exact h.bufferWrite bytes written
  | flushAvailable fd written =>
    rw [accepted, List.append_nil]
    exact h.bufferFlushAvailable fd written fun n hn => by simpa [Possible, hn] using possible
  | flushWindow width height eraseFlag noMoreFlag failed =>
    obtain ⟨hfits, htaken, hleft⟩ :=
      h.bufferFlushWindow width height eraseFlag noMoreFlag failed
    refine ⟨hfits, ?_⟩
    rw [accepted, List.append_nil, apply]
    simp only
    rw [htaken, hleft, List.take_append_drop]

theorem apply_status {b : Buffer} (h : b.Fits) {call : Call} {status : BufferStatus}
    (hstatus : (call.apply b).1 = some status) (hok : status ≠ .error) :
    status = .empty ↔ (call.apply b).2.1.pending = [] := by
  cases call with
  | put bytes => exact nomatch hstatus
  | putCrlf bytes => exact nomatch hstatus
  | write bytes written =>
    obtain rfl := Option.some_inj.mp hstatus
    exact h.bufferWrite_status bytes written hok
  | flushAvailable fd written =>
    obtain rfl := Option.some_inj.mp hstatus
    exact h.bufferFlushAvailable_status fd written hok
  | flushWindow width height eraseFlag noMoreFlag failed =>
    obtain rfl := Option.some_inj.mp hstatus
    exact h.bufferFlushWindow_status width height eraseFlag noMoreFlag failed hok

end Call

/-- A run, with the bytes that were accepted and those that left the buffer. -/
inductive Run : Buffer → List UInt8 → List UInt8 → Buffer → Prop where
  | nil (b : Buffer) : Run b [] [] b
  | cons {b b' : Buffer} {input output : List UInt8} (call : Call) (possible : call.Possible b)
      (rest : Run (call.apply b).2.1 input output b') :
      Run b (call.accepted b ++ input) ((call.apply b).2.2 ++ output) b'

theorem Run.fits_queue {b b' : Buffer} {input output : List UInt8} (run : Run b input output b')
    (h : b.Fits) : b'.Fits ∧ b.pending ++ input = output ++ b'.pending := by
  induction run with
  | nil b => exact ⟨h, by simp⟩
  | cons call possible rest ih =>
    obtain ⟨hfits, hcall⟩ := Call.apply_spec h possible
    obtain ⟨hdone, hrest⟩ := ih hfits
    refine ⟨hdone, ?_⟩
    rw [← List.append_assoc, ← hcall, List.append_assoc, hrest, List.append_assoc]

section Reached

variable {pgsz size : ℕ} {input output : List UInt8} {b : Buffer}

/-- The bytes leave in the order in which they came, each of them once, whatever the size of the
chunks and however few of them `write` and `writev` take at a time. -/
theorem Run.in_order (hpgsz : 0 < pgsz) (run : Run (bufferNew pgsz size) input output b) :
    input = output ++ b.pending :=
  (run.fits_queue (fits_bufferNew hpgsz size)).2

/-- Two lines in chunks of two bytes, of which `writev` takes three bytes. -/
theorem twoLines_in_order :
    ∃ input output b, Run (bufferNew 4096 2) input output b ∧ input = [97, 13, 10, 98] ∧
      output = [97, 13, 10] ∧ input = output ++ b.pending := by
  have hoffered : 3 ≤ (iov MAX_CHUNKS 0
      ((bufferNew 4096 2).bufferPutCrlf [97, 10, 98]).chunks).flatten.length := by decide
  have run : Run (bufferNew 4096 2) _ _ _ := .cons (.putCrlf [97, 10, 98]) trivial
    (.cons (.flushAvailable 5 (.bytes 3)) hoffered (.nil _))
  exact ⟨_, _, _, run, by decide, by decide, Run.in_order (by decide) run⟩

/-- `BUFFER_EMPTY` is returned when every byte that was accepted has left the buffer, and only
then, unless the call fails. -/
theorem Run.empty_iff_all_sent (hpgsz : 0 < pgsz) (run : Run (bufferNew pgsz size) input output b)
    (call : Call) (possible : call.Possible b) {status : BufferStatus}
    (hstatus : (call.apply b).1 = some status) (hok : status ≠ .error) :
    status = .empty ↔ input ++ call.accepted b = output ++ (call.apply b).2.2 := by
  obtain ⟨hfits, hqueue⟩ := run.fits_queue (fits_bufferNew hpgsz size)
  have hcall := (Call.apply_spec hfits possible).2
  have hinput : input = output ++ b.pending := hqueue
  rw [Call.apply_status hfits hstatus hok, hinput, List.append_assoc, ← hcall,
    ← List.append_assoc, List.append_right_eq_self]

theorem twoLines_all_sent :
    ∃ input output b, Run (bufferNew 4096 2) input output b ∧
      ((Call.flushAvailable 5 (.bytes 4)).apply b).1 = some .empty ∧
      input ++ (Call.flushAvailable 5 (.bytes 4)).accepted b =
        output ++ ((Call.flushAvailable 5 (.bytes 4)).apply b).2.2 := by
  have hoffered : 4 ≤ (iov MAX_CHUNKS 0
      ((bufferNew 4096 2).bufferPutCrlf [97, 10, 98]).chunks).flatten.length := by decide
  have run : Run (bufferNew 4096 2) _ _ _ := .cons (.putCrlf [97, 10, 98]) trivial (.nil _)
  have hempty := Run.empty_iff_all_sent (by decide) run (.flushAvailable 5 (.bytes 4)) hoffered rfl
    (by decide)
  exact ⟨_, _, _, run, rfl, hempty.mp rfl⟩

end Reached

end Buffer
end Routerd.Buffers
