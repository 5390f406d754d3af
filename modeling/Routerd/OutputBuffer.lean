import Mathlib

/-!
# Output buffers

`buffer.c` keeps what a terminal is to be sent in a list of chunks of one size. Bytes are put in at the
end, with or without a carriage return before each line feed. They are taken out at the head, either
as many as `writev` accepts or a window of lines that `writev` is offered once. Whatever the chunks,
the bytes leave in the order in which they came, and each of them once.
-/

namespace Routerd.Buffers

/-! ### Data -/

/-- The bytes that were put into a chunk, `cp` of them, and how many were taken out again. -/
structure BufferData where
  data : List UInt8
  sp : ℕ

def BufferData.pending (d : BufferData) : List UInt8 := d.data.drop d.sp

structure Buffer where
  size : ℕ
  chunks : List BufferData

namespace Buffer

/-- What the buffer still has to send. -/
def pending (b : Buffer) : List UInt8 := b.chunks.flatMap BufferData.pending

def BUFFER_SIZE_DEFAULT : ℕ := 4096

/-- No size stands for the default one, in whole pages. -/
def bufferNew (pgsz size : ℕ) : Buffer :=
  ⟨if size ≠ 0 then size else ((BUFFER_SIZE_DEFAULT - 1) / pgsz + 1) * pgsz, []⟩

def bufferAdd (b : Buffer) : Buffer := { b with chunks := b.chunks ++ [⟨[], 0⟩] }

def avail (b : Buffer) : ℕ :=
  match b.chunks.getLast? with
  | some d => b.size - d.data.length
  | none => 0

/-- A chunk is added if there is none or the last one is full. -/
def ensure (b : Buffer) : Buffer :=
  match b.chunks.getLast? with
  | some d => if d.data.length = b.size then b.bufferAdd else b
  | none => b.bufferAdd

def copyIn (b : Buffer) (bytes : List UInt8) : Buffer :=
  { b with chunks := b.chunks.modifyLast fun d => { d with data := d.data ++ bytes } }

/-! ### Putting bytes in -/

def putLoop : ℕ → List UInt8 → Buffer → Buffer
  | 0, _, b => b
  | rounds + 1, bytes, b =>
    if bytes = [] then b
    else
      let b := b.ensure
      let chunk := if bytes.length ≤ b.avail then bytes.length else b.avail
      putLoop rounds (bytes.drop chunk) (b.copyIn (bytes.take chunk))

def bufferPut (b : Buffer) (bytes : List UInt8) : Buffer := putLoop bytes.length bytes b

def lineFeed : UInt8 := 10
def carriageReturn : UInt8 := 13

/-- `memchr` for a line feed, as the distance to it. -/
def findLf : List UInt8 → Option ℕ
  | [] => none
  | c :: cs => if c = lineFeed then some 0 else (findLf cs).map (· + 1)

/-- The loop of `buffer_put_crlf`, with the distance to the next line feed. -/
def putCrlfLoop : ℕ → List UInt8 → Option ℕ → Buffer → Buffer
  | 0, _, _, b => b
  | rounds + 1, bytes, lf, b =>
    if bytes = [] then b
    else
      let b := b.ensure
      let size := lf.getD bytes.length
      let avail := b.avail
      let chunk := if size ≤ avail then size else avail
      let b := b.copyIn (bytes.take chunk)
      let bytes := bytes.drop chunk
      if lf.isSome ∧ size ≤ avail then
        let b := b.ensure.copyIn [carriageReturn]
        let b := b.ensure.copyIn [lineFeed]
        putCrlfLoop rounds (bytes.drop 1) (findLf (bytes.drop 1)) b
      else putCrlfLoop rounds bytes (lf.map (· - chunk)) b

def bufferPutCrlf (b : Buffer) (bytes : List UInt8) : Buffer :=
  putCrlfLoop bytes.length bytes (findLf bytes) b

/-! ### Taking bytes out -/

inductive BufferStatus where
  | error | empty | pending
  deriving DecidableEq

/-- What a system call that writes returns: a count, an error that calls for another attempt, or
another error. -/
inductive Written where
  | bytes (n : ℕ)
  | retry
  | failed

def MAX_CHUNKS : ℕ := 16
def MAX_FLUSH : ℕ := 131072

/-- The vector that `buffer_flush_available` hands to `writev`. -/
def iov : ℕ → ℕ → List BufferData → List (List UInt8)
  | 0, _, _ => []
  | _, _, [] => []
  | iovcnt + 1, nbyte, d :: ds =>
    if nbyte < MAX_FLUSH then d.pending :: iov iovcnt (nbyte + d.pending.length) ds else []

/-- The chunks that were written are freed. -/
def consume : ℕ → List BufferData → List BufferData
  | 0, ds => ds
  | _, [] => []
  | n + 1, d :: ds =>
    if n + 1 < d.pending.length then { d with sp := d.sp + (n + 1) } :: ds
    else consume (n + 1 - d.pending.length) ds

def status (b : Buffer) : BufferStatus := if b.chunks = [] then .empty else .pending

/-- The result, the buffer and the bytes that were sent. -/
def bufferFlushAvailable (b : Buffer) (fd : ℤ) (written : Written) :
    BufferStatus × Buffer × List UInt8 :=
  let offered := (iov MAX_CHUNKS 0 b.chunks).flatten
  if fd < 0 then (.error, b, [])
  else if offered = [] then (.empty, b, [])
  else
    match written with
    | .retry => (.pending, b, [])
    | .failed => (.error, b, [])
    | .bytes n =>
      let b := { b with chunks := consume n b.chunks }
      (b.status, b, offered.take n)

/-- The buffer keeps what `write` does not take; it does not try while there is something left. -/
def bufferWrite (b : Buffer) (bytes : List UInt8) (written : Written) :
    BufferStatus × Buffer × List UInt8 :=
  if b.chunks = [] then
    match written with
    | .failed => (.error, b, [])
    | .retry =>
      let b := b.bufferPut bytes
      (b.status, b, [])
    | .bytes n =>
      let b := if n < bytes.length then b.bufferPut (bytes.drop n) else b
      (b.status, b, bytes.take n)
  else
    let b := b.bufferPut bytes
    (b.status, b, [])

/-- The column and the lines that are left after a byte was displayed. -/
def display (width : ℕ) (column height : ℕ) (c : UInt8) : ℕ × ℕ :=
  if c = carriageReturn then (1, height)
  else if c = lineFeed ∨ column = width then (1, height - 1)
  else (column + 1, height)

/-- How many bytes are displayed before the lines are used up, with the column and the lines after
them. -/
def scan (width : ℕ) : ℕ → ℕ → List UInt8 → ℕ × ℕ × ℕ
  | column, height, [] => (0, column, height)
  | column, height, c :: cs =>
    if height = 0 then (0, column, height)
    else
      let next := display width column height c
      let rest := scan width next.1 next.2 cs
      (rest.1 + 1, rest.2)

/-- The loop of `buffer_flush_window` over the chunks: the vector and the chunks after it. -/
def windowLoop (width : ℕ) : ℕ → ℕ → List BufferData → List (List UInt8) × List BufferData
  | _, _, [] => ([], [])
  | column, height, d :: ds =>
    if height = 0 then ([], d :: ds)
    else
      let shown := scan width column height d.pending
      let rest := windowLoop width shown.2.1 shown.2.2 ds
      (d.pending.take shown.1 :: rest.1, { d with sp := d.sp + shown.1 } :: rest.2)

/-- The lines of a window but the one for `--More--`. -/
def windowHeight (height : ℤ) : ℕ :=
  if height < 1 then 1 else if 2 ≤ height then (height - 1).toNat else height.toNat

def windowWidth (width : ℤ) : ℕ := if width < 1 then 1 else width.toNat

def freePrinted : List BufferData → List BufferData
  | [] => []
  | d :: ds => if d.sp = d.data.length then freePrinted ds else d :: ds

/-- The mark at the end of a window, with its terminator, and what erases it from the screen. -/
def more : List UInt8 := [32, 45, 45, 77, 111, 114, 101, 45, 45, 32, 0]

def erase : List UInt8 := List.replicate 10 8 ++ List.replicate 10 32 ++ List.replicate 10 8

/-- The window is offered to `writev` once; what is not accepted is not kept. The bytes of the window
are returned and, with the marks around them, what is offered. -/
def bufferFlushWindow (b : Buffer) (width height : ℤ) (eraseFlag noMoreFlag failed : Bool) :
    BufferStatus × Buffer × List UInt8 × List UInt8 :=
  if b.chunks = [] then (.empty, b, [], [])
  else
    let shown := windowLoop (windowWidth width) 1 (windowHeight height) b.chunks
    let left := match shown.2.getLast? with
      | some d => decide (d.sp < d.data.length)
      | none => false
    let offered := (if eraseFlag then erase else []) ++ shown.1.flatten ++
      if left && !noMoreFlag then more else []
    let b := { b with chunks := freePrinted shown.2 }
    (if failed then .error else b.status, b, shown.1.flatten, offered)

/-! ### Chunks -/

/-- `0 <= sp < cp <= size`: a chunk is freed with its last byte. -/
def BufferData.Loaded (size : ℕ) (d : BufferData) : Prop :=
  d.sp < d.data.length ∧ d.data.length ≤ size

/-- What holds of a buffer between two calls. -/
structure Fits (b : Buffer) : Prop where
  pos : 0 < b.size
  loaded : ∀ d ∈ b.chunks, BufferData.Loaded b.size d

/-- What holds while bytes are copied: the last chunk may be a fresh one. -/
structure Filling (b : Buffer) : Prop where
  pos : 0 < b.size
  loaded : ∀ ds d, b.chunks = ds ++ [d] →
    (∀ d' ∈ ds, BufferData.Loaded b.size d') ∧ d.sp ≤ d.data.length ∧ d.data.length ≤ b.size ∧
      (d.data.length = b.size → d.sp < d.data.length)

theorem fits_bufferNew {pgsz : ℕ} (h : 0 < pgsz) (size : ℕ) : (bufferNew pgsz size).Fits := by
  refine ⟨?_, fun _ hd => absurd hd List.not_mem_nil⟩
  simp only [bufferNew]
  split
  · omega
  · exact Nat.mul_pos (Nat.succ_pos _) h

theorem Fits.filling {b : Buffer} (h : b.Fits) : b.Filling := by
  refine ⟨h.pos, fun ds d hds => ?_⟩
  have hd := h.loaded d (by simp [hds])
  exact ⟨fun d' hd' => h.loaded d' (by simp [hds, hd']), hd.1.le, hd.2, fun _ => hd.1⟩

/-- Each chunk has something to send, so there are chunks as long as there are bytes. -/
theorem Fits.pending_eq_nil_iff {b : Buffer} (h : b.Fits) : b.pending = [] ↔ b.chunks = [] := by
  constructor
  · intro hnone
    refine List.eq_nil_iff_forall_not_mem.mpr fun d hd => ?_
    have hsent : d.data.length ≤ d.sp :=
      List.drop_eq_nil_iff.mp (List.flatMap_eq_nil_iff.mp hnone d hd)
    exact absurd (h.loaded d hd).1 (Nat.not_lt.mpr hsent)
  · intro hempty
    rw [pending, hempty, List.flatMap_nil]

theorem avail_eq {b : Buffer} {ds : List BufferData} {d : BufferData} (h : b.chunks = ds ++ [d]) :
    b.avail = b.size - d.data.length := by
  rw [avail, h, List.getLast?_concat]

theorem Filling.ensure {b : Buffer} (h : b.Filling) :
    b.ensure.pending = b.pending ∧ b.ensure.size = b.size ∧
      ∃ ds d, b.ensure.chunks = ds ++ [d] ∧ (∀ d' ∈ ds, BufferData.Loaded b.size d') ∧
        d.sp ≤ d.data.length ∧ d.data.length < b.size := by
  have hpending : b.bufferAdd.pending = b.pending := by
    simp [pending, bufferAdd, BufferData.pending]
  unfold Buffer.ensure
  cases hlast : b.chunks.getLast? with
  | none =>
    have hempty := List.getLast?_eq_none_iff.mp hlast
    exact ⟨hpending, rfl, b.chunks, ⟨[], 0⟩, rfl, by simp [hempty], le_rfl, h.pos⟩
  | some d =>
    obtain ⟨ds, hds⟩ := List.getLast?_eq_some_iff.mp hlast
    obtain ⟨hloaded, hsp, hle, hfull⟩ := h.loaded ds d hds
    simp only
    split
    · rename_i hsize
      refine ⟨hpending, rfl, b.chunks, ⟨[], 0⟩, rfl, fun d' hd' => ?_, le_rfl, h.pos⟩
      rw [hds] at hd'
      rcases List.mem_append.mp hd' with hd' | hd'
      · exact hloaded d' hd'
      · rw [List.mem_singleton.mp hd']
        exact ⟨hfull hsize, hle⟩
    · rename_i hroom
      exact ⟨rfl, rfl, ds, d, hds, hloaded, hsp, lt_of_le_of_ne hle hroom⟩

theorem Filling.avail_pos {b : Buffer} (h : b.Filling) : 0 < b.ensure.avail := by
  obtain ⟨-, hsize, ds, d, hds, -, -, hlt⟩ := h.ensure
  rw [avail_eq hds]
  omega

theorem Filling.put_chunk {b : Buffer} (h : b.Filling) (bytes : List UInt8)
    (hroom : bytes.length ≤ b.ensure.avail) :
    (b.ensure.copyIn bytes).Filling ∧ (bytes ≠ [] → (b.ensure.copyIn bytes).Fits) ∧
      (b.ensure.copyIn bytes).pending = b.pending ++ bytes := by
  obtain ⟨hpending, hsize, ds, d, hds, hloaded, hsp, hlt⟩ := h.ensure
  rw [avail_eq hds] at hroom
  have hchunks : (b.ensure.copyIn bytes).chunks = ds ++ [{ d with data := d.data ++ bytes }] := by
    rw [copyIn, hds, List.modifyLast_concat]
  have hsize' : (b.ensure.copyIn bytes).size = b.size := hsize
  have hlength : (d.data ++ bytes).length = d.data.length + bytes.length := List.length_append
  refine ⟨⟨hsize' ▸ h.pos, fun ds' d' hds' => ?_⟩, fun hne => ⟨hsize' ▸ h.pos, fun d' hd' => ?_⟩, ?_⟩
  · obtain ⟨rfl, hd⟩ := List.append_inj' (hchunks.symm.trans hds') rfl
    obtain rfl := List.singleton_inj.mp hd
    rw [hsize']
    exact ⟨hloaded, by simp only; omega, by simp only; omega, by simp only; omega⟩
  · rw [hchunks] at hd'
    rw [hsize']
    rcases List.mem_append.mp hd' with hd' | hd'
    · exact hloaded d' hd'
    · have hpos : 0 < bytes.length := List.length_pos_iff.mpr hne
      rw [List.mem_singleton.mp hd']
      exact ⟨by simp only; omega, by simp only; omega⟩
  · rw [← hpending, pending, pending, hchunks, hds]
    simp [BufferData.pending, List.drop_append_of_le_length hsp]

theorem Fits.put_some {b : Buffer} (h : b.Fits) {bytes : List UInt8} (hne : bytes ≠ []) {chunk : ℕ}
    (hchunk : (if bytes.length ≤ b.ensure.avail then bytes.length else b.ensure.avail) = chunk) :
    0 < chunk ∧ (b.ensure.copyIn (bytes.take chunk)).Fits ∧
      (b.ensure.copyIn (bytes.take chunk)).pending = b.pending ++ bytes.take chunk := by
  have hlength : 0 < bytes.length := List.length_pos_iff.mpr hne
  have hpos := h.filling.avail_pos
  have hbound : 0 < chunk ∧ chunk ≤ b.ensure.avail := by split at hchunk <;> omega
  have htake : bytes.take chunk ≠ [] := by
    rw [Ne, List.take_eq_nil_iff, not_or]
    exact ⟨hbound.1.ne', hne⟩
  obtain ⟨-, hfits, hpending⟩ := h.filling.put_chunk (bytes.take chunk)
    ((List.length_take_le _ _).trans hbound.2)
  exact ⟨hbound.1, hfits htake, hpending⟩

/-! ### What is put in -/

theorem putLoop_spec {b : Buffer} (h : b.Fits) {rounds : ℕ} {bytes : List UInt8}
    (hrounds : bytes.length ≤ rounds) :
    (putLoop rounds bytes b).Fits ∧ (putLoop rounds bytes b).pending = b.pending ++ bytes := by
  induction rounds generalizing b bytes with
  | zero =>
    have hnil : bytes = [] := List.length_eq_zero_iff.mp (by omega)
    simp [putLoop, hnil, h]
  | succ rounds ih =>
    rw [putLoop]
    split
    · rename_i hnil
      simp [hnil, h]
    · rename_i hne
      have hlength : 0 < bytes.length := List.length_pos_iff.mpr hne
      simp only
      generalize hchunk : (if bytes.length ≤ b.ensure.avail then bytes.length
        else b.ensure.avail) = chunk
      obtain ⟨hpos, hfits, hpending⟩ := h.put_some hne hchunk
      obtain ⟨hdone, heq⟩ := @ih _ hfits (bytes.drop chunk) (by rw [List.length_drop]; omega)
      refine ⟨hdone, ?_⟩
      rw [heq, hpending, List.append_assoc, List.take_append_drop]

theorem Fits.bufferPut {b : Buffer} (h : b.Fits) (bytes : List UInt8) :
    (b.bufferPut bytes).Fits ∧ (b.bufferPut bytes).pending = b.pending ++ bytes :=
  putLoop_spec h le_rfl

/-- A carriage return before each line feed. -/
def crlf (bytes : List UInt8) : List UInt8 :=
  bytes.flatMap fun c => if c = lineFeed then [carriageReturn, lineFeed] else [c]

theorem crlf_append (xs ys : List UInt8) : crlf (xs ++ ys) = crlf xs ++ crlf ys :=
  List.flatMap_append

theorem crlf_of_not_mem {bytes : List UInt8} (h : lineFeed ∉ bytes) : crlf bytes = bytes := by
  induction bytes with
  | nil => rfl
  | cons c cs ih =>
    obtain ⟨hc, hcs⟩ := not_or.mp (mt List.mem_cons.mpr h)
    rw [crlf, List.flatMap_cons, if_neg (Ne.symm hc)]
    exact congrArg (c :: ·) (ih hcs)

theorem findLf_eq_none {bytes : List UInt8} (h : lineFeed ∉ bytes) : findLf bytes = none := by
  induction bytes with
  | nil => rfl
  | cons c cs ih =>
    obtain ⟨hc, hcs⟩ := not_or.mp (mt List.mem_cons.mpr h)
    rw [findLf, if_neg (Ne.symm hc), ih hcs, Option.map_none]

theorem findLf_line {line : List UInt8} (h : lineFeed ∉ line) (rest : List UInt8) :
    findLf (line ++ lineFeed :: rest) = some line.length := by
  induction line with
  | nil => simp [findLf]
  | cons c cs ih =>
    obtain ⟨hc, hcs⟩ := not_or.mp (mt List.mem_cons.mpr h)
    rw [List.cons_append, findLf, if_neg (Ne.symm hc), ih hcs]
    rfl

theorem line_cases (bytes : List UInt8) :
    lineFeed ∉ bytes ∨ ∃ line rest, bytes = line ++ lineFeed :: rest ∧ lineFeed ∉ line := by
  by_cases h : lineFeed ∈ bytes
  · obtain ⟨line, rest, heq, hline⟩ := List.eq_append_cons_of_mem h
    exact .inr ⟨line, rest, heq, hline⟩
  · exact .inl h

/-- The line feed that the loop knows of is the next one of the bytes that are left, whichever part
of a line the chunk had room for. -/
theorem putCrlfLoop_spec {b : Buffer} (h : b.Fits) {rounds : ℕ} {bytes : List UInt8}
    (hrounds : bytes.length ≤ rounds) :
    (putCrlfLoop rounds bytes (findLf bytes) b).Fits ∧
      (putCrlfLoop rounds bytes (findLf bytes) b).pending = b.pending ++ crlf bytes := by
  induction rounds generalizing b bytes with
  | zero =>
    have hnil : bytes = [] := List.length_eq_zero_iff.mp (by omega)
    simp [putCrlfLoop, hnil, h, crlf]
  | succ rounds ih =>
    by_cases hnil : bytes = []
    · simp [putCrlfLoop, hnil, h, crlf]
    have hlength : 0 < bytes.length := List.length_pos_iff.mpr hnil
    rw [putCrlfLoop, if_neg hnil]
    simp only
    rcases line_cases bytes with hfree | ⟨line, rest, rfl, hline⟩
    · -- no line feed is left: the rest is copied as it is
      rw [findLf_eq_none hfree]
      simp only [Option.getD_none, Option.isSome_none, Bool.false_eq_true, false_and, if_false,
        Option.map_none]
      generalize hchunk : (if bytes.length ≤ b.ensure.avail then bytes.length
        else b.ensure.avail) = chunk
      obtain ⟨hpos, hfits, hpending⟩ := h.put_some hnil hchunk
      have hfree' : lineFeed ∉ bytes.drop chunk := fun hmem => hfree (List.mem_of_mem_drop hmem)
      have hih := @ih _ hfits (bytes.drop chunk) (by rw [List.length_drop]; omega)
      rw [findLf_eq_none hfree', crlf_of_not_mem hfree'] at hih
      refine ⟨hih.1, ?_⟩
      rw [hih.2, hpending, List.append_assoc, List.take_append_drop, crlf_of_not_mem hfree]
    · rw [findLf_line hline]
      simp only [Option.getD_some, Option.isSome_some, true_and, Option.map_some]
      rw [List.length_append, List.length_cons] at hrounds
      by_cases hroom : line.length ≤ b.ensure.avail
      · -- the whole line, and then the two bytes that end it
        rw [if_pos hroom, if_pos hroom, List.take_left, List.drop_left, List.drop_one,
          List.tail_cons]
        obtain ⟨hcopied, -, hpending⟩ := h.filling.put_chunk line hroom
        obtain ⟨hreturn, -, hpending₁⟩ := hcopied.put_chunk [carriageReturn] hcopied.avail_pos
        obtain ⟨-, hfeed, hpending₂⟩ := hreturn.put_chunk [lineFeed] hreturn.avail_pos
        obtain ⟨hdone, heq⟩ := @ih _ (hfeed (List.cons_ne_nil _ _)) rest (by omega)
        refine ⟨hdone, ?_⟩
        rw [heq, hpending₂, hpending₁, hpending, crlf_append, crlf_of_not_mem hline]
        simp [crlf]
      · -- the part of the line that fits
        rw [if_neg hroom, if_neg hroom, List.take_append_of_le_length (by omega),
          List.drop_append_of_le_length (by omega)]
        have hlong : line ≠ [] := List.ne_nil_of_length_pos (by omega)
        obtain ⟨hpos, hfits, hpending⟩ := h.put_some hlong (if_neg hroom)
        have hline' : lineFeed ∉ line.drop b.ensure.avail :=
          fun hmem => hline (List.mem_of_mem_drop hmem)
        have hih := @ih _ hfits (line.drop b.ensure.avail ++ lineFeed :: rest)
          (by rw [List.length_append, List.length_drop, List.length_cons]; omega)
        rw [findLf_line hline', List.length_drop, crlf_append, crlf_of_not_mem hline'] at hih
        refine ⟨hih.1, ?_⟩
        rw [hih.2, hpending, crlf_append, crlf_of_not_mem hline, List.append_assoc,
          ← List.append_assoc (List.take _ _), List.take_append_drop]

theorem Fits.bufferPutCrlf {b : Buffer} (h : b.Fits) (bytes : List UInt8) :
    (b.bufferPutCrlf bytes).Fits ∧ (b.bufferPutCrlf bytes).pending = b.pending ++ crlf bytes :=
  putCrlfLoop_spec h le_rfl

/-! ### What is taken out -/

theorem iov_flatten_isPrefix (iovcnt nbyte : ℕ) (ds : List BufferData) :
    (iov iovcnt nbyte ds).flatten <+: ds.flatMap BufferData.pending := by
  induction ds generalizing iovcnt nbyte with
  | nil => cases iovcnt <;> simp [iov]
  | cons d ds ih =>
    cases iovcnt with
    | zero => simp [iov]
    | succ iovcnt =>
      rw [iov]
      split
      · rw [List.flatten_cons, List.flatMap_cons]
        exact (List.prefix_append_right_inj _).mpr (ih _ _)
      · simp

theorem consume_spec {size : ℕ} (n : ℕ) {ds : List BufferData}
    (h : ∀ d ∈ ds, BufferData.Loaded size d) :
    (∀ d ∈ consume n ds, BufferData.Loaded size d) ∧
      (consume n ds).flatMap BufferData.pending = (ds.flatMap BufferData.pending).drop n := by
  induction ds generalizing n with
  | nil => cases n <;> simp [consume]
  | cons d ds ih =>
    obtain ⟨hd, hds⟩ := List.forall_mem_cons.mp h
    cases n with
    | zero => exact ⟨h, by simp [consume]⟩
    | succ n =>
      rw [consume, List.flatMap_cons]
      split
      · rename_i hlt
        have hlength : d.pending.length = d.data.length - d.sp := List.length_drop
        refine ⟨List.forall_mem_cons.mpr ⟨⟨by simp only; omega, hd.2⟩, hds⟩, ?_⟩
        rw [List.flatMap_cons, List.drop_append_of_le_length hlt.le]
        simp [BufferData.pending, List.drop_drop]
      · rename_i hge
        obtain ⟨hloaded, heq⟩ := ih (n + 1 - d.pending.length) hds
        have hall : d.pending.drop (n + 1) = [] := List.drop_eq_nil_of_le (by omega)
        refine ⟨hloaded, ?_⟩
        rw [heq, List.drop_append, hall, List.nil_append]

theorem Fits.bufferFlushAvailable {b : Buffer} (h : b.Fits) (fd : ℤ) (written : Written)
    (hwritten : ∀ n, written = .bytes n → n ≤ (iov MAX_CHUNKS 0 b.chunks).flatten.length) :
    (b.bufferFlushAvailable fd written).2.1.Fits ∧
      (b.bufferFlushAvailable fd written).2.2 ++ (b.bufferFlushAvailable fd written).2.1.pending =
        b.pending := by
  unfold Buffer.bufferFlushAvailable
  simp only
  split
  · exact ⟨h, rfl⟩
  split
  · exact ⟨h, rfl⟩
  cases written with
  | retry => exact ⟨h, rfl⟩
  | failed => exact ⟨h, rfl⟩
  | bytes n =>
    obtain ⟨hloaded, hrest⟩ := consume_spec n h.loaded
    refine ⟨⟨h.pos, hloaded⟩, ?_⟩
    obtain ⟨kept, hkept⟩ := iov_flatten_isPrefix MAX_CHUNKS 0 b.chunks
    have hn := hwritten n rfl
    rw [pending, pending, hrest, ← hkept, List.drop_append_of_le_length hn, ← List.append_assoc,
      List.take_append_drop]

/-- What `buffer_write` answers for: nothing after an error, and else all it was given. -/
def writeAccepts (b : Buffer) (bytes : List UInt8) : Written → List UInt8
  | .failed => if b.chunks = [] then [] else bytes
  | _ => bytes

theorem Fits.bufferWrite {b : Buffer} (h : b.Fits) (bytes : List UInt8) (written : Written) :
    (b.bufferWrite bytes written).2.1.Fits ∧
      (b.bufferWrite bytes written).2.2 ++ (b.bufferWrite bytes written).2.1.pending =
        b.pending ++ b.writeAccepts bytes written := by
  unfold Buffer.bufferWrite
  split
  · rename_i hempty
    have hnone := h.pending_eq_nil_iff.mpr hempty
    cases written with
    | failed => exact ⟨h, by simp [writeAccepts, hempty]⟩
    | retry => exact h.bufferPut bytes
    | bytes n =>
      obtain ⟨hfits, hput⟩ := h.bufferPut (bytes.drop n)
      simp only [writeAccepts]
      split
      · exact ⟨hfits, by rw [hput, hnone, List.nil_append, List.take_append_drop, List.nil_append]⟩
      · exact ⟨h, by rw [hnone, List.take_of_length_le (by omega), List.append_nil, List.nil_append]⟩
  · rename_i hsome
    obtain ⟨hfits, hput⟩ := h.bufferPut bytes
    refine ⟨hfits, ?_⟩
    cases written <;> simp [writeAccepts, hsome, hput]

end Buffer
end Routerd.Buffers
