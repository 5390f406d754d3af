import Routerd.NetlinkSocket

/-!
# Capture files of netlink messages

`nldump` writes a pcap file: a file header, and for each message a packet header, a cooked header
and the message. `monitor_from_file` of `nlsniff` and of `nlhex` reads it back; the two differ in
the handler that they call. Their loop asks for the end of the file before it reads a record, so
that the end is found by a record that is not there.
-/

namespace Routerd.Capture
open ByteMemory

/-! ### Writing -/

/-- `pcap_file_hdr_t` with the network type of netlink. -/
def fileHdr : Mem :=
  bytes32 0xa1b2c3d4 ++ bytes16 2 ++ bytes16 4 ++ bytes32 0 ++ bytes32 0 ++ bytes32 0x00040000 ++
    bytes32 0xfd

def pktHdr (len : ℕ) : Mem := bytes32 0 ++ bytes32 0 ++ bytes32 len ++ bytes32 len

def cookedHdr : Mem :=
  bytes16 0x0400 ++ bytes16 0x3803 ++ bytes16 0 ++ bytes16 0 ++ bytes16 0 ++ bytes16 0 ++
    bytes16 0 ++ bytes16 0

/-- The handler of `nldump`; its state is what has been written. -/
def dumpMsg : RtnlListenFilter Mem := fun file n =>
  (0, file ++ pktHdr (16 + nlmsgLen n) ++ cookedHdr ++ n.take (nlmsgLen n))

def nldump (msgs : List Mem) : Mem := msgs.foldl (fun file n => (dumpMsg file n).2) fileHdr

/-! ### Reading -/

structure Stream where
  rest : Mem
  eof : Bool
  deriving DecidableEq

/-- `fread` of one item. Where the file ends in it, the bytes that are left are stored and the
indicator is set. -/
def Stream.fread (file : Stream) (dst : Mem) (size : ℕ) : Except Fault (Stream × Mem) :=
  let got := file.rest.take size
  if size = 0 then .ok (file, dst)
  else if got.length ≤ dst.length then
    .ok (⟨file.rest.drop size, file.eof || decide (got.length < size)⟩,
      got ++ dst.drop got.length)
  else .error .overflow

/-- What the locals of the loop hold when an iteration begins. -/
structure Locals where
  pp : Mem
  ph : Mem
  buf : Mem
  ppSize : pp.length = 16
  phSize : ph.length = 16
  bufSize : buf.length = 10000

structure Frame where
  hdr : Mem
  hdrSize : hdr.length = 24
  locals : ℕ → Locals

/-- The three reads of an iteration; `incl_len` is used whether it was read or not. -/
def readRecord (l : Locals) (file : Stream) : Except Fault (Stream × Mem) := do
  let (file, pp) ← file.fread l.pp 16
  let (file, _) ← file.fread l.ph 16
  file.fread l.buf (sizeSub (le32 pp 8).toNat 16)

structure Replay (σ : Type) where
  handed : List Mem
  state : σ
  result : Option (Except Fault ℕ)

def recordLoop {σ : Type} (handler : RtnlListenFilter σ) (locals : ℕ → Locals) :
    ℕ → ℕ → σ → Stream → Replay σ
  | 0, _, s, _ => ⟨[], s, none⟩
  | fuel + 1, i, s, file =>
    if file.eof then ⟨[], s, some (.ok 0)⟩
    else
      match readRecord (locals i) file with
      | .error e => ⟨[], s, some (.error e)⟩
      | .ok (file, buf) =>
        let r := recordLoop handler locals fuel (i + 1) (handler s buf).2 file
        { r with handed := buf :: r.handed }

/-- `monitor_from_file`; two more rounds than bytes are enough for its loop. -/
def monitorFromFile {σ : Type} (handler : RtnlListenFilter σ) (frame : Frame) (s : σ)
    (content : Mem) : Replay σ :=
  match (Stream.mk content false).fread frame.hdr 24 with
  | .error e => ⟨[], s, some (.error e)⟩
  | .ok (file, hdr) =>
    if le32 hdr 20 ≠ 0xfd then ⟨[], s, some (.ok 1)⟩
    else recordLoop handler frame.locals (content.length + 2) 0 s file

/-! ### The loop ends -/

theorem fread_ok {file file' : Stream} {dst dst' : Mem} {size : ℕ}
    (h : file.fread dst size = .ok (file', dst')) :
    file'.rest.length ≤ file.rest.length ∧ (file.eof = true → file'.eof = true) ∧
      (0 < size → file'.eof = true ∨ file'.rest.length + size ≤ file.rest.length) := by
  simp only [Stream.fread] at h
  split at h
  · cases h
    exact ⟨le_rfl, id, fun hpos => by omega⟩
  · split at h
    · cases h
      simp only [List.length_drop, List.length_take, Bool.or_eq_true, decide_eq_true_eq]
      exact ⟨by omega, Or.inl, fun _ => by omega⟩
    · cases h

theorem readRecord_ok {l : Locals} {file file' : Stream} {buf : Mem}
    (h : readRecord l file = .ok (file', buf)) :
    file'.eof = true ∨ file'.rest.length < file.rest.length := by
  obtain ⟨⟨file₁, pp⟩, h₁, h⟩ := bind_eq_ok h
  obtain ⟨⟨file₂, ph⟩, h₂, h₃⟩ := bind_eq_ok h
  obtain ⟨-, -, hused⟩ := fread_ok h₁
  obtain ⟨hle₂, heof₂, -⟩ := fread_ok h₂
  obtain ⟨hle₃, heof₃, -⟩ := fread_ok h₃
  rcases hused (by omega) with heof | hless
  · exact Or.inl (heof₃ (heof₂ heof))
  · exact Or.inr (by omega)

theorem recordLoop_ends {σ : Type} (handler : RtnlListenFilter σ) (locals : ℕ → Locals)
    {fuel : ℕ} (i : ℕ) (s : σ) {file : Stream}
    (h : (file.eof = true ∧ 0 < fuel) ∨ file.rest.length + 1 < fuel) :
    (recordLoop handler locals fuel i s file).result ≠ none := by
  induction fuel generalizing i s file with
  | zero => omega
  | succ fuel ih =>
    rw [recordLoop]
    split
    · simp
    · rename_i hopen
      have hlong : file.rest.length + 1 < fuel + 1 := h.resolve_left fun hend => hopen hend.1
      split
      · simp
      · rename_i file' buf hread
        apply ih
        rcases readRecord_ok hread with heof | hless
        · exact Or.inl ⟨heof, by omega⟩
        · exact Or.inr (by omega)

theorem monitorFromFile_ends {σ : Type} (handler : RtnlListenFilter σ) (frame : Frame) (s : σ)
    (content : Mem) : (monitorFromFile handler frame s content).result ≠ none := by
  unfold monitorFromFile
  split
  · simp
  · rename_i file hdr' hread
    split
    · simp
    · have hle : file.rest.length ≤ content.length := (fread_ok hread).1
      exact recordLoop_ends handler frame.locals 0 s (Or.inr (by omega))

/-! ### Reading back what was written -/

structure Message where
  bytes : Mem
  len : nlmsgLen bytes = bytes.length
  least : 16 ≤ bytes.length
  most : bytes.length ≤ 10000

def message (buf : Mem) : Mem := buf.take (nlmsgLen buf)

def record (m : Message) : Mem := pktHdr (16 + m.bytes.length) ++ cookedHdr ++ m.bytes

theorem nldump_eq (msgs : List Message) :
    nldump (msgs.map (·.bytes)) = fileHdr ++ (msgs.map record).flatten := by
  have hfold : ∀ file, (msgs.map (·.bytes)).foldl (fun file n => (dumpMsg file n).2) file =
      file ++ (msgs.map record).flatten := by
    induction msgs with
    | nil => simp
    | cons m msgs ih =>
      intro file
      rw [List.map_cons, List.foldl_cons, ih, dumpMsg, m.len, List.take_length, List.map_cons,
        List.flatten_cons, record]
      simp only [List.append_assoc]
  exact hfold fileHdr

theorem fread_append {item rest dst : Mem} {size : ℕ} (hsize : item.length = size)
    (hpos : 0 < size) (hdst : size ≤ dst.length) :
    (Stream.mk (item ++ rest) false).fread dst size =
      .ok (⟨rest, false⟩, item ++ dst.drop size) := by
  subst hsize
  simp [Stream.fread, hdst, hpos.ne']

theorem inclLen_pktHdr {len : ℕ} (h : len < 2 ^ 32) : (le32 (pktHdr len) 8).toNat = len :=
  le32_bytes32 h (bytes32 len)

theorem readRecord_record (l : Locals) (m : Message) (rest : Mem) :
    readRecord l ⟨record m ++ rest, false⟩ =
      .ok (⟨rest, false⟩, m.bytes ++ l.buf.drop m.bytes.length) := by
  have hleast := m.least
  have hmost := m.most
  have hpp : l.pp.drop 16 = [] := List.drop_of_length_le l.ppSize.le
  have hlen : (le32 (pktHdr (16 + m.bytes.length)) 8).toNat = 16 + m.bytes.length :=
    inclLen_pktHdr (by omega)
  have hbuf : m.bytes.length ≤ l.buf.length := by rw [l.bufSize]; exact hmost
  have hpkt : (pktHdr (16 + m.bytes.length)).length = 16 := rfl
  have hcooked : cookedHdr.length = 16 := rfl
  rw [readRecord, record, List.append_assoc, List.append_assoc,
    fread_append hpkt (by omega) l.ppSize.ge, ok_bind]
  simp only []
  rw [fread_append hcooked (by omega) l.phSize.ge, ok_bind, hpp, List.append_nil, hlen,
    sizeSub_of_le (by omega), Nat.add_sub_cancel_left, fread_append rfl (by omega) hbuf]

/-- At the end of the file all three reads fail, and the buffer is what it was. -/
theorem readRecord_nil (l : Locals) : readRecord l ⟨[], false⟩ = .ok (⟨[], true⟩, l.buf) := by
  have hfail : ∀ eof dst size, 0 < size →
      (Stream.mk [] eof).fread dst size = .ok (⟨[], true⟩, dst) := by
    intro eof dst size hpos
    simp [Stream.fread, hpos, hpos.ne']
  rw [readRecord, hfail _ _ _ (by omega), ok_bind]
  simp only []
  rw [hfail _ _ _ (by omega), ok_bind]
  rcases Nat.eq_zero_or_pos (sizeSub (le32 l.pp 8).toNat 16) with hzero | hpos
  · rw [hzero]
    rfl
  · exact hfail _ _ _ hpos

theorem message_append (m : Message) (behind : Mem) : message (m.bytes ++ behind) = m.bytes := by
  rw [message, nlmsgLen_append m.least, m.len, List.take_left]

/-- Each record is handed over with its message, and then the buffer once more. -/
theorem recordLoop_records {σ : Type} (handler : RtnlListenFilter σ) (locals : ℕ → Locals)
    (msgs : List Message) {fuel : ℕ} (hfuel : msgs.length + 1 < fuel) (i : ℕ) (s : σ) :
    (recordLoop handler locals fuel i s ⟨(msgs.map record).flatten, false⟩).handed.map message =
        msgs.map (·.bytes) ++ [message (locals (i + msgs.length)).buf] ∧
      (recordLoop handler locals fuel i s ⟨(msgs.map record).flatten, false⟩).result =
        some (.ok 0) := by
  induction msgs generalizing fuel i s with
  | nil =>
    obtain ⟨fuel, rfl⟩ : ∃ k, fuel = k + 2 := ⟨fuel - 2, by simp at hfuel; omega⟩
    simp [recordLoop, readRecord_nil]
  | cons m msgs ih =>
    obtain ⟨fuel, rfl⟩ : ∃ k, fuel = k + 1 := ⟨fuel - 1, by omega⟩
    have hless : msgs.length + 1 < fuel := by
      rw [List.length_cons] at hfuel
      omega
    obtain ⟨hhanded, hresult⟩ := ih hless (i + 1)
      (handler s (m.bytes ++ (locals i).buf.drop m.bytes.length)).2
    simp only [recordLoop, List.map_cons, List.flatten_cons, readRecord_record,
      Bool.false_eq_true, if_false, message_append, hhanded, hresult, List.cons_append,
      List.length_cons, and_true]
    rw [Nat.add_assoc i 1, Nat.add_comm 1]

theorem length_le_flatten (msgs : List Message) :
    msgs.length ≤ (msgs.map record).flatten.length := by
  induction msgs with
  | nil => exact le_rfl
  | cons m msgs ih =>
    have hleast := m.least
    rw [List.length_cons, List.map_cons, List.flatten_cons, List.length_append, record,
      List.length_append]
    omega

theorem monitorFromFile_nldump {σ : Type} (handler : RtnlListenFilter σ) (frame : Frame) (s : σ)
    (msgs : List Message) :
    (monitorFromFile handler frame s (nldump (msgs.map (·.bytes)))).handed.map message =
        msgs.map (·.bytes) ++ [message (frame.locals msgs.length).buf] ∧
      (monitorFromFile handler frame s (nldump (msgs.map (·.bytes)))).result = some (.ok 0) := by
  have hhdr : fileHdr.length = 24 := rfl
  have hnetwork : le32 fileHdr 20 = 0xfd := by decide
  have hstale : frame.hdr.drop 24 = [] := List.drop_of_length_le frame.hdrSize.le
  have hlength := length_le_flatten msgs
  have hfuel : msgs.length + 1 < (fileHdr ++ (msgs.map record).flatten).length + 2 := by
    rw [List.length_append]
    omega
  have hloop := recordLoop_records handler frame.locals msgs hfuel 0 s
  rw [Nat.zero_add] at hloop
  rw [nldump_eq, monitorFromFile, fread_append hhdr (by omega) frame.hdrSize.ge, hstale,
    List.append_nil]
  simp only [hnetwork, ne_eq, not_true_eq_false, if_false]
  exact hloop

def ReadsBack {σ : Type} (r : Replay σ) (msgs : List Message) : Prop :=
  r.handed.map message = msgs.map (·.bytes) ∧ r.result = some (.ok 0)

/-- No capture is read back: after its messages, whatever is in the buffer is handed over once
more, and only then the function returns 0. -/
theorem readsBack_never {σ : Type} (handler : RtnlListenFilter σ) (frame : Frame) (s : σ)
    (msgs : List Message) :
    ¬ ReadsBack (monitorFromFile handler frame s (nldump (msgs.map (·.bytes)))) msgs ∧
      (monitorFromFile handler frame s (nldump (msgs.map (·.bytes)))).handed.map message =
        msgs.map (·.bytes) ++ [message (frame.locals msgs.length).buf] ∧
      (monitorFromFile handler frame s (nldump (msgs.map (·.bytes)))).result = some (.ok 0) := by
  obtain ⟨hhanded, hresult⟩ := monitorFromFile_nldump handler frame s msgs
  refine ⟨fun h => ?_, hhanded, hresult⟩
  have hlength := congrArg List.length (hhanded.symm.trans h.1)
  simp at hlength

def noop : Message := ⟨nlmsgBytes 1 [], by decide, by decide, by decide⟩

/-- The locals keep what the iteration before has read. -/
def leftoverFrame : Frame where
  hdr := List.replicate 24 0
  hdrSize := List.length_replicate
  locals := fun _ =>
    { pp := pktHdr 32
      ph := cookedHdr
      buf := noop.bytes ++ List.replicate 9984 0
      ppSize := rfl
      phSize := rfl
      bufSize := by rw [List.length_append, List.length_replicate]; rfl }

/-- A capture of one message is handed over twice. -/
theorem noop_repeated :
    (monitorFromFile (fun n _ => (0, n + 1)) leftoverFrame 0 (nldump [noop.bytes])).handed.map
        message = [noop.bytes, noop.bytes] ∧
      ¬ ReadsBack (monitorFromFile (fun n _ => (0, n + 1)) leftoverFrame 0 (nldump [noop.bytes]))
        [noop] := by
  obtain ⟨hhanded, -⟩ := monitorFromFile_nldump (fun n _ => (0, n + 1)) leftoverFrame 0 [noop]
  have hleftover : message (leftoverFrame.locals 1).buf = noop.bytes := message_append noop _
  have htwice : (monitorFromFile (fun n _ => (0, n + 1)) leftoverFrame 0
      (nldump [noop.bytes])).handed.map message = [noop.bytes, noop.bytes] :=
    hhanded.trans (congrArg (fun last => [noop.bytes, last]) hleftover)
  refine ⟨htwice, fun h => ?_⟩
  have hlength := congrArg List.length (htwice.symm.trans h.1)
  simp at hlength

end Routerd.Capture
