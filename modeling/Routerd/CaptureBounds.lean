import Routerd.CaptureFiles
import Routerd.NetlinkDelivery

/-!
# The size of a record

What `nldump` writes comes out of `netlink_listen`, whose buffer takes messages of up to
16384 bytes. The readers of the file have a buffer of 10000 bytes, and read as much into it
as the packet header says. No length that was written is too short to hold the cooked
header; the longer messages do not fit.
-/

namespace Routerd.Capture
open ByteMemory

/-- The file after `netlink_listen` has handed everything that arrived to `dump_msg`. -/
def captureFile (buf : Mem) (arrivals : List Arrival) : Mem :=
  (netlinkListen dumpMsg (arrivals.flatMap Arrival.messages).length buf fileHdr
    (arrivals.map Arrival.receive)).state

/-- The `incl_len` of each packet header that the loop reads, up to the first record that
ends the function. -/
def inclLens (locals : ℕ → Locals) : ℕ → ℕ → Stream → List ℕ
  | 0, _, _ => []
  | fuel + 1, i, file =>
    if file.eof then []
    else
      match file.fread (locals i).pp 16 with
      | .error _ => []
      | .ok (behindHdr, pp) =>
        if behindHdr.eof then []
        else
          (le32 pp 8).toNat ::
            match readRecord (locals i) file with
            | .error _ => []
            | .ok (file, _) => inclLens locals fuel (i + 1) file

def recordsRead (frame : Frame) (content : Mem) : List ℕ :=
  match (Stream.mk content false).fread frame.hdr 24 with
  | .error _ => []
  | .ok (file, hdr) =>
    if le32 hdr 20 ≠ 0xfd then [] else inclLens frame.locals (content.length + 2) 0 file

/-- The length of the body is no underflow and fits the buffer of the readers. -/
def BodyFits (inclLen : ℕ) : Prop := 16 ≤ inclLen ∧ inclLen - 16 ≤ 10000

/-! ### What is in the file -/

def recordBytes (own : Mem) : Mem := pktHdr (16 + own.length) ++ cookedHdr ++ own

theorem deliver_dumpMsg (file : Mem) (views : List Mem) :
    (deliver dumpMsg file views).state =
      views.foldl (fun file n => (dumpMsg file n).2) file := by
  induction views generalizing file with
  | nil => rfl
  | cons v views ih =>
    have hgo : ¬ (dumpMsg file v).1 < 0 := by
      change ¬ (0 : ℤ) < 0
      decide
    rw [deliver, if_neg hgo, List.foldl_cons, ← ih]
    rfl

theorem dumpMsg_view {m : NetlinkMessage} {view : Mem} (h : m.own <+: view) (file : Mem) :
    (dumpMsg file view).2 = file ++ recordBytes m.own := by
  obtain ⟨behind, rfl⟩ := h
  rw [dumpMsg, nlmsgLen_append m.header, m.length, List.take_left, recordBytes]
  simp only [List.append_assoc]

theorem foldl_dumpMsg {ms : List NetlinkMessage} {views : List Mem}
    (h : List.Forall₂ (fun m v => m.own <+: v) ms views) (file : Mem) :
    views.foldl (fun file n => (dumpMsg file n).2) file =
      file ++ (ms.map fun m => recordBytes m.own).flatten := by
  induction h generalizing file with
  | nil => simp
  | cons hview _ ih =>
    rw [List.foldl_cons, ih, dumpMsg_view hview, List.map_cons, List.flatten_cons,
      List.append_assoc]

theorem length_messages_le {arrivals : List Arrival} {a : Arrival} (ha : a ∈ arrivals) :
    a.messages.length ≤ (arrivals.flatMap Arrival.messages).length :=
  (List.sublist_flatten_of_mem (List.mem_map_of_mem ha)).length_le

theorem captureFile_eq (buf : Mem) (arrivals : List Arrival) :
    captureFile buf arrivals = fileHdr ++
      ((arrivals.flatMap Arrival.messages).map fun m => recordBytes m.own).flatten := by
  have hfuel : ∀ a ∈ arrivals,
      a.messages.length ≤ (arrivals.flatMap Arrival.messages).length := fun a => length_messages_le
  rw [captureFile, netlinkListen, listenLoop_delivers _ dumpMsg hfuel, deliverUntil_never,
    deliver_dumpMsg, foldl_dumpMsg (own_isPrefix_arrivalViews buf arrivals)]

theorem length_own_le {arrivals : List Arrival} {m : NetlinkMessage}
    (hm : m ∈ arrivals.flatMap Arrival.messages) : m.own.length ≤ recvBufferSize := by
  obtain ⟨a, -, hma⟩ := List.mem_flatMap.mp hm
  cases a with
  | interrupted errno hretried => cases hma
  | datagram d =>
    have hown : m.own.length ≤ m.bytes.length := by
      rw [NetlinkMessage.bytes, List.length_append]
      exact Nat.le_add_right _ _
    have hbytes : m.bytes.length ≤ (wire d.messages).length :=
      (List.sublist_flatten_of_mem (List.mem_map_of_mem hma)).length_le
    exact hown.trans (hbytes.trans d.fits)

/-! ### Reading the records -/

section Records

variable {own : Mem} (rest : Mem) (l : Locals)

theorem fread_pktHdr (hfits : own.length ≤ recvBufferSize) :
    ∃ pp, (Stream.mk (recordBytes own ++ rest) false).fread l.pp 16 =
        .ok (⟨cookedHdr ++ own ++ rest, false⟩, pp) ∧ (le32 pp 8).toNat = 16 + own.length := by
  have hstale : l.pp.drop 16 = [] := List.drop_of_length_le l.ppSize.le
  have hpkt : (pktHdr (16 + own.length)).length = 16 := rfl
  refine ⟨pktHdr (16 + own.length), ?_, inclLen_pktHdr (by unfold recvBufferSize at hfits; omega)⟩
  rw [recordBytes, List.append_assoc, List.append_assoc, List.append_assoc,
    fread_append hpkt (by omega) l.ppSize.ge, hstale, List.append_nil]

theorem readRecord_overflow (hfits : own.length ≤ recvBufferSize) (hlong : 10000 < own.length) :
    readRecord l ⟨recordBytes own ++ rest, false⟩ = .error .overflow := by
  obtain ⟨pp, hread, hlen⟩ := fread_pktHdr rest l hfits
  have hcooked : cookedHdr.length = 16 := rfl
  have hbuf : ¬ ((own ++ rest).take own.length).length ≤ l.buf.length := by
    rw [List.take_left, l.bufSize]
    omega
  rw [readRecord, hread, ok_bind]
  simp only []
  rw [List.append_assoc, fread_append hcooked (by omega) l.phSize.ge, ok_bind, hlen,
    sizeSub_of_le (by omega), Nat.add_sub_cancel_left, Stream.fread, if_neg (by omega),
    if_neg hbuf]

end Records

theorem inclLens_nil (locals : ℕ → Locals) (fuel i : ℕ) :
    inclLens locals fuel i ⟨[], false⟩ = [] := by
  cases fuel with
  | zero => rfl
  | succ fuel => rfl

theorem inclLens_fit_iff (locals : ℕ → Locals) {ms : List NetlinkMessage}
    (hms : ∀ m ∈ ms, m.own.length ≤ recvBufferSize) {fuel : ℕ} (hfuel : ms.length ≤ fuel) (i : ℕ) :
    (∀ n ∈ inclLens locals fuel i ⟨(ms.map fun m => recordBytes m.own).flatten, false⟩,
        BodyFits n) ↔ ∀ m ∈ ms, m.own.length ≤ 10000 := by
  induction ms generalizing fuel i with
  | nil => simp [inclLens_nil]
  | cons m ms ih =>
    obtain ⟨fuel, rfl⟩ : ∃ k, fuel = k + 1 :=
      ⟨fuel - 1, by rw [List.length_cons] at hfuel; omega⟩
    have hm := hms m List.mem_cons_self
    have hbody : BodyFits (16 + m.own.length) ↔ m.own.length ≤ 10000 := by
      unfold BodyFits
      omega
    obtain ⟨pp, hread, hlen⟩ := fread_pktHdr ((ms.map fun m => recordBytes m.own).flatten)
      (locals i) hm
    rw [List.map_cons, List.flatten_cons, inclLens, if_neg (by simp), hread]
    simp only [Bool.false_eq_true, if_false, hlen, List.forall_mem_cons, hbody]
    refine and_congr_right fun hshort => ?_
    have hrecord := readRecord_record (locals i) ⟨m.own, m.length, m.header, hshort⟩
      ((ms.map fun m => recordBytes m.own).flatten)
    rw [show record ⟨m.own, m.length, m.header, hshort⟩ = recordBytes m.own from rfl] at hrecord
    simp only [hrecord]
    exact ih (fun m' hm' => hms m' (List.mem_cons_of_mem m hm')) (Nat.le_of_succ_le_succ hfuel) _

theorem length_le_flatten_recordBytes (ms : List NetlinkMessage) :
    ms.length ≤ (ms.map fun m => recordBytes m.own).flatten.length := by
  induction ms with
  | nil => exact le_rfl
  | cons m ms ih =>
    have hheader := m.header
    rw [List.length_cons, List.map_cons, List.flatten_cons, List.length_append, recordBytes,
      List.length_append]
    omega

section Captured

variable (buf : Mem) (arrivals : List Arrival) (frame : Frame)

theorem fread_fileHdr :
    (Stream.mk (captureFile buf arrivals) false).fread frame.hdr 24 =
      .ok (⟨((arrivals.flatMap Arrival.messages).map fun m => recordBytes m.own).flatten, false⟩,
        fileHdr) := by
  have hhdr : fileHdr.length = 24 := rfl
  have hstale : frame.hdr.drop 24 = [] := List.drop_of_length_le frame.hdrSize.le
  rw [captureFile_eq, fread_append hhdr (by omega) frame.hdrSize.ge, hstale, List.append_nil]

theorem network_fileHdr : ¬ le32 fileHdr 20 ≠ 0xfd := by decide

theorem recordsRead_captureFile :
    recordsRead frame (captureFile buf arrivals) =
      inclLens frame.locals ((captureFile buf arrivals).length + 2) 0
        ⟨((arrivals.flatMap Arrival.messages).map fun m => recordBytes m.own).flatten, false⟩ := by
  rw [recordsRead, fread_fileHdr]
  simp only [if_neg network_fileHdr]

theorem length_messages_le_captureFile :
    (arrivals.flatMap Arrival.messages).length ≤ (captureFile buf arrivals).length + 2 := by
  have hlength := length_le_flatten_recordBytes (arrivals.flatMap Arrival.messages)
  rw [captureFile_eq, List.length_append]
  omega

theorem monitorFromFile_overflow {σ : Type} (handler : RtnlListenFilter σ) (s : σ)
    {m : NetlinkMessage} {ms : List NetlinkMessage}
    (hmessages : arrivals.flatMap Arrival.messages = m :: ms) (hlong : 10000 < m.own.length) :
    (monitorFromFile handler frame s (captureFile buf arrivals)).result =
      some (.error .overflow) := by
  have hfits : m.own.length ≤ recvBufferSize := length_own_le (hmessages ▸ List.mem_cons_self)
  have hread := readRecord_overflow ((ms.map fun m => recordBytes m.own).flatten)
    (frame.locals 0) hfits hlong
  rw [monitorFromFile, fread_fileHdr]
  simp only [if_neg network_fileHdr]
  rw [hmessages, List.map_cons, List.flatten_cons, recordLoop, if_neg (by simp), hread]

end Captured

/-- Whatever the messages and their split into datagrams, each record that a reader of the
file reads fits its buffer exactly if no message is longer than 10000 bytes. -/
theorem recordsRead_fit_iff (buf : Mem) (arrivals : List Arrival) (frame : Frame) :
    (∀ n ∈ recordsRead frame (captureFile buf arrivals), BodyFits n) ↔
      ∀ m ∈ arrivals.flatMap Arrival.messages, m.own.length ≤ 10000 := by
  rw [recordsRead_captureFile]
  exact inclLens_fit_iff frame.locals (fun m => length_own_le)
    (length_messages_le_captureFile buf arrivals) 0

def largeBytes : Mem := nlmsgBytes 16 (List.replicate 9988 0)

theorem length_largeBytes : largeBytes.length = 10004 := by
  rw [largeBytes, length_nlmsgBytes, List.length_replicate]

theorem nlmsgLen_largeBytes : nlmsgLen largeBytes = largeBytes.length := by
  rw [largeBytes, nlmsgLen_nlmsgBytes 16 (by rw [List.length_replicate]; omega)]

theorem largeBytes_aligned :
    largeBytes.length + ([] : Mem).length = (largeBytes.length + 3) / 4 * 4 := by
  have hlen := length_largeBytes
  rw [List.length_nil]
  omega

def largeMessage : NetlinkMessage where
  own := largeBytes
  padding := []
  header := by rw [length_largeBytes]; omega
  length := nlmsgLen_largeBytes
  aligned := largeBytes_aligned

theorem length_own_largeMessage : largeMessage.own.length = 10004 := by
  have hown : largeMessage.own = largeBytes := rfl
  rw [hown, length_largeBytes]

theorem largeMessage_fits : (wire [largeMessage]).length ≤ recvBufferSize := by
  have hbytes := largeMessage.length_bytes
  rw [length_own_largeMessage] at hbytes
  rw [wire, List.flatMap_singleton]
  unfold recvBufferSize
  omega

def largeArrival : Arrival :=
  .datagram ⟨[largeMessage], List.cons_ne_nil _ _, largeMessage_fits⟩

/-- Read back, that message is written 4 bytes past the end of the buffer. -/
theorem largeMessage_overflows :
    (monitorFromFile countMessages leftoverFrame 0 (captureFile [] [largeArrival])).result =
        some (.error .overflow) ∧
      ¬ ∀ n ∈ recordsRead leftoverFrame (captureFile [] [largeArrival]), BodyFits n := by
  have hlong : 10000 < largeMessage.own.length := by
    rw [length_own_largeMessage]
    omega
  have hmessages : [largeArrival].flatMap Arrival.messages = [largeMessage] :=
    List.flatMap_singleton ..
  refine ⟨monitorFromFile_overflow [] _ _ countMessages 0 hmessages hlong, ?_⟩
  rw [recordsRead_captureFile, inclLens_fit_iff leftoverFrame.locals (fun m => length_own_le)
    (length_messages_le_captureFile [] [largeArrival]), hmessages]
  exact fun hall => Nat.not_le.mpr hlong (hall largeMessage (List.mem_singleton_self _))

end Routerd.Capture
