import Routerd.NetlinkMessages

/-!
# Reading netlink messages from a socket

The two listeners are one loop over the datagrams of the socket with an inner loop over
the messages of a datagram; they differ in the message types at which the second one
stops. `nlmsg_len` is used as it is found. It moves the header pointer and is taken off
an `int`, which the loop condition then compares as a `size_t`.

The memory behind the received bytes is what the buffer and the stack held before, so a
header can also be found there. A handler reads the memory from its header on and does
not write it; the sender address and the control data, which it is also handed, are left
out. The number of handler calls the inner loop is followed for is bounded by `fuel`.
-/

namespace Routerd
open ByteMemory

def recvBufferSize : ℕ := 16384

def nlmsghdrSize : ℕ := 16

/-- `NLMSG_ALIGN`. Its constants are unsigned, so the `int` becomes unsigned as well. -/
def nlmsgAlign (len : UInt32) : UInt32 := (len + 3) &&& ~~~3

/-- `size_t(status)` of an `int` given by its bits. -/
def sizeOfInt (status : UInt32) : ℕ :=
  if status.toNat < 2 ^ 31 then status.toNat else 2 ^ 64 - 2 ^ 32 + status.toNat

abbrev RtnlListenFilter (σ : Type) := σ → Mem → ℤ × σ

/-- The pointer a handler was called with, as an offset into the buffer and as the
memory found there. -/
structure HandlerCall where
  offset : ℕ
  message : Mem
  deriving DecidableEq, Repr

/-- How the inner loop ends: by a `return`, or by its condition with this `status`. -/
inductive LoopEnd where
  | returned (value : ℤ)
  | left (status : UInt32)
  | running
  deriving DecidableEq, Repr

structure LoopRun (σ : Type) where
  calls : List HandlerCall
  state : σ
  ending : LoopEnd

def messageLoop {σ : Type} (stopsAt : MsgType → Bool) (handler : RtnlListenFilter σ) (mem : Mem)
    (fuel h : ℕ) (status : UInt32) (s : σ) : LoopRun σ :=
  if sizeOfInt status < nlmsghdrSize then ⟨[], s, .left status⟩
  else if stopsAt (nlmsgType (mem.drop h)) then ⟨[], s, .returned 0⟩
  else
    match fuel with
    | 0 => ⟨[], s, .running⟩
    | fuel + 1 =>
      let m := mem.drop h
      let len := le32 m 0
      let result := handler s m
      if result.1 < 0 then ⟨[⟨h, m⟩], result.2, .returned result.1⟩
      else
        let run := messageLoop stopsAt handler mem fuel (h + (nlmsgAlign len).toNat)
          (status - nlmsgAlign len) result.2
        { run with calls := ⟨h, m⟩ :: run.calls }

inductive Errno where
  | eintr
  | eagain
  | enobufs
  | other (code : ℕ)
  deriving DecidableEq, Repr

/-- The errors after which `recvmsg` is called again. -/
def Errno.retried : Errno → Bool
  | .eintr => true
  | .eagain => true
  | .enobufs => true
  | .other _ => false

/-- What one `recvmsg` meets: an error, or the next datagram of the socket. -/
inductive Receive where
  | failed (errno : Errno)
  | datagram (content : Mem)
  deriving DecidableEq, Repr

/-- The datagram as far as the buffer takes it; the rest is lost, with `MSG_TRUNC` set. -/
def received (content : Mem) : Mem := content.take recvBufferSize

/-- The memory from the buffer on, after a datagram was received into it. -/
def afterReceive (buf content : Mem) : Mem := received content ++ buf.drop (received content).length

/-- How a listener ends; with nothing left to receive it waits. -/
inductive ListenOutcome where
  | returned (value : ℤ)
  | exited
  | waiting
  | running
  deriving DecidableEq, Repr

structure ListenRun (σ : Type) where
  calls : List Mem
  state : σ
  outcome : ListenOutcome

def ListenRun.after {σ : Type} (calls : List Mem) (run : ListenRun σ) : ListenRun σ :=
  { run with calls := calls ++ run.calls }

def datagramLoop {σ : Type} (stopsAt : MsgType → Bool) (handler : RtnlListenFilter σ) (fuel : ℕ)
    (buf content : Mem) (s : σ) : LoopRun σ :=
  messageLoop stopsAt handler (afterReceive buf content) fuel 0
    (UInt32.ofNat (received content).length) s

def listenLoop {σ : Type} (stopsAt : MsgType → Bool) (handler : RtnlListenFilter σ) (fuel : ℕ) :
    Mem → σ → List Receive → ListenRun σ
  | _, s, [] => ⟨[], s, .waiting⟩
  | buf, s, .failed errno :: rest =>
    if errno.retried then listenLoop stopsAt handler fuel buf s rest
    else ⟨[], s, .returned (-1)⟩
  | buf, s, .datagram content :: rest =>
    if (received content).length = 0 then ⟨[], s, .returned (-1)⟩
    else
      let run := datagramLoop stopsAt handler fuel buf content s
      let calls := run.calls.map HandlerCall.message
      match run.ending with
      | .returned value => ⟨calls, run.state, .returned value⟩
      | .running => ⟨calls, run.state, .running⟩
      | .left status =>
        if recvBufferSize < content.length ∨ status = 0 then
          (listenLoop stopsAt handler fuel (afterReceive buf content) run.state rest).after calls
        else ⟨calls, run.state, .exited⟩

/-- `NLMSG_ERROR` or `NLMSG_DONE`. -/
def errorOrDone : MsgType → Bool
  | .done => true
  | .other 2 => true
  | _ => false

def netlinkListenUntilDone {σ : Type} (handler : RtnlListenFilter σ) (fuel : ℕ) (buf : Mem) (s : σ)
    (receives : List Receive) : ListenRun σ :=
  listenLoop errorOrDone handler fuel buf s receives

def netlinkListen {σ : Type} (handler : RtnlListenFilter σ) (fuel : ℕ) (buf : Mem) (s : σ)
    (receives : List Receive) : ListenRun σ :=
  listenLoop (fun _ => false) handler fuel buf s receives

/-! ### The arithmetic of the loop -/

private theorem and_mask_eq {n : ℕ} (hn : n < 2 ^ 32) : n &&& 4294967292 = n / 4 * 4 := by
  have hmask : 4294967292 = (2 ^ 30 - 1) <<< 2 := by decide
  have hround : n / 4 * 4 = (n >>> 2) <<< 2 := by
    rw [Nat.shiftRight_eq_div_pow, Nat.shiftLeft_eq]
  rw [hmask, hround]
  apply Nat.eq_of_testBit_eq
  intro i
  rw [Nat.testBit_and, Nat.testBit_shiftLeft, Nat.testBit_shiftLeft, Nat.testBit_shiftRight,
    Nat.testBit_two_pow_sub_one]
  by_cases hi : 2 ≤ i
  · rw [Nat.add_sub_cancel' hi]
    by_cases hlt : i < 32
    · simp [hi, show i - 2 < 30 by omega]
    · have hzero : n.testBit i = false :=
        Nat.testBit_lt_two_pow (lt_of_lt_of_le hn (Nat.pow_le_pow_right (by decide) (by omega)))
      simp [hzero]
  · simp [hi]

theorem toNat_nlmsgAlign (len : UInt32) :
    (nlmsgAlign len).toNat = (len.toNat + 3) % 2 ^ 32 / 4 * 4 := by
  rw [nlmsgAlign, UInt32.toNat_and, UInt32.toNat_add]
  exact and_mask_eq (Nat.mod_lt _ (by decide))

/-- The conversion to `size_t` turns a negative `status` into a large one. -/
theorem sizeOfInt_lt_iff (status : UInt32) :
    sizeOfInt status < nlmsghdrSize ↔ status.toNat < 16 := by
  have hlt := status.toNat_lt
  unfold sizeOfInt nlmsghdrSize
  split <;> omega

theorem not_sizeOfInt_lt_iff {status : UInt32} :
    ¬ sizeOfInt status < nlmsghdrSize ↔ 16 ≤ status.toNat := by
  rw [sizeOfInt_lt_iff, Nat.not_lt]

theorem length_received_le (content : Mem) : (received content).length ≤ recvBufferSize :=
  List.length_take_le _ _

theorem received_of_le {content : Mem} (h : content.length ≤ recvBufferSize) :
    received content = content := List.take_of_length_le h

theorem toNat_ofNat_length {m : Mem} (h : m.length ≤ recvBufferSize) :
    (UInt32.ofNat m.length).toNat = m.length := by
  unfold recvBufferSize at h
  rw [UInt32.toNat_ofNat']
  omega

section Steps

variable {σ : Type} {stopsAt : MsgType → Bool} {handler : RtnlListenFilter σ} {mem : Mem}
  {fuel h : ℕ} {status : UInt32} {s : σ}

theorem messageLoop_left (hstatus : status.toNat < 16) :
    messageLoop stopsAt handler mem fuel h status s = ⟨[], s, .left status⟩ := by
  unfold messageLoop
  rw [if_pos ((sizeOfInt_lt_iff status).mpr hstatus)]

theorem messageLoop_stop (hstatus : 16 ≤ status.toNat)
    (hstop : stopsAt (nlmsgType (mem.drop h)) = true) :
    messageLoop stopsAt handler mem fuel h status s = ⟨[], s, .returned 0⟩ := by
  unfold messageLoop
  rw [if_neg (not_sizeOfInt_lt_iff.mpr hstatus), if_pos hstop]

theorem messageLoop_refused (hstatus : 16 ≤ status.toNat)
    (hstop : stopsAt (nlmsgType (mem.drop h)) = false) (hneg : (handler s (mem.drop h)).1 < 0) :
    messageLoop stopsAt handler mem (fuel + 1) h status s =
      ⟨[⟨h, mem.drop h⟩], (handler s (mem.drop h)).2, .returned (handler s (mem.drop h)).1⟩ := by
  unfold messageLoop
  rw [if_neg (not_sizeOfInt_lt_iff.mpr hstatus), if_neg (by simp [hstop])]
  exact if_pos hneg

theorem messageLoop_next (hstatus : 16 ≤ status.toNat)
    (hstop : stopsAt (nlmsgType (mem.drop h)) = false) (hneg : ¬ (handler s (mem.drop h)).1 < 0) :
    messageLoop stopsAt handler mem (fuel + 1) h status s =
      let len := le32 (mem.drop h) 0
      let run := messageLoop stopsAt handler mem fuel (h + (nlmsgAlign len).toNat)
        (status - nlmsgAlign len) (handler s (mem.drop h)).2
      { run with calls := ⟨h, mem.drop h⟩ :: run.calls } := by
  rw [messageLoop, if_neg (not_sizeOfInt_lt_iff.mpr hstatus), if_neg (by simp [hstop])]
  exact if_neg hneg

end Steps

end Routerd
