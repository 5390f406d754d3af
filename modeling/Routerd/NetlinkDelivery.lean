import Routerd.NetlinkSocket

/-!
# Delivery of the messages of a socket

On datagrams made of whole, padded messages the remaining count is the length of the
messages not handled yet and the header pointer stands at the first of them, so the
count falls to zero with the last message and no remnant is left. A handler is given
the memory from its message on: the message's own bytes, then whatever follows them.
-/

namespace Routerd
open ByteMemory

/-- A message with the padding that follows it in a datagram. -/
structure NetlinkMessage where
  own : Mem
  padding : Mem
  header : 16 ≤ own.length
  length : nlmsgLen own = own.length
  aligned : own.length + padding.length = (own.length + 3) / 4 * 4

def NetlinkMessage.bytes (m : NetlinkMessage) : Mem := m.own ++ m.padding

def wire (ms : List NetlinkMessage) : Mem := ms.flatMap NetlinkMessage.bytes

structure NetlinkDatagram where
  messages : List NetlinkMessage
  nonempty : messages ≠ []
  fits : (wire messages).length ≤ recvBufferSize

/-- A datagram, or a `recvmsg` that fails with an error after which it is repeated. -/
inductive Arrival where
  | interrupted (errno : Errno) (retried : errno.retried = true)
  | datagram (d : NetlinkDatagram)

def Arrival.receive : Arrival → Receive
  | .interrupted errno _ => .failed errno
  | .datagram d => .datagram (wire d.messages)

def Arrival.messages : Arrival → List NetlinkMessage
  | .interrupted _ _ => []
  | .datagram d => d.messages

def Arrival.isDatagram : Arrival → Bool
  | .interrupted _ _ => false
  | .datagram _ => true

/-- The handler is called on one message after the other, up to and including the first
for which it returns a negative value. -/
def deliver {σ : Type} (handler : RtnlListenFilter σ) (s : σ) : List Mem → ListenRun σ
  | [] => ⟨[], s, .waiting⟩
  | v :: vs =>
    if (handler s v).1 < 0 then ⟨[v], (handler s v).2, .returned (handler s v).1⟩
    else (deliver handler (handler s v).2 vs).after [v]

/-- `deliver`, returning zero at the first message of these types. -/
def deliverUntil {σ : Type} (stopsAt : MsgType → Bool) (handler : RtnlListenFilter σ) (s : σ) :
    List Mem → ListenRun σ
  | [] => ⟨[], s, .waiting⟩
  | v :: vs =>
    if stopsAt (nlmsgType v) then ⟨[], s, .returned 0⟩
    else if (handler s v).1 < 0 then ⟨[v], (handler s v).2, .returned (handler s v).1⟩
    else (deliverUntil stopsAt handler (handler s v).2 vs).after [v]

/-- The memory from each message on, with `behind` after the last one. -/
def messageViews (behind : Mem) : List NetlinkMessage → List Mem
  | [] => []
  | m :: ms => (m.bytes ++ (wire ms ++ behind)) :: messageViews behind ms

/-- The memory from each message on; behind a datagram stands what the buffer held. -/
def arrivalViews : Mem → List Arrival → List Mem
  | _, [] => []
  | buf, .interrupted _ _ :: rest => arrivalViews buf rest
  | buf, .datagram d :: rest =>
    messageViews (buf.drop (wire d.messages).length) d.messages ++
      arrivalViews (afterReceive buf (wire d.messages)) rest

/-! ### The views -/

theorem own_isPrefix_views (behind : Mem) (ms : List NetlinkMessage) :
    List.Forall₂ (fun m v => m.own <+: v) ms (messageViews behind ms) := by
  induction ms with
  | nil => exact .nil
  | cons m ms ih =>
    refine .cons ?_ ih
    rw [NetlinkMessage.bytes, List.append_assoc]
    exact List.prefix_append _ _

theorem own_isPrefix_arrivalViews (buf : Mem) (arrivals : List Arrival) :
    List.Forall₂ (fun m v => m.own <+: v) (arrivals.flatMap Arrival.messages)
      (arrivalViews buf arrivals) := by
  induction arrivals generalizing buf with
  | nil => exact .nil
  | cons a rest ih =>
    cases a with
    | interrupted errno hretried => exact ih buf
    | datagram d => exact List.rel_append (own_isPrefix_views _ d.messages) (ih _)

theorem arrivalViews_filter (buf : Mem) (arrivals : List Arrival) :
    arrivalViews buf (arrivals.filter Arrival.isDatagram) = arrivalViews buf arrivals := by
  induction arrivals generalizing buf with
  | nil => rfl
  | cons a rest ih =>
    cases a with
    | interrupted errno hretried => exact ih buf
    | datagram d =>
      rw [List.filter_cons_of_pos rfl, arrivalViews, arrivalViews, ih]

section Message

variable (m : NetlinkMessage) (rest : Mem)

theorem NetlinkMessage.length_bytes : m.bytes.length = (m.own.length + 3) / 4 * 4 := by
  rw [NetlinkMessage.bytes, List.length_append, m.aligned]

theorem NetlinkMessage.nlmsgLen_view : nlmsgLen (m.bytes ++ rest) = m.own.length := by
  rw [NetlinkMessage.bytes, List.append_assoc, nlmsgLen_append m.header]
  exact m.length

theorem NetlinkMessage.nlmsgAlign_view (hfits : m.bytes.length ≤ recvBufferSize) :
    (nlmsgAlign (le32 (m.bytes ++ rest) 0)).toNat = m.bytes.length := by
  have hlen : (le32 (m.bytes ++ rest) 0).toNat = m.own.length := m.nlmsgLen_view rest
  have hbytes := m.length_bytes
  unfold recvBufferSize at hfits
  rw [toNat_nlmsgAlign, hlen]
  omega

end Message

/-! ### The references -/

section Deliver

variable {σ : Type} {stopsAt : MsgType → Bool} {handler : RtnlListenFilter σ}

@[simp] theorem deliverUntil_never (s : σ) (views : List Mem) :
    deliverUntil (fun _ => false) handler s views = deliver handler s views := by
  induction views generalizing s with
  | nil => rfl
  | cons v vs ih => simp [deliverUntil, deliver, ih]

theorem deliverUntil_append_of_waiting {s : σ} {views views' : List Mem}
    (h : (deliverUntil stopsAt handler s views).outcome = .waiting) :
    deliverUntil stopsAt handler s (views ++ views') =
      (deliverUntil stopsAt handler (deliverUntil stopsAt handler s views).state views').after
        (deliverUntil stopsAt handler s views).calls := by
  fun_induction deliverUntil stopsAt handler s views with
  | case1 s => rfl
  | case2 s v vs hstop => cases h
  | case3 s v vs hstop hneg => cases h
  | case4 s v vs hstop hneg ih =>
    rw [List.cons_append, deliverUntil, if_neg hstop, if_neg hneg, ih h]
    rfl

theorem deliverUntil_append_of_returned {s : σ} {views views' : List Mem} {r : ℤ}
    (h : (deliverUntil stopsAt handler s views).outcome = .returned r) :
    deliverUntil stopsAt handler s (views ++ views') = deliverUntil stopsAt handler s views := by
  fun_induction deliverUntil stopsAt handler s views with
  | case1 s => cases h
  | case2 s v vs hstop => rw [List.cons_append, deliverUntil, if_pos hstop]
  | case3 s v vs hstop hneg => rw [List.cons_append, deliverUntil, if_neg hstop, if_pos hneg]
  | case4 s v vs hstop hneg ih =>
    rw [List.cons_append, deliverUntil, if_neg hstop, if_neg hneg, ih h]

theorem deliverUntil_ne_exited (s : σ) (views : List Mem) :
    (deliverUntil stopsAt handler s views).outcome ≠ .exited := by
  fun_induction deliverUntil stopsAt handler s views with
  | case1 s => nofun
  | case2 s v vs hstop => nofun
  | case3 s v vs hstop hneg => nofun
  | case4 s v vs hstop hneg ih => exact ih

/-- Stopping at a type keeps the calls before the first message of it, and returns zero
if there is one among the calls. -/
theorem deliverUntil_spec (s : σ) (views : List Mem) :
    (deliverUntil stopsAt handler s views).calls =
        (deliver handler s views).calls.takeWhile (fun v => !stopsAt (nlmsgType v)) ∧
      (deliverUntil stopsAt handler s views).outcome =
        if (deliver handler s views).calls.any fun v => stopsAt (nlmsgType v) then .returned 0
        else (deliver handler s views).outcome := by
  fun_induction deliverUntil stopsAt handler s views with
  | case1 s => exact ⟨rfl, rfl⟩
  | case2 s v vs hstop =>
    rw [deliver]
    split <;> simp [ListenRun.after, hstop]
  | case3 s v vs hstop hneg => simp [deliver, hneg, hstop]
  | case4 s v vs hstop hneg ih => simp [deliver, hneg, hstop, ListenRun.after, ih]

end Deliver

/-! ### The loops -/

/-- A run of the inner loop makes the calls of the reference, and leaves the loop with
nothing remaining exactly where the reference goes on waiting. -/
structure LoopRun.Delivers {σ : Type} (run : LoopRun σ) (ref : ListenRun σ) : Prop where
  calls : run.calls.map HandlerCall.message = ref.calls
  state : run.state = ref.state
  ending : ref.outcome = .waiting ∧ run.ending = .left 0 ∨
    ∃ value, ref.outcome = .returned value ∧ run.ending = .returned value

section Loops

variable {σ : Type} (stopsAt : MsgType → Bool) (handler : RtnlListenFilter σ)

theorem messageLoop_delivers {ms : List NetlinkMessage} {mem behind : Mem} {fuel h : ℕ}
    {status : UInt32} (hmem : mem.drop h = wire ms ++ behind)
    (hstatus : status.toNat = (wire ms).length) (hfits : (wire ms).length ≤ recvBufferSize)
    (hfuel : ms.length ≤ fuel) (s : σ) :
    (messageLoop stopsAt handler mem fuel h status s).Delivers
      (deliverUntil stopsAt handler s (messageViews behind ms)) := by
  induction ms generalizing fuel h status s with
  | nil =>
    have hzero : status = 0 := UInt32.toNat_inj.mp hstatus
    rw [messageLoop_left (by rw [hstatus]; decide), hzero]
    exact ⟨rfl, rfl, .inl ⟨rfl, rfl⟩⟩
  | cons m ms ih =>
    have hwire : (wire (m :: ms)).length = m.bytes.length + (wire ms).length := List.length_append
    have hview : mem.drop h = m.bytes ++ (wire ms ++ behind) := by
      rw [hmem, ← List.append_assoc]
      rfl
    have hbytes := m.length_bytes
    have hheader := m.header
    have hcount : 16 ≤ status.toNat := by omega
    obtain ⟨fuel, rfl⟩ : ∃ k, fuel = k + 1 := ⟨fuel - 1, by rw [List.length_cons] at hfuel; omega⟩
    rw [messageViews, deliverUntil, ← hview]
    by_cases hstop : stopsAt (nlmsgType (mem.drop h)) = true
    · rw [messageLoop_stop hcount hstop, if_pos hstop]
      exact ⟨rfl, rfl, .inr ⟨0, rfl, rfl⟩⟩
    · rw [if_neg hstop]
      have hgo := Bool.eq_false_iff.mpr hstop
      by_cases hneg : (handler s (mem.drop h)).1 < 0
      · rw [messageLoop_refused hcount hgo hneg, if_pos hneg]
        exact ⟨rfl, rfl, .inr ⟨_, rfl, rfl⟩⟩
      · rw [messageLoop_next hcount hgo hneg, if_neg hneg]
        have halign : (nlmsgAlign (le32 (mem.drop h) 0)).toNat = m.bytes.length := by
          rw [hview]
          exact m.nlmsgAlign_view _ (by omega)
        have hdrop : mem.drop (h + (nlmsgAlign (le32 (mem.drop h) 0)).toNat) =
            wire ms ++ behind := by
          rw [← List.drop_drop, halign, hview, List.drop_left]
        have hrest : (status - nlmsgAlign (le32 (mem.drop h) 0)).toNat = (wire ms).length := by
          rw [UInt32.toNat_sub_of_le _ _ (UInt32.le_iff_toNat_le.mpr (by omega))]
          omega
        have hnext := ih hdrop hrest (by omega) (Nat.le_of_succ_le_succ hfuel)
          (handler s (mem.drop h)).2
        exact ⟨congrArg (mem.drop h :: ·) hnext.calls, hnext.state, hnext.ending⟩

theorem datagramLoop_delivers (d : NetlinkDatagram) {fuel : ℕ} (hfuel : d.messages.length ≤ fuel)
    (buf : Mem) (s : σ) :
    (datagramLoop stopsAt handler fuel buf (wire d.messages) s).Delivers
      (deliverUntil stopsAt handler s
        (messageViews (buf.drop (wire d.messages).length) d.messages)) := by
  have hfits := d.fits
  have hmem : (afterReceive buf (wire d.messages)).drop 0 =
      wire d.messages ++ buf.drop (wire d.messages).length := by
    rw [List.drop_zero, afterReceive, received_of_le hfits]
  refine messageLoop_delivers stopsAt handler hmem ?_ hfits hfuel s
  rw [received_of_le hfits]
  exact toNat_ofNat_length hfits

theorem NetlinkDatagram.length_pos (d : NetlinkDatagram) : (wire d.messages).length ≠ 0 := by
  cases hms : d.messages with
  | nil => exact absurd hms d.nonempty
  | cons m ms =>
    have hwire : (wire (m :: ms)).length = m.bytes.length + (wire ms).length := List.length_append
    have hbytes := m.length_bytes
    have hheader := m.header
    omega

theorem listenLoop_delivers {arrivals : List Arrival} {fuel : ℕ}
    (hfuel : ∀ a ∈ arrivals, a.messages.length ≤ fuel) (buf : Mem) (s : σ) :
    listenLoop stopsAt handler fuel buf s (arrivals.map Arrival.receive) =
      deliverUntil stopsAt handler s (arrivalViews buf arrivals) := by
  induction arrivals generalizing buf s with
  | nil => rfl
  | cons a rest ih =>
    have hrest := ih fun b hb => hfuel b (List.mem_cons_of_mem _ hb)
    cases a with
    | interrupted errno hretried =>
      rw [List.map_cons, Arrival.receive, listenLoop, if_pos hretried, hrest, arrivalViews]
    | datagram d =>
      have hrun := datagramLoop_delivers stopsAt handler d (hfuel _ List.mem_cons_self) buf s
      rw [List.map_cons, Arrival.receive, listenLoop, received_of_le d.fits,
        if_neg d.length_pos, arrivalViews]
      rcases hrun.ending with ⟨hwaiting, hleft⟩ | ⟨value, href, hreturned⟩
      · simp only [hleft, or_true, if_true, hrun.calls, hrun.state, hrest]
        rw [deliverUntil_append_of_waiting hwaiting]
      · simp only [hreturned, hrun.calls, hrun.state, ← href]
        rw [deliverUntil_append_of_returned href]

end Loops

/-- On whole, padded messages in any split into datagrams, with failing receives in any
place, a listener with this handler gives each message once and in order, up to the first
for which the handler returns a negative value, and returns that value. Waiting for the
end of a dump makes the calls before the first error or end message and returns zero
there. The failing receives change neither, and the remnant branch is not reached. -/
theorem netlinkListen_delivers {σ : Type} (handler : RtnlListenFilter σ) (buf : Mem) (s : σ)
    (arrivals : List Arrival) {fuel : ℕ} (hfuel : ∀ a ∈ arrivals, a.messages.length ≤ fuel) :
    let receives := arrivals.map Arrival.receive
    let uninterrupted := (arrivals.filter Arrival.isDatagram).map Arrival.receive
    let listen := netlinkListen handler fuel buf s receives
    let untilDone := netlinkListenUntilDone handler fuel buf s receives
    (∃ views, List.Forall₂ (fun m v => m.own <+: v) (arrivals.flatMap Arrival.messages) views ∧
      listen = deliver handler s views) ∧
    untilDone.calls = listen.calls.takeWhile (fun v => !errorOrDone (nlmsgType v)) ∧
    untilDone.outcome =
      (if listen.calls.any fun v => errorOrDone (nlmsgType v) then .returned 0
      else listen.outcome) ∧
    listen.outcome ≠ .exited ∧ untilDone.outcome ≠ .exited ∧
    listen = netlinkListen handler fuel buf s uninterrupted ∧
    untilDone = netlinkListenUntilDone handler fuel buf s uninterrupted := by
  have hfuel' : ∀ a ∈ arrivals.filter Arrival.isDatagram, a.messages.length ≤ fuel :=
    fun a ha => hfuel a (List.mem_filter.mp ha).1
  simp only [netlinkListen, netlinkListenUntilDone, listenLoop_delivers _ handler hfuel,
    listenLoop_delivers _ handler hfuel', arrivalViews_filter]
  rw [deliverUntil_never]
  obtain ⟨hcalls, houtcome⟩ := deliverUntil_spec s (arrivalViews buf arrivals)
  refine ⟨⟨_, own_isPrefix_arrivalViews buf arrivals, rfl⟩, hcalls, houtcome, ?_,
    deliverUntil_ne_exited s _, trivial, trivial⟩
  rw [← deliverUntil_never]
  exact deliverUntil_ne_exited s _

def headerOnly (type : ℕ) : NetlinkMessage :=
  ⟨nlmsgBytes type [], [], le_refl 16, rfl, by simp [nlmsgBytes, bytes32, bytes16]⟩

def dumpArrivals : List Arrival :=
  [.interrupted .eintr rfl,
    .datagram ⟨[headerOnly 24, headerOnly 3, headerOnly 24], by simp, by decide +kernel⟩]

def countMessages : RtnlListenFilter ℕ := fun n _ => (0, n + 1)

theorem netlinkListen_delivers_dump :
    (∀ a ∈ dumpArrivals, a.messages.length ≤ 3) ∧
      (netlinkListenUntilDone countMessages 3 [] 0 (dumpArrivals.map Arrival.receive)).calls =
        (netlinkListen countMessages 3 [] 0 (dumpArrivals.map Arrival.receive)).calls.takeWhile
          fun v => !errorOrDone (nlmsgType v) := by
  have hfuel : ∀ a ∈ dumpArrivals, a.messages.length ≤ 3 := by
    simp [dumpArrivals, Arrival.messages]
  exact ⟨hfuel, (netlinkListen_delivers countMessages [] 0 dumpArrivals hfuel).2.1⟩

end Routerd
