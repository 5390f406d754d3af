import Routerd.NetlinkSocket

/-!
# Messages outside the received bytes

Nothing compares `nlmsg_len` with the bytes that are left. A message that claims more is
handed on as it is, and a message whose padding is missing turns the remaining count
negative, which the loop condition takes for a large one: the next header is then read
behind the received bytes. Neither happens exactly if the padded length of every message
the loop comes to fits into the rest of the datagram.
-/

namespace Routerd
open ByteMemory

/-- The message at this pointer, header and declared length, ends within `n` bytes. -/
def HandlerCall.Inside (n : ℕ) (c : HandlerCall) : Prop :=
  c.offset + nlmsghdrSize ≤ n ∧ c.offset + nlmsgLen c.message ≤ n

/-- Whatever the handler and the earlier content of the buffer, the messages handed on
lie inside the received bytes. -/
def CallsInside (stopsAt : MsgType → Bool) (content : Mem) : Prop :=
  ∀ (σ : Type) (handler : RtnlListenFilter σ) (fuel : ℕ) (buf : Mem) (s : σ),
    ∀ c ∈ (datagramLoop stopsAt handler fuel buf content s).calls,
      c.Inside (received content).length

/-- The length of a message with its padding, not cut to 32 bits. -/
def paddedLen (m : Mem) : ℕ := (nlmsgLen m + 3) / 4 * 4

/-- The rests of the bytes `d` that begin with a header to be read. -/
inductive HeaderIn (stopsAt : MsgType → Bool) (d : Mem) : Mem → Prop where
  | first : HeaderIn stopsAt d d
  | next {m : Mem} (h : HeaderIn stopsAt d m) (hlen : 16 ≤ m.length)
      (hgo : stopsAt (nlmsgType m) = false) : HeaderIn stopsAt d (m.drop (paddedLen m))

/-- Every message the loop comes to, padded, fits into the rest of the bytes. -/
def LengthsFit (stopsAt : MsgType → Bool) (d : Mem) : Prop :=
  ∀ m, HeaderIn stopsAt d m → 16 ≤ m.length → stopsAt (nlmsgType m) = false →
    paddedLen m ≤ m.length

variable {stopsAt : MsgType → Bool}

theorem nlmsgLen_le_paddedLen (m : Mem) : nlmsgLen m ≤ paddedLen m := by
  unfold paddedLen
  omega

theorem toNat_nlmsgAlign_of_le {m : Mem} (h : nlmsgLen m ≤ recvBufferSize) :
    (nlmsgAlign (le32 m 0)).toNat = paddedLen m := by
  unfold nlmsgLen recvBufferSize at h
  rw [toNat_nlmsgAlign, paddedLen, nlmsgLen]
  omega

/-- The header pointer and the remaining count of the loop, at a rest `m` of the bytes `d`. -/
structure LoopAt (stopsAt : MsgType → Bool) (d mem : Mem) (h : ℕ) (status : UInt32) (m : Mem) :
    Prop where
  header : HeaderIn stopsAt d m
  memory : m <+: mem.drop h
  position : h + m.length = d.length
  count : status.toNat = m.length

namespace LoopAt

variable {d mem m : Mem} {h : ℕ} {status : UInt32}

theorem nlmsgLen_eq (hat : LoopAt stopsAt d mem h status m) (hcount : 16 ≤ status.toNat) :
    nlmsgLen (mem.drop h) = nlmsgLen m := by
  obtain ⟨behind, hmem⟩ := hat.memory
  rw [← hmem, nlmsgLen_append (hat.count ▸ hcount)]

theorem nlmsgType_eq (hat : LoopAt stopsAt d mem h status m) (hcount : 16 ≤ status.toNat) :
    nlmsgType (mem.drop h) = nlmsgType m := by
  obtain ⟨behind, hmem⟩ := hat.memory
  rw [← hmem, nlmsgType_append (hat.count ▸ hcount)]

theorem inside_iff (hat : LoopAt stopsAt d mem h status m) (hcount : 16 ≤ status.toNat) :
    HandlerCall.Inside d.length ⟨h, mem.drop h⟩ ↔ nlmsgLen m ≤ m.length := by
  have hpos := hat.position
  have hlen := hat.count
  have hview := hat.nlmsgLen_eq hcount
  change h + 16 ≤ d.length ∧ h + nlmsgLen (mem.drop h) ≤ d.length ↔ _
  omega

theorem nlmsgAlign_eq (hat : LoopAt stopsAt d mem h status m) (hd : d.length ≤ recvBufferSize)
    (hcount : 16 ≤ status.toNat) (hlen : nlmsgLen m ≤ m.length) :
    (nlmsgAlign (le32 (mem.drop h) 0)).toNat = paddedLen m := by
  have hview := hat.nlmsgLen_eq hcount
  have hpos := hat.position
  rw [toNat_nlmsgAlign_of_le (by omega), paddedLen, hview, paddedLen]

theorem next (hat : LoopAt stopsAt d mem h status m) (hd : d.length ≤ recvBufferSize)
    (hcount : 16 ≤ status.toNat) (hgo : stopsAt (nlmsgType (mem.drop h)) = false)
    (hpad : paddedLen m ≤ m.length) :
    LoopAt stopsAt d mem (h + (nlmsgAlign (le32 (mem.drop h) 0)).toNat)
      (status - nlmsgAlign (le32 (mem.drop h) 0)) (m.drop (paddedLen m)) := by
  have hlen := hat.count
  have hpos := hat.position
  have halign := hat.nlmsgAlign_eq hd hcount ((nlmsgLen_le_paddedLen m).trans hpad)
  rw [hat.nlmsgType_eq hcount] at hgo
  refine ⟨hat.header.next (hlen ▸ hcount) hgo, ?_, ?_, ?_⟩
  · obtain ⟨behind, hmem⟩ := hat.memory
    refine ⟨behind, ?_⟩
    rw [← List.drop_drop, halign, ← hmem, List.drop_append_of_le_length hpad]
  · rw [halign, List.length_drop]
    omega
  · rw [UInt32.toNat_sub_of_le _ _ (UInt32.le_iff_toNat_le.mpr (by omega)), List.length_drop]
    omega

end LoopAt

theorem messageLoop_inside {σ : Type} {d mem : Mem} (hd : d.length ≤ recvBufferSize)
    (hfit : LengthsFit stopsAt d) (handler : RtnlListenFilter σ) {fuel h : ℕ} {status : UInt32}
    {m : Mem} (hat : LoopAt stopsAt d mem h status m) (s : σ) :
    ∀ c ∈ (messageLoop stopsAt handler mem fuel h status s).calls, c.Inside d.length := by
  have hpad : ∀ {h status m}, LoopAt stopsAt d mem h status m → 16 ≤ status.toNat →
      stopsAt (nlmsgType (mem.drop h)) = false → paddedLen m ≤ m.length := by
    intro h status m hat hcount hgo
    rw [hat.nlmsgType_eq hcount] at hgo
    exact hfit m hat.header (hat.count ▸ hcount) hgo
  fun_induction messageLoop stopsAt handler mem fuel h status s generalizing m with
  | case1 | case2 | case3 => simp
  | case4 h status s hcount hstop fuel view result =>
    rw [not_sizeOfInt_lt_iff] at hcount
    intro c hc
    rw [List.mem_singleton.mp hc, hat.inside_iff hcount]
    exact (nlmsgLen_le_paddedLen m).trans (hpad hat hcount (Bool.eq_false_iff.mpr hstop))
  | case5 h status s hcount hstop fuel view len result hneg run =>
    rename_i ih
    rw [not_sizeOfInt_lt_iff] at hcount
    have hgo := Bool.eq_false_iff.mpr hstop
    intro c hc
    rcases List.mem_cons.mp hc with rfl | hc
    · exact (hat.inside_iff hcount).mpr ((nlmsgLen_le_paddedLen m).trans (hpad hat hcount hgo))
    · exact ih (hat.next hd hcount hgo (hpad hat hcount hgo)) c hc

/-! ### Where a length does not fit -/

def acceptAll : RtnlListenFilter Unit := fun _ _ => (0, ())

def acceptedCalls (stopsAt : MsgType → Bool) (d : Mem) (fuel h : ℕ) (status : UInt32) :
    List HandlerCall :=
  (messageLoop stopsAt acceptAll d fuel h status ()).calls

theorem acceptedCalls_succ {d : Mem} {h : ℕ} {status : UInt32} (hcount : 16 ≤ status.toNat)
    (hgo : stopsAt (nlmsgType (d.drop h)) = false) (fuel : ℕ) :
    acceptedCalls stopsAt d (fuel + 1) h status =
      ⟨h, d.drop h⟩ :: acceptedCalls stopsAt d fuel (h + (nlmsgAlign (le32 (d.drop h) 0)).toNat)
        (status - nlmsgAlign (le32 (d.drop h) 0)) := by
  rw [acceptedCalls, messageLoop_next hcount hgo (lt_irrefl 0)]
  rfl

/-- The loop comes to `m`, after some calls. -/
def Comes (stopsAt : MsgType → Bool) (d m : Mem) : Prop :=
  ∃ h status k, LoopAt stopsAt d d h status m ∧ ∀ fuel,
    acceptedCalls stopsAt d fuel h status ⊆
      acceptedCalls stopsAt d (fuel + k) 0 (UInt32.ofNat d.length)

/-- Behind a message without its padding the count is negative, and the loop goes on with
a header outside. -/
theorem LoopAt.call_behind {d m : Mem} {h : ℕ} {status : UInt32}
    (hat : LoopAt stopsAt d d h status m) (hnull : stopsAt (.other 0) = false)
    (hd : d.length ≤ recvBufferSize) (hcount : 16 ≤ status.toNat)
    (hgo : stopsAt (nlmsgType (d.drop h)) = false) (hown : nlmsgLen m ≤ m.length)
    (hover : m.length < paddedLen m) :
    ⟨h + paddedLen m, []⟩ ∈ acceptedCalls stopsAt d 2 h status := by
  have hpos := hat.position
  have hstatus := hat.count
  have halign := hat.nlmsgAlign_eq hd hcount hown
  have hbound : paddedLen m < m.length + 4 := by
    unfold paddedLen
    omega
  unfold recvBufferSize at hd
  have hcount' : 16 ≤ (status - nlmsgAlign (le32 (d.drop h) 0)).toNat := by
    rw [UInt32.toNat_sub]
    omega
  have hbehind : d.drop (h + paddedLen m) = [] := List.drop_eq_nil_of_le (by omega)
  have hgo' : stopsAt (nlmsgType (d.drop (h + paddedLen m))) = false := by
    rw [hbehind]
    exact hnull
  rw [acceptedCalls_succ hcount hgo, halign, acceptedCalls_succ hcount' hgo', hbehind]
  exact List.mem_cons_of_mem _ List.mem_cons_self

theorem Comes.paddedLen_le {d m : Mem} (hnull : stopsAt (.other 0) = false)
    (hd : d.length ≤ recvBufferSize)
    (hin : ∀ fuel, ∀ c ∈ acceptedCalls stopsAt d fuel 0 (UInt32.ofNat d.length), c.Inside d.length)
    (hcomes : Comes stopsAt d m) (hlen : 16 ≤ m.length) (hgo : stopsAt (nlmsgType m) = false) :
    paddedLen m ≤ m.length := by
  obtain ⟨h, status, k, hat, hsub⟩ := hcomes
  have hcount : 16 ≤ status.toNat := hat.count ▸ hlen
  rw [← hat.nlmsgType_eq hcount] at hgo
  have hown : nlmsgLen m ≤ m.length := by
    refine (hat.inside_iff hcount).mp (hin (1 + k) _ (hsub 1 ?_))
    rw [acceptedCalls_succ hcount hgo]
    exact List.mem_cons_self
  by_contra hover
  have hcall := hat.call_behind hnull hd hcount hgo hown (Nat.lt_of_not_le hover)
  have hfar : h + paddedLen m + 16 ≤ d.length := (hin (2 + k) _ (hsub 2 hcall)).1
  have hpos := hat.position
  omega

theorem HeaderIn.comes {d m : Mem} (hnull : stopsAt (.other 0) = false)
    (hd : d.length ≤ recvBufferSize)
    (hin : ∀ fuel, ∀ c ∈ acceptedCalls stopsAt d fuel 0 (UInt32.ofNat d.length), c.Inside d.length)
    (hheader : HeaderIn stopsAt d m) : Comes stopsAt d m := by
  induction hheader with
  | first =>
    exact ⟨0, _, 0, ⟨.first, List.prefix_rfl, Nat.zero_add _, toNat_ofNat_length hd⟩,
      fun fuel => List.Subset.refl _⟩
  | next hheader hlen hgo hcomes =>
    have hpad := hcomes.paddedLen_le hnull hd hin hlen hgo
    obtain ⟨h, status, k, hat, hsub⟩ := hcomes
    have hcount := hat.count ▸ hlen
    rw [← hat.nlmsgType_eq hcount] at hgo
    refine ⟨_, _, k + 1, hat.next hd hcount hgo hpad, fun fuel => ?_⟩
    rw [← Nat.succ_add_eq_add_succ]
    refine List.Subset.trans ?_ (hsub (fuel + 1))
    rw [acceptedCalls_succ hcount hgo]
    exact List.subset_cons_self _ _

theorem callsInside_iff (hnull : stopsAt (.other 0) = false) (content : Mem) :
    CallsInside stopsAt content ↔ LengthsFit stopsAt (received content) := by
  have hd := length_received_le content
  constructor
  · intro hinside m hheader hlen hgo
    have hin : ∀ fuel, ∀ c ∈ acceptedCalls stopsAt (received content) fuel 0
        (UInt32.ofNat (received content).length), c.Inside (received content).length := by
      intro fuel
      have hcalls := hinside Unit acceptAll fuel [] ()
      rw [datagramLoop, afterReceive, List.drop_nil, List.append_nil] at hcalls
      exact hcalls
    exact (hheader.comes hnull hd hin).paddedLen_le hnull hd hin hlen hgo
  · intro hfit σ handler fuel buf s
    exact messageLoop_inside hd hfit handler
      ⟨.first, List.prefix_append _ _, Nat.zero_add _, toNat_ofNat_length hd⟩ s

/-- For both listeners: whatever the handler and the earlier content of the buffer, the
messages handed on lie inside the received bytes exactly if the padded length of every
message the loop comes to fits into the rest of them. -/
theorem listeners_inside_iff (content : Mem) :
    (CallsInside (fun _ => false) content ↔ LengthsFit (fun _ => false) (received content)) ∧
      (CallsInside errorOrDone content ↔ LengthsFit errorOrDone (received content)) :=
  ⟨callsInside_iff rfl content, callsInside_iff rfl content⟩

theorem CallsInside.nlmsgLen_le {content : Mem} (hinside : CallsInside stopsAt content)
    (hnull : stopsAt (.other 0) = false) (hlen : 16 ≤ (received content).length)
    (hgo : stopsAt (nlmsgType (received content)) = false) :
    nlmsgLen (received content) ≤ (received content).length := by
  have hfit := (callsInside_iff hnull content).mp hinside
  exact (nlmsgLen_le_paddedLen _).trans (hfit _ .first hlen hgo)

def headerClaiming (len : ℕ) : Mem := bytes32 len ++ bytes16 24 ++ List.replicate 10 0

def overlongHeader : Mem := headerClaiming 20

def truncatedMessage : Mem := headerClaiming 16400 ++ List.replicate 16384 0

theorem received_truncatedMessage :
    received truncatedMessage = headerClaiming 16400 ++ List.replicate 16368 0 := by
  have hheader : (headerClaiming 16400).length = 16 := by decide
  rw [received, truncatedMessage, List.take_append, hheader, List.take_replicate,
    List.take_of_length_le (by rw [hheader]; decide)]
  rfl

/-- Both listeners hand on the overlong and the truncated message. -/
theorem listeners_outside :
    (datagramLoop (fun _ => false) acceptAll 1 [] overlongHeader ()).calls =
        [⟨0, overlongHeader⟩] ∧
      nlmsgLen overlongHeader = 20 ∧ (received overlongHeader).length = 16 ∧
      ¬ CallsInside (fun _ => false) overlongHeader ∧ ¬ CallsInside errorOrDone overlongHeader ∧
      ¬ CallsInside (fun _ => false) truncatedMessage ∧
      ¬ CallsInside errorOrDone truncatedMessage := by
  have hheader : 16 ≤ (headerClaiming 16400).length := by decide
  have hlen : (received truncatedMessage).length = 16384 := by
    rw [received_truncatedMessage, List.length_append, List.length_replicate]
    rfl
  have hclaims : nlmsgLen (received truncatedMessage) = 16400 := by
    rw [received_truncatedMessage, nlmsgLen_append hheader]
    decide +kernel
  have htype : nlmsgType (received truncatedMessage) = .newroute := by
    rw [received_truncatedMessage, nlmsgType_append hheader]
    decide +kernel
  refine ⟨by decide +kernel, by decide +kernel, by decide +kernel, ?_, ?_, ?_, ?_⟩
  · exact fun h => absurd (h.nlmsgLen_le rfl (by decide +kernel) rfl) (by decide +kernel)
  · exact fun h => absurd (h.nlmsgLen_le rfl (by decide +kernel) (by decide +kernel))
      (by decide +kernel)
  · intro h
    have hle := h.nlmsgLen_le rfl (by omega) rfl
    omega
  · intro h
    have hle := h.nlmsgLen_le rfl (by omega) (by rw [htype]; rfl)
    omega

end Routerd
