import Routerd.NetlinkBounds

/-!
# How many messages a datagram gives

The inner loop has no measure of its own: it moves by the padded `nlmsg_len` of each
header, which can be zero, and it goes on behind the received bytes once a length does
not fit. It is through within one call for every sixteen received bytes exactly if the
headers, followed by their padded lengths, lead within so many steps to a rest that is
too short for a header or to a message at which the listener stops.
-/

namespace Routerd
open ByteMemory

/-- Whatever the earlier content of the buffer, a handler that refuses nothing is called
at most once for every sixteen received bytes, and then the loop is over. -/
def EndsInTime (stopsAt : MsgType → Bool) (content : Mem) : Prop :=
  ∀ (σ : Type) (handler : RtnlListenFilter σ), (∀ s m, 0 ≤ (handler s m).1) →
    ∀ (buf : Mem) (s : σ) (fuel : ℕ), (received content).length / 16 ≤ fuel →
      (datagramLoop stopsAt handler fuel buf content s).ending ≠ .running ∧
        (datagramLoop stopsAt handler fuel buf content s).calls.length ≤
          (received content).length / 16

/-- From the header at the front of `m`, at most `k` steps of padded length lead to a rest
without a header or to a message at which the listener stops. -/
def HeadersEnd (stopsAt : MsgType → Bool) : ℕ → Mem → Prop
  | 0, m => m.length < 16 ∨ stopsAt (nlmsgType m) = true
  | k + 1, m => m.length < 16 ∨ stopsAt (nlmsgType m) = true ∨
      paddedLen m ≤ m.length ∧ HeadersEnd stopsAt k (m.drop (paddedLen m))

variable {stopsAt : MsgType → Bool}

theorem headersEnd_of_lengthsFit {d : Mem} (hfit : LengthsFit stopsAt d)
    (hclaim : ∀ m, HeaderIn stopsAt d m → 16 ≤ m.length → 16 ≤ nlmsgLen m) :
    HeadersEnd stopsAt (d.length / 16) d := by
  have hwalk : ∀ k m, HeaderIn stopsAt d m → m.length / 16 ≤ k → HeadersEnd stopsAt k m := by
    intro k
    induction k with
    | zero =>
      intro m _ hk
      exact Or.inl (by omega)
    | succ k ih =>
      intro m hheader hk
      by_cases hlen : m.length < 16
      · exact Or.inl hlen
      · cases hgo : stopsAt (nlmsgType m) with
        | true => exact Or.inr (Or.inl hgo)
        | false =>
          rw [Nat.not_lt] at hlen
          have hpad := hfit m hheader hlen hgo
          have hstep := (hclaim m hheader hlen).trans (nlmsgLen_le_paddedLen m)
          refine Or.inr (Or.inr ⟨hpad, ih _ (hheader.next hlen hgo) ?_⟩)
          rw [List.length_drop]
          omega
  exact hwalk _ d .first le_rfl

section Loop

variable {σ : Type} {handler : RtnlListenFilter σ} {d mem m : Mem} {h : ℕ} {status : UInt32}

theorem messageLoop_ends (hd : d.length ≤ recvBufferSize) (haccept : ∀ s m, 0 ≤ (handler s m).1)
    {k fuel : ℕ} (hfuel : k ≤ fuel) (hat : LoopAt stopsAt d mem h status m)
    (hend : HeadersEnd stopsAt k m) (s : σ) :
    (messageLoop stopsAt handler mem fuel h status s).ending ≠ .running ∧
      (messageLoop stopsAt handler mem fuel h status s).calls.length ≤ k := by
  induction k generalizing fuel h status m s with
  | zero =>
    by_cases hcount : status.toNat < 16
    · rw [messageLoop_left hcount]
      simp
    · rw [Nat.not_lt] at hcount
      have hlen := hat.count
      have hstop := hend.resolve_left (by omega)
      rw [messageLoop_stop hcount (by rw [hat.nlmsgType_eq hcount, hstop])]
      simp
  | succ k ih =>
    by_cases hcount : status.toNat < 16
    · rw [messageLoop_left hcount]
      simp
    · rw [Nat.not_lt] at hcount
      have hlen := hat.count
      cases hgo : stopsAt (nlmsgType (mem.drop h)) with
      | true =>
        rw [messageLoop_stop hcount hgo]
        simp
      | false =>
        have hown : stopsAt (nlmsgType m) = false := by rw [← hat.nlmsgType_eq hcount, hgo]
        obtain ⟨hpad, hrest⟩ := (hend.resolve_left (by omega)).resolve_left (by simp [hown])
        obtain ⟨fuel, rfl⟩ : ∃ n, fuel = n + 1 := ⟨fuel - 1, by omega⟩
        rw [messageLoop_next hcount hgo (by simpa using haccept s (mem.drop h))]
        have hrun := ih (Nat.le_of_succ_le_succ hfuel) (hat.next hd hcount hgo hpad) hrest
          (handler s (mem.drop h)).2
        exact ⟨hrun.1, Nat.succ_le_succ hrun.2⟩

theorem messageLoop_next_ending (haccept : ∀ s m, 0 ≤ (handler s m).1)
    (hcount : 16 ≤ status.toNat) (hgo : stopsAt (nlmsgType (mem.drop h)) = false) (fuel : ℕ)
    (s : σ) :
    (messageLoop stopsAt handler mem (fuel + 1) h status s).ending =
      (messageLoop stopsAt handler mem fuel (h + (nlmsgAlign (le32 (mem.drop h) 0)).toNat)
        (status - nlmsgAlign (le32 (mem.drop h) 0)) (handler s (mem.drop h)).2).ending := by
  rw [messageLoop_next hcount hgo (by simpa using haccept s (mem.drop h))]

theorem messageLoop_stuck (haccept : ∀ s m, 0 ≤ (handler s m).1) (hcount : 16 ≤ status.toNat)
    (hgo : stopsAt (nlmsgType (mem.drop h)) = false)
    (hzero : nlmsgAlign (le32 (mem.drop h) 0) = 0) (fuel : ℕ) (s : σ) :
    (messageLoop stopsAt handler mem fuel h status s).ending = .running := by
  induction fuel generalizing s with
  | zero =>
    rw [messageLoop, if_neg (not_sizeOfInt_lt_iff.mpr hcount), if_neg (by simp [hgo])]
  | succ fuel ih =>
    rw [messageLoop_next_ending haccept hcount hgo, hzero]
    simpa using ih (handler s (mem.drop h)).2

/-- A message that does not fit keeps the loop running: its header again if the aligned
length was cut to zero, or else a null header behind the bytes. -/
theorem LoopAt.running_of_overlong (hat : LoopAt stopsAt d d h status m)
    (hnull : stopsAt (.other 0) = false) (haccept : ∀ s m, 0 ≤ (handler s m).1)
    (hd : d.length ≤ recvBufferSize) (hcount : 16 ≤ status.toNat)
    (hgo : stopsAt (nlmsgType (d.drop h)) = false) (hover : m.length < paddedLen m)
    (fuel : ℕ) (s : σ) :
    (messageLoop stopsAt handler d (fuel + 1) h status s).ending = .running := by
  have hpos := hat.position
  have hstatus := hat.count
  have hview := hat.nlmsgLen_eq hcount
  have halign := toNat_nlmsgAlign (le32 (d.drop h) 0)
  by_cases hzero : nlmsgAlign (le32 (d.drop h) 0) = 0
  · exact messageLoop_stuck haccept hcount hgo hzero _ s
  · have hne : (nlmsgAlign (le32 (d.drop h) 0)).toNat ≠ 0 := fun hz =>
      hzero (UInt32.toNat_inj.mp hz)
    have hlt := (le32 (d.drop h) 0).toNat_lt
    have hpadded : (nlmsgAlign (le32 (d.drop h) 0)).toNat = paddedLen m := by
      rw [halign] at hne ⊢
      rw [paddedLen, ← hview, nlmsgLen]
      omega
    unfold recvBufferSize at hd
    have hbehind : d.drop (h + paddedLen m) = [] := List.drop_eq_nil_of_le (by omega)
    rw [messageLoop_next_ending haccept hcount hgo, hpadded]
    apply messageLoop_stuck haccept
    · rw [UInt32.toNat_sub]
      have hbound : paddedLen m < 2 ^ 32 := by
        rw [← hpadded]
        exact (nlmsgAlign (le32 (d.drop h) 0)).toNat_lt
      omega
    · rw [hbehind]
      exact hnull
    · rw [hbehind]
      decide

theorem headersEnd_of_ends (hnull : stopsAt (.other 0) = false)
    (hd : d.length ≤ recvBufferSize) {fuel : ℕ} (hat : LoopAt stopsAt d d h status m)
    (hend : (messageLoop stopsAt acceptAll d fuel h status ()).ending ≠ .running) :
    HeadersEnd stopsAt fuel m := by
  induction fuel generalizing h status m with
  | zero =>
    by_cases hcount : status.toNat < 16
    · exact Or.inl (hat.count ▸ hcount)
    · rw [Nat.not_lt] at hcount
      cases hgo : stopsAt (nlmsgType (d.drop h)) with
      | true => exact Or.inr (by rw [← hat.nlmsgType_eq hcount, hgo])
      | false =>
        rw [messageLoop, if_neg (not_sizeOfInt_lt_iff.mpr hcount), if_neg (by simp [hgo])] at hend
        exact absurd rfl hend
  | succ fuel ih =>
    by_cases hcount : status.toNat < 16
    · exact Or.inl (hat.count ▸ hcount)
    · rw [Nat.not_lt] at hcount
      cases hgo : stopsAt (nlmsgType (d.drop h)) with
      | true => exact Or.inr (Or.inl (by rw [← hat.nlmsgType_eq hcount, hgo]))
      | false =>
        have haccept : ∀ (s : Unit) (m : Mem), 0 ≤ (acceptAll s m).1 := fun _ _ => le_refl 0
        by_cases hpad : paddedLen m ≤ m.length
        · rw [messageLoop_next_ending haccept hcount hgo] at hend
          exact Or.inr (Or.inr ⟨hpad, ih (hat.next hd hcount hgo hpad) hend⟩)
        · exact absurd (hat.running_of_overlong hnull haccept hd hcount hgo
            (Nat.lt_of_not_le hpad) fuel ()) hend

end Loop

theorem endsInTime_iff (hnull : stopsAt (.other 0) = false) (content : Mem) :
    EndsInTime stopsAt content ↔
      HeadersEnd stopsAt ((received content).length / 16) (received content) := by
  have hd := length_received_le content
  constructor
  · intro hends
    have hrun := (hends Unit acceptAll (fun _ _ => le_refl 0) [] () _ le_rfl).1
    rw [datagramLoop, afterReceive, List.drop_nil, List.append_nil] at hrun
    exact headersEnd_of_ends hnull hd
      ⟨.first, List.prefix_rfl, Nat.zero_add _, toNat_ofNat_length hd⟩ hrun
  · intro hend σ handler haccept buf s fuel hfuel
    exact messageLoop_ends hd haccept hfuel
      ⟨.first, List.prefix_append _ _, Nat.zero_add _, toNat_ofNat_length hd⟩ hend s

/-- For both listeners: every handler that refuses nothing is called at most once for every
sixteen received bytes, and then the inner loop is over, exactly if the padded lengths of
the headers lead within so many steps to the end of the bytes or to a message at which the
listener stops. -/
theorem listeners_end_iff (content : Mem) :
    (EndsInTime (fun _ => false) content ↔
        HeadersEnd (fun _ => false) ((received content).length / 16) (received content)) ∧
      (EndsInTime errorOrDone content ↔
        HeadersEnd errorOrDone ((received content).length / 16) (received content)) :=
  ⟨endsInTime_iff rfl content, endsInTime_iff rfl content⟩

/-- A null header is handed on for ever by both listeners. -/
theorem listeners_endless :
    (received (headerClaiming 0)).length = 16 ∧
      (∀ fuel, (datagramLoop (fun _ => false) acceptAll fuel [] (headerClaiming 0) ()).ending =
        .running) ∧
      (∀ fuel, (datagramLoop errorOrDone acceptAll fuel [] (headerClaiming 0) ()).ending =
        .running) ∧
      ¬ EndsInTime (fun _ => false) (headerClaiming 0) ∧
      ¬ EndsInTime errorOrDone (headerClaiming 0) := by
  have haccept : ∀ (s : Unit) (m : Mem), 0 ≤ (acceptAll s m).1 := fun _ _ => le_refl 0
  have hfirst : ∀ fuel, (datagramLoop (fun _ => false) acceptAll fuel [] (headerClaiming 0)
      ()).ending = .running := fun fuel =>
    messageLoop_stuck haccept (by decide +kernel) rfl (by decide +kernel) fuel ()
  have hsecond : ∀ fuel, (datagramLoop errorOrDone acceptAll fuel [] (headerClaiming 0)
      ()).ending = .running := fun fuel =>
    messageLoop_stuck haccept (by decide +kernel) (by decide +kernel) (by decide +kernel) fuel ()
  refine ⟨by decide +kernel, hfirst, hsecond, fun h => ?_, fun h => ?_⟩
  · exact (h Unit acceptAll haccept [] () _ le_rfl).1 (hfirst _)
  · exact (h Unit acceptAll haccept [] () _ le_rfl).1 (hsecond _)

end Routerd
