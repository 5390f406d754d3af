import Mathlib.Data.List.Count
import Routerd.ByteMemory
import Routerd.RtattrTable
import Routerd.TapTables

/-!
# Frames on their way to the taps

`tap_inject_tx` and `tap_inject_neighbor` are given a frame of buffers and own them: each
has to be freed or enqueued to a next node. The first frees the whole frame at its end.
The second settles the buffers one by one, and on the exit for an interface without a
tap it forgets to.
-/

namespace Routerd
open ByteMemory

/-! ### Buffers -/

/-- `data` begins with the Ethernet header; `currentData` is the offset from there. -/
structure VlibBuffer where
  rxSwIfIndex : UInt32
  currentData : ℤ
  currentLength : ℕ
  data : Mem

/-- `vlib_buffer_advance`; the length has 16 bits. -/
def VlibBuffer.advance (b : VlibBuffer) (l : ℤ) : VlibBuffer :=
  { b with
    currentData := b.currentData + l
    currentLength := (((b.currentLength : ℤ) - l) % 65536).toNat }

/-- `vlib_buffer_get_current`, for a packet that does not begin before the data. -/
def VlibBuffer.current (b : VlibBuffer) : Mem := b.data.drop b.currentData.toNat

/-- The next nodes of `tap_inject_neighbor`. -/
inductive NeighborNext where
  | arp
  | icmp6
  deriving DecidableEq

def VLIB_FRAME_SIZE : ℕ := 256

/-- What was passed on to a next node: full frames, and the vector of the current one. -/
structure NextFrame where
  sent : List ℕ
  vector : List ℕ
  fits : vector.length ≤ VLIB_FRAME_SIZE

namespace NextFrame

def enqueued (q : NextFrame) : List ℕ := q.sent ++ q.vector

/-- `vlib_get_next_frame` begins a new frame where the current one is full. -/
def get (q : NextFrame) : NextFrame :=
  if q.vector.length = VLIB_FRAME_SIZE then ⟨q.sent ++ q.vector, [], Nat.zero_le _⟩ else q

def nLeft (q : NextFrame) : ℕ := VLIB_FRAME_SIZE - q.vector.length

theorem length_put_le (q : NextFrame) (written : List ℕ) (n : ℕ) :
    ((q.vector ++ written).take (VLIB_FRAME_SIZE - n)).length ≤ VLIB_FRAME_SIZE :=
  (List.length_take_le _ _).trans (Nat.sub_le _ _)

/-- `vlib_put_next_frame` with room left for `n` more: of what was written behind the
vector, that much belongs to it. -/
def put (q : NextFrame) (written : List ℕ) (n : ℕ) : NextFrame :=
  ⟨q.sent, (q.vector ++ written).take (VLIB_FRAME_SIZE - n), q.length_put_le written n⟩

end NextFrame

/-- The buffer is written to the frame of the cached next node, and
`vlib_validate_buffer_enqueue_x1` takes it back if that is not where it goes. -/
def enqueueBuffer (frames : NeighborNext → NextFrame) (nextIndex next : NeighborNext) (bi : ℕ) :
    NeighborNext → NextFrame :=
  let q := (frames nextIndex).get
  let nLeft := q.nLeft - 1
  if next ≠ nextIndex then
    let frames := Function.update frames nextIndex (q.put [bi] (nLeft + 1))
    let q := (frames next).get
    Function.update frames next (q.put [bi] (q.nLeft - 1))
  else Function.update frames nextIndex (q.put [bi] nLeft)

/-! ### The node functions -/

/-- `writes` are the calls of `writev`, whose results are only reported. -/
structure InjectState where
  tables : TapTables
  buffers : ℕ → VlibBuffer
  frames : NeighborNext → NextFrame
  writes : List (UInt32 × Mem)
  freed : List ℕ

def tapInjectTapSendBuffer (s : InjectState) (fd : UInt32) (b : VlibBuffer) : InjectState :=
  { s with writes := s.writes ++ [(fd, b.current.take b.currentLength)] }

/-- One round of the loop of `tap_inject_tx`. -/
def tapInjectTxStep (s : InjectState) (bi : ℕ) : InjectState :=
  let b := s.buffers bi
  let (fd, tables) := tapInjectLookupTapFd s.tables b.rxSwIfIndex
  let s := { s with tables := tables }
  if fd = noIndex then s
  else
    let b := b.advance (-b.currentData)
    tapInjectTapSendBuffer { s with buffers := Function.update s.buffers bi b } fd b

def tapInjectTx (s : InjectState) (pkts : List ℕ) : InjectState :=
  let s := pkts.foldl tapInjectTxStep s
  { s with freed := s.freed ++ pkts }

/-- A field of 16 bits in network byte order. -/
def be16 (m : Mem) (i : ℕ) : UInt16 :=
  UInt16.ofNat (256 * (byteAt m i).toNat + (byteAt m (i + 1)).toNat)

def ETHERNET_TYPE_IP6 : UInt16 := 0x86dd

def ETHERNET_ARP_OPCODE_reply : UInt16 := 2

def IP_PROTOCOL_ICMP6 : UInt8 := 58

def ICMP6_neighbor_advertisement : UInt8 := 136

/-- Where a packet that begins with its Ethernet header goes; `none` stands for `~0`. The
opcode of ARP is at 14 + 6, the protocol of IPv6 at 14 + 6 and the type of ICMPv6 at
14 + 40. -/
def neighborNext (eth : Mem) : Except Fault (Option NeighborNext) :=
  let etherType := be16 eth 12
  if etherType = ETHERNET_TYPE_ARP then
    .ok (if be16 eth 20 = ETHERNET_ARP_OPCODE_reply then some .arp else none)
  else if etherType = ETHERNET_TYPE_IP6 then
    if byteAt eth 20 = IP_PROTOCOL_ICMP6 then
      .ok (if byteAt eth 54 = ICMP6_neighbor_advertisement then some .icmp6 else none)
    else .error .assertion
  else .error .assertion

/-- One round of the loop of `tap_inject_neighbor`. -/
def tapInjectNeighborStep (cachedNextIndex : NeighborNext) (s : InjectState) (bi : ℕ) :
    Except Fault InjectState :=
  let b := s.buffers bi
  let (fd, tables) := tapInjectLookupTapFd s.tables b.rxSwIfIndex
  let s := { s with tables := tables }
  if fd = noIndex then .ok s
  else do
    let b := b.advance (-b.currentData)
    let s := tapInjectTapSendBuffer { s with buffers := Function.update s.buffers bi b } fd b
    match ← neighborNext b.current with
    | none => .ok { s with freed := s.freed ++ [bi] }
    | some next =>
      -- ARP and ICMP6 start behind the Ethernet header.
      let b := b.advance 14
      .ok { s with
        buffers := Function.update s.buffers bi b
        frames := enqueueBuffer s.frames cachedNextIndex next bi }

/-- VPP may change the cached next index of the node between any two packets. -/
def tapInjectNeighbor (cachedNextIndex : ℕ → NeighborNext) (s : InjectState) :
    List ℕ → Except Fault InjectState
  | [] => .ok s
  | bi :: pkts => do
    let s ← tapInjectNeighborStep (cachedNextIndex pkts.length) s bi
    tapInjectNeighbor cachedNextIndex s pkts

/-! ### Enqueuing -/

namespace NextFrame

theorem enqueued_get (q : NextFrame) : q.get.enqueued = q.enqueued := by
  unfold get
  split
  · exact List.append_nil _
  · rfl

theorem get_has_room (q : NextFrame) : q.get.vector.length < VLIB_FRAME_SIZE := by
  unfold get
  split
  · exact Nat.zero_lt_of_lt (by decide : 255 < VLIB_FRAME_SIZE)
  · exact lt_of_le_of_ne q.fits ‹_›

variable {q : NextFrame} (hroom : q.vector.length < VLIB_FRAME_SIZE) (bi : ℕ)
include hroom

theorem enqueued_put : (q.put [bi] (q.nLeft - 1)).enqueued = q.enqueued ++ [bi] := by
  have hlen : VLIB_FRAME_SIZE - (q.nLeft - 1) = (q.vector ++ [bi]).length := by
    unfold nLeft
    rw [List.length_append, List.length_singleton]
    omega
  change q.sent ++ (q.vector ++ [bi]).take (VLIB_FRAME_SIZE - (q.nLeft - 1)) = _
  rw [hlen, List.take_length, ← List.append_assoc]
  rfl

theorem enqueued_put_back : (q.put [bi] (q.nLeft - 1 + 1)).enqueued = q.enqueued := by
  have hlen : VLIB_FRAME_SIZE - (q.nLeft - 1 + 1) = q.vector.length := by
    unfold nLeft
    omega
  change q.sent ++ (q.vector ++ [bi]).take (VLIB_FRAME_SIZE - (q.nLeft - 1 + 1)) = _
  rw [hlen, List.take_left]
  rfl

end NextFrame

/-- Whatever the cached index is, the buffer goes to the one next node it is meant for. -/
theorem enqueued_enqueueBuffer (frames : NeighborNext → NextFrame)
    (nextIndex next : NeighborNext) (bi : ℕ) (k : NeighborNext) :
    (enqueueBuffer frames nextIndex next bi k).enqueued =
      (frames k).enqueued ++ if k = next then [bi] else [] := by
  have hroom := fun q : NextFrame => q.get_has_room
  unfold enqueueBuffer
  by_cases hsame : next = nextIndex
  · subst hsame
    simp only [ne_eq, not_true_eq_false, if_false]
    by_cases hk : k = next
    · subst hk
      rw [Function.update_self, NextFrame.enqueued_put (hroom _), NextFrame.enqueued_get, if_pos rfl]
    · rw [Function.update_of_ne hk, if_neg hk, List.append_nil]
  · simp only [ne_eq, hsame, not_false_eq_true, if_true]
    by_cases hk : k = next
    · subst hk
      rw [Function.update_self, NextFrame.enqueued_put (hroom _), NextFrame.enqueued_get,
        Function.update_of_ne hsame, if_pos rfl]
    · rw [Function.update_of_ne hk, if_neg hk, List.append_nil]
      by_cases hcached : k = nextIndex
      · subst hcached
        rw [Function.update_self, NextFrame.enqueued_put_back (hroom _), NextFrame.enqueued_get]
      · rw [Function.update_of_ne hcached]

/-! ### Disposals -/

/-- How often a buffer was freed or enqueued. -/
def InjectState.disposals (s : InjectState) (b : ℕ) : ℕ :=
  s.freed.count b + (s.frames .arp).enqueued.count b + (s.frames .icmp6).enqueued.count b

/-- There is a tap for the interface the buffer was received on. -/
def InjectState.HasTap (s : InjectState) (b : ℕ) : Prop :=
  vecGet s.tables.swIfIndexToTapFd (s.buffers b).rxSwIfIndex ≠ noIndex

instance (s : InjectState) (b : ℕ) : Decidable (s.HasTap b) := inferInstanceAs (Decidable (_ ≠ _))

/-- An ARP packet, or one of ICMPv6. -/
def NeighborPacket (eth : Mem) : Prop :=
  be16 eth 12 = ETHERNET_TYPE_ARP ∨
    (be16 eth 12 = ETHERNET_TYPE_IP6 ∧ byteAt eth 20 = IP_PROTOCOL_ICMP6)

theorem neighborNext_ok {eth : Mem} (h : NeighborPacket eth) : ∃ next, neighborNext eth = .ok next := by
  have hne : ETHERNET_TYPE_IP6 ≠ ETHERNET_TYPE_ARP := by decide
  unfold neighborNext
  rcases h with harp | ⟨hip6, hicmp6⟩
  · simp only [harp, if_true]
    exact ⟨_, rfl⟩
  · simp only [hip6, if_neg hne, if_true, hicmp6]
    exact ⟨_, rfl⟩

/-- The state after a round, as far as it concerns the other buffers of the frame. -/
structure SameBuffers (s s' : InjectState) : Prop where
  hasTap : ∀ b, s'.HasTap b ↔ s.HasTap b
  data : ∀ b, (s'.buffers b).data = (s.buffers b).data

theorem sameBuffers_of {s s' : InjectState} {bi : ℕ} {c : VlibBuffer}
    (htables : ∀ i, vecGet s'.tables.swIfIndexToTapFd i = vecGet s.tables.swIfIndexToTapFd i)
    (hbuffers : s'.buffers = Function.update s.buffers bi c)
    (hrx : c.rxSwIfIndex = (s.buffers bi).rxSwIfIndex) (hdata : c.data = (s.buffers bi).data) :
    SameBuffers s s' := by
  constructor <;> intro b <;> by_cases hb : b = bi
  · subst hb
    rw [InjectState.HasTap, InjectState.HasTap, htables, hbuffers, Function.update_self, hrx]
  · rw [InjectState.HasTap, InjectState.HasTap, htables, hbuffers, Function.update_of_ne hb]
  · subst hb
    rw [hbuffers, Function.update_self, hdata]
  · rw [hbuffers, Function.update_of_ne hb]

section Rounds

variable {s : InjectState} {bi : ℕ}

theorem VlibBuffer.current_rewound (b : VlibBuffer) :
    (b.advance (-b.currentData)).current = b.data := by
  change b.data.drop (b.currentData + -b.currentData).toNat = b.data
  rw [add_neg_cancel]
  rfl

theorem neighborStep_of_noTap (cached : NeighborNext) (h : ¬ s.HasTap bi) :
    ∃ s', tapInjectNeighborStep cached s bi = .ok s' ∧ SameBuffers s s' ∧
      s'.freed = s.freed ∧ s'.frames = s.frames := by
  have hfd : (tapInjectLookupTapFd s.tables (s.buffers bi).rxSwIfIndex).1 = noIndex := by
    rw [tapInjectLookupTapFd, vecGet_vecValidate]
    exact not_not.mp h
  unfold tapInjectNeighborStep
  simp only [hfd, if_true]
  refine ⟨_, rfl, sameBuffers_of (c := s.buffers bi) (fun i => vecGet_vecValidate _ _ i) ?_ rfl rfl,
    rfl, rfl⟩
  exact (Function.update_eq_self bi s.buffers).symm

theorem neighborStep_of_hasTap (cached : NeighborNext) (h : s.HasTap bi)
    (hpacket : NeighborPacket (s.buffers bi).data) :
    ∃ s', tapInjectNeighborStep cached s bi = .ok s' ∧ SameBuffers s s' ∧
      ((s'.freed = s.freed ++ [bi] ∧ s'.frames = s.frames) ∨
        (s'.freed = s.freed ∧ ∃ next, s'.frames = enqueueBuffer s.frames cached next bi)) := by
  have hfd : (tapInjectLookupTapFd s.tables (s.buffers bi).rxSwIfIndex).1 ≠ noIndex := by
    rw [tapInjectLookupTapFd, vecGet_vecValidate]
    exact h
  obtain ⟨next, hnext⟩ := neighborNext_ok hpacket
  unfold tapInjectNeighborStep
  simp only [hfd, if_false, VlibBuffer.current_rewound, hnext, ok_bind]
  cases next with
  | none =>
    exact ⟨_, rfl, sameBuffers_of (fun i => vecGet_vecValidate _ _ i) rfl rfl rfl,
      Or.inl ⟨rfl, rfl⟩⟩
  | some next =>
    refine ⟨_, rfl, sameBuffers_of
      (c := ((s.buffers bi).advance (-(s.buffers bi).currentData)).advance 14)
      (fun i => vecGet_vecValidate _ _ i) ?_ rfl rfl, Or.inr ⟨rfl, next, rfl⟩⟩
    exact Function.update_idem _ _ s.buffers

theorem count_singleton_append (l : List ℕ) (bi b : ℕ) :
    (l ++ [bi]).count b = l.count b + if b = bi then 1 else 0 := by
  rw [List.count_append]
  by_cases hb : b = bi
  · rw [hb, List.count_singleton_self, if_pos rfl]
  · rw [if_neg hb, List.count_eq_zero.mpr fun hmem => hb (List.mem_singleton.mp hmem)]

theorem neighborStep_disposals (cached : NeighborNext)
    (hpacket : NeighborPacket (s.buffers bi).data) :
    ∃ s', tapInjectNeighborStep cached s bi = .ok s' ∧ SameBuffers s s' ∧
      ∀ b, s'.disposals b = s.disposals b + if s.HasTap b ∧ b = bi then 1 else 0 := by
  by_cases htap : s.HasTap bi
  · have hown : ∀ b, (s.HasTap b ∧ b = bi ↔ b = bi) := by
      intro b
      exact ⟨And.right, fun hb => ⟨hb ▸ htap, hb⟩⟩
    obtain ⟨s', hstep, hsame, ⟨hfreed, hframes⟩ | ⟨hfreed, next, hframes⟩⟩ :=
      neighborStep_of_hasTap cached htap hpacket <;>
      refine ⟨s', hstep, hsame, fun b => ?_⟩ <;>
      simp only [InjectState.disposals, hfreed, hframes, hown]
    · rw [count_singleton_append]
      omega
    · simp only [enqueued_enqueueBuffer]
      cases next with
      | arp =>
        simp only [if_true, reduceCtorEq, if_false, List.append_nil, count_singleton_append]
        omega
      | icmp6 =>
        simp only [if_true, reduceCtorEq, if_false, List.append_nil, count_singleton_append]
        omega
  · obtain ⟨s', hstep, hsame, hfreed, hframes⟩ := neighborStep_of_noTap cached htap
    refine ⟨s', hstep, hsame, fun b => ?_⟩
    have hno : ¬ (s.HasTap b ∧ b = bi) := fun hb => htap (hb.2 ▸ hb.1)
    rw [InjectState.disposals, hfreed, hframes, if_neg hno]
    rfl

/-- A frame disposes of those of its buffers that have a tap. -/
theorem tapInjectNeighbor_disposals (cached : ℕ → NeighborNext) {pkts : List ℕ}
    (hpackets : ∀ b ∈ pkts, NeighborPacket (s.buffers b).data) :
    ∃ s', tapInjectNeighbor cached s pkts = .ok s' ∧
      ∀ b, s'.disposals b = s.disposals b + if s.HasTap b then pkts.count b else 0 := by
  induction pkts generalizing s with
  | nil => exact ⟨s, rfl, fun b => by simp⟩
  | cons bi pkts ih =>
    obtain ⟨s₁, hstep, hsame, hone⟩ := neighborStep_disposals (cached pkts.length)
      (hpackets bi List.mem_cons_self)
    have hrest : ∀ b ∈ pkts, NeighborPacket (s₁.buffers b).data := by
      intro b hb
      rw [hsame.data b]
      exact hpackets b (List.mem_cons_of_mem bi hb)
    obtain ⟨s₂, hrun, hall⟩ := ih hrest
    refine ⟨s₂, by rw [tapInjectNeighbor, hstep, ok_bind, hrun], fun b => ?_⟩
    rw [hall b, hone b]
    by_cases htap : s.HasTap b
    · have hcount : (bi :: pkts).count b = pkts.count b + if b = bi then 1 else 0 := by
        by_cases hb : b = bi
        · rw [hb, List.count_cons_self, if_pos rfl]
        · rw [List.count_cons_of_ne (Ne.symm hb), if_neg hb, Nat.add_zero]
      simp only [hsame.hasTap b, htap, true_and, if_true, hcount]
      omega
    · simp only [hsame.hasTap b, htap, false_and, if_false]

theorem foldl_txStep (pkts : List ℕ) :
    (pkts.foldl tapInjectTxStep s).freed = s.freed ∧
      (pkts.foldl tapInjectTxStep s).frames = s.frames := by
  induction pkts generalizing s with
  | nil => exact ⟨rfl, rfl⟩
  | cons bi pkts ih =>
    have hstep : (tapInjectTxStep s bi).freed = s.freed ∧
        (tapInjectTxStep s bi).frames = s.frames := by
      unfold tapInjectTxStep
      dsimp only
      split <;> exact ⟨rfl, rfl⟩
    rw [List.foldl_cons, (ih (s := tapInjectTxStep s bi)).1, (ih (s := tapInjectTxStep s bi)).2]
    exact hstep

theorem tapInjectTx_freed (s : InjectState) (pkts : List ℕ) :
    (tapInjectTx s pkts).freed = s.freed ++ pkts ∧ (tapInjectTx s pkts).frames = s.frames := by
  obtain ⟨hfreed, hframes⟩ := foldl_txStep (s := s) pkts
  exact ⟨congrArg (· ++ pkts) hfreed, hframes⟩

end Rounds

/-- A frame a node function is called with: its buffers are distinct, and no one else has
freed or enqueued them. -/
structure TapFrame where
  state : InjectState
  pkts : List ℕ
  distinct : pkts.Nodup
  owned : ∀ b ∈ pkts, state.disposals b = 0

/-- A frame of ARP and ICMPv6 packets. -/
structure NeighborFrame extends TapFrame where
  content : ∀ b ∈ pkts, NeighborPacket (state.buffers b).data

/-- `tap_inject_neighbor` comes to its end and each buffer is freed or enqueued, once. -/
def NeighborFrame.Disposed (f : NeighborFrame) (cached : ℕ → NeighborNext) : Prop :=
  ∃ s, tapInjectNeighbor cached f.state f.pkts = .ok s ∧ ∀ b ∈ f.pkts, s.disposals b = 1

/-- `tap_inject_tx` frees each buffer once and enqueues none. -/
def TapFrame.Freed (f : TapFrame) : Prop :=
  ∀ b ∈ f.pkts, (tapInjectTx f.state f.pkts).freed.count b = 1 ∧
    (tapInjectTx f.state f.pkts).disposals b = 1

theorem TapFrame.freed (f : TapFrame) : f.Freed := by
  intro b hb
  obtain ⟨hfreed, hframes⟩ := tapInjectTx_freed f.state f.pkts
  have howned := f.owned b hb
  have hone := List.count_eq_one_of_mem f.distinct hb
  unfold InjectState.disposals at howned ⊢
  rw [hfreed, hframes, List.count_append]
  omega

theorem NeighborFrame.disposed_iff (f : NeighborFrame) (cached : ℕ → NeighborNext) :
    f.Disposed cached ↔ ∀ b ∈ f.pkts, f.state.HasTap b := by
  obtain ⟨s, hrun, hdisposals⟩ := tapInjectNeighbor_disposals cached f.content
  have heach : ∀ b ∈ f.pkts, (s.disposals b = 1 ↔ f.state.HasTap b) := by
    intro b hb
    rw [hdisposals b, f.owned b hb, List.count_eq_one_of_mem f.distinct hb]
    split <;> simp_all
  constructor
  · rintro ⟨s', hrun', hall⟩ b hb
    cases hrun.symm.trans hrun'
    exact (heach b hb).mp (hall b hb)
  · intro htaps
    exact ⟨s, hrun, fun b hb => (heach b hb).mpr (htaps b hb)⟩

/-- Whatever the tables and the packets are, every buffer of every frame is settled once
exactly if the frame of neighbour packets has a tap for each of its packets. -/
theorem frames_disposed_iff (f : NeighborFrame) (g : TapFrame) (cached : ℕ → NeighborNext) :
    f.Disposed cached ∧ g.Freed ↔ ∀ b ∈ f.pkts, f.state.HasTap b := by
  rw [← f.disposed_iff cached]
  exact and_iff_left g.freed

def NextFrame.empty : NextFrame := ⟨[], [], Nat.zero_le _⟩

def untappedReply : InjectState where
  tables := .empty
  buffers _ := ⟨1, 14, 28, List.replicate 12 0 ++ [8, 6, 0, 1, 8, 0, 6, 4, 0, 2]⟩
  frames _ := .empty
  writes := []
  freed := []

theorem untappedReply_content : NeighborPacket (untappedReply.buffers 7).data := Or.inl (by decide)

def untappedFrame : NeighborFrame where
  state := untappedReply
  pkts := [7]
  distinct := List.nodup_singleton 7
  owned _ _ := rfl
  content b hb := by
    rw [List.mem_singleton.mp hb]
    exact untappedReply_content

/-- Its buffer is neither freed nor enqueued. -/
theorem untappedFrame_leaks :
    (∃ s, tapInjectNeighbor (fun _ => .arp) untappedFrame.state untappedFrame.pkts = .ok s ∧
        s.disposals 7 = 0) ∧
      ¬ (untappedFrame.Disposed (fun _ => .arp) ∧ untappedFrame.toTapFrame.Freed) := by
  have hnone : ¬ untappedFrame.state.HasTap 7 := by decide
  obtain ⟨s, hrun, hdisposals⟩ :=
    tapInjectNeighbor_disposals (fun _ => .arp) untappedFrame.content
  refine ⟨⟨s, hrun, by rw [hdisposals, if_neg hnone]; rfl⟩, fun h => ?_⟩
  exact hnone ((untappedFrame.disposed_iff _).mp h.1 7 (List.mem_singleton_self 7))

end Routerd
