import Routerd.CplaneNetdev
import Routerd.RtattrTable

/-!
# Buffers on the way from the taps into VPP

`tap_rx` keeps a stack of buffers that VPP has granted. A read takes the last one, and a stack with
fewer buffers than a packet needs is filled up first. Every way out of the function either leaves
the stack as it is or hands its last buffer to an output node, so along any run
the buffers granted are those handed on and those on the stack. A packet needs one buffer:
the stack is empty whenever it is filled, which bounds it by the size of one grant.
-/

namespace Routerd

def mtu : ℕ := 1500

def vlibBufferDataSize : ℕ := 2048

def mtuBuffers : ℕ := (mtu + vlibBufferDataSize - 1) / vlibBufferDataSize

def numBuffersToAlloc : ℕ := 32

/-- What `tap_rx` writes of a `vlib_buffer_t` besides the bytes read: the two flags stand for
their bits, the two indexes for the entries of `sw_if_index`. -/
structure RxBuffer where
  currentLength : UInt16
  nextPresent : Bool
  nextBuffer : UInt32
  totalLengthValid : Bool
  totalLengthNotIncludingFirstBuffer : UInt32
  swIfIndexRx : UInt32
  swIfIndexTx : UInt32

/-- VPP's pool at one call. A grant can be short and holds no buffer twice; it can hold a
buffer that was granted before and is free again. -/
structure BufferPool where
  alloc : ℕ → List UInt32
  length_le : ∀ n, (alloc n).length ≤ n
  nodup : ∀ n, (alloc n).Nodup

/-- The answers to one call of `tap_rx`. A read fails, or fills at most the room it is given. -/
structure RxOutside where
  pool : BufferPool
  readv : ℕ → Option ℕ
  readv_le : ∀ room n, readv room = some n → n ≤ room
  outputNodeIndex : UInt32 → UInt32

/-- The state of the receiving side. `allocated` and `handed` record the buffers that were
granted, and those put on a frame to an output node, with that node. -/
structure RxState where
  tables : TapTables
  buffers : UInt32 → RxBuffer
  rxBuffers : List UInt32
  allocated : List UInt32
  handed : List (UInt32 × UInt32)

/-- The state that `cplane_netdev_init` leaves: the vector has room and no entries. -/
def RxState.init (tables : TapTables) (buffers : UInt32 → RxBuffer) : RxState :=
  ⟨tables, buffers, [], [], []⟩

/-- The bulk allocation writes behind the end of the vector, which has room for
`NUM_BUFFERS_TO_ALLOC` entries. -/
def refill (pool : BufferPool) (s : RxState) : Except Fault RxState :=
  let granted := pool.alloc numBuffersToAlloc
  if s.rxBuffers.length + granted.length ≤ numBuffersToAlloc then
    .ok { s with rxBuffers := s.rxBuffers ++ granted, allocated := s.allocated ++ granted }
  else .error .overflow

def RxBuffer.first (b : RxBuffer) (swIfIndex : UInt32) (nBytes : ℕ) : RxBuffer :=
  let left : ℤ := nBytes - vlibBufferDataSize
  let b := { b with
    swIfIndexRx := swIfIndex
    swIfIndexTx := swIfIndex
    currentLength := UInt16.ofNat nBytes }
  if 0 < left then
    { b with totalLengthNotIncludingFirstBuffer := UInt32.ofInt left, totalLengthValid := true }
  else b

/-- The loop that chains the buffers behind `prev`. It gives the number of buffers used; one more
than there are would be read from beyond the array. -/
def chainBuffers (prev : UInt32) : List UInt32 → ℕ → ℤ → (UInt32 → RxBuffer) →
    Except Fault (ℕ × (UInt32 → RxBuffer))
  | [], i, left, buffers => if 0 < left then .error .overflow else .ok (i, buffers)
  | b :: bi, i, left, buffers =>
    if 0 < left then
      let buffers := Function.update buffers prev { buffers prev with
        currentLength := UInt16.ofNat vlibBufferDataSize
        nextPresent := true
        nextBuffer := b }
      let buffers := Function.update buffers b
        { buffers b with currentLength := UInt16.ofInt left }
      chainBuffers b bi (i + 1) (left - vlibBufferDataSize) buffers
    else .ok (i, buffers)

/-- A packet of `nBytes` bytes was read to the last buffers of the vector, the last one first. -/
def handOver (out : RxOutside) (s : RxState) (swIfIndex : UInt32) (nBytes : ℕ) :
    Except Fault RxState :=
  match s.rxBuffers.reverse.take mtuBuffers with
  | [] => .error .overflow
  | b :: bi => do
    let buffers := Function.update s.buffers b ((s.buffers b).first swIfIndex nBytes)
    let (used, buffers) ← chainBuffers b bi 1 (nBytes - vlibBufferDataSize) buffers
    pure { s with
      buffers := buffers
      rxBuffers := s.rxBuffers.take (s.rxBuffers.length - used)
      handed := s.handed ++ [(out.outputNodeIndex swIfIndex, b)] }

/-- The second half of `tap_rx`, with enough buffers for a packet. -/
def readPacket (out : RxOutside) (s : RxState) (swIfIndex : UInt32) :
    Except Fault (RxState × ℕ) :=
  match out.readv (mtuBuffers * vlibBufferDataSize) with
  | none => .ok (s, 0)
  | some nBytes => do
    let s ← handOver out s swIfIndex nBytes
    pure (s, 1)

def tapRx (out : RxOutside) (s : RxState) (fd : UInt32) : Except Fault (RxState × ℕ) :=
  let (swIfIndex, tables) := tapInjectLookupSwIfIndexFromTapFd s.tables fd
  let s := { s with tables := tables }
  if swIfIndex = noIndex then .ok (s, 0)
  else if s.rxBuffers.length < mtuBuffers then do
    let s ← refill out.pool s
    if s.rxBuffers.length < mtuBuffers then pure (s, 0)
    else readPacket out s swIfIndex
  else readPacket out s swIfIndex

/-- `tap_inject_rx`: the descriptors with input are read one after the other, up to the
first that fails. It gives the number of packets. -/
def tapInjectRx (s : RxState) : List (RxOutside × UInt32) → ℕ → Except Fault (RxState × ℕ)
  | [], count => .ok (s, count)
  | (out, fd) :: rest, count => do
    let (s, n) ← tapRx out s fd
    if n ≠ 1 then pure (s, 0)
    else tapInjectRx s rest (count + 1)

/-- Between the calls other code writes the tables and the buffers. -/
inductive RxStep where
  | call (out : RxOutside) (fd : UInt32)
  | others (tables : TapTables) (buffers : UInt32 → RxBuffer)

def RxStep.run (s : RxState) : RxStep → Except Fault RxState
  | call out fd => do
    let (s, _) ← tapRx out s fd
    pure s
  | others tables buffers => .ok { s with tables := tables, buffers := buffers }

def runRx (s : RxState) : List RxStep → Except Fault RxState
  | [] => .ok s
  | step :: rest => do
    let s ← step.run s
    runRx s rest

/-! ### The invariant -/

structure RxInvariant (s : RxState) : Prop where
  capacity : s.rxBuffers.length ≤ numBuffersToAlloc
  nodup : s.rxBuffers.Nodup
  accounted : s.allocated.Perm (s.handed.map Prod.snd ++ s.rxBuffers)

theorem rxInvariant_init (tables : TapTables) (buffers : UInt32 → RxBuffer) :
    RxInvariant (.init tables buffers) := ⟨Nat.zero_le _, List.nodup_nil, .nil⟩

theorem mtuBuffers_eq : mtuBuffers = 1 := by decide

namespace RxInvariant

variable {s : RxState}

theorem refill (h : RxInvariant s) (hlow : s.rxBuffers.length < mtuBuffers) (pool : BufferPool) :
    ∃ s', Routerd.refill pool s = .ok s' ∧ RxInvariant s' := by
  have hempty : s.rxBuffers = [] := by
    rw [mtuBuffers_eq, Nat.lt_one_iff, List.length_eq_zero_iff] at hlow
    exact hlow
  have hroom := pool.length_le numBuffersToAlloc
  have haccounted := h.accounted
  rw [hempty, List.append_nil] at haccounted
  refine ⟨{ s with
    rxBuffers := pool.alloc numBuffersToAlloc
    allocated := s.allocated ++ pool.alloc numBuffersToAlloc }, ?_, hroom,
    pool.nodup _, haccounted.append_right _⟩
  rw [Routerd.refill, hempty, List.length_nil, Nat.zero_add, if_pos hroom]
  rfl

/-- A packet fits the last buffer, so the loop behind it does not run. -/
theorem handOver (h : RxInvariant s) (henough : mtuBuffers ≤ s.rxBuffers.length) (out : RxOutside)
    (swIfIndex : UInt32) {nBytes : ℕ} (hn : nBytes ≤ mtuBuffers * vlibBufferDataSize) :
    ∃ s', Routerd.handOver out s swIfIndex nBytes = .ok s' ∧ RxInvariant s' := by
  rw [mtuBuffers_eq] at henough
  obtain ⟨front, b, hlast⟩ : ∃ front b, s.rxBuffers = front ++ [b] := by
    have hne : s.rxBuffers ≠ [] := List.ne_nil_of_length_pos henough
    exact ⟨_, _, (List.dropLast_append_getLast hne).symm⟩
  have htake : s.rxBuffers.reverse.take mtuBuffers = [b] := by
    rw [hlast, mtuBuffers_eq, List.reverse_append]
    rfl
  have hleft : ¬ (0 : ℤ) < nBytes - vlibBufferDataSize := by
    rw [mtuBuffers_eq] at hn
    omega
  have hrest : s.rxBuffers.take (s.rxBuffers.length - 1) = front := by
    rw [hlast, List.length_append, List.length_singleton, Nat.add_sub_cancel, List.take_left]
  refine ⟨{ s with
    buffers := Function.update s.buffers b ((s.buffers b).first swIfIndex nBytes)
    rxBuffers := front
    handed := s.handed ++ [(out.outputNodeIndex swIfIndex, b)] }, ?_, ?_, ?_, ?_⟩
  · simp only [Routerd.handOver, htake, chainBuffers, if_neg hleft, ok_bind, hrest]
    rfl
  · have hcapacity := h.capacity
    rw [hlast, List.length_append] at hcapacity
    exact (Nat.le_add_right _ _).trans hcapacity
  · have hnodup := h.nodup
    rw [hlast] at hnodup
    exact hnodup.of_append_left
  · have haccounted := h.accounted
    rw [hlast, ← List.append_assoc] at haccounted
    refine haccounted.trans ?_
    rw [List.map_append, List.append_assoc, List.append_assoc]
    exact (List.perm_append_comm).append_left _

theorem readPacket (h : RxInvariant s) (henough : mtuBuffers ≤ s.rxBuffers.length)
    (out : RxOutside) (swIfIndex : UInt32) :
    ∃ s' n, Routerd.readPacket out s swIfIndex = .ok (s', n) ∧ RxInvariant s' := by
  unfold Routerd.readPacket
  split
  · exact ⟨s, 0, rfl, h⟩
  · rename_i nBytes hread
    obtain ⟨s', hhand, hs'⟩ := h.handOver henough out swIfIndex (out.readv_le _ _ hread)
    refine ⟨s', 1, ?_, hs'⟩
    rw [hhand]
    rfl

theorem others (h : RxInvariant s) (tables : TapTables) (buffers : UInt32 → RxBuffer) :
    RxInvariant { s with tables := tables, buffers := buffers } :=
  ⟨h.capacity, h.nodup, h.accounted⟩

theorem tapRx (h : RxInvariant s) (out : RxOutside) (fd : UInt32) :
    ∃ s' n, Routerd.tapRx out s fd = .ok (s', n) ∧ RxInvariant s' := by
  unfold Routerd.tapRx
  generalize tapInjectLookupSwIfIndexFromTapFd s.tables fd = found
  obtain ⟨swIfIndex, tables⟩ := found
  have htables := h.others tables s.buffers
  dsimp only
  split
  · exact ⟨_, 0, rfl, htables⟩
  · split
    · rename_i hlow
      obtain ⟨s₁, hrefill, hfilled⟩ := htables.refill hlow out.pool
      rw [hrefill, ok_bind]
      split
      · exact ⟨s₁, 0, rfl, hfilled⟩
      · rename_i henough
        exact hfilled.readPacket (not_lt.mp henough) out _
    · rename_i henough
      exact htables.readPacket (not_lt.mp henough) out _

theorem run (h : RxInvariant s) (step : RxStep) :
    ∃ s', step.run s = .ok s' ∧ RxInvariant s' := by
  cases step with
  | call out fd =>
    obtain ⟨s', n, hcall, hs'⟩ := h.tapRx out fd
    refine ⟨s', ?_, hs'⟩
    rw [RxStep.run, hcall]
    rfl
  | others tables buffers => exact ⟨_, rfl, h.others tables buffers⟩

theorem runRx (h : RxInvariant s) (steps : List RxStep) :
    ∃ s', Routerd.runRx s steps = .ok s' ∧ RxInvariant s' := by
  induction steps generalizing s with
  | nil => exact ⟨s, rfl, h⟩
  | cons step rest ih =>
    obtain ⟨s₁, hstep, hs₁⟩ := h.run step
    obtain ⟨s', hrest, hs'⟩ := ih hs₁
    refine ⟨s', ?_, hs'⟩
    rw [Routerd.runRx, hstep]
    exact hrest

end RxInvariant

/-- Along every run of `tap_rx` the vector stays within its room and holds no buffer twice, and
the buffers granted are, each as often as it was granted, those handed to an output node and those
still in the vector. A buffer that is granted once is thus handed on at most once. -/
theorem rxBuffers_accounted (tables : TapTables) (buffers : UInt32 → RxBuffer)
    (steps : List RxStep) :
    ∃ s, runRx (.init tables buffers) steps = .ok s ∧
      s.rxBuffers.length ≤ numBuffersToAlloc ∧ s.rxBuffers.Nodup ∧
      s.allocated.Perm (s.handed.map Prod.snd ++ s.rxBuffers) ∧
      (s.allocated.Nodup → (s.handed.map Prod.snd).Nodup ∧
        ∀ b ∈ s.rxBuffers, b ∉ s.handed.map Prod.snd) := by
  obtain ⟨s, hrun, h⟩ := (rxInvariant_init tables buffers).runRx steps
  refine ⟨s, hrun, h.capacity, h.nodup, h.accounted, fun honce => ?_⟩
  obtain ⟨hhanded, -, hapart⟩ := List.nodup_append.mp (h.accounted.nodup_iff.mp honce)
  exact ⟨hhanded, fun b hb hmem => hapart b hmem b hb rfl⟩

/-- A grant of two buffers. -/
def shortGrant : BufferPool where
  alloc n := [4, 9].take n
  length_le n := (List.length_take_le _ _)
  nodup n := (show [(4 : UInt32), 9].Nodup by decide).sublist (List.take_sublist n _)

def reading (bytes : Option ℕ) : RxOutside where
  pool := shortGrant
  readv room := bytes.map (min room)
  readv_le room n h := by
    obtain ⟨k, -, rfl⟩ := Option.map_eq_some_iff.mp h
    exact Nat.min_le_left room k
  outputNodeIndex swIfIndex := swIfIndex + 70

/-- A read that fails leaves the grant on the stack; a packet takes the last buffer of it. -/
theorem shortGrant_accounted :
    ∃ s, runRx (.init (tapInjectInsertTap .empty 1 3 5) fun _ => ⟨0, false, 0, false, 0, 0, 0⟩)
        [.call (reading none) 3, .call (reading (some 60)) 3] = .ok s ∧
      s.handed = [(71, 9)] ∧ s.rxBuffers = [4] ∧
      s.allocated.Perm (s.handed.map Prod.snd ++ s.rxBuffers) := by
  have hends : ∃ s, runRx
      (.init (tapInjectInsertTap .empty 1 3 5) fun _ => ⟨0, false, 0, false, 0, 0, 0⟩)
      [.call (reading none) 3, .call (reading (some 60)) 3] = .ok s ∧
        s.handed = [(71, 9)] ∧ s.rxBuffers = [4] := ⟨_, rfl, rfl, rfl⟩
  obtain ⟨s, hrun, hhanded, hleft⟩ := hends
  obtain ⟨s', hrun', -, -, haccounted, -⟩ := rxBuffers_accounted
    (tapInjectInsertTap .empty 1 3 5) (fun _ => ⟨0, false, 0, false, 0, 0, 0⟩)
    [.call (reading none) 3, .call (reading (some 60)) 3]
  cases hrun.symm.trans hrun'
  exact ⟨s, hrun, hhanded, hleft, haccounted⟩

theorem tapInjectRx_runs (s : RxState) (reads : List (RxOutside × UInt32)) (count : ℕ)
    {s' : RxState} {n : ℕ} (h : tapInjectRx s reads count = .ok (s', n)) :
    ∃ k, runRx s ((reads.take k).map fun r => .call r.1 r.2) = .ok s' := by
  induction reads generalizing s count with
  | nil =>
    cases h
    exact ⟨0, rfl⟩
  | cons read rest ih =>
    obtain ⟨out, fd⟩ := read
    obtain ⟨⟨s₁, n₁⟩, hread, hrest⟩ := bind_eq_ok h
    have hcall : (RxStep.call out fd).run s = .ok s₁ := by
      rw [RxStep.run, hread]
      rfl
    dsimp only at hrest
    split at hrest
    · cases hrest
      refine ⟨1, ?_⟩
      rw [List.take_succ_cons, List.take_zero, List.map_cons, runRx, hcall]
      rfl
    · obtain ⟨k, hk⟩ := ih s₁ (count + 1) hrest
      refine ⟨k + 1, ?_⟩
      rw [List.take_succ_cons, List.map_cons, runRx, hcall]
      exact hk

end Routerd
