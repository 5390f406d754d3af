import Routerd.DaemonRuns
import Routerd.KeyedUpdates

/-!
# Interface addresses in VPP

An address message carries `IFA_ADDRESS` and, on point-to-point interfaces, also
`IFA_LOCAL`, which is then the own address while `IFA_ADDRESS` is the peer's. The
hook reads attribute 1, under its name from the link messages, and never
`IFA_LOCAL`. As long as the two attributes agree, the calls of `set_addr` keep VPP's
addresses equal to those of the kernel.
-/

namespace Routerd
open ByteMemory NumeralText InetText KeyedUpdates

/-- An IPv4 address message with `IFA_ADDRESS`. -/
structure AddrMessage where
  mem : Mem
  isNew : Bool
  type : nlmsgType mem = if isNew then .newaddr else .deladdr
  object : RtObject
  parsed : ofMessage ifaddr mem = .ok object
  family : ifaFamily object.hdr = afInet
  address : InAddr
  hasAddress : optionalAddr object.rtas ifaAddress = some address

namespace AddrMessage

def index (m : AddrMessage) : UInt32 := ifaIndex m.object.hdr

def plen (m : AddrMessage) : UInt8 := ifaPrefixlen m.object.hdr

def localAddr (m : AddrMessage) : Option InAddr := optionalAddr m.object.rtas ifaLocal

def own (m : AddrMessage) : InAddr := m.localAddr.getD m.address

theorem emits (m : AddrMessage) (env : Env) {d : Daemon}
    (hv : ifindexKernel2vpp d.interfaces m.index ≠ 0) :
    ∃ d' rs, monitor env d m.mem = .ok d' ∧
      Emits d d' [.setAddr (ifindexKernel2vpp d.interfaces m.index) m.address m.plen m.isNew]
        rs := by
  have hmonitor : monitor env d m.mem =
      addrAnalyzeAndHook env (countAddr d m.isNew) m.object m.isNew := by
    have htype := m.type
    cases hnew : m.isNew with
    | true =>
      rw [hnew] at htype
      simp only [monitor, htype, if_true, monitorNewaddr, monitorAddr, m.parsed]
      rfl
    | false =>
      rw [hnew] at htype
      simp only [monitor, htype, Bool.false_eq_true, if_false, monitorDeladdr, monitorAddr,
        m.parsed]
      rfl
  obtain ⟨a, ha, haddr⟩ : ∃ a, m.object.rtas.get iflaAddress = .mem a ∧
      m.address = bytes 4 (a.drop 4) := by
    have h := m.hasAddress
    rcases m.object.rtas.get_cases ifaAddress with hnull | ⟨a, ha⟩
    · simp [optionalAddr, hnull] at h
    · refine ⟨a, ha, ?_⟩
      simpa [optionalAddr, ha, eq_comm] using h
  obtain ⟨d', c, k, hrun, hemits⟩ := setAddr_emits env (countAddr d m.isNew)
    (ifindexKernel2vpp d.interfaces m.index) m.address m.plen m.isNew
  refine ⟨d', _, ?_, (Emits.counter d _).trans hemits⟩
  have hv' : ifindexKernel2vpp (countAddr d m.isNew).interfaces (ifaIndex m.object.hdr) ≠ 0 := hv
  rw [hmonitor, ← hrun, haddr]
  simp only [addrAnalyzeAndHook, m.family, ne_eq, not_true_eq_false, if_false, ha, rtaReadptr_mem,
    reduceCtorEq, if_neg hv']
  rfl

end AddrMessage

/-- What a call of `set_addr` does to the addresses of VPP's interfaces. -/
def addrWrites : SetCall → List ((UInt32 × InAddr × UInt8) × Bool)
  | .setAddr v addr len isAdd => [((v, addr, len), isAdd)]
  | _ => []

def vppAddrs (cs : List SetCall) : UInt32 × InAddr × UInt8 → Bool :=
  applyWrites (fun _ => false) (cs.flatMap addrWrites)

/-- The addresses of the kernel's interfaces after these messages, from none: the
interface, its own address, the peer's address and the prefix length. -/
def kernelAddrs (ms : List AddrMessage) : UInt32 × InAddr × InAddr × UInt8 → Bool :=
  applyWrites (fun _ => false) (ms.map fun m => ((m.index, m.own, m.address, m.plen), m.isNew))

/-- VPP has the own addresses of the paired kernel interfaces and no others. -/
def MirrorsOwnAddrs (table : List RouterdInterface) (ms : List AddrMessage)
    (cs : List SetCall) : Prop :=
  ∀ v a len, vppAddrs cs (v, a, len) = true ↔
    ∃ k peer, Paired table k ∧ ifindexKernel2vpp table k = v ∧
      kernelAddrs ms (k, a, peer, len) = true

theorem replay_addrWrites (env : Env) (d : Daemon) (ms : List AddrMessage)
    (hpaired : ∀ m ∈ ms, ifindexKernel2vpp d.interfaces m.index ≠ 0) :
    ∃ d' cs, replay env d (ms.map (·.mem)) = .ok d' ∧ d'.calls = d.calls ++ cs ∧
      cs.flatMap addrWrites = ms.map fun m =>
        ((ifindexKernel2vpp d.interfaces m.index, m.address, m.plen), m.isNew) := by
  have hstep : ∀ m ∈ ms, ∀ d₁ : Daemon, d₁.interfaces = d.interfaces →
      ∃ d' cs rs, monitor env d₁ m.mem = .ok d' ∧ Emits d₁ d' cs rs ∧ cs.flatMap addrWrites =
        [((ifindexKernel2vpp d.interfaces m.index, m.address, m.plen), m.isNew)] := by
    intro m hm d₁ hd₁
    obtain ⟨d', rs, hrun, hemits⟩ := m.emits env (d := d₁) (by rw [hd₁]; exact hpaired m hm)
    refine ⟨d', _, rs, hrun, hemits, ?_⟩
    rw [hd₁]
    rfl
  obtain ⟨d', cs, rs, hrun, hemits, houts⟩ := replay_emits hstep
  refine ⟨d', cs, hrun, hemits.calls, ?_⟩
  rw [houts.calls_flatMap fun _ _ _ h => h, List.map_eq_flatMap]

/-- The messages as writes to (interface, `IFA_ADDRESS`, prefix length). -/
def addressWrites (ms : List AddrMessage) : List ((UInt32 × InAddr × UInt8) × Bool) :=
  ms.map fun m => ((m.index, m.address, m.plen), m.isNew)

private theorem applyWrites_false_iff {κ : Type} [DecidableEq κ] (us : List (κ × Bool)) (k : κ) :
    applyWrites (fun _ => false) us k = true ↔ lastWrite k us = some true := by
  rw [applyWrites_eq_lastWrite]
  cases lastWrite k us <;> simp

private theorem vppAddrs_iff {table : List RouterdInterface} (htable : InjectivePairs table)
    {ms : List AddrMessage} {cs : List SetCall}
    (hcs : cs.flatMap addrWrites = ms.map fun m =>
      ((ifindexKernel2vpp table m.index, m.address, m.plen), m.isNew))
    {k : UInt32} (hk : Paired table k) (a : InAddr) (len : UInt8) :
    vppAddrs cs (ifindexKernel2vpp table k, a, len) = true ↔
      lastWrite (k, a, len) (addressWrites ms) = some true := by
  have hrename := lastWrite_map_key
    (fun x : UInt32 × InAddr × UInt8 => (ifindexKernel2vpp table x.1, x.2)) (k, a, len)
    (addressWrites ms) (by
      rintro ⟨⟨j, x⟩, up⟩ _ heq
      obtain ⟨hj, hx⟩ := Prod.mk.inj heq
      exact Prod.ext (htable.eq_of_eq hk hj.symm).symm hx)
  rw [vppAddrs, applyWrites_false_iff, hcs, ← hrename, addressWrites, List.map_map]
  rfl

private theorem kernelAddrs_iff {ms : List AddrMessage}
    (hown : ∀ m ∈ ms, m.localAddr = none ∨ m.localAddr = some m.address)
    (k : UInt32) (a : InAddr) (len : UInt8) :
    kernelAddrs ms (k, a, a, len) = true ↔
      lastWrite (k, a, len) (addressWrites ms) = some true := by
  have hwrites : (ms.map fun m => ((m.index, m.own, m.address, m.plen), m.isNew)) =
      (addressWrites ms).map fun u => ((u.1.1, u.1.2.1, u.1.2.1, u.1.2.2), u.2) := by
    rw [addressWrites, List.map_map]
    apply List.map_congr_left
    intro m hm
    rcases hown m hm with h | h <;> simp [AddrMessage.own, h]
  have hrename := lastWrite_map_key
    (fun x : UInt32 × InAddr × UInt8 => (x.1, x.2.1, x.2.1, x.2.2)) (k, a, len)
    (addressWrites ms) (by
      rintro ⟨⟨j, b, l⟩, up⟩ _ heq
      simp only [Prod.mk.injEq] at heq
      obtain ⟨rfl, rfl, -, rfl⟩ := heq
      rfl)
  rw [kernelAddrs, applyWrites_false_iff, hwrites, hrename]

/-- In a run in which no message has an own address other than `IFA_ADDRESS`, over a
one-to-one pair table, VPP's addresses are the own addresses of the kernel. -/
theorem addrMirror_of_ownAddress (env : Env) (d : Daemon) (htable : InjectivePairs d.interfaces)
    (ms : List AddrMessage) (hpaired : ∀ m ∈ ms, Paired d.interfaces m.index)
    (hown : ∀ m ∈ ms, m.localAddr = none ∨ m.localAddr = some m.address) :
    ∃ d' cs, replay env d (ms.map (·.mem)) = .ok d' ∧ d'.calls = d.calls ++ cs ∧
      MirrorsOwnAddrs d.interfaces ms cs := by
  obtain ⟨d', cs, hrun, hcalls, hwrites⟩ := replay_addrWrites env d ms fun m hm =>
    htable.ne_zero (hpaired m hm)
  refine ⟨d', cs, hrun, hcalls, fun v a len => ?_⟩
  constructor
  · intro h
    have hmem := mem_of_lastWrite ((applyWrites_false_iff _ _).mp h)
    rw [hwrites] at hmem
    obtain ⟨m, hm, heq⟩ := List.mem_map.mp hmem
    obtain rfl : ifindexKernel2vpp d.interfaces m.index = v := congrArg (·.1.1) heq
    refine ⟨m.index, a, hpaired m hm, rfl, ?_⟩
    rw [kernelAddrs_iff hown]
    exact (vppAddrs_iff htable hwrites (hpaired m hm) a len).mp h
  · rintro ⟨k, peer, hk, rfl, h⟩
    have hmem := mem_of_lastWrite ((applyWrites_false_iff _ _).mp h)
    obtain ⟨m, hm, heq⟩ := List.mem_map.mp hmem
    have hpeer : m.address = peer := congrArg (·.1.2.2.1) heq
    have hself : m.own = m.address := by
      rcases hown m hm with hl | hl <;> simp [AddrMessage.own, hl]
    obtain rfl : peer = a := by
      rw [← hpeer, ← hself]
      exact congrArg (·.1.2.1) heq
    rw [vppAddrs_iff htable hwrites hk, ← kernelAddrs_iff hown]
    exact h

def addrWithPeer (isNew : Bool) (last : UInt8) : Mem :=
  nlmsgBytes (if isNew then 20 else 21) (ifaddrmsgBytes afInet 32 5 ++
    rtattrBytes ifaAddress [10, 0, 0, last] ++ rtattrBytes ifaLocal [10, 0, 0, 1])

theorem addrWithPeer_message (isNew : Bool) (last : UInt8) (h : last = 1 ∨ last = 2) :
    ∃ m : AddrMessage, m.mem = addrWithPeer isNew last ∧ m.isNew = isNew ∧ m.index = 5 ∧
      m.plen = 32 ∧ m.address = ![10, 0, 0, last] ∧ m.localAddr = some ![10, 0, 0, 1] := by
  have hfields : ((ofMessage ifaddr (addrWithPeer isNew last)).toOption.map fun r =>
      ((ifaFamily r.hdr, ifaIndex r.hdr, ifaPrefixlen r.hdr), r.rtas.get ifaAddress,
        r.rtas.get ifaLocal)) =
      some ((afInet, 5, 32), .mem ((nlmsgBody (addrWithPeer isNew last)).drop 8),
        .mem ((nlmsgBody (addrWithPeer isNew last)).drop 16)) := by
    cases isNew <;> rcases h with rfl | rfl <;> rfl
  obtain ⟨r, hr, hread⟩ := ok_of_toOption_map hfields
  simp only [Prod.mk.injEq] at hread
  obtain ⟨⟨hfam, hidx, hlen⟩, haddr, hlocal⟩ := hread
  have haddr' : optionalAddr r.rtas ifaAddress = some ![10, 0, 0, last] := by
    rw [optionalAddr, haddr]
    cases isNew <;> rcases h with rfl | rfl <;> decide +kernel
  have hlocal' : optionalAddr r.rtas ifaLocal = some ![10, 0, 0, 1] := by
    rw [optionalAddr, hlocal]
    cases isNew <;> rcases h with rfl | rfl <;> decide +kernel
  refine ⟨⟨_, isNew, ?_, r, hr, hfam, _, haddr'⟩, rfl, rfl, hidx, hlen, rfl, hlocal'⟩
  cases isNew <;> rcases h with rfl | rfl <;> rfl

/-- The address is added and deleted again. -/
theorem addrMirror_of_ownAddress_broadcast :
    ∃ (m m' : AddrMessage) (d' : Daemon) (cs : List SetCall), m.isNew = true ∧ m'.isNew = false ∧
      m'.address = m.address ∧ InjectivePairs pairFiveSeven ∧
      replay (plainEnv .empty) (Daemon.start pairFiveSeven []) [m.mem, m'.mem] = .ok d' ∧
      d'.calls = cs ∧ MirrorsOwnAddrs pairFiveSeven [m, m'] cs := by
  obtain ⟨m, -, hnew, hidx, -, haddr, hlocal⟩ := addrWithPeer_message true 1 (Or.inl rfl)
  obtain ⟨m', -, hold, hidx', -, haddr', hlocal'⟩ := addrWithPeer_message false 1 (Or.inl rfl)
  have hpaired : ∀ m₁ ∈ [m, m'], Paired pairFiveSeven m₁.index := by
    have hfive : Paired pairFiveSeven 5 := ⟨_, List.mem_cons_self, rfl⟩
    simp [hidx, hidx', hfive]
  obtain ⟨d', cs, hrun, hcalls, hmirror⟩ := addrMirror_of_ownAddress (plainEnv .empty)
    (Daemon.start pairFiveSeven []) pairFiveSeven_injective [m, m'] hpaired
    (by simp [haddr, haddr', hlocal, hlocal'])
  exact ⟨m, m', d', cs, hnew, hold, haddr'.trans haddr.symm, pairFiveSeven_injective, hrun, hcalls,
    hmirror⟩

/-- On a point-to-point interface VPP gets the peer's address as its own. -/
theorem addrMirror_peer_address :
    ∃ (m : AddrMessage) (d' : Daemon), Paired pairFiveSeven m.index ∧
      replay (plainEnv .empty) (Daemon.start pairFiveSeven []) [m.mem] = .ok d' ∧
      vppAddrs d'.calls (7, ![10, 0, 0, 2], 32) = true ∧
      m.own = ![10, 0, 0, 1] ∧ ¬ MirrorsOwnAddrs pairFiveSeven [m] d'.calls := by
  obtain ⟨m, hmem, -, hidx, -, -, hlocal⟩ := addrWithPeer_message true 2 (Or.inr rfl)
  have hset : ((replay (plainEnv .empty) (Daemon.start pairFiveSeven [])
      [addrWithPeer true 2]).toOption.map fun d => vppAddrs d.calls (7, ![10, 0, 0, 2], 32)) =
      some true := by decide +kernel
  obtain ⟨d', hrun, haddr⟩ := ok_of_toOption_map hset
  have hown : m.own = ![10, 0, 0, 1] := by rw [AddrMessage.own, hlocal, Option.getD_some]
  refine ⟨m, d', ⟨_, List.mem_cons_self, hidx.symm⟩, by rw [hmem]; exact hrun, haddr, hown, ?_⟩
  intro hmirror
  obtain ⟨k, peer, -, -, hkernel⟩ := (hmirror _ _ _).mp haddr
  have hmem := mem_of_lastWrite ((applyWrites_false_iff _ _).mp hkernel)
  obtain heq := List.mem_singleton.mp hmem
  have hbad : ![10, 0, 0, 2] = m.own := congrArg (·.1.2.1) heq
  rw [hown] at hbad
  revert hbad
  decide

end Routerd
