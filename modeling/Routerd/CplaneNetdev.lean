import Mathlib.Data.List.AList
import Routerd.NumeralText

/-!
# The tap tables of the `cplane_netdev` plugin

The plugin gives every ethernet interface of VPP a tap device in the kernel and
remembers the pairing in four tables. The kernel is a list of open descriptors;
what it answers to the system calls of one connect is a parameter, which promises
only that a new descriptor is not open and a new device index not in use.
-/

namespace Routerd
open NumeralText

/-- `~0`, which marks an unused slot. -/
def noIndex : UInt32 := 0xffffffff

/-- `vec_validate_init_empty (v, i, ~0)`. -/
def vecValidate (v : List UInt32) (i : UInt32) : List UInt32 :=
  v ++ List.replicate (i.toNat + 1 - v.length) noIndex

def vecGet (v : List UInt32) (i : UInt32) : UInt32 := v.getD i.toNat noIndex

def vecSet (v : List UInt32) (i x : UInt32) : List UInt32 := v.set i.toNat x

structure TapTables where
  swIfIndexToTapFd : List UInt32
  swIfIndexToTapIfIndex : List UInt32
  tapFdToSwIfIndex : List UInt32
  tapIfIndexToSwIfIndex : AList fun _ : UInt32 => UInt32

def TapTables.empty : TapTables := ⟨[], [], [], ∅⟩

def tapInjectInsertTap (t : TapTables) (swIfIndex tapFd tapIfIndex : UInt32) : TapTables where
  swIfIndexToTapFd := vecSet (vecValidate t.swIfIndexToTapFd swIfIndex) swIfIndex tapFd
  swIfIndexToTapIfIndex :=
    vecSet (vecValidate t.swIfIndexToTapIfIndex swIfIndex) swIfIndex tapIfIndex
  tapFdToSwIfIndex := vecSet (vecValidate t.tapFdToSwIfIndex tapFd) tapFd swIfIndex
  tapIfIndexToSwIfIndex := t.tapIfIndexToSwIfIndex.insert tapIfIndex swIfIndex

def tapInjectDeleteTap (t : TapTables) (swIfIndex : UInt32) : TapTables :=
  let tapFd := vecGet t.swIfIndexToTapFd swIfIndex
  let tapIfIndex := vecGet t.swIfIndexToTapIfIndex swIfIndex
  { swIfIndexToTapFd := vecSet t.swIfIndexToTapFd swIfIndex noIndex
    swIfIndexToTapIfIndex := vecSet t.swIfIndexToTapIfIndex swIfIndex noIndex
    tapFdToSwIfIndex := vecSet t.tapFdToSwIfIndex tapFd noIndex
    tapIfIndexToSwIfIndex := t.tapIfIndexToSwIfIndex.erase tapIfIndex }

/-- The lookup grows the vector it reads. -/
def tapInjectLookupTapFd (t : TapTables) (swIfIndex : UInt32) : UInt32 × TapTables :=
  let v := vecValidate t.swIfIndexToTapFd swIfIndex
  (vecGet v swIfIndex, { t with swIfIndexToTapFd := v })

def tapInjectLookupSwIfIndexFromTapFd (t : TapTables) (tapFd : UInt32) : UInt32 × TapTables :=
  let v := vecValidate t.tapFdToSwIfIndex tapFd
  (vecGet v tapFd, { t with tapFdToSwIfIndex := v })

/-! ### The kernel -/

structure Netdev where
  ifindex : UInt32
  name : Text

/-- An open descriptor of `/dev/net/tun` and the device `TUNSETIFF` gave it. The
device lives as long as the descriptor. -/
structure TunFile where
  fd : UInt32
  device : Option Netdev

structure Os where
  taps : List TunFile
  sockets : List UInt32

namespace Os

def empty : Os := ⟨[], []⟩

def tapFds (os : Os) : List UInt32 := os.taps.map TunFile.fd

def devices (os : Os) : List Netdev := os.taps.filterMap TunFile.device

def openTun (os : Os) (fd : UInt32) : Os := { os with taps := ⟨fd, none⟩ :: os.taps }

def openSocket (os : Os) (fd : UInt32) : Os := { os with sockets := fd :: os.sockets }

def tunSetIff (os : Os) (fd : UInt32) (device : Netdev) : Os :=
  { os with taps := os.taps.map fun t => if t.fd = fd then { t with device := some device } else t }

def close (os : Os) (fd : UInt32) : Os where
  taps := os.taps.filter fun t => t.fd ≠ fd
  sockets := os.sockets.filter fun s => s ≠ fd

/-- `if_indextoname` for the devices of the plugin. -/
def ifIndextoname (os : Os) (ifindex : UInt32) : Option Text :=
  (os.devices.find? fun d => d.ifindex = ifindex).map Netdev.name

end Os

/-- The results of the system calls of one connect: `open`, `TUNSETIFF` with the
index of the new device, `FIONBIO`, `socket`, `SIOCSIFHWADDR`, `SIOCGIFINDEX`. -/
structure ConnectCalls where
  openTun : Option UInt32
  tunSetIff : Option UInt32
  fionbio : Bool
  socket : Option UInt32
  setHwAddr : Bool
  getIfIndex : Bool

structure ConnectCalls.Fresh (c : ConnectCalls) (os : Os) : Prop where
  openTun : ∀ fd, c.openTun = some fd → fd ∉ os.tapFds ∧ fd ∉ os.sockets ∧ fd ≠ noIndex
  tunSetIff : ∀ k, c.tunSetIff = some k → k ∉ os.devices.map Netdev.ifindex ∧ k ≠ noIndex
  socket : ∀ fd, c.socket = some fd →
    fd ∉ os.tapFds ∧ fd ∉ os.sockets ∧ c.openTun ≠ some fd

structure HwInterface where
  hwIfIndex : UInt32
  name : Text
  ethernet : Bool

/-- VPP's pool of hardware interfaces, in which `~0` is no index. -/
structure HwPool where
  interfaces : List HwInterface
  ne_noIndex : ∀ hw ∈ interfaces, hw.hwIfIndex ≠ noIndex

def vnetGetHwInterface (pool : HwPool) (i : UInt32) : Option HwInterface :=
  pool.interfaces.find? fun hw => hw.hwIfIndex = i

structure Kernel where
  answer : Os → HwInterface → ConnectCalls
  fresh : ∀ os hw, (answer os hw).Fresh os

def ConnectCalls.isFresh (c : ConnectCalls) (os : Os) : Bool :=
  c.openTun.all (fun fd => decide (fd ∉ os.tapFds ∧ fd ∉ os.sockets ∧ fd ≠ noIndex)) &&
    c.tunSetIff.all (fun k => decide (k ∉ os.devices.map Netdev.ifindex ∧ k ≠ noIndex)) &&
      c.socket.all fun fd => decide (fd ∉ os.tapFds ∧ fd ∉ os.sockets ∧ c.openTun ≠ some fd)

theorem ConnectCalls.fresh_of_isFresh {c : ConnectCalls} {os : Os} (h : c.isFresh os = true) :
    c.Fresh os := by
  simp only [ConnectCalls.isFresh, Bool.and_eq_true] at h
  obtain ⟨⟨hopen, hset⟩, hsocket⟩ := h
  refine ⟨fun fd hfd => ?_, fun k hk => ?_, fun fd hfd => ?_⟩
  · rw [hfd] at hopen
    exact of_decide_eq_true hopen
  · rw [hk] at hset
    exact of_decide_eq_true hset
  · rw [hfd] at hsocket
    exact of_decide_eq_true hsocket

/-- The kernel that gives these answers where they are fresh, and refuses otherwise. -/
def Kernel.ofCalls (c : ConnectCalls) : Kernel where
  answer os _ := if c.isFresh os then c else ⟨none, none, false, none, false, false⟩
  fresh os _ := by
    split
    · exact ConnectCalls.fresh_of_isFresh ‹_›
    · exact ⟨nofun, nofun, nofun⟩

/-! ### The plugin -/

/-- The static counters behind the names of the taps. -/
structure NameCounters where
  loopIfCnt : ℕ
  hostIfCnt : ℕ
  gigaIfCnt : ℕ
  tapIfCnt : ℕ
  otherIfCnt : ℕ

/-- The name of the next tap for an interface, and the counters after it. -/
def NameCounters.next (n : NameCounters) (hwName : Text) : Text × NameCounters :=
  let name (stem : String) (cnt : ℕ) : Text := stem.toList ++ decimal (cnt % 2 ^ 32)
  if "loop".toList.isPrefixOf hwName then
    (name "loop" n.loopIfCnt, { n with loopIfCnt := n.loopIfCnt + 1 })
  else if "host-".toList.isPrefixOf hwName then
    (name "host-0-0-" n.hostIfCnt, { n with hostIfCnt := n.hostIfCnt + 1 })
  else if "GigabitEthernet".toList.isPrefixOf hwName then
    (name "giga-0-0-" n.gigaIfCnt, { n with gigaIfCnt := n.gigaIfCnt + 1 })
  else if "tap".toList.isPrefixOf hwName then
    (name "tap-0-0-" n.tapIfCnt, { n with tapIfCnt := n.tapIfCnt + 1 })
  else
    (name "vpp-0-0-" n.otherIfCnt, { n with otherIfCnt := n.otherIfCnt + 1 })

/-- The graph nodes the plugin binds protocols to; `unregistered` is what
`ip4_unregister_protocol` leaves behind. -/
structure GraphNodes where
  neighborNodeIndex : UInt32
  txNodeIndex : UInt32
  arpInput : UInt32
  ip4IcmpInput : UInt32
  unregistered : UInt32

structure Dispatch where
  ethernetType : UInt16 → UInt32
  ip4Protocol : UInt8 → UInt32

structure CplaneNetdev where
  flags : UInt32
  tables : TapTables
  interfacesToEnable : List UInt32
  interfacesToDisable : List UInt32
  nodes : GraphNodes
  dispatch : Dispatch
  names : NameCounters
  os : Os

def CplaneNetdev.init (nodes : GraphNodes) (dispatch : Dispatch) : CplaneNetdev where
  flags := 0
  tables := TapTables.empty
  interfacesToEnable := []
  interfacesToDisable := []
  nodes := nodes
  dispatch := dispatch
  names := ⟨0, 0, 0, 0, 0⟩
  os := Os.empty

def TAP_INJECT_F_ENABLED : UInt32 := 8

def ETHERNET_TYPE_ARP : UInt16 := 0x0806

def IP_PROTOCOL_ICMP : UInt8 := 1

def IP_PROTOCOL_TCP : UInt8 := 6

def IP_PROTOCOL_UDP : UInt8 := 17

def IP_PROTOCOL_OSPF : UInt8 := 89

def ethernetRegisterInputType (d : Dispatch) (type : UInt16) (node : UInt32) : Dispatch :=
  { d with ethernetType := Function.update d.ethernetType type node }

def ip4RegisterProtocol (d : Dispatch) (protocol : UInt8) (node : UInt32) : Dispatch :=
  { d with ip4Protocol := Function.update d.ip4Protocol protocol node }

def tapInjectIsEnabled (v : CplaneNetdev) : Bool := v.flags &&& TAP_INJECT_F_ENABLED ≠ 0

def tapInjectDisable (v : CplaneNetdev) : CplaneNetdev :=
  if ¬ tapInjectIsEnabled v then v
  else
    let d := ethernetRegisterInputType v.dispatch ETHERNET_TYPE_ARP v.nodes.arpInput
    let d := ip4RegisterProtocol d IP_PROTOCOL_ICMP v.nodes.ip4IcmpInput
    let d := ip4RegisterProtocol d IP_PROTOCOL_OSPF v.nodes.unregistered
    let d := ip4RegisterProtocol d IP_PROTOCOL_TCP v.nodes.unregistered
    let d := ip4RegisterProtocol d IP_PROTOCOL_UDP v.nodes.unregistered
    { v with dispatch := d, flags := v.flags &&& ~~~TAP_INJECT_F_ENABLED }

def tapInjectEnable (v : CplaneNetdev) : CplaneNetdev :=
  if tapInjectIsEnabled v then v
  else
    let d := ethernetRegisterInputType v.dispatch ETHERNET_TYPE_ARP v.nodes.neighborNodeIndex
    let d := ip4RegisterProtocol d IP_PROTOCOL_ICMP v.nodes.txNodeIndex
    let d := ip4RegisterProtocol d IP_PROTOCOL_OSPF v.nodes.txNodeIndex
    let d := ip4RegisterProtocol d IP_PROTOCOL_TCP v.nodes.txNodeIndex
    let d := ip4RegisterProtocol d IP_PROTOCOL_UDP v.nodes.txNodeIndex
    { v with dispatch := d, flags := v.flags ||| TAP_INJECT_F_ENABLED }

/-- The interface is given by its hardware index, which is also its software index.
A refused `TUNSETIFF` is not reported as an error. -/
def tapInjectTapConnect (kernel : Kernel) (v : CplaneNetdev) (hw : HwInterface) :
    CplaneNetdev × Option String :=
  let c := kernel.answer v.os hw
  match c.openTun with
  | none => (v, some "failed to open tun device")
  | some tapFd =>
    let (name, names) := v.names.next hw.name
    let v := { v with names := names, os := v.os.openTun tapFd }
    match c.tunSetIff with
    | none => ({ v with os := v.os.close tapFd }, none)
    | some ifindex =>
      let v := { v with os := v.os.tunSetIff tapFd ⟨ifindex, name.take 15⟩ }
      if ¬ c.fionbio then
        ({ v with os := v.os.close tapFd }, some "failed to set tap to non-blocking io")
      else
        match c.socket with
        | none => ({ v with os := v.os.close tapFd }, some "failed to configure tap")
        | some fd =>
          let v := { v with os := v.os.openSocket fd }
          if ¬ c.setHwAddr then
            ({ v with os := (v.os.close tapFd).close fd },
              some "failed to set tap hardware address")
          else if ¬ c.getIfIndex then
            ({ v with os := (v.os.close tapFd).close fd },
              some "failed to procure tap if index")
          else
            ({ v with
                os := v.os.close fd
                tables := tapInjectInsertTap v.tables hw.hwIfIndex tapFd ifindex }, none)

def tapInjectTapDisconnect (v : CplaneNetdev) (swIfIndex : UInt32) :
    CplaneNetdev × Option String :=
  let (tapFd, tables) := tapInjectLookupTapFd v.tables swIfIndex
  let v := { v with tables := tables }
  if tapFd = noIndex then (v, some "failed to disconnect tap")
  else
    ({ v with
        tables := tapInjectDeleteTap v.tables swIfIndex
        os := v.os.close tapFd }, none)

/-- The loop of the handler over `interfaces_to_enable`, left at the first error. -/
def connectInterfaces (kernel : Kernel) (pool : HwPool) (v : CplaneNetdev) :
    List UInt32 → CplaneNetdev × Option String
  | [] => (v, none)
  | i :: rest =>
    match vnetGetHwInterface pool i with
    | none => connectInterfaces kernel pool v rest
    | some hw =>
      if hw.ethernet then
        match tapInjectTapConnect kernel v hw with
        | (v, some err) => (v, some err)
        | (v, none) => connectInterfaces kernel pool v rest
      else connectInterfaces kernel pool v rest

def disconnectInterfaces (v : CplaneNetdev) (indices : List UInt32) : CplaneNetdev :=
  indices.foldl (fun v i => (tapInjectTapDisconnect v i).1) v

/-- The second component is `true` where the source returns `-1`. -/
def tapInjectIfaceIsr (kernel : Kernel) (pool : HwPool) (v : CplaneNetdev) :
    CplaneNetdev × Bool :=
  let (v, err) := connectInterfaces kernel pool v v.interfacesToEnable
  let v := disconnectInterfaces v v.interfacesToDisable
  ({ v with interfacesToEnable := [], interfacesToDisable := [] }, err.isSome)

/-- The flag and the dispatch tables set, and every interface queued. -/
def queueAllInterfaces (pool : HwPool) (v : CplaneNetdev) (enable : Bool) : CplaneNetdev :=
  let indices := pool.interfaces.map HwInterface.hwIfIndex
  if enable then
    let v := tapInjectEnable v
    { v with interfacesToEnable := v.interfacesToEnable ++ indices }
  else
    let v := tapInjectDisable v
    { v with interfacesToDisable := v.interfacesToDisable ++ indices }

def tapInjectEnableDisableAllInterfaces (kernel : Kernel) (pool : HwPool) (v : CplaneNetdev)
    (enable : Bool) : CplaneNetdev × Option String :=
  match tapInjectIfaceIsr kernel pool (queueAllInterfaces pool v enable) with
  | (v, true) => (v, some "tap-inject interface add del isr failed")
  | (v, false) => (v, none)

def createCplaneNetdev (kernel : Kernel) (pool : HwPool) (v : CplaneNetdev) (ifindex : UInt32) :
    CplaneNetdev × Option String :=
  match vnetGetHwInterface pool ifindex with
  | none => (v, some ("invalid ifindex (" ++ toString ifindex ++ ")"))
  | some hw =>
    if hw.ethernet then
      match tapInjectTapConnect kernel v hw with
      | (v, some err) => (v, some ("create_cplane_netdev: err: " ++ err ++ "(0)\n"))
      | (v, none) => (v, none)
    else (v, none)

inductive TapCommand where
  | enableDisableAll (enable : Bool)
  | create (id : UInt32)

structure TapStep where
  command : TapCommand
  pool : HwPool
  kernel : Kernel

def tapStep (v : CplaneNetdev) (s : TapStep) : CplaneNetdev :=
  match s.command with
  | .enableDisableAll enable =>
    (tapInjectEnableDisableAllInterfaces s.kernel s.pool v enable).1
  | .create id => (createCplaneNetdev s.kernel s.pool v id).1

def tapRun (v : CplaneNetdev) (steps : List TapStep) : CplaneNetdev := steps.foldl tapStep v

def oneInterfacePool : HwPool where
  interfaces := [⟨1, "GigabitEthernet0/8/0".toList, true⟩]
  ne_noIndex := by decide

def createOne (fd k : UInt32) : TapStep where
  command := .create 1
  pool := oneInterfacePool
  kernel := Kernel.ofCalls ⟨some fd, some k, true, some 20, true, true⟩

def freshPlugin : CplaneNetdev :=
  CplaneNetdev.init ⟨1, 2, 3, 4, 0⟩ ⟨fun _ => 0, fun _ => 0⟩

def disableOne : TapStep where
  command := .enableDisableAll false
  pool := oneInterfacePool
  kernel := Kernel.ofCalls ⟨none, none, false, none, false, false⟩

end Routerd
