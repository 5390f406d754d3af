import Routerd.Dialogue
import Routerd.PairTableSync

/-!
# The commands of `vpp_cli.c`

A command is a program over the calls it makes: connecting, sending a request, taking a message
from its queue, disconnecting, and asking for a random number or the name of an interface. The
outside answers each call. What a command prints is left out, except for the table that
`show vpp interface` has collected when it prints. A message is its bytes: the handlers cast it
to the reply they expect. A loop makes at most `fuel` rounds.
-/

namespace Routerd
open ByteMemory NumeralText InetText Dialogue

/-- The requests of the commands. Contexts and indexes are in network order. -/
inductive CliRequest where
  | api (r : Request)
  | controlPing (clientIndex context : UInt32)
  | swInterfaceDump (clientIndex context : UInt32)
  | ipAddressDump (clientIndex context swIfIndex : UInt32) (isIpv6 : Bool)
  | ipRouteDump (clientIndex context tableId : UInt32) (isIp6 : Bool)
  | createLoopback (clientIndex context : UInt32)
  | tapInjectDump (clientIndex context : UInt32)
  | tapInjectEnableDisable (clientIndex context : UInt32) (isEnable : Bool)
  | getNodeInfo (clientIndex context : UInt32) (nodeName : Text)
  | getProcInfo (clientIndex context : UInt32) (nodeName : Text)
  deriving DecidableEq

inductive VppOp where
  | connect (noRxPthread : Bool)
  | send (r : CliRequest)
  | svmQueueSub (seconds : ℕ)
  | disconnect
  | random
  | ifIndextoname (index : UInt32)
  deriving DecidableEq

/-- A connection gives the index of the client; the queue gives a message, or none in time. -/
def VppOp.Answer : VppOp → Type
  | connect _ => Option UInt32
  | send _ => Unit
  | svmQueueSub _ => Option Mem
  | disconnect => Unit
  | random => ℕ
  | ifIndextoname _ => Option Text

abbrev Session (α : Type) := Prog VppOp.Answer Fault α

inductive CmdResult where
  | success
  | warningConfigFailed
  deriving DecidableEq

namespace VppCli

def connectToVpp (noRxPthread : Bool) : Session (Option UInt32) := .perform (VppOp.connect noRxPthread)

def send (r : CliRequest) : Session Unit := .perform (VppOp.send r)

def svmQueueSub (seconds : ℕ) : Session (Option Mem) := .perform (VppOp.svmQueueSub seconds)

def disconnectFromVpp : Session Unit := .perform VppOp.disconnect

def random : Session ℕ := .perform VppOp.random

def ifIndextoname (index : UInt32) : Session (Option Text) := .perform (VppOp.ifIndextoname index)

/-! ### Fields of a message -/

/-- `ntohs(*((uint16_t*)msg))`. -/
def msgId (msg : Mem) : ℕ := 256 * (byteAt msg 0).toNat + (byteAt msg 1).toNat

/-- The word behind the context: the return value of a reply, the interface of details. -/
def word (msg : Mem) : UInt32 := swap32 (le32 msg 6)

def isNegative (x : UInt32) : Bool := 2 ^ 31 ≤ x.toNat

/-- `prefix.len` of `ip_route_details`. -/
def routePrefixLen (msg : Mem) : ℕ := (byteAt msg 31).toNat

/-- `sw_if_index` of `tap_inject_details`, whose context follows a client index. -/
def tapSwIfIndex (msg : Mem) : UInt32 := swap32 (le32 msg 10)

def tapKernelIfIndex (msg : Mem) : UInt32 := swap32 (le32 msg 14)

/-- `retval` of the replies about nodes, which is read as it stands. -/
def infoRetval (msg : Mem) : UInt32 := le32 msg 10

def procFlags (msg : Mem) : ℕ := le16 msg 14

def nodeType (msg : Mem) : UInt32 := le32 msg 18

/-! ### Requests -/

/-- A context of 32 bits from `random()`. -/
def context32 (x : ℕ) : UInt32 := swap32 (UInt32.ofNat x)

/-- A context from `random()` handed over as `uint16_t`. -/
def context16 (x : ℕ) : UInt32 := swap32 (UInt32.ofNat (x % 65536))

def sendPing (client : UInt32) (msgId : ℕ) : Session Unit :=
  send (.controlPing client (context32 msgId))

def dumpIfcs (client : UInt32) (msgId : ℕ) : Session Unit :=
  send (.swInterfaceDump client (context32 msgId))

def dumpIpaddrs (client : UInt32) (msgId : ℕ) (ifindex : UInt32) (isIpv6 : Bool) : Session Unit :=
  send (.ipAddressDump client (context32 msgId) (swap32 ifindex) isIpv6)

def ipRouteDump (client : UInt32) (msgId : ℕ) (tableId : UInt32) : Session Unit :=
  send (.ipRouteDump client (context32 msgId) (swap32 tableId) false)

def createLoopback (client : UInt32) (msgId : ℕ) : Session Unit :=
  send (.createLoopback client (context32 msgId))

def tapInjectDump (client : UInt32) (msgId : ℕ) : Session Unit :=
  send (.tapInjectDump client (context16 msgId))

def enableDisableTapInject (client : UInt32) (msgId : ℕ) (isEnable : Bool) : Session Unit :=
  send (.tapInjectEnableDisable client (context16 msgId) isEnable)

/-- The name is copied to an array of 64 bytes. -/
def getNodeInfo (client : UInt32) (msgId : ℕ) (nodeName : Text) : Session Unit :=
  if nodeName.length ≤ 64 then send (.getNodeInfo client (context16 msgId) nodeName)
  else .fault .overflow

def getProcInfo (client : UInt32) (msgId : ℕ) (nodeName : Text) : Session Unit :=
  if nodeName.length ≤ 64 then send (.getProcInfo client (context16 msgId) nodeName)
  else .fault .overflow

/-! ### Waiting for messages -/

/-- A command ends with a warning where the connection is refused. -/
def withConnection (noRxPthread : Bool) (body : UInt32 → Session CmdResult) : Session CmdResult := do
  match ← connectToVpp noRxPthread with
  | none => pure .warningConfigFailed
  | some client => body client

/-- One round of a receive loop that returns from inside. -/
def awaitRetval (seconds : ℕ) : Session CmdResult := do
  match ← svmQueueSub seconds with
  | none => do
    disconnectFromVpp
    pure .warningConfigFailed
  | some msg =>
    if isNegative (word msg) then do
      disconnectFromVpp
      pure .warningConfigFailed
    else do
      disconnectFromVpp
      pure .success

/-- A receive loop that is left at a pong or when no message comes. -/
def untilPong {σ : Type} (pong fuel seconds : ℕ) (round : σ → Mem → Session σ) (s : σ) : Session σ :=
  Prog.loop (fun s => do
    match ← svmQueueSub seconds with
    | none => pure (.inr s)
    | some msg =>
      if msgId msg = pong then pure (.inr s)
      else do
        let s ← round s msg
        pure (.inl s)) fuel s

/-! ### Arguments -/

def arg (argv : List Text) (i : ℕ) : Text := argv.getD i []

/-- `strtol` into a `uint32_t`. -/
def index32 (s : Text) : UInt32 := UInt32.ofInt (strtol s 0)

/-- `strtol` into a `size_t`. -/
def count64 (s : Text) : ℕ := (strtol s 0 % 2 ^ 64).toNat

/-- The locals of the handlers before they are assigned, and the memory behind a prefix. -/
structure CliFrame where
  routePref : Prefix
  nexthopPref : Prefix
  behind : ℕ → UInt8

/-- The memory from `prefix.u.raw` on. -/
def rawBuffer (pref : Prefix) (behind : ℕ → UInt8) : ℕ → UInt8 :=
  fun i => if h : i < 16 then pref.u ⟨i, h⟩ else behind (i - 16)

/-! ### The handlers -/

def vpp : Session CmdResult := pure .success

/-- The bytes of a prefix are copied to an array of four. -/
def showVppIpFib (pong fuel : ℕ) : Session CmdResult :=
  withConnection true fun client => do
    ipRouteDump client (← random) 0
    sendPing client (← random)
    untilPong pong fuel 3 (fun _ msg =>
      if routePrefixLen msg / 8 ≤ 4 then pure () else .fault .overflow) ()
    disconnectFromVpp
    pure .success

/-- `struct interface_info`: `addrs` are the entries below `n_addrs`, and a cleared `link` is
empty. -/
structure InterfaceInfo where
  enable : Bool
  link : Mem
  addrs : List Mem
  deriving DecidableEq

/-- The array `interfaces[256]`. -/
abbrev Interfaces := ℕ → InterfaceInfo

def Interfaces.cleared : Interfaces := fun _ => ⟨false, [], []⟩

/-- The first loop stores an interface and asks for its addresses. -/
def storeLink (client : UInt32) (interfaces : Interfaces) (msg : Mem) : Session Interfaces :=
  let i := (word msg).toNat
  if i < 256 then do
    dumpIpaddrs client (← random) (word msg) false
    dumpIpaddrs client (← random) (word msg) true
    pure (Function.update interfaces i { interfaces i with link := msg, enable := true })
  else .fault .overflow

/-- The second loop stores an address with its interface. -/
def storeAddr (interfaces : Interfaces) (msg : Mem) : Session Interfaces :=
  let i := (word msg).toNat
  if i < 256 ∧ (interfaces i).addrs.length < 256 then
    pure (Function.update interfaces i
      { interfaces i with addrs := (interfaces i).addrs ++ [msg] })
  else .fault .overflow

/-- The table that is printed, or none where the connection is refused. -/
def showVppInterface (pong fuel : ℕ) : Session (Option Interfaces) := do
  match ← connectToVpp true with
  | none => pure none
  | some client => do
    dumpIfcs client (← random)
    sendPing client (← random)
    let interfaces ← untilPong pong fuel 3 (storeLink client) Interfaces.cleared
    sendPing client (← random)
    let interfaces ← untilPong pong fuel 1 storeAddr interfaces
    disconnectFromVpp
    pure (some interfaces)

/-- The request that `set interface` makes of a prefix. -/
def interfaceAddress (frame : CliFrame) (client ifindex : UInt32) (negate isIpv6 : Bool)
    (pref : Prefix) : Request :=
  setInterfaceAddr client 3 ifindex (!negate) isIpv6 (rawBuffer pref frame.behind)
    (UInt8.ofNat pref.plen)

def setInterfaceAddress (frame : CliFrame) (argv : List Text) : Session CmdResult := do
  let negate := arg argv 4 == "del".toList
  let isIpv6 := arg argv 2 == "ipv6".toList
  let ifindex := index32 (arg argv (if negate then 6 else 5))
  let prefStr := arg argv (if negate then 7 else 6)
  let pref ← .ofExcept (parsePrefixStr prefStr (if isIpv6 then afInet6 else afInet) frame.routePref)
  withConnection true fun client => do
    send (.api (interfaceAddress frame client ifindex negate isIpv6 pref))
    awaitRetval 1

/-- A reply that does not come in time counts as success. -/
def setInterfaceState (argv : List Text) : Session CmdResult :=
  withConnection true fun client => do
    let ifindex := index32 (arg argv 4)
    let isUp := arg argv 5 == "up".toList
    send (.api (setInterfaceFlag client 2 ifindex isUp))
    match ← svmQueueSub 3 with
    | none => do
      disconnectFromVpp
      pure .success
    | some msg =>
      if isNegative (word msg) then do
        disconnectFromVpp
        pure .warningConfigFailed
      else do
        disconnectFromVpp
        pure .success

def createLoopbackInterface : Session CmdResult :=
  withConnection false fun client => do
    createLoopback client (← random)
    awaitRetval 3

def ipAdddelRoute (frame : CliFrame) (argv : List Text) : Session CmdResult := do
  let negate := arg argv 0 == "del".toList
  let afi := if arg argv 1 == "ipv6".toList then afInet6 else afInet
  let routePref ← .ofExcept (parsePrefixStr (arg argv 3) afi frame.routePref)
  let nexthopPref ← .ofExcept (parsePrefixStr (arg argv 5) afi frame.nexthopPref)
  let nhIfindex := index32 (arg argv 7)
  withConnection true fun client => do
    let r ← .ofExcept (Routerd.ipRouteAddDel client 10 (!negate) routePref nexthopPref nhIfindex)
    send (.api r)
    awaitRetval 1

def showVppTapInject (pong fuel : ℕ) : Session CmdResult :=
  withConnection true fun client => do
    tapInjectDump client 2
    sendPing client (← random)
    untilPong pong fuel 3 (fun _ _ => pure ()) ()
    disconnectFromVpp
    pure .success

/-- The return value is read and not used. -/
def enableTapInject (argv : List Text) : Session CmdResult :=
  withConnection true fun client => do
    enableDisableTapInject client (← random) (arg argv 0 == "enable".toList)
    let _ ← svmQueueSub 1
    disconnectFromVpp
    pure .success

/-- An interface that the kernel does not name fails the assertion. -/
def storePair (pairs : List RouterdInterface) (msg : Mem) : Session (List RouterdInterface) := do
  match ← ifIndextoname (tapKernelIfIndex msg) with
  | none => .fault .assertion
  | some kernName =>
    pure (addInterface pairs (tapKernelIfIndex msg) kernName (tapSwIfIndex msg) "vpp".toList)

/-- The pair table of the daemon is left as it was where the connection is refused. -/
def enableCplaneNetdevSync (pong fuel : ℕ) (pairs : List RouterdInterface) :
    Session (CmdResult × List RouterdInterface) := do
  match ← connectToVpp true with
  | none => pure (.warningConfigFailed, pairs)
  | some client => do
    tapInjectDump client 2
    sendPing client (← random)
    let pairs ← untilPong pong fuel 3 storePair pairs
    disconnectFromVpp
    pure (.success, pairs)

/-- A negative return value is reported and the command succeeds. -/
def showVppProcInfo (argv : List Text) : Session CmdResult :=
  withConnection true fun client => do
    getProcInfo client (← random) (arg argv 3)
    match ← svmQueueSub 1 with
    | none => do
      disconnectFromVpp
      pure .warningConfigFailed
    | some _ => do
      disconnectFromVpp
      pure .success

/-- `vpp_node_type_str` asserts one of the four types it knows. -/
def showVppNodeInfo (argv : List Text) : Session CmdResult :=
  withConnection true fun client => do
    getNodeInfo client (← random) (arg argv 3)
    match ← svmQueueSub 1 with
    | none => do
      disconnectFromVpp
      pure .warningConfigFailed
    | some msg =>
      if isNegative (infoRetval msg) then do
        disconnectFromVpp
        pure .success
      else if (nodeType msg).toNat % 256 < 4 then do
        disconnectFromVpp
        pure .success
      else .fault .assertion

def vppStartupConfigProcessIsDone : Session Bool := do
  match ← connectToVpp true with
  | none => pure false
  | some client => do
    getProcInfo client (← random) "startup-config-process".toList
    match ← svmQueueSub 1 with
    | none => do
      disconnectFromVpp
      pure false
    | some msg =>
      if isNegative (infoRetval msg) then do
        disconnectFromVpp
        pure false
      else do
        let done := procFlags msg == 0
        disconnectFromVpp
        pure done

def waitTries : ℕ → Session Unit
  | 0 => pure ()
  | n + 1 => do
    let done ← vppStartupConfigProcessIsDone
    if done then pure () else waitTries n

def waitStartupConfigProcessDone (argv : List Text) : Session CmdResult := do
  waitTries (count64 (arg argv 2))
  pure .success

end VppCli

end Routerd
