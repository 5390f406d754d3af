import Routerd.VppSession

/-!
# The netlink hooks, the link cache and the start-up synchronisation

`monitor` dispatches one message of the kernel to its hook. A fault ends the
process: it can only come before the one request of that message is sent, so a
faulting message has sent nothing. The debug printing of the handlers is off, as
it is at start. The interface text and the command line that the IPv4 branch
builds and never uses are left out, the read of the attribute is not.
-/

namespace Routerd
open ByteMemory NumeralText InetText

/-- `random()` cut to the `uint16_t` message id. -/
def randomMsgId (env : Env) (d : Daemon) : UInt32 :=
  UInt32.ofNat (env.random d.trace.length % 65536)

def setLink (env : Env) (d : Daemon) (vppIfindex : UInt32) (isUp : Bool) : Except Fault Daemon :=
  transact env { d with calls := d.calls ++ [.setLink vppIfindex isUp] } fun d =>
    .ok (setInterfaceFlag d.myClientIndex (randomMsgId env d) vppIfindex isUp)

/-- The memory from the parameter `addr` of `set_addr` on. -/
def addrBuffer (frame : Frame) (addr : InAddr) : ℕ → UInt8 :=
  fun i => if h : i < 4 then addr ⟨i, h⟩ else frame.aboveAddr (i - 4)

def setAddr (env : Env) (d : Daemon) (vppIfindex : UInt32) (addr : InAddr) (addrLen : UInt8)
    (isAdd : Bool) : Except Fault Daemon :=
  let buffer := addrBuffer (env.frame d.trace.length) addr
  transact env { d with calls := d.calls ++ [.setAddr vppIfindex addr addrLen isAdd] } fun d =>
    .ok (setInterfaceAddr d.myClientIndex (randomMsgId env d) vppIfindex isAdd false buffer addrLen)

def setRoute (env : Env) (d : Daemon) (routeStr nhStr : Text) (vppOif : UInt32) (isNew : Bool) :
    Except Fault Daemon :=
  let frame := env.frame d.trace.length
  transact env { d with calls := d.calls ++ [.setRoute routeStr nhStr vppOif isNew] } fun d => do
    let routePref ← parsePrefixStr routeStr afInet frame.routePref
    let nexthopPref ← parsePrefixStr nhStr afInet frame.nexthopPref
    ipRouteAddDel d.myClientIndex 10 isNew routePref nexthopPref vppOif

def linkAnalyzeAndHook (env : Env) (d : Daemon) (link : RtObject) : Except Fault Daemon :=
  let affectedFlag := (0xffffffff : UInt32) &&& ifiChange link.hdr
  let targetBit := ifiFlags link.hdr &&& ifiChange link.hdr
  if affectedFlag &&& iffUp ≠ 0 then
    let nextIsUp := decide (targetBit &&& affectedFlag ≠ 0)
    let vppIfindex := ifindexKernel2vpp d.interfaces (ifiIndex link.hdr)
    if vppIfindex = 0 then .ok d else setLink env d vppIfindex nextIsUp
  else .ok d

def addrAnalyzeAndHook (env : Env) (d : Daemon) (addr : RtObject) (isNew : Bool) :
    Except Fault Daemon :=
  if ifaFamily addr.hdr ≠ afInet then .ok d
  else
    let addrPtr := rtaReadptr (addr.rtas.get iflaAddress)
    if addrPtr = .null then .ok d
    else
      let vppIfindex := ifindexKernel2vpp d.interfaces (ifaIndex addr.hdr)
      if vppIfindex = 0 then .ok d
      else do
        let m ← deref addrPtr
        setAddr env d vppIfindex (bytes 4 m) (ifaPrefixlen addr.hdr) isNew

/-- `SEG6_LOCAL_ACTION_to_str2`, whose parameter is a `uint16_t`. -/
def seg6LocalActionToStr2 (num : UInt32) : Text :=
  match num.toNat % 65536 with
  | 0 => ['u', 'n', 's', 'p', 'e', 'c', ' ']
  | 1 => ['e', 'n', 'd']
  | 2 => ['e', 'n', 'd', '.', 'x']
  | 3 => ['e', 'n', 'd', '.', 't']
  | 4 => ['e', 'n', 'd', '.', 'd', 'x', '2']
  | 5 => ['e', 'n', 'd', '.', 'd', 'x', '6']
  | 6 => ['e', 'n', 'd', '.', 'd', 'x', '4']
  | 7 => ['e', 'n', 'd', '.', 'd', 't', '6']
  | 8 => ['e', 'n', 'd', '.', 'd', 't', '4']
  | 9 => ['e', 'n', 'd', '.', 'b', '6']
  | 10 => ['e', 'n', 'd', '.', 'b', '6', '_', 'e', 'n', 'c', 'a', 'p']
  | 11 => ['e', 'n', 'd', '.', 'b', 'm']
  | 12 => ['e', 'n', 'd', '.', 's']
  | 13 => ['e', 'n', 'd', '.', 'a', 's']
  | 14 => ['e', 'n', 'd', '.', 'a', 'm']
  | _ => ['S', 'E', 'G', '6', '_', 'L', 'O', 'C', 'A', 'L', '_', 'A', 'C', 'T', 'I', 'O', 'N', '_',
      'U', 'N', 'K', 'N', 'O', 'W', 'N']

/-- The output interface of a route as a name, empty without the attribute. -/
def oifText (names : IfNames) (rtas : RtaArray) : Except Fault Text :=
  match rtas.get rtaOif with
  | .null => pure []
  | rta => do
    let index ← rtaRead32 rta
    pure (ifindex2str names index)

/-- The nested table of a seg6local encapsulation, over whatever `sub` held. -/
def seg6LocalSub (frame : Frame) (rtas : RtaArray) : Except Fault RtaTable := do
  let l ← rtaPayload (rtas.get rtaEncap)
  let d ← deref (rtaReadptr (rtas.get rtaEncap))
  parseRtattr d l frame.sub maxAttrs

/-- The texts `act` and `nh4` of the SRv6 branch. -/
def seg6LocalTexts (frame : Frame) (rtas : RtaArray) : Except Fault (Text × Text) :=
  match rtas.get rtaEncapType with
  | .null => pure ([], [])
  | encapRta => do
    let encapType ← rtaRead16 encapRta
    if encapType = lwtunnelEncapSeg6Local then
      let sub ← seg6LocalSub frame rtas
      match sub seg6LocalAction with
      | .null => pure ([], [])
      | rta => do
        let num ← rtaRead32 rta
        let act := seg6LocalActionToStr2 num
        if num = seg6LocalActionEndDx4 ∧ sub seg6LocalNh4 ≠ .null then
          let nh4 ← inetpton (rtaReadptr (sub seg6LocalNh4)) afInet
          pure (act, nh4)
        else pure (act, [])
    else pure ([], [])

def srv6RouteHook (env : Env) (d : Daemon) (route : RtObject) : Except Fault Daemon := do
  let frame := env.frame d.trace.length
  let dst ← addrText route.rtas rtaDst (rtmFamily route.hdr)
  let oif ← oifText env.names route.rtas
  let texts ← seg6LocalTexts frame route.rtas
  if dst ≠ [] ∧ oif ≠ [] ∧ texts.2 ≠ [] ∧ texts.1 ≠ [] then
    let sidAddr := (inetPton6 dst).getD frame.sidAddr
    let nh4Addr := (inetPton4 texts.2).getD frame.nh4Addr
    let swIfindex := ifindexKernel2vpp d.interfaces (atoi oif)
    transact env d fun d =>
      .ok (ip6RouteSrv6EndDx4Add d.myClientIndex 13 sidAddr nh4Addr swIfindex)
  else .ok d

/-- `rta_read32` of an optional attribute, zero without it. -/
def optionalRead32 (rtas : RtaArray) (type : ℕ) : Except Fault UInt32 :=
  match rtas.get type with
  | .null => pure 0
  | rta => rtaRead32 rta

def inet4RouteHook (env : Env) (d : Daemon) (route : RtObject) (isNew : Bool) :
    Except Fault Daemon := do
  let dst ← addrText route.rtas rtaDst (rtmFamily route.hdr)
  let kIndex ← optionalRead32 route.rtas rtaOif
  let gw ← addrText route.rtas rtaGateway (rtmFamily route.hdr)
  let routeStr := dst ++ '/' :: decimal (rtmDstLen route.hdr).toNat
  let vppOif := ifindexKernel2vpp d.interfaces kIndex
  setRoute env d routeStr gw vppOif isNew

def routeAnalyzeAndHook (env : Env) (d : Daemon) (route : RtObject) (isNew : Bool) :
    Except Fault Daemon :=
  if rtmFamily route.hdr ≠ afInet then srv6RouteHook env d route
  else inet4RouteHook env d route isNew

def countLink (d : Daemon) (isNew : Bool) : Daemon :=
  { d with counter := { d.counter with link := d.counter.link.bump isNew } }

def countAddr (d : Daemon) (isNew : Bool) : Daemon :=
  { d with counter := { d.counter with addr := d.counter.addr.bump isNew } }

def countRoute (d : Daemon) (isNew : Bool) : Daemon :=
  { d with counter := { d.counter with route := d.counter.route.bump isNew } }

def countNeigh (d : Daemon) (isNew : Bool) : Daemon :=
  { d with counter := { d.counter with neigh := d.counter.neigh.bump isNew } }

def monitorNewlink (env : Env) (d : Daemon) (n : Mem) : Except Fault Daemon := do
  let link ← ofMessage link n
  linkAnalyzeAndHook env (countLink d true) link

def monitorDellink (d : Daemon) (n : Mem) : Except Fault Daemon := do
  let _ ← ofMessage link n
  pure (countLink d false)

def monitorAddr (env : Env) (d : Daemon) (n : Mem) (isNew : Bool) : Except Fault Daemon := do
  let addr ← ofMessage ifaddr n
  addrAnalyzeAndHook env (countAddr d isNew) addr isNew

def monitorNewaddr (env : Env) (d : Daemon) (n : Mem) : Except Fault Daemon :=
  monitorAddr env d n true

def monitorDeladdr (env : Env) (d : Daemon) (n : Mem) : Except Fault Daemon :=
  monitorAddr env d n false

def monitorRoute (env : Env) (d : Daemon) (n : Mem) (isNew : Bool) : Except Fault Daemon := do
  let route ← ofMessage route n
  routeAnalyzeAndHook env (countRoute d isNew) route isNew

def monitorNewroute (env : Env) (d : Daemon) (n : Mem) : Except Fault Daemon :=
  monitorRoute env d n true

def monitorDelroute (env : Env) (d : Daemon) (n : Mem) : Except Fault Daemon :=
  monitorRoute env d n false

def monitorNeigh (d : Daemon) (n : Mem) (isNew : Bool) : Except Fault Daemon := do
  let _ ← ofMessage neigh n
  pure (countNeigh d isNew)

def monitorNewneigh (d : Daemon) (n : Mem) : Except Fault Daemon := monitorNeigh d n true

def monitorDelneigh (d : Daemon) (n : Mem) : Except Fault Daemon := monitorNeigh d n false

def monitor (env : Env) (d : Daemon) (n : Mem) : Except Fault Daemon :=
  match nlmsgType n with
  | .newlink => monitorNewlink env d n
  | .dellink => monitorDellink d n
  | .newaddr => monitorNewaddr env d n
  | .deladdr => monitorDeladdr env d n
  | .newroute => monitorNewroute env d n
  | .delroute => monitorDelroute env d n
  | .newneigh => monitorNewneigh d n
  | .delneigh => monitorDelneigh d n
  | _ => .ok d

/-- Every entry of the same interface is overwritten and one more is appended. -/
def netlinkCacheUpdateLink (links : List Mem) (ifm : Mem) (rtaLen : ℕ) : List Mem :=
  links.map (fun ifi => if ifiIndex ifi = ifiIndex ifm then ifm.take rtaLen else ifi) ++
    [ifm.take rtaLen]

/-- `cache_callback`: its return value and the cache it leaves. -/
def cacheCallback (links : List Mem) (n : Mem) : ℤ × List Mem :=
  match nlmsgType n with
  | .done => (-1, links)
  | .newlink => (0, netlinkCacheUpdateLink links (nlmsgBody n) (ifaPayload n))
  | .dellink => (0, netlinkCacheUpdateLink links (nlmsgBody n) (ifaPayload n))
  | _ => (0, links)

/-- One round of the loop of `vpp_sync_with_nlc`. -/
def syncLink (env : Env) (d : Daemon) (ifi : Mem) : Except Fault Daemon :=
  let vppIndex := ifindexKernel2vpp d.interfaces (ifiIndex ifi)
  if vppIndex = 0 then .ok d
  else setLink env d vppIndex (decide (ifiFlags ifi &&& iffUp ≠ 0))

def vppSyncWithNlc (env : Env) (d : Daemon) : Except Fault Daemon :=
  d.links.foldlM (syncLink env) d

end Routerd
