import Routerd.NetlinkHooks
import Routerd.VppCommands

/-!
# The netlink hooks as sessions with VPP

The setters of `netlink.cc` and the hooks that call them, as programs over the same calls as the
commands. Answered as `Env` answers, a message makes exactly the API calls that `monitor`
records for it.
-/

namespace Routerd
open ByteMemory NumeralText InetText Dialogue

namespace HookSession
open VppCli

/-- The return value of a reply, minus one without a reply. -/
def retvalOf : Option Mem → UInt32
  | none => 0xffffffff
  | some msg => word msg

def vppWaitmsgRetval : Session UInt32 := do
  let msg ← svmQueueSub 1
  pure (retvalOf msg)

/-- The common body of the setters; the return value is only printed. The client index is that of
its own connection, where the source has a global that another connection overwrites. -/
def transact (build : UInt32 → Session Request) : Session Unit := do
  match ← VppCli.connectToVpp true with
  | none => pure ()
  | some client => do
    let r ← build client
    send (.api r)
    let _ ← vppWaitmsgRetval
    VppCli.disconnectFromVpp

def setLink (vppIfindex : UInt32) (isUp : Bool) : Session Unit :=
  transact fun client => do
    let msgId ← random
    pure (setInterfaceFlag client (UInt32.ofNat (msgId % 65536)) vppIfindex isUp)

def setAddr (frame : Frame) (vppIfindex : UInt32) (addr : InAddr) (addrLen : UInt8)
    (isAdd : Bool) : Session Unit :=
  transact fun client => do
    let msgId ← random
    pure (setInterfaceAddr client (UInt32.ofNat (msgId % 65536)) vppIfindex isAdd false
      (addrBuffer frame addr) addrLen)

def setRoute (frame : Frame) (routeStr nhStr : Text) (vppOif : UInt32) (isNew : Bool) :
    Session Unit :=
  transact fun client => do
    let routePref ← .ofExcept (parsePrefixStr routeStr afInet frame.routePref)
    let nexthopPref ← .ofExcept (parsePrefixStr nhStr afInet frame.nexthopPref)
    .ofExcept (Routerd.ipRouteAddDel client 10 isNew routePref nexthopPref vppOif)

def linkAnalyzeAndHook (pairs : List RouterdInterface) (link : RtObject) : Session Unit :=
  let affectedFlag := (0xffffffff : UInt32) &&& ifiChange link.hdr
  let targetBit := ifiFlags link.hdr &&& ifiChange link.hdr
  if affectedFlag &&& iffUp ≠ 0 then
    let nextIsUp := decide (targetBit &&& affectedFlag ≠ 0)
    let vppIfindex := ifindexKernel2vpp pairs (ifiIndex link.hdr)
    if vppIfindex = 0 then pure () else setLink vppIfindex nextIsUp
  else pure ()

def addrAnalyzeAndHook (frame : Frame) (pairs : List RouterdInterface) (addr : RtObject)
    (isNew : Bool) : Session Unit :=
  if ifaFamily addr.hdr ≠ afInet then pure ()
  else
    let addrPtr := rtaReadptr (addr.rtas.get iflaAddress)
    if addrPtr = .null then pure ()
    else
      let vppIfindex := ifindexKernel2vpp pairs (ifaIndex addr.hdr)
      if vppIfindex = 0 then pure ()
      else do
        let m ← .ofExcept (deref addrPtr)
        setAddr frame vppIfindex (bytes 4 m) (ifaPrefixlen addr.hdr) isNew

def srv6RouteHook (names : IfNames) (frame : Frame) (pairs : List RouterdInterface)
    (route : RtObject) : Session Unit := do
  let dst ← .ofExcept (addrText route.rtas rtaDst (rtmFamily route.hdr))
  let oif ← .ofExcept (oifText names route.rtas)
  let texts ← .ofExcept (seg6LocalTexts frame route.rtas)
  if dst ≠ [] ∧ oif ≠ [] ∧ texts.2 ≠ [] ∧ texts.1 ≠ [] then
    transact fun client =>
      pure (ip6RouteSrv6EndDx4Add client 13 ((inetPton6 dst).getD frame.sidAddr)
        ((inetPton4 texts.2).getD frame.nh4Addr) (ifindexKernel2vpp pairs (atoi oif)))
  else pure ()

def inet4RouteHook (frame : Frame) (pairs : List RouterdInterface) (route : RtObject)
    (isNew : Bool) : Session Unit := do
  let dst ← .ofExcept (addrText route.rtas rtaDst (rtmFamily route.hdr))
  let kIndex ← .ofExcept (optionalRead32 route.rtas rtaOif)
  let gw ← .ofExcept (addrText route.rtas rtaGateway (rtmFamily route.hdr))
  setRoute frame (dst ++ '/' :: decimal (rtmDstLen route.hdr).toNat) gw
    (ifindexKernel2vpp pairs kIndex) isNew

def routeAnalyzeAndHook (names : IfNames) (frame : Frame) (pairs : List RouterdInterface)
    (route : RtObject) (isNew : Bool) : Session Unit :=
  if rtmFamily route.hdr ≠ afInet then srv6RouteHook names frame pairs route
  else inet4RouteHook frame pairs route isNew

def monitorAddr (frame : Frame) (pairs : List RouterdInterface) (n : Mem) (isNew : Bool) :
    Session Unit := do
  let addr ← .ofExcept (ofMessage ifaddr n)
  addrAnalyzeAndHook frame pairs addr isNew

def monitorRoute (names : IfNames) (frame : Frame) (pairs : List RouterdInterface) (n : Mem)
    (isNew : Bool) : Session Unit := do
  let route ← .ofExcept (ofMessage route n)
  routeAnalyzeAndHook names frame pairs route isNew

/-- A message that is only counted has its attributes parsed. -/
def monitorCounted (make : Mem → ℕ → Except Fault RtObject) (n : Mem) : Session Unit := do
  let _ ← .ofExcept (ofMessage make n)
  pure ()

def monitor (names : IfNames) (frame : Frame) (pairs : List RouterdInterface) (n : Mem) :
    Session Unit :=
  match nlmsgType n with
  | .newlink => do
    let link ← .ofExcept (ofMessage link n)
    linkAnalyzeAndHook pairs link
  | .dellink => monitorCounted link n
  | .newaddr => monitorAddr frame pairs n true
  | .deladdr => monitorAddr frame pairs n false
  | .newroute => monitorRoute names frame pairs n true
  | .delroute => monitorRoute names frame pairs n false
  | .newneigh => monitorCounted neigh n
  | .delneigh => monitorCounted neigh n
  | _ => pure ()

/-! ### The recorded calls -/

def replyMessage (retval : UInt32) : Mem := [0, 0, 0, 0, 0, 0] ++ bytes32 retval.toNat

def replay (env : Env) : Session Unit → List ApiStep → Except Fault (List ApiStep)
  | .ret _, steps => .ok steps
  | .fault e, _ => .error e
  | .running, steps => .ok steps
  | .op (.connect _) k, steps =>
    if env.connects steps.length then
      replay env (k (some (env.clientIndex steps.length))) (steps ++ [.connect true])
    else replay env (k none) (steps ++ [.connect false])
  | .op (.send (.api r)) k, steps => replay env (k ()) (steps ++ [.send r])
  | .op (.send _) k, steps => replay env (k ()) steps
  | .op (.svmQueueSub _) k, steps =>
    replay env (k ((env.reply steps.length).map replyMessage))
      (steps ++ [.waitmsg (((env.reply steps.length).map swap32).getD 0xffffffff)])
  | .op .disconnect k, steps => replay env (k ()) (steps ++ [.disconnect])
  | .op .random k, steps => replay env (k (env.random steps.length)) steps
  | .op (.ifIndextoname i) k, steps => replay env (k (env.names.name i)) steps

theorem replay_ofExcept {α : Type} (env : Env) (x : Except Fault α) (f : α → Session Unit)
    (steps : List ApiStep) :
    replay env (.ofExcept x >>= f) steps = x >>= fun a => replay env (f a) steps := by
  cases x with
  | error e => rfl
  | ok a => rfl

theorem trace_transact {env : Env} {d : Daemon} {build : Daemon → Except Fault Request}
    {session : UInt32 → Session Request}
    (hbuild : ∀ k, replay env (session (env.clientIndex d.trace.length) >>= k)
        (d.trace ++ [.connect true]) =
      build { d.log (.connect true) with myClientIndex := env.clientIndex d.trace.length } >>= fun r =>
        replay env (k r) (d.trace ++ [.connect true])) :
    (Routerd.transact env d build).map Daemon.trace = replay env (transact session) d.trace := by
  unfold Routerd.transact Routerd.connectToVpp
  by_cases hconn : env.connects d.trace.length = true
  · have hsession : replay env (transact session) d.trace =
        replay env (session (env.clientIndex d.trace.length) >>= fun r =>
          send (.api r) >>= fun _ => vppWaitmsgRetval >>= fun _ => VppCli.disconnectFromVpp)
          (d.trace ++ [.connect true]) := if_pos hconn
    rw [hsession, hbuild, if_pos hconn]
    change (build _ >>= _).map _ = _
    cases build { d.log (.connect true) with myClientIndex := env.clientIndex d.trace.length } with
    | error e => rfl
    | ok r => rfl
  · have hsession : replay env (transact session) d.trace = .ok (d.trace ++ [.connect false]) :=
      if_neg hconn
    rw [hsession, if_neg hconn]
    rfl

theorem trace_setLink (env : Env) (d : Daemon) (v : UInt32) (isUp : Bool) :
    (Routerd.setLink env d v isUp).map Daemon.trace = replay env (setLink v isUp) d.trace :=
  trace_transact fun _ => rfl

theorem trace_setAddr (env : Env) (d : Daemon) (v : UInt32) (addr : InAddr) (len : UInt8)
    (isAdd : Bool) :
    (Routerd.setAddr env d v addr len isAdd).map Daemon.trace =
      replay env (setAddr (env.frame d.trace.length) v addr len isAdd) d.trace :=
  trace_transact fun _ => rfl

theorem trace_setRoute (env : Env) (d : Daemon) (routeStr nhStr : Text) (oif : UInt32)
    (isNew : Bool) :
    (Routerd.setRoute env d routeStr nhStr oif isNew).map Daemon.trace =
      replay env (setRoute (env.frame d.trace.length) routeStr nhStr oif isNew) d.trace := by
  apply trace_transact
  intro k
  cases parsePrefixStr routeStr afInet (env.frame d.trace.length).routePref with
  | error e => rfl
  | ok routePref =>
    cases parsePrefixStr nhStr afInet (env.frame d.trace.length).nexthopPref with
    | error e => rfl
    | ok nexthopPref =>
      exact replay_ofExcept env _ k _

variable {env : Env} {d d' : Daemon}

theorem trace_ofExcept {α : Type} {x : Except Fault α} {hook : α → Except Fault Daemon}
    {session : α → Session Unit}
    (h : ∀ a, (hook a).map Daemon.trace = replay env (session a) d.trace) :
    (x >>= hook).map Daemon.trace = replay env (.ofExcept x >>= session) d.trace := by
  rw [replay_ofExcept]
  cases x with
  | error e => rfl
  | ok a => exact h a

theorem trace_linkAnalyzeAndHook (link : RtObject) :
    (Routerd.linkAnalyzeAndHook env d link).map Daemon.trace =
      replay env (linkAnalyzeAndHook d.interfaces link) d.trace := by
  unfold Routerd.linkAnalyzeAndHook linkAnalyzeAndHook
  by_cases hup : (0xffffffff : UInt32) &&& ifiChange link.hdr &&& iffUp ≠ 0
  · by_cases hv : ifindexKernel2vpp d.interfaces (ifiIndex link.hdr) = 0
    · simp only [if_pos hup, if_pos hv]
      rfl
    · simp only [if_pos hup, if_neg hv]
      exact trace_setLink env d _ _
  · simp only [if_neg hup]
    rfl

theorem trace_addrAnalyzeAndHook (addr : RtObject) (isNew : Bool) :
    (Routerd.addrAnalyzeAndHook env d addr isNew).map Daemon.trace =
      replay env (addrAnalyzeAndHook (env.frame d.trace.length) d.interfaces addr isNew) d.trace := by
  unfold Routerd.addrAnalyzeAndHook addrAnalyzeAndHook
  split
  · rfl
  · by_cases hnull : rtaReadptr (addr.rtas.get iflaAddress) = .null
    · simp only [if_pos hnull]
      rfl
    · by_cases hv : ifindexKernel2vpp d.interfaces (ifaIndex addr.hdr) = 0
      · simp only [if_neg hnull, if_pos hv]
        rfl
      · simp only [if_neg hnull, if_neg hv]
        exact trace_ofExcept fun m => trace_setAddr env d _ _ _ _

theorem trace_srv6RouteHook (route : RtObject) :
    (Routerd.srv6RouteHook env d route).map Daemon.trace =
      replay env (srv6RouteHook env.names (env.frame d.trace.length) d.interfaces route) d.trace := by
  unfold Routerd.srv6RouteHook srv6RouteHook
  refine trace_ofExcept fun dst => trace_ofExcept fun oif => trace_ofExcept fun texts => ?_
  split
  · exact trace_transact fun _ => rfl
  · rfl

theorem trace_inet4RouteHook (route : RtObject) (isNew : Bool) :
    (Routerd.inet4RouteHook env d route isNew).map Daemon.trace =
      replay env (inet4RouteHook (env.frame d.trace.length) d.interfaces route isNew) d.trace := by
  unfold Routerd.inet4RouteHook inet4RouteHook
  refine trace_ofExcept fun dst => trace_ofExcept fun kIndex => trace_ofExcept fun gw => ?_
  exact trace_setRoute env d _ _ _ _

theorem trace_routeAnalyzeAndHook (route : RtObject) (isNew : Bool) :
    (Routerd.routeAnalyzeAndHook env d route isNew).map Daemon.trace =
      replay env (routeAnalyzeAndHook env.names (env.frame d.trace.length) d.interfaces route isNew)
        d.trace := by
  unfold Routerd.routeAnalyzeAndHook routeAnalyzeAndHook
  split
  · exact trace_srv6RouteHook route
  · exact trace_inet4RouteHook route isNew

/-- The calls that `monitor` records are those of the session of the message. -/
theorem trace_monitor (env : Env) (d : Daemon) (n : Mem) :
    (Routerd.monitor env d n).map Daemon.trace =
      replay env (monitor env.names (env.frame d.trace.length) d.interfaces n) d.trace := by
  unfold Routerd.monitor monitor
  cases nlmsgType n with
  | newlink => exact trace_ofExcept fun o => trace_linkAnalyzeAndHook (d := countLink d true) o
  | dellink => exact trace_ofExcept fun o => rfl
  | newaddr => exact trace_ofExcept fun o => trace_addrAnalyzeAndHook (d := countAddr d true) o true
  | deladdr => exact trace_ofExcept fun o => trace_addrAnalyzeAndHook (d := countAddr d false) o false
  | newroute =>
    exact trace_ofExcept fun o => trace_routeAnalyzeAndHook (d := countRoute d true) o true
  | delroute =>
    exact trace_ofExcept fun o => trace_routeAnalyzeAndHook (d := countRoute d false) o false
  | newneigh => exact trace_ofExcept fun o => rfl
  | delneigh => exact trace_ofExcept fun o => rfl
  | _ => rfl

end HookSession

end Routerd
