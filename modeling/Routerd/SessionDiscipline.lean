import Routerd.OneExchange

/-!
# Every session opens and closes the one connection

The daemon has one connection to VPP. Every command and every netlink message connects when
none is open, sends its requests while exactly one is, and disconnects before it ends, on each
of its exits. A sequence of them does the same, whatever the outside answers.
-/

namespace Routerd
open ByteMemory NumeralText InetText Dialogue Discipline

/-- The number of open connections after an attempt to connect. -/
def connectedAfter (n : ℕ) : Option UInt32 → ℕ
  | none => n
  | some _ => n + 1

/-- The number of open connections after a call. -/
def openAfter (n : ℕ) : Event VppOp.Answer → ℕ
  | ⟨.connect _, client⟩ => connectedAfter n client
  | ⟨.disconnect, _⟩ => n - 1
  | _ => n

/-- Connecting needs no open connection, disconnecting needs one, a request exactly one. -/
def callAllowed (n : ℕ) : VppOp → Prop
  | .connect _ => n = 0
  | .send _ => n = 1
  | .disconnect => 0 < n
  | _ => True

def connectionDiscipline : Discipline VppOp.Answer ℕ := ⟨callAllowed, openAfter⟩

/-- From `a` open connections a session makes allowed calls and ends, if it ends, with `b`. -/
abbrev Leads (a b : ℕ) {α : Type} (p : Session α) : Prop := connectionDiscipline.Leads a b p

/-! ### The calls -/

section Calls

variable {α : Type} {a : ℕ}

theorem leads_send (r : CliRequest) : Leads 1 1 (VppCli.send r) := ⟨rfl, fun _ => rfl⟩

theorem leads_disconnect : Leads 1 0 VppCli.disconnectFromVpp := ⟨Nat.one_pos, fun _ => rfl⟩

theorem leads_random : Leads a a VppCli.random := ⟨trivial, fun _ => rfl⟩

theorem leads_svmQueueSub (seconds : ℕ) : Leads a a (VppCli.svmQueueSub seconds) :=
  ⟨trivial, fun _ => rfl⟩

theorem leads_ifIndextoname (index : UInt32) : Leads a a (VppCli.ifIndextoname index) :=
  ⟨trivial, fun _ => rfl⟩

theorem leads_connect {noRx : Bool} {f : Option UInt32 → Session α} (hnone : Leads 0 0 (f none))
    (hsome : ∀ client, Leads 1 0 (f (some client))) :
    Leads 0 0 (VppCli.connectToVpp noRx >>= f) := by
  refine ⟨rfl, fun client => ?_⟩
  cases client with
  | none => exact hnone
  | some client => exact hsome client

theorem oneConnection : OneExchange connectionDiscipline 0 1 1 1 0 :=
  ⟨leads_connect, leads_random, leads_send, leads_svmQueueSub, leads_disconnect⟩

end Calls

/-! ### The commands -/

namespace VppCli

theorem leads_untilPong {σ : Type} {pong fuel seconds : ℕ} {round : σ → Mem → Session σ} {a : ℕ}
    (h : ∀ s msg, Leads a a (round s msg)) (s : σ) :
    Leads a a (untilPong pong fuel seconds round s) := by
  refine leads_loop (fun s => (leads_svmQueueSub seconds).bind fun msg => ?_) fuel s
  cases msg with
  | none => exact leads_pure _
  | some msg => exact (leads_pure _).ite ((h s msg).bind fun _ => leads_pure _)

theorem leads_getNodeInfo (client : UInt32) (x : ℕ) (name : Text) :
    Leads 1 1 (getNodeInfo client x name) := (leads_send _).ite (leads_fault _)

theorem leads_getProcInfo (client : UInt32) (x : ℕ) (name : Text) :
    Leads 1 1 (getProcInfo client x name) := (leads_send _).ite (leads_fault _)

theorem leads_showVppIpFib (pong fuel : ℕ) : Leads 0 0 (showVppIpFib pong fuel) := by
  refine oneConnection.withConnection fun client => ?_
  refine leads_random.bind fun _ => (leads_send _).bind fun _ => ?_
  refine leads_random.bind fun _ => (leads_send _).bind fun _ => ?_
  refine (leads_untilPong (fun _ _ => ?_) ()).bind fun _ => oneConnection.close _
  exact (leads_pure _).ite (leads_fault _)

theorem leads_storeLink (client : UInt32) (interfaces : Interfaces) (msg : Mem) :
    Leads 1 1 (storeLink client interfaces msg) := by
  refine Leads.ite ?_ (leads_fault _)
  refine leads_random.bind fun _ => (leads_send _).bind fun _ => ?_
  exact leads_random.bind fun _ => (leads_send _).bind fun _ => leads_pure _

theorem leads_storeAddr (interfaces : Interfaces) (msg : Mem) :
    Leads 1 1 (storeAddr interfaces msg) := (leads_pure _).ite (leads_fault _)

theorem leads_showVppInterface (pong fuel : ℕ) : Leads 0 0 (showVppInterface pong fuel) := by
  refine leads_connect (leads_pure _) fun client => ?_
  refine leads_random.bind fun _ => (leads_send _).bind fun _ => ?_
  refine leads_random.bind fun _ => (leads_send _).bind fun _ => ?_
  refine (leads_untilPong (leads_storeLink client) _).bind fun _ => ?_
  refine leads_random.bind fun _ => (leads_send _).bind fun _ => ?_
  exact (leads_untilPong leads_storeAddr _).bind fun _ => oneConnection.close _

theorem leads_createLoopbackInterface : Leads 0 0 createLoopbackInterface := by
  refine oneConnection.withConnection fun client => leads_random.bind fun _ => ?_
  exact (leads_send _).bind fun _ => oneConnection.awaitRetval 3

theorem leads_showVppTapInject (pong fuel : ℕ) : Leads 0 0 (showVppTapInject pong fuel) := by
  refine oneConnection.withConnection fun client => (leads_send _).bind fun _ => ?_
  refine leads_random.bind fun _ => (leads_send _).bind fun _ => ?_
  exact (leads_untilPong (fun _ _ => leads_pure _) ()).bind fun _ => oneConnection.close _

theorem leads_enableTapInject (argv : List Text) : Leads 0 0 (enableTapInject argv) := by
  refine oneConnection.withConnection fun client => leads_random.bind fun _ => (leads_send _).bind fun _ => ?_
  exact (leads_svmQueueSub 1).bind fun _ => oneConnection.close _

theorem leads_storePair (pairs : List RouterdInterface) (msg : Mem) :
    Leads 1 1 (storePair pairs msg) := by
  refine (leads_ifIndextoname _).bind fun name => ?_
  cases name with
  | none => exact leads_fault _
  | some name => exact leads_pure _

theorem leads_enableCplaneNetdevSync (pong fuel : ℕ) (pairs : List RouterdInterface) :
    Leads 0 0 (enableCplaneNetdevSync pong fuel pairs) := by
  refine leads_connect (leads_pure _) fun client => (leads_send _).bind fun _ => ?_
  refine leads_random.bind fun _ => (leads_send _).bind fun _ => ?_
  exact (leads_untilPong leads_storePair pairs).bind fun _ => oneConnection.close _

theorem leads_showVppProcInfo (argv : List Text) : Leads 0 0 (showVppProcInfo argv) := by
  refine oneConnection.withConnection fun client => leads_random.bind fun x => ?_
  refine (leads_getProcInfo client x _).bind fun _ => ?_
  exact oneConnection.reply (oneConnection.close _) fun _ => oneConnection.close _

theorem leads_showVppNodeInfo (argv : List Text) : Leads 0 0 (showVppNodeInfo argv) := by
  refine oneConnection.withConnection fun client => leads_random.bind fun x => ?_
  refine (leads_getNodeInfo client x _).bind fun _ => ?_
  refine oneConnection.reply (oneConnection.close _) fun _ => (oneConnection.close _).ite ?_
  exact (oneConnection.close _).ite (leads_fault _)

theorem leads_vppStartupConfigProcessIsDone : Leads 0 0 vppStartupConfigProcessIsDone := by
  refine leads_connect (leads_pure _) fun client => leads_random.bind fun x => ?_
  refine (leads_getProcInfo client x _).bind fun _ => oneConnection.reply (oneConnection.close _) ?_
  exact fun _ => (oneConnection.close _).ite (oneConnection.close _)

theorem leads_waitTries (n : ℕ) : Leads 0 0 (waitTries n) := by
  induction n with
  | zero => exact leads_pure _
  | succ n ih =>
    refine leads_vppStartupConfigProcessIsDone.bind fun done => ?_
    exact (leads_pure _).ite ih

end VppCli

/-! ### The netlink hooks -/

namespace HookSession

theorem leads_linkAnalyzeAndHook (pairs : List RouterdInterface) (link : RtObject) :
    Leads 0 0 (linkAnalyzeAndHook pairs link) :=
  ((leads_pure _).ite (oneConnection.setLink _ _)).ite (leads_pure _)

theorem leads_addrAnalyzeAndHook (frame : Frame) (pairs : List RouterdInterface) (addr : RtObject)
    (isNew : Bool) : Leads 0 0 (addrAnalyzeAndHook frame pairs addr isNew) := by
  refine (leads_pure _).ite ?_
  refine (leads_pure _).ite ?_
  refine (leads_pure _).ite ?_
  exact (leads_ofExcept _).bind fun m => oneConnection.setAddr frame _ _ _ _

theorem leads_routeAnalyzeAndHook (names : IfNames) (frame : Frame) (pairs : List RouterdInterface)
    (route : RtObject) (isNew : Bool) :
    Leads 0 0 (routeAnalyzeAndHook names frame pairs route isNew) := by
  refine Leads.ite ?_ ?_
  · refine (leads_ofExcept _).bind fun dst => (leads_ofExcept _).bind fun oif => ?_
    refine (leads_ofExcept _).bind fun texts => Leads.ite ?_ (leads_pure _)
    exact oneConnection.transact fun _ => leads_pure _
  · refine (leads_ofExcept _).bind fun dst => (leads_ofExcept _).bind fun kIndex => ?_
    exact (leads_ofExcept _).bind fun gw => oneConnection.setRoute _ _ _ _ _

theorem leads_monitor (names : IfNames) (frame : Frame) (pairs : List RouterdInterface) (n : Mem) :
    Leads 0 0 (monitor names frame pairs n) := by
  have hroute : ∀ isNew, Leads 0 0 (monitorRoute names frame pairs n isNew) := fun isNew =>
    (leads_ofExcept _).bind fun route => leads_routeAnalyzeAndHook names frame pairs route isNew
  have haddr : ∀ isNew, Leads 0 0 (monitorAddr frame pairs n isNew) := fun isNew =>
    (leads_ofExcept _).bind fun addr => leads_addrAnalyzeAndHook frame pairs addr isNew
  have hcounted : ∀ make, Leads 0 0 (monitorCounted make n) := fun _ =>
    (leads_ofExcept _).bind fun _ => leads_pure _
  unfold monitor
  cases nlmsgType n with
  | newlink => exact (leads_ofExcept _).bind fun link => leads_linkAnalyzeAndHook pairs link
  | dellink => exact hcounted _
  | newaddr => exact haddr true
  | deladdr => exact haddr false
  | newroute => exact hroute true
  | delroute => exact hroute false
  | newneigh => exact hcounted _
  | delneigh => exact hcounted _
  | _ => exact leads_pure _

end HookSession

/-! ### Sequences -/

/-- The commands of `vpp_cli.c` that close the connection they open, with their words. -/
inductive Command where
  | vpp
  | showVppIpFib
  | showVppInterface
  | setInterfaceAddress (argv : List Text)
  | setInterfaceState (argv : List Text)
  | createLoopbackInterface
  | ipAdddelRoute (argv : List Text)
  | showVppTapInject
  | enableTapInject (argv : List Text)
  | enableCplaneNetdevSync
  | showVppProcInfo (argv : List Text)
  | showVppNodeInfo (argv : List Text)
  | waitStartupConfigProcessDone (argv : List Text)

/-- A command, with what its locals hold, or a netlink message. -/
inductive Activity where
  | command (frame : VppCli.CliFrame) (c : Command)
  | message (names : IfNames) (frame : Frame) (n : Mem)

section Sequences
open VppCli

variable (pong fuel : ℕ)

/-- The session of a command and the pair table it leaves. -/
def Command.session (frame : CliFrame) (pairs : List RouterdInterface) :
    Command → Session (List RouterdInterface)
  | vpp => do
    let _ ← VppCli.vpp
    pure pairs
  | showVppIpFib => do
    let _ ← VppCli.showVppIpFib pong fuel
    pure pairs
  | showVppInterface => do
    let _ ← VppCli.showVppInterface pong fuel
    pure pairs
  | setInterfaceAddress argv => do
    let _ ← VppCli.setInterfaceAddress frame argv
    pure pairs
  | setInterfaceState argv => do
    let _ ← VppCli.setInterfaceState argv
    pure pairs
  | createLoopbackInterface => do
    let _ ← VppCli.createLoopbackInterface
    pure pairs
  | ipAdddelRoute argv => do
    let _ ← VppCli.ipAdddelRoute frame argv
    pure pairs
  | showVppTapInject => do
    let _ ← VppCli.showVppTapInject pong fuel
    pure pairs
  | enableTapInject argv => do
    let _ ← VppCli.enableTapInject argv
    pure pairs
  | enableCplaneNetdevSync => do
    let result ← VppCli.enableCplaneNetdevSync pong fuel pairs
    pure result.2
  | showVppProcInfo argv => do
    let _ ← VppCli.showVppProcInfo argv
    pure pairs
  | showVppNodeInfo argv => do
    let _ ← VppCli.showVppNodeInfo argv
    pure pairs
  | waitStartupConfigProcessDone argv => do
    let _ ← VppCli.waitStartupConfigProcessDone argv
    pure pairs

def Activity.session (pairs : List RouterdInterface) : Activity → Session (List RouterdInterface)
  | command frame c => c.session pong fuel frame pairs
  | message names frame n => do
    HookSession.monitor names frame pairs n
    pure pairs

/-- One after the other, in one thread. -/
def serve : List Activity → List RouterdInterface → Session (List RouterdInterface)
  | [], pairs => pure pairs
  | activity :: rest, pairs => do
    let pairs ← activity.session pong fuel pairs
    serve rest pairs

theorem Command.leads_session (frame : CliFrame) (pairs : List RouterdInterface) (c : Command) :
    Leads 0 0 (c.session pong fuel frame pairs) := by
  cases c with
  | vpp => exact (leads_pure _).bind fun _ => leads_pure _
  | showVppIpFib => exact (leads_showVppIpFib pong fuel).bind fun _ => leads_pure _
  | showVppInterface => exact (leads_showVppInterface pong fuel).bind fun _ => leads_pure _
  | setInterfaceAddress argv => exact (oneConnection.setInterfaceAddress frame argv).bind fun _ => leads_pure _
  | setInterfaceState argv => exact (oneConnection.setInterfaceState argv).bind fun _ => leads_pure _
  | createLoopbackInterface => exact leads_createLoopbackInterface.bind fun _ => leads_pure _
  | ipAdddelRoute argv => exact (oneConnection.ipAdddelRoute frame argv).bind fun _ => leads_pure _
  | showVppTapInject => exact (leads_showVppTapInject pong fuel).bind fun _ => leads_pure _
  | enableTapInject argv => exact (leads_enableTapInject argv).bind fun _ => leads_pure _
  | enableCplaneNetdevSync =>
    exact (leads_enableCplaneNetdevSync pong fuel pairs).bind fun _ => leads_pure _
  | showVppProcInfo argv => exact (leads_showVppProcInfo argv).bind fun _ => leads_pure _
  | showVppNodeInfo argv => exact (leads_showVppNodeInfo argv).bind fun _ => leads_pure _
  | waitStartupConfigProcessDone argv =>
    exact ((leads_waitTries _).bind fun _ => leads_pure _).bind fun _ => leads_pure _

theorem Activity.leads_session (pairs : List RouterdInterface) (activity : Activity) :
    Leads 0 0 (activity.session pong fuel pairs) := by
  cases activity with
  | command frame c => exact c.leads_session pong fuel frame pairs
  | message names frame n =>
    exact (HookSession.leads_monitor names frame pairs n).bind fun _ => leads_pure _

theorem leads_serve (activities : List Activity) (pairs : List RouterdInterface) :
    Leads 0 0 (serve pong fuel activities pairs) := by
  induction activities generalizing pairs with
  | nil => exact leads_pure _
  | cons activity rest ih => exact (activity.leads_session pong fuel pairs).bind fun pairs => ih pairs

/-- Along every run of a sequence of commands and messages each call is allowed where it is
made, and no connection is open when the sequence has ended. -/
theorem serve_disciplined {activities : List Activity} {pairs : List RouterdInterface}
    {calls : List (Event VppOp.Answer)} {p : Session (List RouterdInterface)}
    (h : (serve pong fuel activities pairs).Steps calls p) :
    connectionDiscipline.Respects 0 calls ∧
      ∀ pairs', p = .ret pairs' → connectionDiscipline.after 0 calls = 0 := by
  obtain ⟨hrespects, hrest⟩ := (leads_serve pong fuel activities pairs).steps h
  refine ⟨hrespects, fun pairs' hp => ?_⟩
  rw [hp] at hrest
  exact hrest

def loopbackTimeout : List (Event VppOp.Answer) :=
  [⟨.connect false, some (7 : UInt32)⟩, ⟨.random, (5 : ℕ)⟩,
    ⟨.send (.createLoopback 7 (context32 5)), ()⟩, ⟨.svmQueueSub 3, (none : Option Mem)⟩,
    ⟨.disconnect, ()⟩]

theorem loopbackTimeout_disciplined :
    connectionDiscipline.Respects 0 loopbackTimeout ∧
      connectionDiscipline.after 0 loopbackTimeout = 0 := by
  have hrun : (serve 0 1 [.command ⟨⟨0, 0, fun _ => 0⟩, ⟨0, 0, fun _ => 0⟩, fun _ => 0⟩
      .createLoopbackInterface] []).Steps loopbackTimeout (.ret []) :=
    .op _ (.op _ (.op _ (.op _ (.op _ (.refl _)))))
  obtain ⟨hrespects, hclosed⟩ := serve_disciplined 0 1 hrun
  exact ⟨hrespects, hclosed [] rfl⟩

end Sequences

end Routerd
