import Routerd.HookSessions

/-!
# Sessions of one request and its reply

The setters of the hooks and three of the commands connect, send one request, wait for its reply
and disconnect. This is said once, for any discipline that has states for these four calls.
-/

namespace Routerd
open ByteMemory NumeralText InetText Dialogue Discipline

/-- Where the calls of an exchange lead: from `idle` over the states after each call to `closed`.
A refused connection leads to `closed` at once. -/
structure OneExchange {τ : Type} (D : Discipline VppOp.Answer τ)
    (idle connected sent taken closed : τ) : Prop where
  connect : ∀ {α : Type} {noRx : Bool} {f : Option UInt32 → Session α},
    D.Leads closed closed (f none) → (∀ client, D.Leads connected closed (f (some client))) →
      D.Leads idle closed (VppCli.connectToVpp noRx >>= f)
  random : D.Leads connected connected VppCli.random
  send : ∀ r, D.Leads connected sent (VppCli.send r)
  take : ∀ seconds, D.Leads sent taken (VppCli.svmQueueSub seconds)
  disconnect : D.Leads taken closed VppCli.disconnectFromVpp

namespace OneExchange
open VppCli

variable {τ α : Type} {D : Discipline VppOp.Answer τ} {idle connected sent taken closed : τ}
  (h : OneExchange D idle connected sent taken closed)

include h

theorem close (x : α) : D.Leads taken closed (VppCli.disconnectFromVpp >>= fun _ => pure x) :=
  h.disconnect.bind fun _ => leads_pure x

theorem reply {seconds : ℕ} {f : Option Mem → Session α} (hnone : D.Leads taken closed (f none))
    (hsome : ∀ msg, D.Leads taken closed (f (some msg))) :
    D.Leads sent closed (VppCli.svmQueueSub seconds >>= f) := by
  refine (h.take seconds).bind fun msg => ?_
  cases msg with
  | none => exact hnone
  | some msg => exact hsome msg

theorem awaitRetval (seconds : ℕ) : D.Leads sent closed (VppCli.awaitRetval seconds) :=
  h.reply (h.close _) fun _ => (h.close _).ite (h.close _)

theorem withConnection {noRx : Bool} {body : UInt32 → Session CmdResult}
    (hbody : ∀ client, D.Leads connected closed (body client)) :
    D.Leads idle closed (VppCli.withConnection noRx body) :=
  h.connect (leads_pure _) hbody

theorem setInterfaceState (argv : List Text) :
    D.Leads idle closed (VppCli.setInterfaceState argv) := by
  refine h.withConnection fun client => (h.send _).bind fun _ => ?_
  exact h.reply (h.close _) fun _ => (h.close _).ite (h.close _)

theorem setInterfaceAddress (frame : CliFrame) (argv : List Text) :
    D.Leads idle closed (VppCli.setInterfaceAddress frame argv) := by
  refine (leads_ofExcept _).bind fun pref => h.withConnection fun client => ?_
  exact (h.send _).bind fun _ => h.awaitRetval 1

theorem ipAdddelRoute (frame : CliFrame) (argv : List Text) :
    D.Leads idle closed (VppCli.ipAdddelRoute frame argv) := by
  refine (leads_ofExcept _).bind fun routePref => (leads_ofExcept _).bind fun nexthopPref => ?_
  refine h.withConnection fun client => (leads_ofExcept _).bind fun r => ?_
  exact (h.send _).bind fun _ => h.awaitRetval 1

theorem transact {build : UInt32 → Session Request}
    (hbuild : ∀ client, D.Leads connected connected (build client)) :
    D.Leads idle closed (HookSession.transact build) := by
  refine h.connect (leads_pure _) fun client => (hbuild client).bind fun r => ?_
  refine (h.send _).bind fun _ => ?_
  exact ((h.take 1).bind fun _ => leads_pure _).bind fun _ => h.disconnect

theorem setLink (v : UInt32) (isUp : Bool) : D.Leads idle closed (HookSession.setLink v isUp) :=
  h.transact fun _ => h.random.bind fun _ => leads_pure _

theorem setAddr (frame : Frame) (v : UInt32) (addr : InAddr) (len : UInt8) (isAdd : Bool) :
    D.Leads idle closed (HookSession.setAddr frame v addr len isAdd) :=
  h.transact fun _ => h.random.bind fun _ => leads_pure _

theorem setRoute (frame : Frame) (routeStr nhStr : Text) (oif : UInt32) (isNew : Bool) :
    D.Leads idle closed (HookSession.setRoute frame routeStr nhStr oif isNew) := by
  refine h.transact fun _ => (leads_ofExcept _).bind fun _ => ?_
  exact (leads_ofExcept _).bind fun _ => leads_ofExcept _

end OneExchange

end Routerd
