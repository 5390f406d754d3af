import Routerd.OneExchange

/-!
# What the configuration commands report

Five commands of `vpp_cli.c` send one request and wait once for VPP. What the wait brings, a
message or nothing in time, settles what the command returns. Three of the commands return success
exactly for a message with a return value that is not negative. `set_interface_state` takes a
wait that brings nothing for success, and `enable_tap_inject` returns success whatever the
wait brings.
-/

namespace Routerd
open ByteMemory NumeralText InetText Dialogue Prog

/-- The commands that change VPP, with their words. -/
inductive ConfigCommand where
  | setInterfaceAddress (argv : List Text)
  | setInterfaceState (argv : List Text)
  | createLoopbackInterface
  | ipAdddelRoute (argv : List Text)
  | enableTapInject (argv : List Text)

def ConfigCommand.session (frame : VppCli.CliFrame) : ConfigCommand → Session CmdResult
  | setInterfaceAddress argv => VppCli.setInterfaceAddress frame argv
  | setInterfaceState argv => VppCli.setInterfaceState argv
  | createLoopbackInterface => VppCli.createLoopbackInterface
  | ipAdddelRoute argv => VppCli.ipAdddelRoute frame argv
  | enableTapInject argv => VppCli.enableTapInject argv

/-- A message came, and its return value is not negative. -/
def AcceptedReply : Option Mem → Prop
  | none => False
  | some msg => VppCli.isNegative (VppCli.word msg) = false

/-- Where a command reports what the wait brought. -/
def ConfigCommand.Reports (reply : Option Mem) : ConfigCommand → Prop
  | setInterfaceState _ => reply ≠ none
  | enableTapInject _ => AcceptedReply reply
  | _ => True

/-- The call that waits for a reply. -/
def VppOp.IsWait : VppOp → Prop
  | svmQueueSub _ => True
  | _ => False

/-- A command that waited for `reply` returned `r`. -/
def ReturnsFor (c : ConfigCommand) : Event VppOp.Answer → CmdResult → Prop
  | ⟨.svmQueueSub _, reply⟩, r => (r = .success ↔ AcceptedReply reply) ↔ c.Reports reply
  | _, _ => True

/-! ### The calls of a command -/

section Calls
open VppCli

variable {c : ConfigCommand} {α : Type}

theorem returns_disconnect (r : CmdResult) :
    Returns VppOp.IsWait r (VppCli.disconnectFromVpp >>= fun _ => pure r) := ⟨id, fun _ => rfl⟩

theorem settled_wait {seconds : ℕ} {f : Option Mem → Session CmdResult}
    (h : ∀ reply, ∃ r, ((r = .success ↔ AcceptedReply reply) ↔ c.Reports reply) ∧
      (f reply).Returns VppOp.IsWait r) :
    SettledBy VppOp.IsWait (ReturnsFor c) (svmQueueSub seconds >>= f) :=
  Or.inl ⟨trivial, h⟩

theorem settled_send {r : CliRequest} {f : Unit → Session CmdResult}
    (h : SettledBy VppOp.IsWait (ReturnsFor c) (f ())) :
    SettledBy VppOp.IsWait (ReturnsFor c) (send r >>= f) := Or.inr ⟨id, fun _ => h⟩

theorem settled_random {f : ℕ → Session CmdResult}
    (h : ∀ x, SettledBy VppOp.IsWait (ReturnsFor c) (f x)) :
    SettledBy VppOp.IsWait (ReturnsFor c) (random >>= f) := Or.inr ⟨id, h⟩

theorem settled_ofExcept {x : Except Fault α} {f : α → Session CmdResult}
    (h : ∀ a, SettledBy VppOp.IsWait (ReturnsFor c) (f a)) :
    SettledBy VppOp.IsWait (ReturnsFor c) (ofExcept x >>= f) := by
  cases x with
  | error e => trivial
  | ok a => exact h a

theorem settled_connection {noRx : Bool} {body : UInt32 → Session CmdResult}
    (h : ∀ client, SettledBy VppOp.IsWait (ReturnsFor c) (body client)) :
    SettledBy VppOp.IsWait (ReturnsFor c) (withConnection noRx body) := by
  refine Or.inr ⟨id, fun client => ?_⟩
  cases client with
  | none => trivial
  | some client => exact h client

theorem returns_message (msg : Mem) (hc : c.Reports (some msg)) :
    ∃ r, ((r = .success ↔ AcceptedReply (some msg)) ↔ c.Reports (some msg)) ∧
      Returns VppOp.IsWait r
        (if isNegative (word msg) then
          VppCli.disconnectFromVpp >>= fun _ => pure CmdResult.warningConfigFailed
        else VppCli.disconnectFromVpp >>= fun _ => pure CmdResult.success) := by
  cases hneg : isNegative (word msg) with
  | true =>
    exact ⟨.warningConfigFailed, iff_of_true (by simp [AcceptedReply, hneg]) hc,
      returns_disconnect _⟩
  | false =>
    exact ⟨.success, iff_of_true (by simp [AcceptedReply, hneg]) hc, returns_disconnect _⟩

theorem settled_awaitRetval (seconds : ℕ) (hc : ∀ reply, c.Reports reply) :
    SettledBy VppOp.IsWait (ReturnsFor c) (awaitRetval seconds) := by
  refine settled_wait fun reply => ?_
  cases reply with
  | none =>
    exact ⟨.warningConfigFailed, iff_of_true (by simp [AcceptedReply]) (hc _), returns_disconnect _⟩
  | some msg => exact returns_message msg (hc _)

theorem ConfigCommand.settled (frame : CliFrame) (c : ConfigCommand) :
    SettledBy VppOp.IsWait (ReturnsFor c) (c.session frame) := by
  cases c with
  | setInterfaceAddress argv =>
    refine settled_ofExcept fun pref => settled_connection fun client => settled_send ?_
    exact settled_awaitRetval 1 fun _ => trivial
  | setInterfaceState argv =>
    refine settled_connection fun client => settled_send (settled_wait fun reply => ?_)
    cases reply with
    | none => exact ⟨.success, by simp [AcceptedReply, Reports], returns_disconnect _⟩
    | some msg => exact returns_message msg (Option.some_ne_none msg)
  | createLoopbackInterface =>
    refine settled_connection fun client => settled_random fun x => settled_send ?_
    exact settled_awaitRetval 3 fun _ => trivial
  | ipAdddelRoute argv =>
    refine settled_ofExcept fun routePref => settled_ofExcept fun nexthopPref => ?_
    refine settled_connection fun client => settled_ofExcept fun r => settled_send ?_
    exact settled_awaitRetval 1 fun _ => trivial
  | enableTapInject argv =>
    refine settled_connection fun client => settled_random fun x => settled_send ?_
    refine settled_wait fun reply => ⟨.success, ?_, returns_disconnect _⟩
    simp [Reports]

end Calls

/-- A command that has waited returns, whatever is answered from there on, and its result is
success exactly for a message whose return value is not negative, if and only if
the command is one that reports what the wait brought. -/
theorem configCommand_reports_iff (frame : VppCli.CliFrame) (c : ConfigCommand)
    {calls : List (Event VppOp.Answer)} {p : Session CmdResult}
    (hrun : (c.session frame).Steps calls p) {seconds : ℕ} {reply : Option Mem}
    (hwait : (⟨.svmQueueSub seconds, reply⟩ : Event VppOp.Answer) ∈ calls) :
    ∃ r, p.Returns VppOp.IsWait r ∧
      ((r = .success ↔ AcceptedReply reply) ↔ c.Reports reply) := by
  obtain ⟨r, hfits, hreturns⟩ := (c.settled frame).steps hrun hwait trivial
  exact ⟨r, hreturns, hfits⟩

def tapInjectRefused : List (Event VppOp.Answer) :=
  [⟨.connect true, some (7 : UInt32)⟩, ⟨.random, (5 : ℕ)⟩,
    ⟨.send (.tapInjectEnableDisable 7 (VppCli.context32 5) false), ()⟩,
    ⟨.svmQueueSub 1, some (List.replicate 10 (255 : UInt8))⟩, ⟨.disconnect, ()⟩]

theorem steps_tapInjectRefused :
    (VppCli.enableTapInject (["disable", "tap-inject"].map String.toList)).Steps tapInjectRefused
      (.ret .success) := by
  apply Steps.op
  apply Steps.op
  apply Steps.op
  apply Steps.op
  apply Steps.op
  apply Steps.refl

theorem configCommand_reports_iff_tapInject :
    ¬ AcceptedReply (some (List.replicate 10 255)) ∧
      ∃ r, (.ret .success : Session CmdResult).Returns VppOp.IsWait r ∧
        ((r = .success ↔ AcceptedReply (some (List.replicate 10 255))) ↔
          AcceptedReply (some (List.replicate 10 255))) := by
  have hwait : (⟨.svmQueueSub 1, some (List.replicate 10 (255 : UInt8))⟩ : Event VppOp.Answer) ∈
      tapInjectRefused := by simp [tapInjectRefused]
  have hneg : VppCli.isNegative (VppCli.word (List.replicate 10 255)) = true := by decide
  constructor
  · rw [AcceptedReply, hneg]
    decide
  · exact configCommand_reports_iff ⟨⟨afInet, 0, 0⟩, ⟨afInet, 0, 0⟩, fun _ => 0⟩
      (.enableTapInject _) steps_tapInjectRefused hwait

def stateTimeout : List (Event VppOp.Answer) :=
  [⟨.connect true, some (7 : UInt32)⟩,
    ⟨.send (.api (setInterfaceFlag 7 2 1 true)), ()⟩,
    ⟨.svmQueueSub 3, (none : Option Mem)⟩, ⟨.disconnect, ()⟩]

theorem stateTimeout_succeeds :
    (VppCli.setInterfaceState (["set", "interface", "state", "idx", "1", "up"].map
        String.toList)).Steps stateTimeout (.ret .success) ∧
      ⟨.svmQueueSub 3, (none : Option Mem)⟩ ∈ stateTimeout ∧ ¬ AcceptedReply none := by
  refine ⟨?_, by simp [stateTimeout], id⟩
  apply Steps.op
  apply Steps.op
  apply Steps.op
  apply Steps.op
  apply Steps.refl

end Routerd
