import Routerd.OneExchange

/-!
# Two threads on one connection

The netlink thread and the command line use one connection and one queue of replies. Each of
them connects, sends a request, takes the first message from the queue and disconnects,
without asking whose message it is and who else is connected. Their calls come in any order.
Each party sends while a connection is open and reads its own reply exactly if the sessions
lie apart, or if both run at once and nothing gets in between: the queue is not replaced
between a request and its reply, the replies are taken in the order of the requests, and
nobody disconnects before the other has read.
-/

namespace Routerd
open ByteMemory NumeralText InetText Dialogue Discipline

namespace SharedConnection
open VppCli

inductive Party where
  | hook
  | cli
  deriving DecidableEq

def Party.other : Party → Party
  | hook => cli
  | cli => hook

/-- What the session of a party returns. -/
def Party.Result : Party → Type
  | hook => Unit
  | cli => CmdResult

inductive Beat where
  | connect (ok : Bool)
  | send
  | take
  | disconnect
  deriving DecidableEq

/-- A call of a party: whether a connection was open, and whose reply it took. -/
structure Act where
  who : Party
  beat : Beat
  isOpen : Bool
  owner : Option Party
  deriving DecidableEq

/-- Requests are sent while a connection is open, and each party reads its own reply. -/
def Sound (acts : List Act) : Prop :=
  ∀ a ∈ acts, (a.beat = .send → a.isOpen = true) ∧ (a.beat = .take → a.owner = some a.who)

instance (acts : List Act) : Decidable (Sound acts) :=
  inferInstanceAs (Decidable (∀ a ∈ acts, _ ∧ _))

/-- The connection, and the replies in its queue with the party whose request they answer. -/
structure Wire where
  connected : Bool
  queue : List (Party × Mem)

def Wire.closed : Wire := ⟨false, []⟩

/-- One call. VPP's answer to a request is in the queue at once; the outside decides whether a
connection is accepted, and `fresh` says whether one that is accepted replaces the queue. -/
inductive Call (fresh : Bool) (vpp : Party → CliRequest → Mem) (who : Party) :
    Wire → Event VppOp.Answer → List Act → Wire → Prop
  | connect (w : Wire) (noRx : Bool) (client : UInt32) :
      Call fresh vpp who w ⟨.connect noRx, some client⟩ [⟨who, .connect true, w.connected, none⟩]
        ⟨true, if fresh then [] else w.queue⟩
  | refused (w : Wire) (noRx : Bool) :
      Call fresh vpp who w ⟨.connect noRx, none⟩ [⟨who, .connect false, w.connected, none⟩] w
  | send (w : Wire) (r : CliRequest) :
      Call fresh vpp who w ⟨.send r, ()⟩ [⟨who, .send, w.connected, none⟩]
        ⟨w.connected, if w.connected then w.queue ++ [(who, vpp who r)] else w.queue⟩
  | take (connected : Bool) (seconds : ℕ) (owner : Party) (m : Mem) (q : List (Party × Mem)) :
      Call fresh vpp who ⟨connected, (owner, m) :: q⟩ ⟨.svmQueueSub seconds, some m⟩
        [⟨who, .take, connected, some owner⟩] ⟨connected, q⟩
  | timeout (connected : Bool) (seconds : ℕ) :
      Call fresh vpp who ⟨connected, []⟩ ⟨.svmQueueSub seconds, none⟩
        [⟨who, .take, connected, none⟩] ⟨connected, []⟩
  | disconnect (w : Wire) :
      Call fresh vpp who w ⟨.disconnect, ()⟩ [⟨who, .disconnect, w.connected, none⟩] .closed
  | random (w : Wire) (x : ℕ) : Call fresh vpp who w ⟨.random, x⟩ [] w

abbrev Threads := (p : Party) → Session p.Result

/-- Any interleaving of the calls of the two threads. -/
inductive Run (fresh : Bool) (vpp : Party → CliRequest → Mem) :
    Threads → Wire → List Act → Threads → Wire → Prop
  | refl (progs : Threads) (w : Wire) : Run fresh vpp progs w [] progs w
  | step {progs progs' : Threads} {w w' w'' : Wire} {acts acts' : List Act} (who : Party)
      {i : VppOp} {k : VppOp.Answer i → Session who.Result} (x : VppOp.Answer i)
      (hprog : progs who = .op i k) (hcall : Call fresh vpp who w ⟨i, x⟩ acts w')
      (hrest : Run fresh vpp (Function.update progs who (k x)) w' acts' progs' w'') :
      Run fresh vpp progs w (acts ++ acts') progs' w''

/-- The setter that the netlink thread is in. -/
inductive HookCall where
  | setLink (vppIfindex : UInt32) (isUp : Bool)
  | setAddr (frame : Frame) (vppIfindex : UInt32) (addr : InAddr) (addrLen : UInt8) (isAdd : Bool)
  | setRoute (frame : Frame) (routeStr nhStr : Text) (vppOif : UInt32) (isNew : Bool)

def HookCall.session : HookCall → Session Unit
  | setLink v isUp => HookSession.setLink v isUp
  | setAddr frame v addr len isAdd => HookSession.setAddr frame v addr len isAdd
  | setRoute frame routeStr nhStr oif isNew => HookSession.setRoute frame routeStr nhStr oif isNew

/-- The command that the command line is in. -/
inductive CliCall where
  | setInterfaceState (argv : List Text)
  | setInterfaceAddress (frame : CliFrame) (argv : List Text)
  | ipAdddelRoute (frame : CliFrame) (argv : List Text)

def CliCall.session : CliCall → Session CmdResult
  | setInterfaceState argv => VppCli.setInterfaceState argv
  | setInterfaceAddress frame argv => VppCli.setInterfaceAddress frame argv
  | ipAdddelRoute frame argv => VppCli.ipAdddelRoute frame argv

def threads (hook : HookCall) (cli : CliCall) : Threads
  | .hook => hook.session
  | .cli => cli.session

/-- A run in which both threads come to the end of their session. -/
structure SharedRun where
  fresh : Bool
  vpp : Party → CliRequest → Mem
  hook : HookCall
  cli : CliCall
  acts : List Act
  final : Wire
  hookResult : Unit
  cliResult : CmdResult
  progs : Threads
  run : Run fresh vpp (threads hook cli) .closed acts progs final
  hookEnds : progs .hook = .ret hookResult
  cliEnds : progs .cli = .ret cliResult

/-! ### The order of the calls -/

abbrev Order := List (Party × Beat)

def orderOf (acts : List Act) : Order := acts.map fun a => (a.who, a.beat)

def SharedRun.order (r : SharedRun) : Order := orderOf r.acts

/-- One call comes before another, or the other is not made. -/
def Before (l : Order) (a b : Party × Beat) : Prop := l.idxOf a < l.idxOf b

instance (l : Order) (a b : Party × Beat) : Decidable (Before l a b) :=
  inferInstanceAs (Decidable (_ < _))

/-- The second session begins when the first one has ended. -/
def Apart (l : Order) (first : Party) : Prop :=
  Before l (first, .disconnect) (first.other, .connect true)

/-- Both sessions run at once and each reply reaches its party. -/
structure InStep (fresh : Bool) (l : Order) (first : Party) : Prop where
  queue : fresh = true → Before l (first.other, .connect true) (first, .send) ∨
    Before l (first, .take) (first.other, .connect true)
  replies : Before l (first, .send) (first.other, .send) ↔
    Before l (first, .take) (first.other, .take)
  reads : Before l (first, .take) (first.other, .disconnect) ∧
    Before l (first.other, .take) (first, .disconnect)

/-- If `first` connects first and the other party is accepted as well, the sessions lie apart or
keep in step. -/
def CompatibleFrom (fresh : Bool) (l : Order) (first : Party) : Prop :=
  Before l (first, .connect true) (first.other, .connect true) →
    (first.other, .connect true) ∈ l → Apart l first ∨ InStep fresh l first

def Compatible (fresh : Bool) (l : Order) : Prop :=
  CompatibleFrom fresh l .hook ∧ CompatibleFrom fresh l .cli

instance (fresh : Bool) (l : Order) (first : Party) : Decidable (InStep fresh l first) :=
  decidable_of_iff (_ ∧ _ ∧ _) ⟨fun h => ⟨h.1, h.2.1, h.2.2⟩, fun h => ⟨h.queue, h.replies, h.reads⟩⟩

instance (fresh : Bool) (l : Order) (first : Party) : Decidable (CompatibleFrom fresh l first) :=
  inferInstanceAs (Decidable (Before _ _ _ → _ ∈ l → Before _ _ _ ∨ InStep _ _ _))

instance (fresh : Bool) (l : Order) : Decidable (Compatible fresh l) :=
  inferInstanceAs (Decidable (_ ∧ _))

/-! ### The order decides what is read -/

/-- The part of the state that does not depend on what the messages say. -/
structure View where
  connected : Bool
  owners : List Party

def Wire.view (w : Wire) : View := ⟨w.connected, w.queue.map Prod.fst⟩

def View.perform (fresh : Bool) (v : View) (who : Party) : Beat → Act × View
  | .connect true =>
    (⟨who, .connect true, v.connected, none⟩, ⟨true, if fresh then [] else v.owners⟩)
  | .connect false => (⟨who, .connect false, v.connected, none⟩, v)
  | .send => (⟨who, .send, v.connected, none⟩,
    ⟨v.connected, if v.connected then v.owners ++ [who] else v.owners⟩)
  | .take => (⟨who, .take, v.connected, v.owners.head?⟩, ⟨v.connected, v.owners.tail⟩)
  | .disconnect => (⟨who, .disconnect, v.connected, none⟩, ⟨false, []⟩)

def replayActs (fresh : Bool) : View → Order → List Act
  | _, [] => []
  | v, (who, beat) :: l =>
    (v.perform fresh who beat).1 :: replayActs fresh (v.perform fresh who beat).2 l

variable {fresh : Bool} {vpp : Party → CliRequest → Mem}

theorem Call.perform {who : Party} {w w' : Wire} {e : Event VppOp.Answer} {acts : List Act}
    (h : Call fresh vpp who w e acts w') :
    acts = [] ∧ w'.view = w.view ∨ ∃ beat, orderOf acts = [(who, beat)] ∧
      acts = [(w.view.perform fresh who beat).1] ∧ w'.view = (w.view.perform fresh who beat).2 := by
  cases h with
  | connect noRx client =>
    refine Or.inr ⟨.connect true, rfl, rfl, ?_⟩
    cases fresh <;> rfl
  | refused noRx => exact Or.inr ⟨.connect false, rfl, rfl, rfl⟩
  | send r =>
    refine Or.inr ⟨.send, rfl, rfl, ?_⟩
    cases hopen : w.connected <;> simp [Wire.view, View.perform, hopen]
  | take connected seconds owner m q => exact Or.inr ⟨.take, rfl, rfl, rfl⟩
  | timeout connected seconds => exact Or.inr ⟨.take, rfl, rfl, rfl⟩
  | disconnect => exact Or.inr ⟨.disconnect, rfl, rfl, rfl⟩
  | random x => exact Or.inl ⟨rfl, rfl⟩

theorem Run.acts_eq {progs progs' : Threads} {w w' : Wire} {acts : List Act}
    (h : Run fresh vpp progs w acts progs' w') :
    acts = replayActs fresh w.view (orderOf acts) := by
  induction h with
  | refl progs w => rfl
  | step who x hprog hcall hrest ih =>
    rcases hcall.perform with ⟨rfl, hview⟩ | ⟨beat, horder, hacts, hview⟩
    · rw [List.nil_append, ← hview]
      exact ih
    · rw [orderOf, List.map_append, ← orderOf, ← orderOf, horder, hacts, List.singleton_append,
        List.singleton_append, replayActs, ← hview, ← ih]

/-! ### The calls of one party -/

/-- How far a session has come. -/
inductive Phase where
  | idle
  | connected
  | sent
  | taken
  | closed

def phaseAllows : Phase → VppOp → Prop
  | .idle, .connect _ => True
  | .connected, .send _ => True
  | .sent, .svmQueueSub _ => True
  | .taken, .disconnect => True
  | _, .random => True
  | _, _ => False

def phaseConnected : Option UInt32 → Phase
  | none => .closed
  | some _ => .connected

def phaseAfter : Phase → Event VppOp.Answer → Phase
  | _, ⟨.connect _, client⟩ => phaseConnected client
  | _, ⟨.send _, _⟩ => .sent
  | _, ⟨.svmQueueSub _, _⟩ => .taken
  | _, ⟨.disconnect, _⟩ => .closed
  | phase, _ => phase

def exchange : Discipline VppOp.Answer Phase := ⟨phaseAllows, phaseAfter⟩

def Phase.remaining : Phase → List (List Beat)
  | idle => [[.connect false], [.connect true, .send, .take, .disconnect]]
  | connected => [[.send, .take, .disconnect]]
  | sent => [[.take, .disconnect]]
  | taken => [[.disconnect]]
  | closed => [[]]

theorem exchange_connect {α : Type} {noRx : Bool} {f : Option UInt32 → Session α}
    (hnone : exchange.Leads .closed .closed (f none))
    (hsome : ∀ client, exchange.Leads .connected .closed (f (some client))) :
    exchange.Leads .idle .closed (VppCli.connectToVpp noRx >>= f) := by
  refine ⟨trivial, fun client => ?_⟩
  cases client with
  | none => exact hnone
  | some client => exact hsome client

theorem oneExchange : OneExchange exchange .idle .connected .sent .taken .closed where
  connect := exchange_connect
  random := ⟨trivial, fun _ => rfl⟩
  send := fun _ => ⟨trivial, fun _ => rfl⟩
  take := fun _ => ⟨trivial, fun _ => rfl⟩
  disconnect := ⟨trivial, fun _ => rfl⟩

theorem HookCall.leads_session (c : HookCall) : exchange.Leads .idle .closed c.session := by
  cases c with
  | setLink v isUp => exact oneExchange.setLink v isUp
  | setAddr frame v addr len isAdd => exact oneExchange.setAddr frame v addr len isAdd
  | setRoute frame routeStr nhStr oif isNew =>
    exact oneExchange.setRoute frame routeStr nhStr oif isNew

theorem CliCall.leads_session (c : CliCall) : exchange.Leads .idle .closed c.session := by
  cases c with
  | setInterfaceState argv => exact oneExchange.setInterfaceState argv
  | setInterfaceAddress frame argv => exact oneExchange.setInterfaceAddress frame argv
  | ipAdddelRoute frame argv => exact oneExchange.ipAdddelRoute frame argv

theorem leads_threads (hook : HookCall) (cli : CliCall) (p : Party) :
    exchange.Leads .idle .closed (threads hook cli p) := by
  cases p with
  | hook => exact hook.leads_session
  | cli => exact cli.leads_session

def beatsOf (p : Party) (l : Order) : List Beat := (l.filter fun a => a.1 = p).map Prod.snd

theorem Call.remaining {who : Party} {w w' : Wire} {e : Event VppOp.Answer} {acts : List Act}
    (h : Call fresh vpp who w e acts w') {phase : Phase} (hallowed : phaseAllows phase e.1)
    {rest : List Beat} (hrest : rest ∈ (phaseAfter phase e).remaining) :
    (orderOf acts).map Prod.snd ++ rest ∈ phase.remaining := by
  cases h with
  | connect noRx client =>
    cases phase with
    | idle =>
      rw [List.mem_singleton.mp hrest]
      simp [orderOf, Phase.remaining]
    | _ => exact hallowed.elim
  | refused noRx =>
    cases phase with
    | idle =>
      rw [List.mem_singleton.mp hrest]
      simp [orderOf, Phase.remaining]
    | _ => exact hallowed.elim
  | send r =>
    cases phase with
    | connected =>
      rw [List.mem_singleton.mp hrest]
      simp [orderOf, Phase.remaining]
    | _ => exact hallowed.elim
  | take connected seconds owner m q =>
    cases phase with
    | sent =>
      rw [List.mem_singleton.mp hrest]
      simp [orderOf, Phase.remaining]
    | _ => exact hallowed.elim
  | timeout connected seconds =>
    cases phase with
    | sent =>
      rw [List.mem_singleton.mp hrest]
      simp [orderOf, Phase.remaining]
    | _ => exact hallowed.elim
  | disconnect =>
    cases phase with
    | taken =>
      rw [List.mem_singleton.mp hrest]
      simp [orderOf, Phase.remaining]
    | _ => exact hallowed.elim
  | random x => cases phase <;> exact hrest

theorem beatsOf_append (p : Party) (l l' : Order) :
    beatsOf p (l ++ l') = beatsOf p l ++ beatsOf p l' := by
  simp [beatsOf]

theorem Call.beatsOf_eq {who : Party} {w w' : Wire} {e : Event VppOp.Answer} {acts : List Act}
    (h : Call fresh vpp who w e acts w') (p : Party) :
    beatsOf p (orderOf acts) = if p = who then (orderOf acts).map Prod.snd else [] := by
  rcases h.perform with ⟨rfl, -⟩ | ⟨beat, horder, -⟩
  · split <;> rfl
  · rw [horder]
    by_cases hp : p = who
    · simp [beatsOf, hp]
    · simp [beatsOf, hp, Ne.symm hp]

theorem Run.beatsOf_mem {progs progs' : Threads} {w w' : Wire} {acts : List Act}
    (h : Run fresh vpp progs w acts progs' w') (hends : ∀ p, ∃ a, progs' p = .ret a)
    {phase : Party → Phase} (hleads : ∀ p, exchange.Leads (phase p) .closed (progs p)) (p : Party) :
    beatsOf p (orderOf acts) ∈ (phase p).remaining := by
  induction h generalizing phase with
  | refl progs w =>
    obtain ⟨a, ha⟩ := hends p
    have hclosed : phase p = .closed := by
      have hlead := hleads p
      rw [ha] at hlead
      exact hlead
    rw [hclosed]
    exact List.mem_singleton_self _
  | @step progs progs' w w' w'' acts acts' who i k x hprog hcall hrest ih =>
    have hwho := hleads who
    rw [hprog] at hwho
    obtain ⟨hallowed, hnext⟩ := hwho
    have hleads' : ∀ q, exchange.Leads
        (Function.update phase who (phaseAfter (phase who) ⟨i, x⟩) q) .closed
        (Function.update progs who (k x) q) := by
      intro q
      by_cases hq : q = who
      · subst hq
        rw [Function.update_self, Function.update_self]
        exact hnext x
      · rw [Function.update_of_ne hq, Function.update_of_ne hq]
        exact hleads q
    have hih := ih hends hleads'
    have happend : orderOf (acts ++ acts') = orderOf acts ++ orderOf acts' := List.map_append
    rw [happend, beatsOf_append, hcall.beatsOf_eq]
    by_cases hp : p = who
    · subst hp
      rw [Function.update_self] at hih
      rw [if_pos rfl]
      exact hcall.remaining hallowed hih
    · rw [Function.update_of_ne hp] at hih
      rw [if_neg hp, List.nil_append]
      exact hih

/-! ### All orders -/

def shuffles : ℕ → List Beat → List Beat → List Order
  | 0, _, _ => [[]]
  | n + 1, xs, ys =>
    (xs.head?.toList.flatMap fun x => (shuffles n xs.tail ys).map ((.hook, x) :: ·)) ++
      ys.head?.toList.flatMap fun y => (shuffles n xs ys.tail).map ((.cli, y) :: ·)

theorem mem_shuffles (l : Order) :
    l ∈ shuffles ((beatsOf .hook l).length + (beatsOf .cli l).length) (beatsOf .hook l)
      (beatsOf .cli l) := by
  induction l with
  | nil => exact List.mem_singleton_self _
  | cons a l ih =>
    obtain ⟨who, beat⟩ := a
    cases who with
    | hook =>
      have hhook : beatsOf .hook ((.hook, beat) :: l) = beat :: beatsOf .hook l := by simp [beatsOf]
      have hcli : beatsOf .cli ((.hook, beat) :: l) = beatsOf .cli l := by simp [beatsOf]
      rw [hhook, hcli, List.length_cons, Nat.add_right_comm, shuffles]
      exact List.mem_append_left _ (List.mem_flatMap.mpr ⟨beat, by simp, List.mem_map_of_mem ih⟩)
    | cli =>
      have hhook : beatsOf .hook ((.cli, beat) :: l) = beatsOf .hook l := by simp [beatsOf]
      have hcli : beatsOf .cli ((.cli, beat) :: l) = beat :: beatsOf .cli l := by simp [beatsOf]
      rw [hhook, hcli, List.length_cons, ← Nat.add_assoc, shuffles]
      exact List.mem_append_right _ (List.mem_flatMap.mpr ⟨beat, by simp, List.mem_map_of_mem ih⟩)

theorem sound_replayActs_iff : ∀ fresh : Bool, ∀ xs ∈ Phase.idle.remaining,
    ∀ ys ∈ Phase.idle.remaining, ∀ l ∈ shuffles (xs.length + ys.length) xs ys,
      (Sound (replayActs fresh ⟨false, []⟩ l) ↔ Compatible fresh l) := by
  decide +kernel

/-- In a complete run each request is sent on an open connection and each party reads its own
reply exactly if, where both were accepted, the sessions lie apart or keep in step. -/
theorem sharedRun_sound_iff (r : SharedRun) : Sound r.acts ↔ Compatible r.fresh r.order := by
  have hends : ∀ p, ∃ a, r.progs p = .ret a := by
    intro p
    cases p with
    | hook => exact ⟨_, r.hookEnds⟩
    | cli => exact ⟨_, r.cliEnds⟩
  have hbeats := r.run.beatsOf_mem hends (leads_threads r.hook r.cli)
  have hiff := sound_replayActs_iff r.fresh _ (hbeats .hook) _ (hbeats .cli) r.order
    (mem_shuffles r.order)
  rw [← hiff, SharedRun.order]
  exact Iff.of_eq (congrArg Sound r.run.acts_eq)

def refusingVpp : Party → CliRequest → Mem
  | .hook, _ => [0, 0, 0, 0, 0, 0, 0, 0, 0, 0]
  | .cli, _ => [0, 0, 0, 0, 0, 0, 255, 255, 255, 255]

def stateUp : List Text :=
  [['s', 'e', 't'], ['i', 'n', 't', 'e', 'r', 'f', 'a', 'c', 'e'], ['s', 't', 'a', 't', 'e'],
    ['i', 'd', 'x'], ['1'], ['u', 'p']]

def crossedActs : List Act :=
  [⟨.hook, .connect true, false, none⟩, ⟨.cli, .connect true, true, none⟩,
    ⟨.hook, .send, true, none⟩, ⟨.cli, .send, true, none⟩, ⟨.cli, .take, true, some .hook⟩,
    ⟨.hook, .take, true, some .cli⟩, ⟨.cli, .disconnect, true, none⟩,
    ⟨.hook, .disconnect, false, none⟩]

/-- The command reports success for a request that VPP has refused. -/
theorem sharedRun_crossed :
    ∃ r : SharedRun, r.acts = crossedActs ∧ r.cliResult = .success ∧
      (∀ request, isNegative (word (r.vpp .cli request)) = true) ∧ ¬ Sound r.acts := by
  have hrun : ∃ acts progs w, Run true refusingVpp
      (threads (.setLink 7 true) (.setInterfaceState stateUp)) .closed acts progs w ∧
        acts = crossedActs ∧ progs .hook = .ret () ∧ progs .cli = .ret CmdResult.success :=
    ⟨_, _, _, .step (i := .connect true) .hook (some (1 : UInt32)) rfl (.connect _ _ _) <|
      .step (i := .connect true) .cli (some (2 : UInt32)) rfl (.connect _ _ _) <|
      .step (i := .random) .hook (0 : ℕ) rfl (.random _ _) <|
      .step (i := .send (.api (setInterfaceFlag 1 0 7 true))) .hook () rfl (.send _ _) <|
      .step (i := .send (.api (setInterfaceFlag 2 2 1 true))) .cli () rfl (.send _ _) <|
      .step (i := .svmQueueSub 3) .cli (some (refusingVpp .hook (.api (setInterfaceFlag 1 0 7 true)))) rfl
        (.take _ _ _ _ _) <|
      .step (i := .svmQueueSub 1) .hook
        (some (refusingVpp .cli (.api (setInterfaceFlag 2 2 1 true)))) rfl (.take _ _ _ _ _) <|
      .step (i := .disconnect) .cli () rfl (.disconnect _) <|
      .step (i := .disconnect) .hook () rfl (.disconnect _) <| .refl _ _, rfl, rfl, rfl⟩
  have hrefused : isNegative (word [0, 0, 0, 0, 0, 0, 255, 255, 255, 255]) = true := by decide
  have hunsound : ¬ Sound crossedActs := by decide
  obtain ⟨acts, progs, w, hrun, rfl, hhook, hcli⟩ := hrun
  exact ⟨⟨true, refusingVpp, .setLink 7 true, .setInterfaceState stateUp, crossedActs, w, (),
    .success, progs, hrun, hhook, hcli⟩, rfl, rfl, fun _ => hrefused, hunsound⟩

end SharedConnection

end Routerd
