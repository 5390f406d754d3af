import Routerd.TaskQueues

/-!
# The scheduler of libvui

`thread.c` schedules tasks on descriptors, timers and events. The structures of the tasks are known
by their addresses; a structure that is given back is kept for the next task, ten of them at most.
A caller may give the address of a pointer to its task, which the scheduler sets and clears.
`thread_fetch` runs in two halves: up to the call of `poll`, during which the lock is free, and from
there on.
-/

namespace Routerd.Threads
open PQueue

/-! ### Data -/

inductive ThreadType where
  | read | write | timer | event | ready | unused | execute
  deriving DecidableEq

/-- The union of a task: the descriptor, the time at which it runs out, or a value. -/
inductive Payload where
  | fd (fd : ℕ)
  | sands (sands : Timeval)
  | val (val : ℤ)

/-- What a caller has scheduled: a function with its argument, and the address of the pointer to
be kept up to date. -/
structure Job (F A : Type) where
  addType : ThreadType
  func : F
  arg : Option A
  ref : Option ℕ
  u : Payload

/-- The structure of a task; one that is given back is zeroed. -/
structure Thread (F A : Type) where
  type : ThreadType
  job : Option (Job F A)

namespace Thread
variable {F A : Type}

def unused : Thread F A := ⟨.unused, none⟩

def fd (thread : Thread F A) : ℕ :=
  match thread.job with
  | some ⟨_, _, _, _, .fd fd⟩ => fd
  | _ => 0

def sands (thread : Thread F A) : Timeval :=
  match thread.job with
  | some ⟨_, _, _, _, .sands sands⟩ => sands
  | _ => ⟨0, 0⟩

def place (thread : Thread F A) : Option Place :=
  match thread.type with
  | .read => some (.read thread.fd)
  | .write => some (.write thread.fd)
  | .timer => some .timer
  | .event => some .event
  | .ready => some .ready
  | .unused | .execute => none

end Thread

/-- Reading or writing, as a type of task and as an event of a descriptor. -/
inductive Dir where
  | read | write
  deriving DecidableEq

def Dir.type : Dir → ThreadType
  | .read => .read
  | .write => .write

def Dir.place : Dir → ℕ → Place
  | .read => .read
  | .write => .write

structure Revents where
  pollin : Bool
  pollout : Bool
  pollhup : Bool
  pollerr : Bool
  pollnval : Bool
  deriving DecidableEq

def Revents.none : Revents := ⟨false, false, false, false, false⟩

/-- The events are `POLLIN` and `POLLOUT`. -/
structure Pollfd where
  fd : ℕ
  pollin : Bool
  pollout : Bool
  revents : Revents

namespace Pollfd

def zero : Pollfd := ⟨0, false, false, .none⟩

def wants (p : Pollfd) : Dir → Bool
  | .read => p.pollin
  | .write => p.pollout

/-- `events |= POLLIN` or `POLLOUT`. -/
def ask (p : Pollfd) : Dir → Pollfd
  | .read => { p with pollin := true }
  | .write => { p with pollout := true }

def drop (p : Pollfd) : Dir → Pollfd
  | .read => { p with pollin := false }
  | .write => { p with pollout := false }

def idle (p : Pollfd) : Bool := !p.pollin && !p.pollout

end Pollfd

/-- The entries behind the counts hold what was there last. -/
structure FdHandler where
  pfdsize : ℕ
  pfds : ℕ → Pollfd
  pfdcount : ℕ
  copy : ℕ → Pollfd
  copycount : ℕ

/-- `memmove` of the entries behind one over it. -/
def moveDown (pfds : ℕ → Pollfd) (count i : ℕ) : ℕ → Pollfd := fun j =>
  if i ≤ j ∧ j + 1 < count then pfds (j + 1) else pfds j

namespace FdHandler

def find (h : FdHandler) (fd : ℕ) : Option ℕ :=
  (List.range h.pfdcount).find? fun i => (h.pfds i).fd = fd

def removePfd (h : FdHandler) (i : ℕ) : FdHandler :=
  { h with pfds := moveDown h.pfds h.pfdcount i, pfdcount := h.pfdcount - 1 }

def removeCopy (h : FdHandler) (i : ℕ) : FdHandler :=
  { h with copy := moveDown h.copy h.copycount i, copycount := h.copycount - 1 }

def memcpy (h : FdHandler) : FdHandler :=
  { h with
    copy := fun i => if i < h.pfdcount then h.pfds i else h.copy i
    copycount := h.pfdcount }

def want (h : FdHandler) (queuepos fd : ℕ) (dir : Dir) : FdHandler :=
  { h with
    pfds := Function.update h.pfds queuepos (({ h.pfds queuepos with fd := fd } : Pollfd).ask dir)
    pfdcount := if queuepos = h.pfdcount then h.pfdcount + 1 else h.pfdcount }

def dropAt (h : FdHandler) (i : ℕ) (dir : Dir) : FdHandler :=
  { h with pfds := Function.update h.pfds i ((h.pfds i).drop dir) }

def dropCopyAt (h : FdHandler) (i : ℕ) (dir : Dir) : FdHandler :=
  { h with copy := Function.update h.copy i ((h.copy i).drop dir) }

/-- The entry of the copy, if the copy has one there. -/
def cancelCopyAt (h : FdHandler) (i : ℕ) (dir : Dir) : FdHandler :=
  if i < h.copycount then
    let h := h.dropCopyAt i dir
    if (h.copy i).idle then h.removeCopy i else h
  else h

/-- `thread_cancel_rw`, at the entry that was found. -/
def cancelAt (h : FdHandler) (i : ℕ) (dir : Dir) : FdHandler :=
  let h := h.dropAt i dir
  let h := if (h.pfds i).idle then h.removePfd i else h
  h.cancelCopyAt i dir

def threadCancelRw (h : FdHandler) (fd : ℕ) (dir : Dir) : FdHandler :=
  match h.find fd with
  | some i => h.cancelAt i dir
  | none => h

end FdHandler

/-- A request to cancel one task, the events of an object, or the task behind a pointer. -/
inductive CancelReq (A : Type) where
  | thread (id : ℕ)
  | eventobj (obj : A)
  | threadref (ref : ℕ)

/-- The state of a scheduler, with the structures by their addresses, the next address that was not
handed out yet, and the pointers of the callers. -/
structure ThreadMaster (F A : Type) extends Queues where
  threads : ℕ → Thread F A
  fresh : ℕ
  unuse : List ℕ
  alloc : ℕ
  totalActive : F → ℕ
  fdLimit : ℕ
  handler : FdHandler
  refs : ℕ → Option ℕ
  cancelReq : List (CancelReq A)

def THREAD_UNUSED_DEPTH : ℕ := 10

namespace ThreadMaster
variable {F A : Type} [DecidableEq F] [DecidableEq A]

def sands (m : ThreadMaster F A) (id : ℕ) : Timeval := (m.threads id).sands

def threadMasterCreate (fdLimit : ℕ) : ThreadMaster F A where
  read _ := none
  write _ := none
  timer := create (fun _ => 0) (fun _ => 0)
  event := []
  ready := []
  threads _ := .unused
  fresh := 0
  unuse := []
  alloc := 0
  totalActive _ := 0
  fdLimit := fdLimit
  handler := ⟨fdLimit, fun _ => .zero, 0, fun _ => .zero, 0⟩
  refs _ := none
  cancelReq := []

/-! ### Structures -/

/-- The field `index` of a structure, which is kept with the queue of timers. -/
def setIndex (m : ThreadMaster F A) (id : ℕ) (index : ℤ) : ThreadMaster F A :=
  { m with toQueues := m.toQueues.setPosition id index }

/-- The pointer of a caller, if it gave one. -/
def setRef (m : ThreadMaster F A) (ref : Option ℕ) (value : Option ℕ) : ThreadMaster F A :=
  match ref with
  | some ref => { m with refs := Function.update m.refs ref value }
  | none => m

/-- A structure that was given back, or a new one. -/
def threadAlloc (m : ThreadMaster F A) : ℕ × ThreadMaster F A :=
  match m.unuse with
  | id :: unuse => (id, { m with unuse := unuse })
  | [] => (m.fresh, { m with fresh := m.fresh + 1, alloc := m.alloc + 1 })

def fill (m : ThreadMaster F A) (id : ℕ) (type : ThreadType) (job : Job F A) : ThreadMaster F A :=
  { m.setIndex id (-1) with
    threads := Function.update m.threads id ⟨type, some job⟩
    totalActive := Function.update m.totalActive job.func (m.totalActive job.func + 1) }

def threadGet (m : ThreadMaster F A) (type : ThreadType) (job : Job F A) : ℕ × ThreadMaster F A :=
  (m.threadAlloc.1, m.threadAlloc.2.fill m.threadAlloc.1 type job)

def wipe (m : ThreadMaster F A) (id : ℕ) : ThreadMaster F A :=
  { m.setIndex id 0 with
    threads := Function.update m.threads id .unused
    totalActive :=
      match (m.threads id).job with
      | some job => Function.update m.totalActive job.func (m.totalActive job.func - 1)
      | none => m.totalActive }

def threadAddUnuse (m : ThreadMaster F A) (id : ℕ) : ThreadMaster F A :=
  if m.unuse.length < THREAD_UNUSED_DEPTH then
    { m.wipe id with unuse := m.unuse ++ [id] }
  else { m.wipe id with alloc := m.alloc - 1 }

/-- The type of a task that is ready is no longer that of its container. -/
def setReady (m : ThreadMaster F A) (id : ℕ) : ThreadMaster F A :=
  { m with threads := Function.update m.threads id { m.threads id with type := .ready } }

/-! ### Adding tasks -/

/-- The pointer of the caller says that its task is scheduled already. -/
def isScheduled (m : ThreadMaster F A) (ref : Option ℕ) : Bool :=
  ref.any fun ref => (m.refs ref).isSome

def setTable (m : ThreadMaster F A) (dir : Dir) (fd : ℕ) (value : Option ℕ) : ThreadMaster F A :=
  match dir with
  | .read => { m with read := Function.update m.read fd value }
  | .write => { m with write := Function.update m.write fd value }

/-- `None` is an assertion that fails. -/
def threadAddReadWrite (m : ThreadMaster F A) (dir : Dir) (func : F) (arg : Option A) (fd : ℕ)
    (ref : Option ℕ) : Option (ThreadMaster F A × Option ℕ) :=
  if fd < m.fdLimit then
    if m.isScheduled ref then some (m, none)
    else
      let queuepos := (m.handler.find fd).getD m.handler.pfdcount
      if queuepos + 1 < m.handler.pfdsize then
        let got := m.threadGet dir.type ⟨dir.type, func, arg, ref, .fd fd⟩
        let m := { got.2 with handler := got.2.handler.want queuepos fd dir }
        some ((m.setTable dir fd (some got.1)).setRef ref (some got.1), some got.1)
      else none
  else none

def threadAddTimerTimeval (m : ThreadMaster F A) (now timeRelative : Timeval) (func : F)
    (arg : Option A) (ref : Option ℕ) : ThreadMaster F A × Option ℕ :=
  if m.isScheduled ref then (m, none)
  else
    let got := m.threadGet .timer ⟨.timer, func, arg, ref, .sands (timeradd now timeRelative)⟩
    let m := { got.2 with timer := enqueue (timerCmp got.2.sands) got.1 got.2.timer }
    (m.setRef ref (some got.1), some got.1)

/-- A timer in seconds. -/
def threadAddTimer (m : ThreadMaster F A) (now : Timeval) (timer : ℤ) (func : F) (arg : Option A)
    (ref : Option ℕ) : ThreadMaster F A × Option ℕ :=
  m.threadAddTimerTimeval now ⟨timer, 0⟩ func arg ref

/-- A timer in milliseconds; the division of C rounds towards zero. -/
def threadAddTimerMsec (m : ThreadMaster F A) (now : Timeval) (timer : ℤ) (func : F)
    (arg : Option A) (ref : Option ℕ) : ThreadMaster F A × Option ℕ :=
  m.threadAddTimerTimeval now ⟨timer.tdiv 1000, 1000 * timer.tmod 1000⟩ func arg ref

def threadAddEvent (m : ThreadMaster F A) (func : F) (arg : Option A) (val : ℤ) (ref : Option ℕ) :
    ThreadMaster F A × Option ℕ :=
  if m.isScheduled ref then (m, none)
  else
    let got := m.threadGet .event ⟨.event, func, arg, ref, .val val⟩
    let m := { got.2 with event := got.2.event ++ [got.1] }
    (m.setRef ref (some got.1), some got.1)

/-! ### Cancelling tasks -/

/-- A task that was taken out of its container is given back. -/
def release (m : ThreadMaster F A) (id : ℕ) : ThreadMaster F A :=
  (m.setRef ((m.threads id).job.bind Job.ref) none).threadAddUnuse id

inductive ListName where
  | event | ready
  deriving DecidableEq

def ListName.place : ListName → Place
  | .event => .event
  | .ready => .ready

def list (m : ThreadMaster F A) : ListName → List ℕ
  | .event => m.event
  | .ready => m.ready

/-- `thread_list_del`, which does nothing if the task is not in the list. -/
def threadListDel (m : ThreadMaster F A) (id : ℕ) : ListName → ThreadMaster F A
  | .event => { m with event := m.event.erase id }
  | .ready => { m with ready := m.ready.erase id }

/-- The loop over a list that drops the tasks with the argument. -/
def cancelListed (name : ListName) (obj : A) : List ℕ → ThreadMaster F A → ThreadMaster F A
  | [], m => m
  | t :: ts, m =>
    if (m.threads t).job.bind Job.arg = some obj then
      cancelListed name obj ts ((m.threadListDel t name).release t)
    else cancelListed name obj ts m

def cancelEventobj (m : ThreadMaster F A) (obj : A) : ThreadMaster F A :=
  let m := cancelListed .event obj m.event m
  cancelListed .ready obj m.ready m

/-- The locals of `do_thread_cancel` that say where the task lies. They are set when a request is
read and not cleared before the next one. -/
structure CancelFrame where
  queue : Bool
  list : Option ListName
  array : Option Dir

def CancelFrame.start : CancelFrame := ⟨false, none, none⟩

/-- What the `switch` over the type sets; the other types are passed over. -/
def CancelFrame.set (frame : CancelFrame) : ThreadType → Option CancelFrame
  | .read => some { frame with array := some .read }
  | .write => some { frame with array := some .write }
  | .timer => some { frame with queue := true }
  | .event => some { frame with list := some .event }
  | .ready => some { frame with list := some .ready }
  | .unused | .execute => none

/-- The events of the descriptor of the task are given up. -/
def cancelRw (m : ThreadMaster F A) (id : ℕ) : ThreadMaster F A :=
  match (m.threads id).type with
  | .read => { m with handler := m.handler.threadCancelRw (m.threads id).fd .read }
  | .write => { m with handler := m.handler.threadCancelRw (m.threads id).fd .write }
  | _ => m

/-- The task is taken out of the container that the locals name. -/
def unlink (m : ThreadMaster F A) (frame : CancelFrame) (id : ℕ) : Option (ThreadMaster F A) :=
  if frame.queue then
    if 0 ≤ m.timer.position id ∧ m.timer.array (m.timer.position id).toNat = id then
      some { m with timer := removeAt (timerCmp m.sands) (m.timer.position id).toNat m.timer }
    else none
  else
    match frame.list with
    | some name => some (m.threadListDel id name)
    | none =>
      match frame.array with
      | some dir => some (m.setTable dir (m.threads id).fd none)
      | none => none

/-- The task that a request is about, if there is one. -/
def target (m : ThreadMaster F A) : CancelReq A → Option ℕ
  | .thread id => some id
  | .threadref ref => m.refs ref
  | .eventobj _ => none

/-- The part of a round that is about one task. -/
def cancelTask (m : ThreadMaster F A) (frame : CancelFrame) (id : ℕ) :
    Option (ThreadMaster F A × CancelFrame) :=
  match frame.set (m.threads id).type with
  | none => some (m, frame)
  | some frame => do
    let m ← (m.cancelRw id).unlink frame id
    some (m.release id, frame)

/-- One round of the loop of `do_thread_cancel`. -/
def cancelStep (m : ThreadMaster F A) (frame : CancelFrame) (req : CancelReq A) :
    Option (ThreadMaster F A × CancelFrame) :=
  match req with
  | .eventobj obj => some (m.cancelEventobj obj, frame)
  | req =>
    match m.target req with
    | none => some (m, frame)
    | some id => m.cancelTask frame id

def cancelLoop : List (CancelReq A) → CancelFrame → ThreadMaster F A → Option (ThreadMaster F A)
  | [], _, m => some m
  | req :: reqs, frame, m => do
    let next ← m.cancelStep frame req
    cancelLoop reqs next.2 next.1

def doThreadCancel (m : ThreadMaster F A) : Option (ThreadMaster F A) := do
  let m ← cancelLoop m.cancelReq .start m
  some { m with cancelReq := [] }

/-- The request that `thread_cancel`, `thread_cancel_event` and `thread_cancel_async` add. -/
def post (m : ThreadMaster F A) (req : CancelReq A) : ThreadMaster F A :=
  { m with cancelReq := m.cancelReq ++ [req] }

def threadCancel (m : ThreadMaster F A) (id : ℕ) : Option (ThreadMaster F A) :=
  (m.post (.thread id)).doThreadCancel

def threadCancelEvent (m : ThreadMaster F A) (arg : A) : Option (ThreadMaster F A) :=
  (m.post (.eventobj arg)).doThreadCancel

/-! ### Fetching tasks -/

/-- `thread_process` on the list of events. -/
def threadProcess : List ℕ → ThreadMaster F A → ThreadMaster F A
  | [], m => m
  | id :: event, m =>
    threadProcess event { m.setReady id with event := event, ready := m.ready ++ [id] }

/-- `thread_process_timers`, with no more rounds than there are timers. -/
def threadProcessTimers (now : Timeval) : ℕ → ThreadMaster F A → ThreadMaster F A
  | 0, m => m
  | rounds + 1, m =>
    if m.timer.size = 0 then m
    else
      let id := m.timer.array 0
      if timerLt now (m.sands id) then m
      else
        let timer := (dequeue (timerCmp m.sands) m.timer).2
        threadProcessTimers now rounds
          { m.setReady id with timer := timer, ready := m.ready ++ [id] }

/-- What a descriptor in the given state does to the task on it. -/
def threadProcessIoHelper (m : ThreadMaster F A) (thread : Option ℕ) (state : Dir) (pos : ℕ) :
    ThreadMaster F A :=
  let m := { m with handler := m.handler.dropAt pos state }
  match thread with
  | none => m
  | some id =>
    let dir := if (m.threads id).type = .read then Dir.read else .write
    let m := m.setTable dir (m.threads id).fd none
    { m.setReady id with ready := m.ready ++ [id] }

/-- An entry that is no descriptor is dropped from both arrays. -/
def dropInvalid (m : ThreadMaster F A) (i : ℕ) : ThreadMaster F A :=
  { m with handler := (m.handler.removePfd i).removeCopy i }

/-- What is done for one entry with events, up to the check for `POLLNVAL`. -/
def processEntry (m : ThreadMaster F A) (i : ℕ) : ThreadMaster F A :=
  let p := m.handler.copy i
  let m := if p.revents.pollin || p.revents.pollhup then
    m.threadProcessIoHelper (m.read p.fd) .read i else m
  if p.revents.pollout then m.threadProcessIoHelper (m.write p.fd) .write i else m

/-- The loop of `thread_process_io`; every round gets nearer to the end of the copy. -/
def processIoLoop (num : ℕ) : ℕ → ℕ → ℕ → ThreadMaster F A → ThreadMaster F A
  | 0, _, _, m => m
  | rounds + 1, i, ready, m =>
    if i < m.handler.copycount ∧ ready < num then
      if (m.handler.copy i).revents = .none then processIoLoop num rounds (i + 1) ready m
      else
        let invalid := (m.handler.copy i).revents.pollnval
        let m := m.processEntry i
        if invalid then processIoLoop num rounds i (ready + 1) (m.dropInvalid i)
        else processIoLoop num rounds (i + 1) (ready + 1) m
    else m

def threadProcessIo (m : ThreadMaster F A) (num : ℕ) : ThreadMaster F A :=
  processIoLoop num m.handler.copycount 0 0 m

/-- How the first half of a round of `thread_fetch` ends: with a copy of the task to be run, with
nothing left to wait for, or in `poll`. -/
inductive Fetched (F A : Type) where
  | run (fetch : Thread F A) (m : ThreadMaster F A)
  | die (m : ThreadMaster F A)
  | poll (m : ThreadMaster F A)

def threadRun (m : ThreadMaster F A) (id : ℕ) : ThreadMaster F A :=
  (m.threadAddUnuse id).setRef ((m.threads id).job.bind Job.ref) none

/-- What is left until the first timer runs out. -/
def threadTimerWait (m : ThreadMaster F A) (now : Timeval) : Option Timeval :=
  if m.timer.size = 0 then none else some (timersub (m.sands (m.timer.array 0)) now)

def zerotime : Timeval := ⟨0, 0⟩

/-- How long `thread_fetch` lets `poll` wait, once the events are posted. -/
def pollWait (m : ThreadMaster F A) (now : Timeval) : Option Timeval :=
  if m.ready = [] then
    (m.threadTimerWait now).map fun tw => if timerLt zerotime tw then tw else zerotime
  else some zerotime

/-- The timeout that `fd_poll` hands to `poll`, an `int` of milliseconds. -/
def fdPollTimeout (selectpollTimeout : ℤ) : Option Timeval → ℤ
  | some timerWait =>
    if selectpollTimeout = 0 then
      (timerWait.sec * 1000 + timerWait.usec / 1000).bmod (2 ^ 32)
    else if 0 < selectpollTimeout then selectpollTimeout else 0
  | none => if 0 < selectpollTimeout then selectpollTimeout
    else if selectpollTimeout < 0 then 0 else -1

/-- `thread_fetch` up to the call of `poll`, for which `fd_poll` adds the pipe behind the copy. -/
def threadFetch (m : ThreadMaster F A) : Option (Fetched F A) := do
  let m ← m.doThreadCancel
  match m.ready with
  | id :: ready => some (.run (m.threads id) ({ m with ready := ready }.threadRun id))
  | [] =>
    let m := threadProcess m.event m
    if m.ready = [] ∧ m.timer.size = 0 ∧ m.handler.pfdcount = 0 then some (.die m)
    else if m.handler.pfdcount + 1 < m.handler.pfdsize then
      some (.poll { m with handler := m.handler.memcpy })
    else none

/-- The results that `poll` stores in the copy. -/
def setRevents (m : ThreadMaster F A) (revents : ℕ → Revents) : ThreadMaster F A :=
  { m with handler := { m.handler with
    copy := fun i => { m.handler.copy i with revents := revents i } } }

/-- `thread_fetch` from the return of `poll` to the end of the round. -/
def threadFetchPolled (m : ThreadMaster F A) (now : Timeval) (num : ℕ) (revents : ℕ → Revents) :
    ThreadMaster F A :=
  let m := m.setRevents revents
  let m := threadProcessTimers now m.timer.size m
  if 0 < num then m.threadProcessIo num else m

end ThreadMaster
end Routerd.Threads
