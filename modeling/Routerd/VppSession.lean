import Routerd.VppApi

/-!
# The daemon's state and its sessions with VPP

Everything the daemon does not decide itself is a field of `Env`, indexed by the
number of API steps made so far: whether VPP accepts a connection, the index it
assigns, its replies, the random message ids, and what the locals of the hooks
hold before they are assigned. `trace` is the record of API calls; `calls` is the
record of entries into the three setters and is read by no code.
-/

namespace Routerd
open ByteMemory NumeralText InetText

structure RouterdInterface where
  kernIfindex : UInt32
  vppIfindex : UInt32
  kernIfname : Text
  vppIfname : Text
  deriving DecidableEq

def ifindexKernel2vpp (interfaces : List RouterdInterface) (kIdx : UInt32) : UInt32 :=
  match interfaces with
  | [] => 0
  | iface :: rest =>
    if kIdx = iface.kernIfindex then iface.vppIfindex else ifindexKernel2vpp rest kIdx

def Paired (interfaces : List RouterdInterface) (k : UInt32) : Prop :=
  ∃ iface ∈ interfaces, iface.kernIfindex = k

/-- A one-to-one pair table that keeps clear of the index 0. -/
structure InjectivePairs (interfaces : List RouterdInterface) : Prop where
  nonzero : ∀ i ∈ interfaces, i.vppIfindex ≠ 0
  injective : ∀ i ∈ interfaces, ∀ j ∈ interfaces,
    i.vppIfindex = j.vppIfindex → i.kernIfindex = j.kernIfindex

theorem ifindexKernel2vpp_of_not_paired {interfaces : List RouterdInterface} {k : UInt32}
    (h : ¬ Paired interfaces k) : ifindexKernel2vpp interfaces k = 0 := by
  induction interfaces with
  | nil => rfl
  | cons iface rest ih =>
    have hne : k ≠ iface.kernIfindex := fun hk => h ⟨iface, by simp, hk.symm⟩
    rw [ifindexKernel2vpp, if_neg hne]
    exact ih fun ⟨i, hi, hk⟩ => h ⟨i, List.mem_cons_of_mem _ hi, hk⟩

theorem ifindexKernel2vpp_of_paired {interfaces : List RouterdInterface} {k : UInt32}
    (h : Paired interfaces k) :
    ∃ i ∈ interfaces, i.kernIfindex = k ∧ ifindexKernel2vpp interfaces k = i.vppIfindex := by
  induction interfaces with
  | nil => simp [Paired] at h
  | cons iface rest ih =>
    by_cases hk : k = iface.kernIfindex
    · exact ⟨iface, by simp, hk.symm, by rw [ifindexKernel2vpp, if_pos hk]⟩
    · obtain ⟨i, hi, hik⟩ := h
      rcases List.mem_cons.mp hi with rfl | hi
      · exact absurd hik.symm hk
      · obtain ⟨j, hj, hjk, hv⟩ := ih ⟨i, hi, hik⟩
        exact ⟨j, List.mem_cons_of_mem _ hj, hjk, by rw [ifindexKernel2vpp, if_neg hk, hv]⟩

theorem InjectivePairs.ne_zero {interfaces : List RouterdInterface}
    (h : InjectivePairs interfaces) {k : UInt32} (hk : Paired interfaces k) :
    ifindexKernel2vpp interfaces k ≠ 0 := by
  obtain ⟨i, hi, -, hv⟩ := ifindexKernel2vpp_of_paired hk
  rw [hv]
  exact h.nonzero i hi

theorem InjectivePairs.ne_zero_iff {interfaces : List RouterdInterface}
    (h : InjectivePairs interfaces) (k : UInt32) :
    ifindexKernel2vpp interfaces k ≠ 0 ↔ Paired interfaces k := by
  constructor
  · intro hv
    by_contra hk
    exact hv (ifindexKernel2vpp_of_not_paired hk)
  · exact h.ne_zero

theorem InjectivePairs.eq_of_eq {interfaces : List RouterdInterface}
    (h : InjectivePairs interfaces) {k k' : UInt32} (hk : Paired interfaces k)
    (hv : ifindexKernel2vpp interfaces k = ifindexKernel2vpp interfaces k') : k = k' := by
  have hk' : Paired interfaces k' := by
    rw [← h.ne_zero_iff, ← hv]
    exact h.ne_zero hk
  obtain ⟨i, hi, rfl, hvi⟩ := ifindexKernel2vpp_of_paired hk
  obtain ⟨j, hj, rfl, hvj⟩ := ifindexKernel2vpp_of_paired hk'
  exact h.injective i hi j hj (by rw [← hvi, ← hvj, hv])

def pairFiveSeven : List RouterdInterface := [⟨5, 7, ['e', 't', 'h', '0'], ['v', '0']⟩]

theorem pairFiveSeven_injective : InjectivePairs pairFiveSeven :=
  ⟨by simp [pairFiveSeven], by simp [pairFiveSeven]⟩

inductive ApiStep where
  | connect (ok : Bool)
  | send (r : Request)
  | waitmsg (retval : UInt32)
  | disconnect
  deriving DecidableEq

def ApiStep.request? : ApiStep → Option Request
  | .send r => some r
  | _ => none

inductive SetCall where
  | setLink (vppIfindex : UInt32) (isUp : Bool)
  | setAddr (vppIfindex : UInt32) (addr : InAddr) (addrLen : UInt8) (isAdd : Bool)
  | setRoute (routeStr nhStr : Text) (vppOif : UInt32) (isNew : Bool)
  deriving DecidableEq

/-- The locals of the hooks before they are assigned, and the stack above the
parameter `addr` of `set_addr`. -/
structure Frame where
  routePref : Prefix
  nexthopPref : Prefix
  sub : RtaTable
  sidAddr : In6Addr
  nh4Addr : InAddr
  aboveAddr : ℕ → UInt8

structure Env where
  names : IfNames
  connects : ℕ → Bool
  clientIndex : ℕ → UInt32
  random : ℕ → ℕ
  reply : ℕ → Option UInt32
  frame : ℕ → Frame

def plainEnv (names : IfNames) : Env where
  names := names
  connects := fun _ => true
  clientIndex := fun _ => 0
  random := fun _ => 0
  reply := fun _ => some 0
  frame := fun _ => ⟨⟨0, 0, fun _ => 0⟩, ⟨0, 0, fun _ => 0⟩, nullTable, fun _ => 0, fun _ => 0,
    fun _ => 0⟩

structure AddDelCount where
  newCnt : ℕ
  delCnt : ℕ
  deriving DecidableEq

def AddDelCount.bump (c : AddDelCount) (isNew : Bool) : AddDelCount :=
  if isNew then { c with newCnt := c.newCnt + 1 } else { c with delCnt := c.delCnt + 1 }

structure NetlinkCounter where
  link : AddDelCount
  addr : AddDelCount
  route : AddDelCount
  neigh : AddDelCount
  deriving DecidableEq

structure Daemon where
  interfaces : List RouterdInterface
  links : List Mem
  counter : NetlinkCounter
  myClientIndex : UInt32
  trace : List ApiStep
  calls : List SetCall
  deriving DecidableEq

def Daemon.requests (d : Daemon) : List Request := d.trace.filterMap ApiStep.request?

def Daemon.log (d : Daemon) (step : ApiStep) : Daemon := { d with trace := d.trace ++ [step] }

def Daemon.start (interfaces : List RouterdInterface) (links : List Mem) : Daemon where
  interfaces := interfaces
  links := links
  counter := ⟨⟨0, 0⟩, ⟨0, 0⟩, ⟨0, 0⟩, ⟨0, 0⟩⟩
  myClientIndex := 0
  trace := []
  calls := []

def connectToVpp (env : Env) (d : Daemon) : Bool × Daemon :=
  let now := d.trace.length
  if env.connects now then
    (true, { d.log (.connect true) with myClientIndex := env.clientIndex now })
  else (false, d.log (.connect false))

def vppWaitmsgRetval (env : Env) (d : Daemon) : Daemon :=
  d.log (.waitmsg (((env.reply d.trace.length).map swap32).getD 0xffffffff))

def disconnectFromVpp (d : Daemon) : Daemon := d.log .disconnect

/-- One exchange with VPP, the common body of the setters: a failed connection
ends it, otherwise one request is sent, its reply awaited and the session closed. -/
def transact (env : Env) (d : Daemon) (build : Daemon → Except Fault Request) :
    Except Fault Daemon :=
  match connectToVpp env d with
  | (false, d) => .ok d
  | (true, d) => do
    let r ← build d
    pure (disconnectFromVpp (vppWaitmsgRetval env (d.log (.send r))))

/-- From `d` to `d'` the setters were entered as in `cs` and the requests `rs`
were sent; the pair table and the link cache did not change. -/
structure Emits (d d' : Daemon) (cs : List SetCall) (rs : List Request) : Prop where
  interfaces : d'.interfaces = d.interfaces
  links : d'.links = d.links
  calls : d'.calls = d.calls ++ cs
  requests : d'.requests = d.requests ++ rs

theorem Emits.refl (d : Daemon) : Emits d d [] [] := ⟨rfl, rfl, by simp, by simp⟩

theorem Emits.trans {d d' d'' : Daemon} {cs cs' : List SetCall} {rs rs' : List Request}
    (h : Emits d d' cs rs) (h' : Emits d' d'' cs' rs') : Emits d d'' (cs ++ cs') (rs ++ rs') where
  interfaces := h'.interfaces.trans h.interfaces
  links := h'.links.trans h.links
  calls := by rw [h'.calls, h.calls, List.append_assoc]
  requests := by rw [h'.requests, h.requests, List.append_assoc]

@[simp] theorem requests_log (d : Daemon) (step : ApiStep) :
    (d.log step).requests = d.requests ++ [step].filterMap ApiStep.request? := by
  simp [Daemon.requests, Daemon.log, List.filterMap_append]

theorem Emits.log (d : Daemon) (step : ApiStep) :
    Emits d (d.log step) [] ([step].filterMap ApiStep.request?) :=
  ⟨rfl, rfl, by simp [Daemon.log], requests_log d step⟩

theorem Emits.counter (d : Daemon) (c : NetlinkCounter) : Emits d { d with counter := c } [] [] :=
  ⟨rfl, rfl, (List.append_nil _).symm, (List.append_nil _).symm⟩

private theorem connectToVpp_emits (env : Env) (d : Daemon) :
    (connectToVpp env d).1 = env.connects d.trace.length ∧
      Emits d (connectToVpp env d).2 [] [] := by
  unfold connectToVpp
  by_cases hc : env.connects d.trace.length = true
  · simp only [hc, if_true]
    exact ⟨trivial, rfl, rfl, by simp [Daemon.log], requests_log d _⟩
  · simp only [Bool.not_eq_true] at hc
    simp only [hc, Bool.false_eq_true, if_false]
    exact ⟨trivial, Emits.log d _⟩

theorem transact_of_refused {env : Env} {d : Daemon}
    (hc : env.connects d.trace.length = false) (build : Daemon → Except Fault Request) :
    ∃ d', transact env d build = .ok d' ∧ Emits d d' [] [] := by
  obtain ⟨hfst, hemits⟩ := connectToVpp_emits env d
  rcases hconn : connectToVpp env d with ⟨ok, d₁⟩
  rw [hconn] at hfst hemits
  obtain rfl : ok = false := hfst.trans hc
  exact ⟨d₁, by simp [transact, hconn], hemits⟩

theorem transact_of_connects {env : Env} {d : Daemon} (hc : env.connects d.trace.length = true)
    {build : Daemon → Except Fault Request} {r : Request}
    (hb : build (connectToVpp env d).2 = .ok r) :
    ∃ d', transact env d build = .ok d' ∧ Emits d d' [] [r] := by
  obtain ⟨hfst, hemits⟩ := connectToVpp_emits env d
  rcases hconn : connectToVpp env d with ⟨ok, d₁⟩
  rw [hconn] at hfst hemits hb
  obtain rfl : ok = true := hfst.trans hc
  have hsend : Emits d (d₁.log (.send r)) [] [r] := hemits.trans (Emits.log d₁ (.send r))
  have hwait : Emits d (vppWaitmsgRetval env (d₁.log (.send r))) [] [r] :=
    hsend.trans (Emits.log _ _)
  refine ⟨disconnectFromVpp (vppWaitmsgRetval env (d₁.log (.send r))), ?_,
    hwait.trans (Emits.log _ _)⟩
  simp only [transact, hconn, hb]
  rfl

end Routerd
