import Routerd.SlotTable
import Routerd.NumeralText
import Routerd.RtattrTable

/-!
# The `tap_mirror` plugin

A mirrored node of VPP's graph has its function replaced by `tap_mirror_input_fn`,
which queues a clone of every packet for the redirector process and then calls the
function it replaced. What the plugin remembers of a node is a context in one of nine
slots; contexts and taps are looked up by comparing names over the length of the name
asked for. Clones are always available, as the source asserts.
-/

namespace Routerd
open NumeralText

/-- Nine slots, from `vec_validate (contexts, 8)`. -/
abbrev ContextSlot := Fin 9

inductive NodeFn where
  | tapMirrorInputFn
  | other (address : ℕ)
  deriving DecidableEq

/-- An entry of the parallel vectors `tap_fds` and `tap_names`. -/
structure MirrorTap where
  fd : ℤ
  name : Option Text
  deriving DecidableEq

/-- `targetRt` is the runtime of the node of that name. `serial` tells allocations
apart; no code reads it. -/
structure MirrorContext where
  targetNodeName : Text
  taps : List MirrorTap
  targetFn : NodeFn
  targetRt : Text
  requestToFree : Bool
  serial : ℕ
  deriving DecidableEq

/-- `function` is the function of each node's runtime, for the names that are nodes. -/
structure TapMirror where
  flags : UInt32
  contexts : ContextSlot → Option MirrorContext
  function : Text → Option NodeFn
  openFds : List ℕ
  allocated : ℕ

/-- The functions VPP's nodes have before the plugin runs. -/
structure NodeGraph where
  function : Text → Option NodeFn
  unhooked : ∀ n, function n ≠ some .tapMirrorInputFn

def tapMirrorInit (graph : NodeGraph) (openFds : List ℕ) : TapMirror where
  flags := 0
  contexts _ := none
  function := graph.function
  openFds := openFds
  allocated := 0

/-- Names are kept in vectors without a final zero, and a comparison with a longer name
reads on behind the vector. Whether it finds the rest of that name there is up to the
memory. -/
structure Behind where
  node : ContextSlot → Text → Bool
  tap : ContextSlot → ℕ → Text → Bool

/-- `memcmp (stored, query, strlen (query)) == 0`; `strncmp` agrees. -/
def nameMatches (behind : Text → Bool) (stored query : Text) : Bool :=
  query.isPrefixOf stored || (stored.isPrefixOf query && behind (query.drop stored.length))

/-! ### Taps -/

/-- The results of `open ("/dev/net/tun")` and `TUNSETIFF`. -/
structure TunKernel where
  openTun : List ℕ → Option ℕ
  tunSetIff : Bool
  fresh : ∀ fds fd, openTun fds = some fd → fd ∉ fds

def closeFd (fds : List ℕ) (fd : ℤ) : List ℕ := fds.filter fun g => (g : ℤ) ≠ fd

/-- The test of the loops over the taps; entries without an open descriptor are skipped. -/
def tapHit (b : Behind) (i : ContextSlot) (name : Text) (j : ℕ) (e : MirrorTap) : Bool :=
  decide (0 < e.fd) && e.name.any fun n => nameMatches (b.tap i j) n name

def findTap (b : Behind) (contexts : ContextSlot → Option MirrorContext) (name : Text) :
    Option MirrorTap :=
  (List.finRange 9).findSome? fun i =>
    (contexts i).bind fun ctx =>
      (ctx.taps.zipIdx.find? fun e => tapHit b i name e.2 e.1).map Prod.fst

def getTapfd (b : Behind) (contexts : ContextSlot → Option MirrorContext) (name : Text) : ℤ :=
  match findTap b contexts name with
  | some e => e.fd
  | none => -1

/-- The descriptors open afterwards, and the result. -/
def getOrOpenTapfd (b : Behind) (kernel : TunKernel) (v : TapMirror) (name : Text) :
    List ℕ × ℤ :=
  match findTap b v.contexts name with
  | some e => (v.openFds, e.fd)
  | none =>
    match kernel.openTun v.openFds with
    | none => (v.openFds, -1)
    | some fd =>
      if kernel.tunSetIff then (fd :: v.openFds, fd)
      else (closeFd (fd :: v.openFds) fd, -2)

def MirrorContext.addTap (ctx : MirrorContext) (tapFd : ℤ) (tapName : Text) : MirrorContext :=
  { ctx with taps := ctx.taps ++ [⟨tapFd, some tapName⟩] }

/-- A descriptor that could not be had is entered all the same. -/
def tapMirrorContextAddNewTap (b : Behind) (kernel : TunKernel) (v : TapMirror)
    (i : ContextSlot) (ctx : MirrorContext) (tapName : Text) : TapMirror :=
  let tapFd := getOrOpenTapfd b kernel v tapName
  { v with
    contexts := Function.update v.contexts i (some (ctx.addTap tapFd.2 tapName))
    openFds := tapFd.1 }

/-! ### Contexts -/

/-- The loop that searches a context, which the source has three times. -/
def searchContexts (b : Behind) (v : TapMirror) (name : Text) :
    Option (ContextSlot × MirrorContext) :=
  SlotTable.first (fun i ctx => nameMatches (b.node i) ctx.targetNodeName name) v.contexts

def getTapMirrorContext (b : Behind) (v : TapMirror) (nodeName : Text) :
    Option (ContextSlot × MirrorContext) :=
  searchContexts b v nodeName

/-- `none` stands for `-1`. -/
def getEventType (b : Behind) (v : TapMirror) (name : Text) : Option ContextSlot :=
  (searchContexts b v name).map Prod.fst

def newContext (v : TapMirror) (nodeName : Text) (fn : NodeFn) : MirrorContext where
  targetNodeName := nodeName
  taps := List.replicate 9 ⟨0, none⟩
  targetFn := fn
  targetRt := nodeName
  requestToFree := false
  serial := v.allocated

def getOrNewTapMirrorContext (b : Behind) (v : TapMirror) (nodeName : Text) :
    TapMirror × Option (ContextSlot × MirrorContext) :=
  match searchContexts b v nodeName with
  | some found => (v, some found)
  | none =>
    match SlotTable.firstFree v.contexts with
    | none => (v, none)
    | some i =>
      match v.function nodeName with
      | none => (v, none)
      | some fn =>
        let ctx := newContext v nodeName fn
        ({ v with
            contexts := Function.update v.contexts i (some ctx)
            function := Function.update v.function nodeName (some .tapMirrorInputFn)
            allocated := v.allocated + 1 }, some (i, ctx))

/-! ### The commands -/

def TAP_MIRROR_F_ENABLED : UInt32 := 1

def enableTapMirror (b : Behind) (kernel : TunKernel) (v : TapMirror) (nodeName tapName : Text) :
    TapMirror × ℤ :=
  let v := { v with flags := v.flags ||| TAP_MIRROR_F_ENABLED }
  match getOrNewTapMirrorContext b v nodeName with
  | (v, none) => (v, -1)
  | (v, some (i, ctx)) => (tapMirrorContextAddNewTap b kernel v i ctx tapName, 0)

def deleteTaps (hit : ℕ → MirrorTap → Bool) (taps : List MirrorTap) : List MirrorTap :=
  taps.mapIdx fun j e => if hit j e then ⟨-1, none⟩ else e

/-- `tap_fd` after the loop that deletes: the last descriptor deleted, 0 if there is none. -/
def deletedFd (hit : ℕ → MirrorTap → Bool) (taps : List MirrorTap) : ℤ :=
  taps.zipIdx.foldl (fun fd e => if hit e.2 e.1 then e.1.fd else fd) 0

def disableTapMirror (b : Behind) (v : TapMirror) (nodeName tapName : Text) : TapMirror :=
  match getTapMirrorContext b v nodeName with
  | none => v
  | some (i, ctx) =>
    let tapFd := deletedFd (tapHit b i tapName) ctx.taps
    let taps := deleteTaps (tapHit b i tapName) ctx.taps
    let marked := ctx.requestToFree || taps.all fun e => decide (e.fd ≤ 0)
    let contexts := Function.update v.contexts i
      (some { ctx with taps := taps, requestToFree := marked })
    { v with
      contexts := contexts
      openFds := if getTapfd b contexts tapName < 0 then closeFd v.openFds tapFd else v.openFds }

/-! ### Frames -/

/-- An event for the redirector, with the allocation of the context that signalled it. -/
structure MirrorEvent where
  slot : ContextSlot
  buffer : ℕ
  serial : ℕ
  deriving DecidableEq

/-- The node functions a frame is passed to and the events signalled for its packets. -/
structure FrameTrace where
  passedTo : List NodeFn
  signalled : List MirrorEvent
  deriving DecidableEq

def tapMirrorInputFn (b : Behind) (v : TapMirror) (node : Text) (pkts : List ℕ) :
    Except Fault (TapMirror × FrameTrace) :=
  match getEventType b v node with
  | none => .error .segv
  | some eventType =>
    match v.contexts eventType with
    | none => .error .segv
    | some ctx =>
      if ctx.requestToFree then
        .ok ({ v with
          function := Function.update v.function ctx.targetRt (some ctx.targetFn)
          contexts := Function.update v.contexts eventType none }, ⟨[ctx.targetFn], []⟩)
      else
        .ok (v, ⟨[ctx.targetFn], pkts.map fun p => ⟨eventType, p, ctx.serial⟩⟩)

/-- A frame that VPP dispatches to a node. -/
def dispatchFrame (b : Behind) (v : TapMirror) (node : Text) (pkts : List ℕ) :
    Except Fault (TapMirror × FrameTrace) :=
  match v.function node with
  | some .tapMirrorInputFn => tapMirrorInputFn b v node pkts
  | some fn => .ok (v, ⟨[fn], []⟩)
  | none => .ok (v, ⟨[], []⟩)

inductive MirrorCommand where
  | enable (node tap : Text) (kernel : TunKernel)
  | disable (node tap : Text)
  | frame (node : Text) (pkts : List ℕ)

structure MirrorStep where
  command : MirrorCommand
  behind : Behind

/-- A step, with the events it signals. -/
def mirrorStep (v : TapMirror) (s : MirrorStep) : Except Fault (TapMirror × List MirrorEvent) :=
  match s.command with
  | .enable node tap kernel => .ok ((enableTapMirror s.behind kernel v node tap).1, [])
  | .disable node tap => .ok (disableTapMirror s.behind v node tap, [])
  | .frame node pkts =>
    match dispatchFrame s.behind v node pkts with
    | .ok (v, trace) => .ok (v, trace.signalled)
    | .error e => .error e

def mirrorRun (v : TapMirror) : List MirrorStep → Except Fault TapMirror
  | [] => .ok v
  | s :: rest =>
    match mirrorStep v s with
    | .ok (v, _) => mirrorRun v rest
    | .error e => .error e

/-! ### A small graph -/

def ethernetInput : Text := "ethernet-input".toList

def ip4Input : Text := "ip4-input".toList

def ip4InputNoChecksum : Text := "ip4-input-no-checksum".toList

def smallGraph : NodeGraph where
  function n :=
    if n = ethernetInput then some (.other 1)
    else if n = ip4Input then some (.other 2)
    else if n = ip4InputNoChecksum then some (.other 3)
    else none
  unhooked n := by split_ifs <;> exact nofun

def Behind.unrelated : Behind := ⟨fun _ _ => false, fun _ _ _ => false⟩

def TunKernel.above : TunKernel where
  openTun fds := some (fds.foldr max 0 + 1)
  tunSetIff := true
  fresh fds fd h hmem := by
    cases h
    have hle : ∀ l : List ℕ, ∀ g ∈ l, g ≤ l.foldr max 0 := by
      intro l
      induction l with
      | nil => exact nofun
      | cons a rest ih =>
        intro g hg
        rcases List.mem_cons.mp hg with rfl | hg
        · exact le_max_left _ _
        · exact (ih g hg).trans (le_max_right _ _)
    exact absurd (hle fds _ hmem) (by omega)

def enableStep (node tap : Text) : MirrorStep := ⟨.enable node tap TunKernel.above, .unrelated⟩

def disableStep (node tap : Text) : MirrorStep := ⟨.disable node tap, .unrelated⟩

def frameStep (node : Text) (pkts : List ℕ) : MirrorStep := ⟨.frame node pkts, .unrelated⟩

def tap0 : Text := "tap0".toList

def tap1 : Text := "tap1".toList

end Routerd
