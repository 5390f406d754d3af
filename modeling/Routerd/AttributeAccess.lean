import Routerd.NetlinkHooks
import Routerd.AccessLog

/-!
# The attribute reads of the hooks

Each reader records the attribute it is applied to and up to which byte of the payload it
reads; `rta_payload` reads the header only. The address and route hooks read first and send
afterwards: the theorems of this module take them apart at that point, so that the reads
recorded are those of the hooks.
-/

namespace Routerd
open ByteMemory NumeralText InetText AccessLog

/-- A read of the payload of an attribute, up to this byte. -/
structure AttrRead where
  rta : Ptr
  upto : ℕ
  deriving DecidableEq

abbrev Reads (α : Type) : Type := Logged AttrRead Fault α

/-- `rta_payload`. -/
def payloadOf (rta : Ptr) : Reads ℕ := .access ⟨rta, 0⟩ (rtaPayload rta)

/-- The bytes at `rta_readptr`, of which those below `upto` are read. -/
def payloadAt (rta : Ptr) (upto : ℕ) : Reads Mem := .access ⟨rta, upto⟩ (deref (rtaReadptr rta))

/-- `rta_read16`. -/
def read16 (rta : Ptr) : Reads ℕ := do
  let payload ← payloadOf rta
  if 2 < payload then .silent (.error .readMiss)
  else
    let m ← payloadAt rta 2
    pure (le16 m 0)

/-- `rta_read32`. -/
def read32 (rta : Ptr) : Reads UInt32 := do
  let payload ← payloadOf rta
  if 4 < payload then .silent (.error .readMiss)
  else
    let m ← payloadAt rta 4
    pure (le32 m 0)

/-- `inetpton` of `rta_readptr`. -/
def readAddr (rta : Ptr) (afi : UInt8) : Reads Text :=
  if afi = afInet then do
    let m ← payloadAt rta 4
    pure (inetNtop4 (bytes 4 m))
  else if afi = afInet6 then do
    let m ← payloadAt rta 16
    pure (inetNtop6 (bytes 16 m))
  else pure []

theorem outcome_payloadOf (rta : Ptr) : (payloadOf rta).outcome = rtaPayload rta := rfl

theorem outcome_payloadAt (rta : Ptr) (upto : ℕ) :
    (payloadAt rta upto).outcome = deref (rtaReadptr rta) := rfl

theorem outcome_sizedRead {α : Type} (rta : Ptr) (size : ℕ) (value : Mem → α) :
    (do
      let payload ← payloadOf rta
      if size < payload then .silent (.error .readMiss)
      else
        let m ← payloadAt rta size
        pure (value m) : Reads α).outcome =
      (do
        let payload ← rtaPayload rta
        if size < payload then .error .readMiss
        else
          let m ← deref (rtaReadptr rta)
          pure (value m)) := by
  rw [Logged.outcome_bind]
  apply bind_congr
  intro payload
  split
  · rfl
  · rw [Logged.outcome_bind]
    rfl

theorem outcome_read16 (rta : Ptr) : (read16 rta).outcome = rtaRead16 rta :=
  outcome_sizedRead rta 2 fun m => le16 m 0

theorem outcome_read32 (rta : Ptr) : (read32 rta).outcome = rtaRead32 rta :=
  outcome_sizedRead rta 4 fun m => le32 m 0

theorem outcome_readAddr (rta : Ptr) (afi : UInt8) :
    (readAddr rta afi).outcome = inetpton (rtaReadptr rta) afi := by
  unfold readAddr inetpton
  split
  · rw [Logged.outcome_bind]
    rfl
  · split
    · rw [Logged.outcome_bind]
      rfl
    · rfl

/-- A read of an attribute that may be absent. -/
def optional {α : Type} (rta : Ptr) (absent : α) (read : Ptr → Reads α) : Reads α :=
  match rta with
  | .null => pure absent
  | rta => read rta

theorem optional_of_ne_null {α : Type} {rta : Ptr} {absent : α} {read : Ptr → Reads α}
    (h : rta ≠ .null) : optional rta absent read = read rta := by
  cases rta with
  | null => exact absurd rfl h
  | wild => rfl
  | mem m => rfl

/-! ### The reads of the hooks -/

/-- The interface and the address of an address message for VPP, if it has one. -/
def addrReads (d : Daemon) (addr : RtObject) : Reads (Option (UInt32 × InAddr)) :=
  if ifaFamily addr.hdr ≠ afInet then pure none
  else
    let vppIfindex := ifindexKernel2vpp d.interfaces (ifaIndex addr.hdr)
    if vppIfindex = 0 then pure none
    else do
      let m ← payloadAt (addr.rtas.get iflaAddress) 4
      pure (some (vppIfindex, bytes 4 m))

def readNested (stale : RtaTable) (rta : Ptr) : Reads RtaTable := do
  let l ← payloadOf rta
  let d ← .silent (deref (rtaReadptr rta))
  .silent (parseRtattr d l stale maxAttrs)

/-- The texts `act` and `nh4` of a nested table. -/
def actionReads (sub : RtaTable) : Reads (Text × Text) :=
  optional (sub seg6LocalAction) ([], []) fun rta => do
    let num ← read32 rta
    if num = seg6LocalActionEndDx4 ∧ sub seg6LocalNh4 ≠ .null then
      let nh4 ← readAddr (sub seg6LocalNh4) afInet
      pure (seg6LocalActionToStr2 num, nh4)
    else pure (seg6LocalActionToStr2 num, [])

def seg6LocalReads (stale : RtaTable) (rtas : RtaArray) : Reads (Text × Text) :=
  optional (rtas.get rtaEncapType) ([], []) fun encapRta => do
    let encapType ← read16 encapRta
    if encapType = lwtunnelEncapSeg6Local then
      let sub ← readNested stale (rtas.get rtaEncap)
      actionReads sub
    else pure ([], [])

/-- What the route hook has read when it comes to send. -/
inductive RouteInputs where
  | srv6 (dst oif act nh4 : Text)
  | inet4 (dst : Text) (kIndex : UInt32) (gw : Text)

def readIfname (names : IfNames) (rta : Ptr) : Reads Text := do
  let index ← read32 rta
  pure (ifindex2str names index)

def routeReads (names : IfNames) (stale : RtaTable) (route : RtObject) : Reads RouteInputs :=
  let family := rtmFamily route.hdr
  if family ≠ afInet then do
    let dst ← optional (route.rtas.get rtaDst) [] fun rta => readAddr rta family
    let oif ← optional (route.rtas.get rtaOif) [] (readIfname names)
    let texts ← seg6LocalReads stale route.rtas
    pure (.srv6 dst oif texts.1 texts.2)
  else do
    let dst ← optional (route.rtas.get rtaDst) [] fun rta => readAddr rta family
    let _ ← optional (route.rtas.get rtaOif) [] (readIfname names)
    let gw ← optional (route.rtas.get rtaGateway) [] fun rta => readAddr rta family
    let kIndex ← optional (route.rtas.get rtaOif) 0 read32
    pure (.inet4 dst kIndex gw)

def sendAddr (env : Env) (d : Daemon) (addr : RtObject) (isNew : Bool) :
    Option (UInt32 × InAddr) → Except Fault Daemon
  | none => .ok d
  | some (vppIfindex, a) => setAddr env d vppIfindex a (ifaPrefixlen addr.hdr) isNew

def sendRoute (env : Env) (d : Daemon) (route : RtObject) (isNew : Bool) :
    RouteInputs → Except Fault Daemon
  | .srv6 dst oif act nh4 =>
    let frame := env.frame d.trace.length
    if dst ≠ [] ∧ oif ≠ [] ∧ nh4 ≠ [] ∧ act ≠ [] then
      let swIfindex := ifindexKernel2vpp d.interfaces (atoi oif)
      transact env d fun d =>
        .ok (ip6RouteSrv6EndDx4Add d.myClientIndex 13 ((inetPton6 dst).getD frame.sidAddr)
          ((inetPton4 nh4).getD frame.nh4Addr) swIfindex)
    else .ok d
  | .inet4 dst kIndex gw =>
    setRoute env d (dst ++ '/' :: decimal (rtmDstLen route.hdr).toNat) gw
      (ifindexKernel2vpp d.interfaces kIndex) isNew

theorem addrAnalyzeAndHook_eq (env : Env) (d : Daemon) (addr : RtObject) (isNew : Bool) :
    addrAnalyzeAndHook env d addr isNew =
      (addrReads d addr).outcome >>= sendAddr env d addr isNew := by
  have hptr : rtaReadptr (addr.rtas.get iflaAddress) ≠ .null := by
    cases addr.rtas.get iflaAddress <;> simp [rtaReadptr]
  unfold addrAnalyzeAndHook addrReads
  split
  · rfl
  · simp only [if_neg hptr]
    split
    · rfl
    · rw [Logged.outcome_bind, outcome_payloadAt]
      cases deref (rtaReadptr (addr.rtas.get iflaAddress)) with
      | error e => rfl
      | ok m => rfl

theorem outcome_optional_readAddr (rtas : RtaArray) (t : ℕ) (afi : UInt8) :
    (optional (rtas.get t) [] fun rta => readAddr rta afi).outcome = addrText rtas t afi := by
  unfold addrText
  rcases rtas.get_cases t with hnull | ⟨m, hm⟩
  · rw [hnull]
    rfl
  · rw [hm]
    exact outcome_readAddr (.mem m) afi

theorem outcome_optional_readIfname (names : IfNames) (rtas : RtaArray) :
    (optional (rtas.get rtaOif) [] (readIfname names)).outcome = oifText names rtas := by
  unfold oifText
  rcases rtas.get_cases rtaOif with hnull | ⟨m, hm⟩
  · rw [hnull]
    rfl
  · rw [hm]
    change (read32 (.mem m) >>= _).outcome = rtaRead32 (.mem m) >>= _
    rw [Logged.outcome_bind, outcome_read32]
    rfl

theorem outcome_optional_read32 (rtas : RtaArray) (t : ℕ) :
    (optional (rtas.get t) 0 read32).outcome = optionalRead32 rtas t := by
  unfold optionalRead32
  rcases rtas.get_cases t with hnull | ⟨m, hm⟩
  · rw [hnull]
    rfl
  · rw [hm]
    exact outcome_read32 (.mem m)

theorem outcome_seg6LocalReads (frame : Frame) (rtas : RtaArray) :
    (seg6LocalReads frame.sub rtas).outcome = seg6LocalTexts frame rtas := by
  unfold seg6LocalReads seg6LocalTexts
  rcases rtas.get_cases rtaEncapType with hnull | ⟨m, hm⟩
  · rw [hnull]
    rfl
  · rw [hm]
    change (read16 (.mem m) >>= _).outcome = _
    rw [Logged.outcome_bind, outcome_read16]
    apply bind_congr
    intro encapType
    split
    · have hsub : (readNested frame.sub (rtas.get rtaEncap)).outcome = seg6LocalSub frame rtas := by
        simp only [readNested, Logged.outcome_bind, outcome_payloadOf, Logged.outcome_silent,
          seg6LocalSub]
      rw [Logged.outcome_bind, hsub]
      apply bind_congr
      intro sub
      unfold actionReads
      split
      · rename_i hnull
        rw [hnull]
        rfl
      · rename_i hne
        rw [optional_of_ne_null hne, Logged.outcome_bind, outcome_read32]
        apply bind_congr
        intro num
        split
        · rw [Logged.outcome_bind, outcome_readAddr]
          rfl
        · rfl
    · rfl

theorem optional_readIfname_cases (names : IfNames) (rtas : RtaArray) (t : ℕ) :
    (∃ e, optionalRead32 rtas t = .error e ∧
        (optional (rtas.get t) [] (readIfname names)).outcome = .error e) ∨
      ∃ x text, optionalRead32 rtas t = .ok x ∧
        (optional (rtas.get t) [] (readIfname names)).outcome = .ok text := by
  unfold optionalRead32
  rcases rtas.get_cases t with hnull | ⟨m, hm⟩
  · rw [hnull]
    exact Or.inr ⟨0, [], rfl, rfl⟩
  · rw [hm, optional_of_ne_null (by simp), readIfname, Logged.outcome_bind, outcome_read32]
    cases hread : rtaRead32 (.mem m) with
    | error e => exact Or.inl ⟨e, hread, rfl⟩
    | ok x => exact Or.inr ⟨x, _, hread, rfl⟩

/-- The route hook reads and then sends. -/
theorem routeAnalyzeAndHook_eq (env : Env) (d : Daemon) (route : RtObject) (isNew : Bool) :
    routeAnalyzeAndHook env d route isNew =
      (routeReads env.names (env.frame d.trace.length).sub route).outcome >>=
        sendRoute env d route isNew := by
  rw [routeAnalyzeAndHook, routeReads]
  by_cases hfamily : rtmFamily route.hdr ≠ afInet
  · rw [if_pos hfamily, if_pos hfamily]
    simp only [srv6RouteHook, Logged.outcome_bind, outcome_optional_readAddr,
      outcome_optional_readIfname, outcome_seg6LocalReads, Logged.outcome_pure, bind_assoc]
    rfl
  · rw [if_neg hfamily, if_neg hfamily]
    simp only [inet4RouteHook, Logged.outcome_bind, outcome_optional_readAddr,
      outcome_optional_readIfname, outcome_optional_read32, Logged.outcome_pure, bind_assoc]
    apply bind_congr
    intro dst
    rcases optional_readIfname_cases env.names route.rtas rtaOif with
      ⟨e, hread, htext⟩ | ⟨x, text, hread, htext⟩
    · rw [outcome_optional_readIfname] at htext
      rw [hread, htext]
      rfl
    · rw [outcome_optional_readIfname] at htext
      rw [hread, htext]
      rfl

end Routerd
