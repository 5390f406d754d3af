import Routerd.CommandLengths

/-!
# The commands of local segments

A `seg6local` action takes one parameter, and the command of a route should show both. Each
action has its branch: that of `end.x` and of `end.dx2` print the parameter, that of `end.t`
looks for the table and reads the interface, and the other actions have none. A command
tells two routes apart exactly if they differ in something that is printed.
-/

namespace Routerd
open ByteMemory NumeralText InetText KeyedUpdates OverwriteStore AccessLog

def seg6LocalActionEndDx6 : UInt32 := 5

def seg6LocalActionEndDt6 : UInt32 := 7

/-- The actions with a parameter, and the parameter. -/
inductive SidAction where
  | endX (nh6 : In6Addr)
  | endT (table : UInt32)
  | endDx2 (oif : UInt32)
  | endDx6 (nh6 : In6Addr)
  | endDx4 (nh4 : InAddr)
  | endDt6 (table : UInt32)

namespace SidAction

def num : SidAction → UInt32
  | endX _ => seg6LocalActionEndX
  | endT _ => seg6LocalActionEndT
  | endDx2 _ => seg6LocalActionEndDx2
  | endDx6 _ => seg6LocalActionEndDx6
  | endDx4 _ => seg6LocalActionEndDx4
  | endDt6 _ => seg6LocalActionEndDt6

def paramType : SidAction → ℕ
  | endX _ => seg6LocalNh6
  | endT _ => seg6LocalTable
  | endDx2 _ => seg6LocalOif
  | endDx6 _ => seg6LocalNh6
  | endDx4 _ => seg6LocalNh4
  | endDt6 _ => seg6LocalTable

def payload : SidAction → Mem
  | endX nh6 => List.ofFn nh6
  | endT table => bytes32 table.toNat
  | endDx2 oif => bytes32 oif.toNat
  | endDx6 nh6 => List.ofFn nh6
  | endDx4 nh4 => List.ofFn nh4
  | endDt6 table => bytes32 table.toNat

def parameter (names : IfNames) : SidAction → Text
  | endX nh6 => " nh6 ".toList ++ inetNtop6 nh6
  | endDx2 oif => " oif ".toList ++ ifindex2str names oif
  | _ => []

/-- The actions are printed differently: another action, or a parameter that is printed. -/
def TellsApart (names : IfNames) : SidAction → SidAction → Prop
  | endX nh6, endX nh6' => nh6 ≠ nh6'
  | endDx2 oif, endDx2 oif' => ifindex2str names oif ≠ ifindex2str names oif'
  | a, b => a.num ≠ b.num

end SidAction

/-- A route whose encapsulation holds an action and its parameter, in either order. -/
structure SidRoute extends EncapRoute lwtunnelEncapSeg6Local where
  action : SidAction
  actionAttr : Rtattr
  paramAttr : Rtattr
  nested_eq : nested = [actionAttr, paramAttr] ∨ nested = [paramAttr, actionAttr]
  action_type : actionAttr.type = seg6LocalAction
  action_payload : actionAttr.payload = bytes32 action.num.toNat
  param_type : paramAttr.type = action.paramType
  param_payload : paramAttr.payload = action.payload

def routeDevice (rtas : RtaArray) : Except Fault (Option UInt32) :=
  match rtas.get rtaOif with
  | .null => .ok none
  | rta => (rtaRead32 rta).map some

namespace SidRoute

variable (r : SidRoute)

/-- An attribute of the message, or of the encapsulation. -/
def Own (rta : Ptr) : Prop :=
  (∃ t, r.route.rtas.get t = rta ∧ rta ≠ .null) ∨
    ∃ t, r.Occurs t ∧ r.sub nullTable t = rta

/-- The command is printed, with attributes read that are there. -/
def Terminates (names : IfNames) : Prop :=
  ∀ stale isNew, (∃ cmd, (routeToIproute2Cli names stale r.route isNew).outcome = .ok cmd) ∧
    (routeToIproute2Cli names stale r.route isNew).All fun read => r.Own read.rta

def gatewayText : Option Text :=
  if r.route.rtas.get rtaGateway = .null then none
  else (addrText r.route.rtas rtaGateway (rtmFamily r.route.hdr)).toOption

/-- The interfaces are readable, and the action is not `end.t`, or it is not looked at. -/
def Readable : Prop :=
  ¬ Refuses r.route.rtas rtaIif ∧ ¬ Refuses r.route.rtas rtaOif ∧
    (r.route.rtas.get rtaGateway ≠ .null ∨ ∀ table, r.action ≠ .endT table)

end SidRoute

/-- Two routes with the same prefix and device. -/
structure SidPair where
  left : SidRoute
  right : SidRoute
  family : rtmFamily left.route.hdr = rtmFamily right.route.hdr
  dstLen : rtmDstLen left.route.hdr = rtmDstLen right.route.hdr
  dst : addrText left.route.rtas rtaDst (rtmFamily left.route.hdr) =
    addrText right.route.rtas rtaDst (rtmFamily right.route.hdr)
  device : routeDevice left.route.rtas = routeDevice right.route.rtas

namespace SidPair

variable (p : SidPair) (names : IfNames)

/-- Both commands are printed, and they are different if the action or the parameter is. -/
structure Determined : Prop where
  left : p.left.Terminates names
  right : p.right.Terminates names
  told : p.left.action ≠ p.right.action → ∀ stale stale' isNew,
    (routeToIproute2Cli names stale p.left.route isNew).outcome ≠
      (routeToIproute2Cli names stale' p.right.route isNew).outcome

/-- What is different is printed: the gateways, or without one the actions. -/
def ToldApart : Prop :=
  p.left.gatewayText ≠ p.right.gatewayText ∨
    p.left.gatewayText = none ∧ p.left.action.TellsApart names p.right.action

end SidPair

/-! ### The texts of actions -/

namespace SidAction

variable (names : IfNames)

def text (a : SidAction) : Text := seg6LocalActionToStr2 a.num ++ a.parameter names

/-- The action behind a text, by its first seven characters. -/
def numOf (text : Text) : Option UInt32 :=
  [("end.x n".toList, seg6LocalActionEndX), ("end.t".toList, seg6LocalActionEndT),
    ("end.dx2".toList, seg6LocalActionEndDx2), ("end.dx6".toList, seg6LocalActionEndDx6),
    ("end.dx4".toList, seg6LocalActionEndDx4),
    ("end.dt6".toList, seg6LocalActionEndDt6)].lookup (text.take 7)

theorem numOf_text (a : SidAction) : numOf (a.text names) = some a.num := by
  cases a <;> rfl

theorem num_eq_of_text_eq {a b : SidAction} (h : a.text names = b.text names) : a.num = b.num := by
  have hnum := numOf_text names a
  rw [h, numOf_text] at hnum
  exact (Option.some.inj hnum).symm

theorem tellsApart_of_num_ne {a b : SidAction} (h : a.num ≠ b.num) : a.TellsApart names b := by
  cases a <;> cases b <;> first | exact h | exact absurd rfl h

/-- Of two actions with the same number, the parameters are printed or neither is. -/
theorem cases_of_num_eq {a b : SidAction} (h : a.num = b.num) :
    (∃ nh6 nh6', a = endX nh6 ∧ b = endX nh6') ∨ (∃ oif oif', a = endDx2 oif ∧ b = endDx2 oif') ∨
      (a.text names = b.text names ∧ ¬ a.TellsApart names b) := by
  cases a <;> cases b
  all_goals first
    | exact Or.inl ⟨_, _, rfl, rfl⟩
    | exact Or.inr (Or.inl ⟨_, _, rfl, rfl⟩)
    | exact absurd h (by simp only [num]; decide)
    | exact Or.inr (Or.inr ⟨rfl, fun hne => hne rfl⟩)

theorem inetNtop6_injective {x y : In6Addr} (h : inetNtop6 x = inetNtop6 y) : x = y := by
  have hx := inetPton6_inetNtop6 x
  rw [h, inetPton6_inetNtop6] at hx
  exact (Option.some.inj hx).symm

/-- The texts are different exactly for the actions that are told apart. -/
theorem text_ne_iff (a b : SidAction) : a.text names ≠ b.text names ↔ a.TellsApart names b := by
  by_cases hnum : a.num = b.num
  · rcases cases_of_num_eq names hnum with
      ⟨x, y, rfl, rfl⟩ | ⟨i, j, rfl, rfl⟩ | ⟨htext, hsame⟩
    · change _ ↔ x ≠ y
      refine not_congr ⟨fun htext => ?_, fun heq => by rw [heq]⟩
      exact inetNtop6_injective (List.append_cancel_left (List.append_cancel_left htext))
    · change _ ↔ ifindex2str names i ≠ ifindex2str names j
      refine not_congr ⟨fun htext => ?_, fun heq => ?_⟩
      · exact List.append_cancel_left (List.append_cancel_left htext)
      · exact congrArg (fun name => seg6LocalActionToStr2 seg6LocalActionEndDx2 ++
          (" oif ".toList ++ name)) heq
    · exact ⟨fun hne => absurd htext hne, fun hne => absurd hne hsame⟩
  · exact ⟨fun _ => tellsApart_of_num_ne names hnum, fun _ htext =>
      hnum (num_eq_of_text_eq names htext)⟩

end SidAction

/-! ### What is read -/

section Reads

variable {Q : Ptr → Prop} {rta : Ptr}

theorem all_sizedRead_ptr {α : Type} (size : ℕ) (value : Mem → α) (h : Q rta) :
    (do
      let payload ← payloadOf rta
      if size < payload then .silent (.error .readMiss)
      else
        let m ← payloadAt rta size
        pure (value m) : Reads α).All fun read => Q read.rta := by
  rw [Logged.all_bind]
  refine ⟨(Logged.all_access _ _ _).mpr h, fun payload _ => ?_⟩
  split
  · exact Logged.all_silent _ _
  · exact (Logged.all_bind _ _ _).mpr ⟨(Logged.all_access _ _ _).mpr h, fun m _ =>
      Logged.all_pure _ _⟩

theorem all_read16_ptr (h : Q rta) : (read16 rta).All fun read => Q read.rta :=
  all_sizedRead_ptr 2 (fun m => le16 m 0) h

theorem all_read32_ptr (h : Q rta) : (read32 rta).All fun read => Q read.rta :=
  all_sizedRead_ptr 4 (fun m => le32 m 0) h

theorem all_readIfname_ptr (h : Q rta) (names : IfNames) :
    (readIfname names rta).All fun read => Q read.rta :=
  (Logged.all_bind _ _ _).mpr ⟨all_read32_ptr h, fun _ _ => Logged.all_pure _ _⟩

theorem all_readAddr_ptr (h : Q rta) (family : UInt8) :
    (readAddr rta family).All fun read => Q read.rta := by
  unfold readAddr
  split
  · exact (Logged.all_bind _ _ _).mpr ⟨(Logged.all_access _ _ _).mpr h, fun m _ =>
      Logged.all_pure _ _⟩
  · split
    · exact (Logged.all_bind _ _ _).mpr ⟨(Logged.all_access _ _ _).mpr h, fun m _ =>
        Logged.all_pure _ _⟩
    · exact Logged.all_pure _ _

theorem all_readNested_ptr (h : Q rta) (stale : RtaTable) :
    (readNested stale rta).All fun read => Q read.rta := by
  rw [readNested, Logged.all_bind]
  refine ⟨(Logged.all_access _ _ _).mpr h, fun l _ => ?_⟩
  exact (Logged.all_bind _ _ _).mpr ⟨Logged.all_silent _ _, fun d _ => Logged.all_silent _ _⟩

theorem formatted_ok {x : Reads Text} {front text : Text} (hread : x.outcome = .ok text)
    (hall : x.All fun read => Q read.rta) (hlen : front.length + text.length < 1000) :
    (x >>= fun text => .silent (strfmt (front ++ text))).outcome = .ok (front ++ text) ∧
      (x >>= fun text => .silent (strfmt (front ++ text))).All fun read => Q read.rta := by
  have hfits : strfmt (front ++ text) = .ok (front ++ text) :=
    strfmt_ok (by rw [List.length_append]; exact hlen)
  constructor
  · rw [Logged.outcome_bind, hread, ok_bind, Logged.outcome_silent, hfits]
  · exact (Logged.all_bind _ _ _).mpr ⟨hall, fun _ _ => Logged.all_silent _ _⟩

end Reads

/-! ### The command of a route -/

namespace SidRoute

variable (r : SidRoute)

theorem paramType_ne : r.action.paramType ≠ seg6LocalAction := by
  cases r.action <;> exact of_decide_eq_true rfl

theorem newest_action : newest Rtattr.type r.nested seg6LocalAction = some r.actionAttr := by
  have hne := r.paramType_ne
  rcases r.nested_eq with h | h
  · simp [h, newest, lastWrite, r.action_type, r.param_type, hne]
  · simp [h, newest, lastWrite, r.action_type, r.param_type, hne]

theorem newest_param : newest Rtattr.type r.nested r.action.paramType = some r.paramAttr := by
  have hne := r.paramType_ne.symm
  rcases r.nested_eq with h | h
  · simp [h, newest, lastWrite, r.action_type, r.param_type, hne]
  · simp [h, newest, lastWrite, r.action_type, r.param_type, hne]

theorem occurs_iff (t : ℕ) : r.Occurs t ↔ t = seg6LocalAction ∨ t = r.action.paramType := by
  have hmem : ∀ a, a ∈ r.nested ↔ a = r.actionAttr ∨ a = r.paramAttr := by
    intro a
    rcases r.nested_eq with h | h
    · rw [h]
      simp
    · rw [h]
      simp [or_comm]
  constructor
  · rintro ⟨a, ha, rfl⟩
    rcases (hmem a).mp ha with rfl | rfl
    · exact Or.inl r.action_type
    · exact Or.inr r.param_type
  · rintro (rfl | rfl)
    · exact ⟨_, (hmem _).mpr (Or.inl rfl), r.action_type⟩
    · exact ⟨_, (hmem _).mpr (Or.inr rfl), r.param_type⟩

theorem typesFit : r.TypesFit := by
  intro a ha
  rcases (r.occurs_iff a.type).mp ⟨a, ha, rfl⟩ with h | h
  · rw [h]
    decide
  · rw [h]
    cases r.action <;> exact of_decide_eq_true rfl

theorem sub_action : ∃ rest, ∀ stale, r.sub stale seg6LocalAction =
    .mem (r.actionAttr.bytes ++ rest) := r.sub_of_newest r.newest_action

theorem sub_param : ∃ rest, ∀ stale, r.sub stale r.action.paramType =
    .mem (r.paramAttr.bytes ++ rest) := r.sub_of_newest r.newest_param

theorem rtaRead32_of_payload {a : Rtattr} {x : UInt32} (h : a.payload = bytes32 x.toNat)
    (rest : Mem) : rtaRead32 (.mem (a.bytes ++ rest)) = .ok x := by
  have hlen : a.payload.length ≤ 4 := by rw [h]; exact Nat.le_refl 4
  rw [a.rtaRead32_bytes rest hlen, h, Except.ok.injEq]
  exact UInt32.toNat_inj.mp (le32_bytes32 x.toNat_lt _)

theorem rtaRead32_action (stale : RtaTable) :
    rtaRead32 (r.sub stale seg6LocalAction) = .ok r.action.num := by
  obtain ⟨rest, hrest⟩ := r.sub_action
  rw [hrest, rtaRead32_of_payload r.action_payload]

theorem own_route {t : ℕ} (h : r.route.rtas.get t ≠ .null) : r.Own (r.route.rtas.get t) :=
  Or.inl ⟨t, rfl, h⟩

theorem own_sub {t : ℕ} (h : r.Occurs t) (stale : RtaTable) : r.Own (r.sub stale t) :=
  Or.inr ⟨t, h, r.sub_eq_sub h _ _⟩

theorem own_param (stale : RtaTable) : r.Own (r.sub stale r.action.paramType) :=
  r.own_sub ((r.occurs_iff _).mpr (Or.inr rfl)) stale

theorem outcome_readAddr_of_payload {a : Rtattr} {x : In6Addr} (h : a.payload = List.ofFn x)
    (rest : Mem) : (readAddr (.mem (a.bytes ++ rest)) afInet6).outcome = .ok (inetNtop6 x) := by
  have hfamily : ¬ afInet6 = afInet := by decide
  rw [outcome_readAddr, a.rtaReadptr_bytes, h, inetpton, if_neg hfamily, if_pos rfl, deref_mem,
    ok_bind, Seg6Srh.bytes_ofFn]
  rfl

theorem actionParameter_none (names : IfNames) (sub : RtaTable) {num : UInt32}
    (hx : num ≠ seg6LocalActionEndX) (hdx2 : num ≠ seg6LocalActionEndDx2)
    (ht : num ≠ seg6LocalActionEndT) : actionParameter names sub num = pure [] := by
  unfold actionParameter
  rw [if_neg fun h => hx h.1, if_neg fun h => hdx2 h.1, if_neg fun h => ht h.1]

theorem actionParameter_endX (names : IfNames) {nh6 : In6Addr} (haction : r.action = .endX nh6)
    (stale : RtaTable) :
    (actionParameter names (r.sub stale) seg6LocalActionEndX).outcome =
        .ok (" nh6 ".toList ++ inetNtop6 nh6) ∧
      (actionParameter names (r.sub stale) seg6LocalActionEndX).All fun read => r.Own read.rta := by
  obtain ⟨rest, hrest⟩ := r.sub_param
  have hown := r.own_param stale
  have hpayload := r.param_payload
  rw [haction] at hrest hown hpayload
  have hsub : r.sub stale seg6LocalNh6 = .mem (r.paramAttr.bytes ++ rest) := hrest stale
  have hread : (readAddr (r.sub stale seg6LocalNh6) afInet6).outcome = .ok (inetNtop6 nh6) := by
    rw [hsub, outcome_readAddr_of_payload hpayload]
  have hlen := inetNtop6_length_le nh6
  have hfront : " nh6 ".toList.length = 5 := rfl
  unfold actionParameter
  rw [if_pos ⟨rfl, by simp [hsub]⟩]
  exact formatted_ok hread (all_readAddr_ptr hown _) (by omega)

theorem actionParameter_endDx2 (names : KernelNames) {oif : UInt32}
    (haction : r.action = .endDx2 oif) (stale : RtaTable) :
    (actionParameter names.toIfNames (r.sub stale) seg6LocalActionEndDx2).outcome =
        .ok (" oif ".toList ++ ifindex2str names.toIfNames oif) ∧
      (actionParameter names.toIfNames (r.sub stale) seg6LocalActionEndDx2).All
        fun read => r.Own read.rta := by
  obtain ⟨rest, hrest⟩ := r.sub_param
  have hown := r.own_param stale
  have hpayload := r.param_payload
  rw [haction] at hrest hown hpayload
  have hsub : r.sub stale seg6LocalOif = .mem (r.paramAttr.bytes ++ rest) := hrest stale
  have hread : (readIfname names.toIfNames (r.sub stale seg6LocalOif)).outcome =
      .ok (ifindex2str names.toIfNames oif) := by
    rw [readIfname, Logged.outcome_bind, outcome_read32, hsub, rtaRead32_of_payload hpayload,
      ok_bind, Logged.outcome_pure]
  have hlen := length_ifindex2str_lt names.short oif
  have hfront : " oif ".toList.length = 5 := rfl
  unfold actionParameter
  rw [if_neg fun h => absurd h.1 (by decide), if_pos ⟨rfl, by simp [hsub]⟩]
  exact formatted_ok hread (all_readIfname_ptr hown _) (by omega)

/-- Every action but `end.t` prints its parameter or none, from attributes that are there. -/
theorem actionParameter_action (names : KernelNames) (h : ∀ table, r.action ≠ .endT table)
    (stale : RtaTable) :
    (actionParameter names.toIfNames (r.sub stale) r.action.num).outcome =
        .ok (r.action.parameter names.toIfNames) ∧
      (actionParameter names.toIfNames (r.sub stale) r.action.num).All
        fun read => r.Own read.rta := by
  have hnone : ∀ num : UInt32, num ≠ seg6LocalActionEndX → num ≠ seg6LocalActionEndDx2 →
      num ≠ seg6LocalActionEndT →
      (actionParameter names.toIfNames (r.sub stale) num).outcome = .ok [] ∧
        (actionParameter names.toIfNames (r.sub stale) num).All fun read => r.Own read.rta := by
    intro num hx hdx2 ht
    rw [actionParameter_none _ _ hx hdx2 ht]
    exact ⟨rfl, Logged.all_pure _ _⟩
  cases haction : r.action with
  | endX nh6 => exact r.actionParameter_endX names.toIfNames haction stale
  | endT table => exact absurd haction (h table)
  | endDx2 oif => exact r.actionParameter_endDx2 names haction stale
  | endDx6 nh6 => exact hnone seg6LocalActionEndDx6 (by decide) (by decide) (by decide)
  | endDx4 nh4 => exact hnone seg6LocalActionEndDx4 (by decide) (by decide) (by decide)
  | endDt6 table => exact hnone seg6LocalActionEndDt6 (by decide) (by decide) (by decide)

def tail (names : IfNames) : Text :=
  match r.gatewayText with
  | none => " encap seg6local action ".toList ++ r.action.text names
  | some gw => " via ".toList ++ gw

theorem seg6LocalCommand_action (names : KernelNames) (h : ∀ table, r.action ≠ .endT table)
    (stale : RtaTable) (isNew : Bool) (dst oif : Text) :
    (seg6LocalCommand names.toIfNames stale r.route isNew dst oif).outcome =
        strfmt (routeHead r.route isNew dst ++ " encap seg6local action ".toList ++
          r.action.text names.toIfNames ++ " dev ".toList ++ oif) ∧
      (seg6LocalCommand names.toIfNames stale r.route isNew dst oif).All
        fun read => r.Own read.rta := by
  obtain ⟨hparameter, hreads⟩ := r.actionParameter_action names h stale
  obtain ⟨rest, hrest⟩ := r.sub_action
  have hnull : r.sub stale seg6LocalAction ≠ .null := by simp [hrest]
  have hencap : r.Own (r.route.rtas.get rtaEncap) := r.own_route (by simp [r.encapAttr])
  have haction : r.Own (r.sub stale seg6LocalAction) :=
    r.own_sub ((r.occurs_iff _).mpr (Or.inl rfl)) stale
  unfold seg6LocalCommand
  constructor
  · rw [Logged.outcome_bind, r.outcome_readNested_ok r.typesFit, ok_bind,
      optional_of_ne_null hnull]
    simp only [Logged.outcome_bind, outcome_read32, r.rtaRead32_action, Logged.outcome_silent,
      strfmt_action, hparameter, Logged.outcome_pure, ok_bind]
    rfl
  · refine (Logged.all_bind _ _ _).mpr ⟨all_readNested_ptr hencap stale, fun sub hsub => ?_⟩
    rw [r.outcome_readNested_ok r.typesFit] at hsub
    cases hsub
    refine (Logged.all_bind _ _ _).mpr ⟨all_optional.mpr fun _ => ?_, fun _ _ =>
      Logged.all_silent _ _⟩
    refine (Logged.all_bind _ _ _).mpr ⟨all_read32_ptr haction, fun num hnum => ?_⟩
    rw [outcome_read32, r.rtaRead32_action] at hnum
    cases hnum
    refine (Logged.all_bind _ _ _).mpr ⟨Logged.all_silent _ _, fun _ _ => ?_⟩
    exact (Logged.all_bind _ _ _).mpr ⟨hreads, fun _ _ => Logged.all_pure _ _⟩

theorem encapCommand_eq (names : IfNames) (stale : RtaTable) (isNew : Bool) (dst oif : Text) :
    (encapCommand names stale r.route isNew dst oif).outcome =
        (seg6LocalCommand names stale r.route isNew dst oif).outcome ∧
      ((seg6LocalCommand names stale r.route isNew dst oif).All (fun read => r.Own read.rta) →
        (encapCommand names stale r.route isNew dst oif).All fun read => r.Own read.rta) := by
  refine ⟨r.outcome_encapCommand names stale isNew dst oif, fun hall => ?_⟩
  unfold encapCommand
  split
  · rename_i hnull
    exact absurd hnull r.encapType_ne_null
  · refine (Logged.all_bind _ _ _).mpr
      ⟨all_read16_ptr (r.own_route r.encapType_ne_null), fun type htype => ?_⟩
    rw [outcome_read16, r.encapType] at htype
    cases htype
    exact hall

theorem all_routeToIproute2Cli (names : IfNames) (stale : RtaTable) (isNew : Bool)
    (hencap : r.route.rtas.get rtaGateway = .null → ∀ dst oif,
      (seg6LocalCommand names stale r.route isNew dst oif).All fun read => r.Own read.rta) :
    (routeToIproute2Cli names stale r.route isNew).All fun read => r.Own read.rta := by
  have haddr : ∀ t, (optional (r.route.rtas.get t) [] fun rta =>
      readAddr rta (rtmFamily r.route.hdr)).All fun read => r.Own read.rta := fun t =>
    all_optional.mpr fun hne => all_readAddr_ptr (r.own_route hne) _
  have hname : ∀ t, (optional (r.route.rtas.get t) [] (readIfname names)).All
      fun read => r.Own read.rta := fun t =>
    all_optional.mpr fun hne => all_readIfname_ptr (r.own_route hne) _
  unfold routeToIproute2Cli
  refine (Logged.all_bind _ _ _).mpr ⟨haddr rtaSrc, fun _ _ => ?_⟩
  refine (Logged.all_bind _ _ _).mpr ⟨hname rtaIif, fun _ _ => ?_⟩
  refine (Logged.all_bind _ _ _).mpr ⟨haddr rtaDst, fun dst _ => ?_⟩
  refine (Logged.all_bind _ _ _).mpr ⟨hname rtaOif, fun oif _ => ?_⟩
  split
  · rename_i hnull
    exact (r.encapCommand_eq names stale isNew dst oif).2 (hencap hnull dst oif)
  · rename_i hne
    exact (Logged.all_bind _ _ _).mpr ⟨all_readAddr_ptr (r.own_route hne) _, fun _ _ =>
      Logged.all_silent _ _⟩

theorem fits (names : KernelNames) (stale : RtaTable) (isNew : Bool) :
    Fits (routeToIproute2Cli names.toIfNames stale r.route isNew) := by
  refine fits_of_short names fun dst oif srh hprints => ?_
  have htype := hprints.type
  rw [r.encapType] at htype
  exact absurd (Except.ok.inj htype) (by decide)

theorem strfmt_of_fits {x : Reads Text} (hfits : Fits x) {text : Text}
    (h : x.outcome = strfmt text) : x.outcome = .ok text := by
  rcases strfmt_cases text with hok | hover
  · rw [h, hok]
  · exact absurd (h.trans hover) hfits

theorem gatewayText_eq_none_iff : r.gatewayText = none ↔ r.route.rtas.get rtaGateway = .null := by
  obtain ⟨gw, hgw, -⟩ := addrText_short r.route.rtas rtaGateway (rtmFamily r.route.hdr)
  rw [gatewayText, hgw]
  by_cases hnull : r.route.rtas.get rtaGateway = .null
  · rw [if_pos hnull]
    exact ⟨fun _ => hnull, fun _ => rfl⟩
  · rw [if_neg hnull]
    exact ⟨fun h => (by cases h), fun h => absurd h hnull⟩

def commandBody (names : IfNames) (stale : RtaTable) (isNew : Bool) (dst oif : Text) :
    Except Fault Text :=
  match r.gatewayText with
  | none => (seg6LocalCommand names stale r.route isNew dst oif).outcome
  | some gw => strfmt (routeHead r.route isNew dst ++ " via ".toList ++ gw ++ " dev ".toList ++ oif)

theorem outcome_command (names : IfNames) (stale : RtaTable) (isNew : Bool) :
    (routeToIproute2Cli names stale r.route isNew).outcome = (do
      let _ ← addrText r.route.rtas rtaSrc (rtmFamily r.route.hdr)
      let _ ← (optional (r.route.rtas.get rtaIif) [] (readIfname names)).outcome
      let dst ← addrText r.route.rtas rtaDst (rtmFamily r.route.hdr)
      let oif ← (optional (r.route.rtas.get rtaOif) [] (readIfname names)).outcome
      r.commandBody names stale isNew dst oif) := by
  obtain ⟨gw, hgw, -⟩ := addrText_short r.route.rtas rtaGateway (rtmFamily r.route.hdr)
  rcases r.route.rtas.get_cases rtaGateway with hnull | ⟨m, hm⟩
  · have htext : r.gatewayText = none := r.gatewayText_eq_none_iff.mpr hnull
    rw [Routerd.outcome_routeToIproute2Cli hnull]
    simp only [(r.encapCommand_eq names stale isNew _ _).1, commandBody, htext]
  · have hne : r.route.rtas.get rtaGateway ≠ .null := by simp [hm]
    have htext : r.gatewayText = some gw := by
      rw [gatewayText, if_neg hne, hgw]
      rfl
    have hread : (readAddr (.mem m) (rtmFamily r.route.hdr)).outcome = .ok gw := by
      rw [← hgw, ← outcome_optional_readAddr, optional_of_ne_null hne, hm]
    rw [routeToIproute2Cli, hm]
    simp only [Logged.outcome_bind, outcome_optional_readAddr, Logged.outcome_silent, hread, ok_bind,
      commandBody, htext]

theorem Readable.printed {r : SidRoute} (h : r.Readable) (names : KernelNames) :
    ∃ dst oif, addrText r.route.rtas rtaDst (rtmFamily r.route.hdr) = .ok dst ∧
      (optional (r.route.rtas.get rtaOif) [] (readIfname names.toIfNames)).outcome = .ok oif ∧
      ∀ stale isNew, (routeToIproute2Cli names.toIfNames stale r.route isNew).outcome =
        .ok (routeHead r.route isNew dst ++ r.tail names.toIfNames ++ " dev ".toList ++ oif) := by
  obtain ⟨hiif, hoif, haction⟩ := h
  obtain ⟨src, hsrc, -⟩ := addrText_short r.route.rtas rtaSrc (rtmFamily r.route.hdr)
  obtain ⟨dst, hdst, -⟩ := addrText_short r.route.rtas rtaDst (rtmFamily r.route.hdr)
  obtain ⟨iif, hiif'⟩ := exists_read_of_not_refuses names.toIfNames hiif
  obtain ⟨oif, hoif'⟩ := exists_read_of_not_refuses names.toIfNames hoif
  refine ⟨dst, oif, hdst, hoif', fun stale isNew => strfmt_of_fits (r.fits names stale isNew) ?_⟩
  rw [r.outcome_command, hsrc, ok_bind, hiif', ok_bind, hdst, ok_bind, hoif', ok_bind, tail,
    commandBody]
  cases htext : r.gatewayText with
  | none =>
    have hnull := r.gatewayText_eq_none_iff.mp htext
    dsimp only
    rw [(r.seg6LocalCommand_action names (haction.resolve_left (not_not.mpr hnull)) stale isNew dst
      oif).1, ← List.append_assoc]
  | some gw =>
    dsimp only
    rw [← List.append_assoc]

theorem Readable.terminates {r : SidRoute} (h : r.Readable) (names : KernelNames) :
    r.Terminates names.toIfNames := by
  obtain ⟨dst, oif, -, -, hprinted⟩ := h.printed names
  intro stale isNew
  refine ⟨⟨_, hprinted stale isNew⟩, r.all_routeToIproute2Cli _ stale isNew ?_⟩
  intro hnull dst oif
  have haction := h.2.2.resolve_left (not_not.mpr hnull)
  exact (r.seg6LocalCommand_action names haction stale isNew dst oif).2

theorem seg6LocalCommand_endT (names : IfNames) {table : UInt32} (haction : r.action = .endT table)
    (isNew : Bool) (dst oif : Text) :
    (seg6LocalCommand names nullTable r.route isNew dst oif).outcome = .error .segv := by
  obtain ⟨rest, hrest⟩ := r.sub_action
  obtain ⟨rest', hrest'⟩ := r.sub_param
  have hread : rtaRead32 (r.sub nullTable seg6LocalAction) = .ok seg6LocalActionEndT := by
    rw [r.rtaRead32_action, haction]
    rfl
  rw [haction] at hrest'
  have hnull : r.sub nullTable seg6LocalAction ≠ .null := by simp [hrest]
  have htable : r.sub nullTable seg6LocalTable ≠ .null := by
    have htype : r.sub nullTable seg6LocalTable = .mem (r.paramAttr.bytes ++ rest') := hrest' nullTable
    simp [htype]
  have hoif : r.sub nullTable seg6LocalOif = .null := by
    rw [r.sub_of_not_occurs]
    · rfl
    · rw [r.occurs_iff, haction]
      change ¬ (seg6LocalOif = seg6LocalAction ∨ seg6LocalOif = seg6LocalTable)
      decide
  have hparameter : (actionParameter names (r.sub nullTable) seg6LocalActionEndT).outcome =
      .error .segv := by
    unfold actionParameter
    rw [if_neg fun h => absurd h.1 (by decide), if_neg fun h => absurd h.1 (by decide),
      if_pos ⟨rfl, htable⟩, Logged.outcome_bind, outcome_read32, hoif]
    rfl
  unfold seg6LocalCommand
  rw [Logged.outcome_bind, r.outcome_readNested_ok r.typesFit, ok_bind, optional_of_ne_null hnull]
  simp only [Logged.outcome_bind, outcome_read32, hread, Logged.outcome_silent, strfmt_action,
    hparameter, ok_bind, error_bind]

theorem Terminates.readable {r : SidRoute} {names : IfNames} (h : r.Terminates names) :
    r.Readable := by
  obtain ⟨⟨cmd, hcmd⟩, -⟩ := h nullTable true
  rw [r.outcome_command] at hcmd
  obtain ⟨-, -, hcmd⟩ := bind_eq_ok hcmd
  obtain ⟨iif, hiif, hcmd⟩ := bind_eq_ok hcmd
  obtain ⟨dst, -, hcmd⟩ := bind_eq_ok hcmd
  obtain ⟨oif, hoif, hcmd⟩ := bind_eq_ok hcmd
  refine ⟨not_refuses_of_read hiif, not_refuses_of_read hoif, ?_⟩
  by_cases hnull : r.route.rtas.get rtaGateway = .null
  · refine Or.inr fun table haction => ?_
    rw [commandBody, r.gatewayText_eq_none_iff.mpr hnull] at hcmd
    dsimp only at hcmd
    rw [r.seg6LocalCommand_endT names haction] at hcmd
    cases hcmd
  · exact Or.inl hnull

end SidRoute

theorem outcome_oif (names : IfNames) (rtas : RtaArray) :
    (optional (rtas.get rtaOif) [] (readIfname names)).outcome =
      (routeDevice rtas).map fun device => device.elim [] (ifindex2str names) := by
  unfold routeDevice
  rcases rtas.get_cases rtaOif with hnull | ⟨m, hm⟩
  · rw [hnull]
    rfl
  · rw [hm, optional_of_ne_null (by simp), readIfname, Logged.outcome_bind, outcome_read32]
    change _ = ((rtaRead32 (.mem m)).map some).map _
    cases rtaRead32 (.mem m) with
    | error e => rfl
    | ok index => rfl

namespace SidPair

variable (p : SidPair)

/-- What is printed between the prefix and the device differs exactly where the routes are
told apart. -/
theorem tail_ne_iff (names : IfNames) :
    p.left.tail names ≠ p.right.tail names ↔ p.ToldApart names := by
  have hencap : ∀ text gw : Text,
      " encap seg6local action ".toList ++ text ≠ " via ".toList ++ gw := by
    intro text gw h
    have hsecond := congrArg (fun t => t[1]?) h
    cases hsecond
  rw [SidRoute.tail, SidRoute.tail, ToldApart]
  cases hleft : p.left.gatewayText with
  | none =>
    cases hright : p.right.gatewayText with
    | none =>
      dsimp only
      rw [ne_eq, List.append_cancel_left_eq, ← SidAction.text_ne_iff]
      simp
    | some gw => exact ⟨fun _ => Or.inl (by simp), fun _ => hencap _ _⟩
  | some gw =>
    cases hright : p.right.gatewayText with
    | none => exact ⟨fun _ => Or.inl (by simp), fun _ => (hencap _ _).symm⟩
    | some gw' => simp

theorem routeHead_eq (isNew : Bool) (dst : Text) :
    routeHead p.left.route isNew dst = routeHead p.right.route isNew dst := by
  unfold routeHead
  rw [p.family, p.dstLen]

/-- The commands determine the actions exactly if both routes are readable and, where the
actions are different, something that is printed is. -/
theorem determined_iff (names : KernelNames) :
    p.Determined names.toIfNames ↔ p.left.Readable ∧ p.right.Readable ∧
      (p.left.action ≠ p.right.action → p.ToldApart names.toIfNames) := by
  have hprinted : p.left.Readable → p.right.Readable → ∀ stale stale' isNew,
      (routeToIproute2Cli names.toIfNames stale p.left.route isNew).outcome ≠
        (routeToIproute2Cli names.toIfNames stale' p.right.route isNew).outcome ↔
      p.ToldApart names.toIfNames := by
    intro hleft hright stale stale' isNew
    obtain ⟨dst, oif, hdst, hoif, hcmd⟩ := hleft.printed names
    obtain ⟨dst', oif', hdst', hoif', hcmd'⟩ := hright.printed names
    rw [p.dst, hdst'] at hdst
    rw [outcome_oif, p.device, ← outcome_oif, hoif'] at hoif
    cases hdst
    cases hoif
    rw [hcmd, hcmd', p.routeHead_eq, ← p.tail_ne_iff]
    simp
  constructor
  · rintro ⟨hleft, hright, htold⟩
    refine ⟨hleft.readable, hright.readable, fun hne => ?_⟩
    exact (hprinted hleft.readable hright.readable nullTable nullTable true).mp
      (htold hne nullTable nullTable true)
  · rintro ⟨hleft, hright, htold⟩
    refine ⟨hleft.terminates names, hright.terminates names, fun hne stale stale' isNew => ?_⟩
    exact (hprinted hleft hright stale stale' isNew).mpr (htold hne)

end SidPair

def dx6Hop (last : UInt8) : Mem := [252, 1, 0, 0, 0, 0, 0, 0, 0, 0, 0, 0, 0, 0, 0, last]

def dx6Nested (last : UInt8) : List Rtattr :=
  [plainRtattr 1 [5, 0, 0, 0], plainRtattr 5 (dx6Hop last)]

def dx6Encap (last : UInt8) : Rtattr := plainRtattr 22 (layout (dx6Nested last))

def dx6Route (last : UInt8) : Mem :=
  nlmsgBytes 24 (rtmsgBytes afInet6 128 rtTableMain rtnUnicast ++
    layout [plainRtattr 1 [252, 0, 0, 0, 0, 0, 0, 0, 0, 0, 0, 0, 0, 0, 0, 1],
      plainRtattr 4 [5, 0, 0, 0], plainRtattr 21 [7, 0], dx6Encap last])

theorem dx6Encap_payload : ∀ last ∈ [(1 : UInt8), 2],
    (dx6Encap last).payload = layout (dx6Nested last) := by decide +kernel

theorem dx6Action_payload : (plainRtattr 1 [5, 0, 0, 0]).payload =
    bytes32 seg6LocalActionEndDx6.toNat := by decide +kernel

theorem dx6Param_payload : ∀ last ∈ [(1 : UInt8), 2], (plainRtattr 5 (dx6Hop last)).payload =
    List.ofFn (bytes 16 (dx6Hop last)) := by decide +kernel

def dx6Sid (o : RtObject) (last : UInt8) (hlast : last ∈ [(1 : UInt8), 2])
    (htype : rtaRead16 (o.rtas.get rtaEncapType) = .ok lwtunnelEncapSeg6Local)
    (hencap : o.rtas.get rtaEncap = .mem ((dx6Encap last).bytes ++ [])) : SidRoute where
  route := o
  nested := dx6Nested last
  encap := dx6Encap last
  behind := []
  encapType := htype
  encapAttr := hencap
  payload := dx6Encap_payload last hlast
  action := .endDx6 (bytes 16 (dx6Hop last))
  actionAttr := plainRtattr 1 [5, 0, 0, 0]
  paramAttr := plainRtattr 5 (dx6Hop last)
  nested_eq := Or.inl rfl
  action_type := rfl
  action_payload := dx6Action_payload
  param_type := rfl
  param_payload := dx6Param_payload last hlast

/-- Two next hops of `end.dx6` that are not printed, and the table of `end.t` read from an
attribute that is not there. -/
theorem dx6_printed_alike :
    (∃ p : SidPair, ofMessage route (dx6Route 1) = .ok p.left.route ∧
      ofMessage route (dx6Route 2) = .ok p.right.route ∧
      p.left.action = .endDx6 (bytes 16 (dx6Hop 1)) ∧
      p.right.action = .endDx6 (bytes 16 (dx6Hop 2)) ∧
      routeCommand nullTable p.left.route =
        some "ip -6 route add fc00::1/128 encap seg6local action end.dx6 dev none".toList ∧
      routeCommand nullTable p.right.route =
        some "ip -6 route add fc00::1/128 encap seg6local action end.dx6 dev none".toList ∧
      ¬ p.Determined .empty) ∧
    ∃ o, ofMessage route endTable.own = .ok o ∧
      (routeToIproute2Cli .empty nullTable o true).outcome = .error .segv := by
  have hfields : ∀ last ∈ [(1 : UInt8), 2], (ofMessage route (dx6Route last)).toOption.map (fun o =>
      ((rtmFamily o.hdr, rtmDstLen o.hdr), (addrText o.rtas rtaDst (rtmFamily o.hdr)).toOption,
        (routeDevice o.rtas).toOption)) =
      some ((afInet6, 128), some "fc00::1".toList, some (some 5)) := by
    decide +kernel
  have hencap : ∀ last ∈ [(1 : UInt8), 2], (ofMessage route (dx6Route last)).toOption.map (fun o =>
      ((rtaRead16 (o.rtas.get rtaEncapType)).toOption, o.rtas.get rtaEncap)) =
      some (some lwtunnelEncapSeg6Local, .mem ((dx6Encap last).bytes ++ [])) := by
    decide +kernel
  have hcommand : ∀ last ∈ [(1 : UInt8), 2],
      (ofMessage route (dx6Route last)).toOption.map (routeCommand nullTable) =
        some (some "ip -6 route add fc00::1/128 encap seg6local action end.dx6 dev none".toList) := by
    decide +kernel
  have htable : (ofMessage route endTable.own).toOption.map (fun o =>
      (routeToIproute2Cli .empty nullTable o true).outcome) = some (.error .segv) := by
    decide +kernel
  have hroute : ∀ last ∈ [(1 : UInt8), 2], ∃ o, ofMessage route (dx6Route last) = .ok o ∧
      (rtmFamily o.hdr = afInet6 ∧ rtmDstLen o.hdr = 128) ∧
      addrText o.rtas rtaDst (rtmFamily o.hdr) = .ok "fc00::1".toList ∧
      routeDevice o.rtas = .ok (some 5) ∧
      rtaRead16 (o.rtas.get rtaEncapType) = .ok lwtunnelEncapSeg6Local ∧
      o.rtas.get rtaEncap = .mem ((dx6Encap last).bytes ++ []) ∧
      routeCommand nullTable o =
        some "ip -6 route add fc00::1/128 encap seg6local action end.dx6 dev none".toList := by
    intro last hlast
    obtain ⟨o, ho, hread⟩ := ok_of_toOption_map (hfields last hlast)
    have hread' := hencap last hlast
    have hprinted := hcommand last hlast
    rw [ho] at hread' hprinted
    obtain ⟨hhdr, hread⟩ := Prod.mk.inj hread
    obtain ⟨hdst, hdevice⟩ := Prod.mk.inj hread
    obtain ⟨htype, hattr⟩ := Prod.mk.inj (Option.some.inj hread')
    exact ⟨o, ho, Prod.mk.inj hhdr, ok_of_toOption hdst, ok_of_toOption hdevice,
      ok_of_toOption htype, hattr, Option.some.inj hprinted⟩
  obtain ⟨o, ho, ⟨hfamily, hlen⟩, hdst, hdevice, htype, hattr, hcmd⟩ := hroute 1 (by decide)
  obtain ⟨o', ho', ⟨hfamily', hlen'⟩, hdst', hdevice', htype', hattr', hcmd'⟩ :=
    hroute 2 (by decide)
  obtain ⟨t, ht, hsegv⟩ := ok_of_toOption_map htable
  refine ⟨⟨⟨dx6Sid o 1 (by decide) htype hattr, dx6Sid o' 2 (by decide) htype' hattr',
    hfamily.trans hfamily'.symm, hlen.trans hlen'.symm, hdst.trans hdst'.symm,
    hdevice.trans hdevice'.symm⟩, ho, ho', rfl, rfl, hcmd, hcmd', ?_⟩, t, ht, hsegv⟩
  intro hdetermined
  refine hdetermined.told ?_ nullTable nullTable true ?_
  · intro hsame
    exact absurd (SidAction.endDx6.inj hsame) (by decide +kernel)
  · exact (ok_of_toOption hcmd).trans (ok_of_toOption hcmd').symm

end Routerd
