import Routerd.AttributeReads
import Routerd.AttributeWindow

/-!
# The attribute reads of address and route messages

The attributes of a message are those of its list and those nested in its encapsulation.
The object built from a message shows them, and for a route also an attribute without
payload that is found in the four bytes behind the message. From there the conditions of the
readers become conditions on the attribute list.
-/

namespace Routerd
open ByteMemory KeyedUpdates OverwriteStore AccessLog

/-- A message with a well-formed attribute list. -/
structure ListedMessage (size : ℕ) extends WholeMessage size where
  list : List Rtattr
  wellFormed : toWholeMessage.attrs = layout list

def located : List Rtattr → Mem → List (Rtattr × Mem)
  | [], _ => []
  | a :: attrs, behind => (a, layout attrs ++ behind) :: located attrs behind

/-- An attribute of a list that fills the front of `bytes`, with `tail` behind them. -/
inductive NestedIn (tail : Mem) : Mem → Mem → Prop where
  | here {bytes : Mem} (hmin : 4 ≤ rtaLen bytes) (hfit : rtaLen bytes ≤ bytes.length) :
      NestedIn tail bytes (bytes ++ tail)
  | next {bytes m : Mem} (hmin : 4 ≤ rtaLen bytes) (hfit : rtaLen bytes ≤ bytes.length)
      (hrest : NestedIn tail (rtaNext bytes) m) : NestedIn tail bytes m

/-- The bytes from `m` on begin with an attribute of the message, or with one nested in its
encapsulation. -/
def Present (list : List Rtattr) (behind m : Mem) : Prop :=
  ∃ x ∈ located list behind, m = x.1.bytes ++ x.2 ∨
    (x.1.type = rtaEncap ∧ NestedIn (x.1.padding ++ x.2) x.1.payload m)

/-- The type of the attribute that a window of four bytes behind a message shows. -/
def foreignType (window : ℕ) (behind : Mem) : Option ℕ :=
  if window = 4 ∧ rtaLen behind = 4 then some (rtaType behind) else none

/-- What the object of a message shows for a type. -/
def messageEntry (list : List Rtattr) (behind : Mem) (window t : ℕ) : Entry :=
  if foreignType window behind = some t then .foreign behind
  else match newest (fun x => x.1.type) (located list behind) t with
    | none => .absent
    | some x => .own x.1 x.2

/-- No type that `parse_rtattr` refuses. -/
def Accepted (list : List Rtattr) (behind : Mem) (window : ℕ) : Prop :=
  (∀ a ∈ list, a.type < maxAttrs) ∧ ∀ t, foreignType window behind = some t → t < maxAttrs

/-! ### The table of a message -/

theorem layoutEntries_eq_map (attrs : List Rtattr) (behind : Mem) :
    layoutEntries attrs behind =
      (located attrs behind).map fun x => (x.1.type, .mem (x.1.bytes ++ x.2)) := by
  induction attrs with
  | nil => rfl
  | cons a attrs ih => rw [layoutEntries, located, ih, List.map_cons]

theorem lastWrite_located (attrs : List Rtattr) (behind : Mem) (t : ℕ) :
    lastWrite t (layoutEntries attrs behind) =
      (newest (fun x => x.1.type) (located attrs behind) t).map fun x =>
        .mem (x.1.bytes ++ x.2) := by
  rw [layoutEntries_eq_map, newest, ← lastWrite_map_value, List.map_map]
  rfl

theorem parseRtattr_window_none {window : ℕ} (hwindow : window ≤ 4) {behind : Mem}
    (hnone : foreignType window behind = none) (table : RtaTable) :
    parseRtattr behind window table maxAttrs = .ok table := by
  have hnot : ¬ rtaOk behind window := by
    rintro ⟨hwide, hmin, hmax⟩
    have hforeign : foreignType window behind = some (rtaType behind) :=
      if_pos ⟨by omega, by omega⟩
    rw [hnone] at hforeign
    cases hforeign
  rw [parseRtattr_unfold, if_neg hnot]

theorem parseRtattr_window_some {window : ℕ} {behind : Mem} {t : ℕ}
    (hsome : foreignType window behind = some t) (table : RtaTable) :
    parseRtattr behind window table maxAttrs =
      if t < maxAttrs then .ok (Function.update table t (.mem behind))
      else .error .assertion := by
  rw [foreignType] at hsome
  split at hsome
  · rename_i hforeign
    obtain ⟨rfl, hlen⟩ := hforeign
    cases hsome
    have hok : rtaOk behind 4 := ⟨Nat.le_refl 4, hlen.ge, hlen.le⟩
    have hleft : sizeSub 4 (rtaAlign 4) = 0 := by decide
    rw [parseRtattr_unfold, if_pos hok, hlen, hleft, parseRtattr_zero]
  · cases hsome

theorem ptr_messageEntry (list : List Rtattr) (behind : Mem) (window t : ℕ) :
    (messageEntry list behind window t).ptr =
      if foreignType window behind = some t then .mem behind
      else (lastWrite t (layoutEntries list behind)).getD .null := by
  rw [messageEntry, lastWrite_located]
  split
  · rfl
  · cases newest (fun x => x.1.type) (located list behind) t <;> rfl

theorem rtaArray_accepted {list : List Rtattr} {behind : Mem} {window : ℕ} (hwindow : window ≤ 4)
    (haccepted : Accepted list behind window) :
    ∃ rtas, rtaArray (layout list ++ behind) ((layout list).length + window) = .ok rtas ∧
      ∀ t, rtas.get t = (messageEntry list behind window t).ptr := by
  have hlist := parseRtattr_layout haccepted.1 behind window nullTable
  have hnull : ∀ t, applyWrites nullTable (layoutEntries list behind) t =
      (lastWrite t (layoutEntries list behind)).getD .null := fun t =>
    applyWrites_eq_lastWrite nullTable _ t
  cases hforeign : foreignType window behind with
  | none =>
    rw [parseRtattr_window_none hwindow hforeign] at hlist
    obtain ⟨rtas, hrtas, htable⟩ := rtaArray_eq_ok hlist
    refine ⟨rtas, hrtas, fun t => ?_⟩
    rw [ptr_messageEntry, hforeign, if_neg (by simp), RtaArray.get, htable, hnull]
  | some u =>
    rw [parseRtattr_window_some hforeign, if_pos (haccepted.2 u hforeign)] at hlist
    obtain ⟨rtas, hrtas, htable⟩ := rtaArray_eq_ok hlist
    refine ⟨rtas, hrtas, fun t => ?_⟩
    rw [ptr_messageEntry, hforeign, RtaArray.get, htable, Function.update_apply, hnull]
    by_cases ht : t = u
    · rw [if_pos ht, if_pos (by rw [ht])]
    · rw [if_neg ht, if_neg fun heq => ht (Option.some.inj heq).symm]

theorem rtaArray_refused {list : List Rtattr} {behind : Mem} {window : ℕ}
    (hrefused : ¬ Accepted list behind window) :
    rtaArray (layout list ++ behind) ((layout list).length + window) = .error .assertion := by
  apply rtaArray_eq_error
  by_cases htypes : ∀ a ∈ list, a.type < maxAttrs
  · rw [parseRtattr_layout htypes]
    cases hforeign : foreignType window behind with
    | none =>
      refine absurd ⟨htypes, fun t ht => ?_⟩ hrefused
      rw [hforeign] at ht
      cases ht
    | some u =>
      rw [parseRtattr_window_some hforeign, if_neg]
      intro hu
      refine hrefused ⟨htypes, fun t ht => ?_⟩
      rw [hforeign] at ht
      cases ht
      exact hu
  · exact parseRtattr_layout_refused htypes behind window nullTable

/-! ### The attributes of a message -/

theorem length_le_of_located {list : List Rtattr} {behind : Mem} {x : Rtattr × Mem}
    (hx : x ∈ located list behind) : behind.length ≤ x.2.length := by
  induction list with
  | nil => cases hx
  | cons a list ih =>
    rcases List.mem_cons.mp hx with rfl | hx
    · rw [List.length_append]
      exact Nat.le_add_left _ _
    · exact ih hx

theorem NestedIn.length_lt {tail bytes m : Mem} (h : NestedIn tail bytes m) :
    tail.length < m.length := by
  induction h with
  | here hmin hfit =>
    rw [List.length_append]
    omega
  | next _ _ _ ih => exact ih

theorem not_present_behind (list : List Rtattr) (behind : Mem) : ¬ Present list behind behind := by
  rintro ⟨x, hx, hbytes | ⟨-, hnested⟩⟩
  · have hle := length_le_of_located hx
    have hpos : 4 ≤ x.1.bytes.length := (Nat.le_add_left 4 _).trans x.1.len_le_length
    have hlen := congrArg List.length hbytes
    rw [List.length_append] at hlen
    omega
  · have hle := length_le_of_located hx
    have hlt := hnested.length_lt
    rw [List.length_append] at hlt
    omega

theorem sees_message {list : List Rtattr} {behind : Mem} {window : ℕ} {rtas : RtaArray}
    (hget : ∀ t, rtas.get t = (messageEntry list behind window t).ptr) :
    Sees (Present list behind) rtas (messageEntry list behind window) := by
  refine ⟨hget, fun t a rest hentry => ?_, fun t behind' hentry => ?_⟩
  · rw [messageEntry] at hentry
    split at hentry
    · cases hentry
    · split at hentry
      · cases hentry
      · rename_i x hx
        cases hentry
        exact ⟨x, (key_of_newest _ hx).1, Or.inl rfl⟩
  · rw [messageEntry] at hentry
    split at hentry
    · cases hentry
      exact not_present_behind list behind
    · split at hentry <;> cases hentry

namespace ListedMessage

variable {size : ℕ} (msg : ListedMessage size) (behind : Mem)

theorem forall_rtObject_iff (hsize : 8 ≤ size) (hwindow : size - 8 ≤ 4) {Q : RtObject → Prop}
    {C : Prop}
    (hC : ∀ obj : RtObject, obj.hdr = nlmsgBody (msg.own ++ behind) →
      Sees (Present msg.list behind) obj.rtas (messageEntry msg.list behind (size - 8)) →
      (Q obj ↔ C)) :
    (∀ obj, ofMessage (rtObject size) (msg.own ++ behind) = .ok obj → Q obj) ↔
      (Accepted msg.list behind (size - 8) → C) := by
  rw [ofMessage, rtObject, msg.drop_body_append, msg.ifaPayload_append hsize, msg.wellFormed]
  by_cases haccepted : Accepted msg.list behind (size - 8)
  · obtain ⟨rtas, hrtas, hget⟩ := rtaArray_accepted hwindow haccepted
    rw [hrtas]
    constructor
    · exact fun hall _ => (hC _ rfl (sees_message hget)).mp (hall _ rfl)
    · intro hcond obj hobj
      cases hobj
      exact (hC _ rfl (sees_message hget)).mpr (hcond haccepted)
  · rw [rtaArray_refused haccepted]
    constructor
    · exact fun _ hyes => absurd hyes haccepted
    · intro _ obj hobj
      cases hobj

/-! ### The headers of messages -/

theorem ifaFamily_eq (msg : ListedMessage 8) {addr : RtObject}
    (hhdr : addr.hdr = nlmsgBody (msg.own ++ behind)) :
    ifaFamily addr.hdr = ifaFamily (nlmsgBody msg.own) := by
  rw [hhdr]
  exact msg.byteAt_body_append (by decide) behind

theorem ifaIndex_eq (msg : ListedMessage 8) {addr : RtObject}
    (hhdr : addr.hdr = nlmsgBody (msg.own ++ behind)) :
    ifaIndex addr.hdr = ifaIndex (nlmsgBody msg.own) := by
  rw [hhdr]
  exact msg.le32_body_append (by decide) behind

theorem rtmFamily_eq (msg : ListedMessage 12) {route : RtObject}
    (hhdr : route.hdr = nlmsgBody (msg.own ++ behind)) :
    rtmFamily route.hdr = rtmFamily (nlmsgBody msg.own) := by
  rw [hhdr]
  exact msg.byteAt_body_append (by decide) behind

theorem rtmDstLen_eq (msg : ListedMessage 12) {route : RtObject}
    (hhdr : route.hdr = nlmsgBody (msg.own ++ behind)) :
    rtmDstLen route.hdr = rtmDstLen (nlmsgBody msg.own) := by
  rw [hhdr]
  exact msg.byteAt_body_append (by decide) behind

end ListedMessage

/-! ### The reads of a message -/

def AddrReadsInside (d : Daemon) (msg : ListedMessage 8) (behind : Mem) : Prop :=
  ∀ addr, ofMessage ifaddr (msg.own ++ behind) = .ok addr →
    (addrReads d addr).All (Inside (Present msg.list behind))

def RouteReadsInside (names : IfNames) (stale : RtaTable) (msg : ListedMessage 12)
    (behind : Mem) : Prop :=
  ∀ obj, ofMessage route (msg.own ++ behind) = .ok obj →
    (routeReads names stale obj).All (Inside (Present msg.list behind))

def CommandReadsInside (names : IfNames) (stale : RtaTable) (isNew : Bool)
    (msg : ListedMessage 12) (behind : Mem) : Prop :=
  ∀ obj, ofMessage route (msg.own ++ behind) = .ok obj →
    (routeToIproute2Cli names stale obj isNew).All (Inside (Present msg.list behind))

def endTable : ListedMessage 12 where
  own := nlmsgBytes 24 (rtmsgBytes 10 128 254 1 ++ layout [plainRtattr 21 [7, 0],
    plainRtattr 22 (layout [plainRtattr 1 [3, 0, 0, 0], plainRtattr 3 [254, 0, 0, 0]])])
  length := by decide +kernel
  aligned := by decide +kernel
  covers := by decide +kernel
  list := [plainRtattr 21 [7, 0],
    plainRtattr 22 (layout [plainRtattr 1 [3, 0, 0, 0], plainRtattr 3 [254, 0, 0, 0]])]
  wellFormed := by decide +kernel

end Routerd
