import Routerd.NetlinkSocket
import Routerd.RtattrLayout

/-!
# Attributes of a request, written and read back

`addattr_l` of the netlink scripts appends an attribute to a request and leaves the bytes that
fill its last word as they were. A request to which attributes were appended therefore holds them
in memory in the layout of an attribute list, with any padding. Both parsers of the repository
read such a list: `parse_rtattr` keeps the last attribute of a type and `parse_rtattr_flags`
the first one, which for attributes of different types is the same.
-/

namespace Routerd
open ByteMemory OverwriteStore

/-- Bytes written into an object in memory. -/
def writeAt (m : Mem) (pos : ℕ) (bs : Mem) : Except Fault Mem :=
  if pos + bs.length ≤ m.length then .ok (splice m pos bs) else .error .overflow

/-- The bound is compared as an unsigned number. The length of the message is read again after
the attribute was written. -/
def addattrL (n : Mem) (maxlen : ℤ) (type : ℕ) (data : Mem) : Except Fault (Mem × ℤ) :=
  let len := data.length + 4
  if UInt32.ofInt maxlen < nlmsgAlign (le32 n 0) + UInt32.ofNat (rtaAlign len) then .ok (n, -1)
  else do
    let n ← writeAt n (nlmsgAlign (le32 n 0)).toNat (bytes16 len ++ (bytes16 type ++ data))
    let n ← writeAt n 0
      (bytes32 (nlmsgAlign (le32 n 0) + UInt32.ofNat (rtaAlign len)).toNat)
    pure (n, 0)

/-! ### The parser that keeps the first attribute -/

/-- `RTA_OK` with an `int` length. -/
def rtaOkInt (rta : Mem) (len : ℤ) : Prop := 4 ≤ len ∧ 4 ≤ rtaLen rta ∧ (rtaLen rta : ℤ) ≤ len

instance (rta : Mem) (len : ℤ) : Decidable (rtaOkInt rta len) :=
  inferInstanceAs (Decidable (_ ∧ _))

/-- The entry is written if there is one for the type and it is empty. -/
def storeFirst (max : ℕ) (tb : RtaTable) (type : ℕ) (rta : Mem) : RtaTable :=
  if type ≤ max ∧ tb type = .null then Function.update tb type (.mem rta) else tb

def parseRtattrFlagsLoop (max flags : ℕ) (rta : Mem) (len : ℤ) (tb : RtaTable) :
    RtaTable × Mem × ℤ :=
  if h : rtaOkInt rta len then
    parseRtattrFlagsLoop max flags (rtaNext rta) (len - rtaAlign (rtaLen rta))
      (storeFirst max tb (rtaType rta &&& (65535 - flags)) rta)
  else (tb, rta, len)
termination_by len.toNat
decreasing_by
  obtain ⟨hlen, hrta, -⟩ := h
  unfold rtaAlign
  omega

/-- The table, and the length and `rta_len` of the message about a deficit. -/
def parseRtattrFlags (tb : RtaTable) (max : ℕ) (rta : Mem) (len : ℤ) (flags : ℕ) :
    RtaTable × Option (ℤ × ℕ) :=
  let (tb, rta, len) :=
    parseRtattrFlagsLoop max flags rta len fun t => if t ≤ max then .null else tb t
  (tb, if len ≠ 0 then some (len, rtaLen rta) else none)

/-! ### Requests -/

/-- A buffer that begins with a message header, and the bound that is passed for the message. The
header counts itself, the bound lies in the buffer, and both lengths are those of an `int`. -/
structure RequestBuffer where
  bytes : Mem
  maxlen : ℕ
  header_le : 16 ≤ nlmsgLen bytes
  len_lt : nlmsgLen bytes < 2 ^ 31
  room : maxlen ≤ bytes.length
  maxlen_lt : maxlen < 2 ^ 31

/-- Where the first attribute is written. -/
def RequestBuffer.areaStart (req : RequestBuffer) : ℕ := rtaAlign (nlmsgLen req.bytes)

/-- The arguments of a call: the length of an attribute has 16 bits, and the array of
`parse_rtattr` has room for the type. -/
structure AttributeArg where
  type : ℕ
  data : Mem
  type_lt : type < maxAttrs
  data_le : data.length ≤ 65531

/-- One call after the other, with the values they return. -/
def addattrAll (n : Mem) (maxlen : ℤ) : List AttributeArg → Except Fault (Mem × List ℤ)
  | [] => .ok (n, [])
  | a :: args => do
    let (n, code) ← addattrL n maxlen a.type a.data
    let (n, codes) ← addattrAll n maxlen args
    pure (n, code :: codes)

/-! ### A list read by the second parser -/

theorem rtaType_land (rta : Mem) : rtaType rta &&& (65535 - 0) = rtaType rta := by
  have hlt : rtaType rta < 2 ^ 16 := le16_lt rta 2
  have hmask := Nat.and_two_pow_sub_one_eq_mod (rtaType rta) 16
  rw [Nat.mod_eq_of_lt hlt] at hmask
  exact hmask

theorem storeFirst_apply (max : ℕ) (tb : RtaTable) (type t : ℕ) (rta : Mem) :
    storeFirst max tb type rta t =
      if t = type ∧ type ≤ max ∧ tb type = .null then .mem rta else tb t := by
  unfold storeFirst
  by_cases hcond : type ≤ max ∧ tb type = .null
  · rw [if_pos hcond, Function.update_apply]
    simp [hcond]
  · rw [if_neg hcond, if_neg fun h => hcond h.2]

theorem parseRtattrFlagsLoop_layout_cons (max : ℕ) (a : Rtattr) (attrs : List Rtattr)
    (behind : Mem) (tb : RtaTable) :
    parseRtattrFlagsLoop max 0 (layout (a :: attrs) ++ behind) (layout (a :: attrs)).length tb =
      parseRtattrFlagsLoop max 0 (layout attrs ++ behind) (layout attrs).length
        (storeFirst max tb a.type (a.bytes ++ (layout attrs ++ behind))) := by
  have hlen : (layout (a :: attrs)).length = rtaAlign a.len + (layout attrs).length := by
    rw [layout_cons, List.length_append, a.length_bytes]
  have hle := a.len_le_layout attrs
  have hok : rtaOkInt (a.bytes ++ (layout attrs ++ behind)) (layout (a :: attrs)).length := by
    have hfour : 4 ≤ a.len := Nat.le_add_left 4 _
    rw [rtaOkInt, a.rtaLen_bytes]
    omega
  have hrest : ((layout (a :: attrs)).length : ℤ) - rtaAlign a.len = (layout attrs).length := by
    omega
  rw [parseRtattrFlagsLoop, layout_cons, List.append_assoc, ← layout_cons, dif_pos hok,
    rtaType_land, a.rtaType_bytes, a.rtaNext_bytes, a.rtaLen_bytes, hrest]

/-- The loop keeps what the table holds and adds the first attribute of each other type. -/
theorem parseRtattrFlagsLoop_layout (max : ℕ) (attrs : List Rtattr) (behind : Mem)
    (tb : RtaTable) :
    parseRtattrFlagsLoop max 0 (layout attrs ++ behind) (layout attrs).length tb =
      (fun t => if t ≤ max ∧ tb t = .null then
        ((layoutEntries attrs behind).lookup t).getD .null else tb t, behind, 0) := by
  -- over the list, for every table: a round hands on one in which an entry may be taken
  induction attrs generalizing tb with
  | nil =>
    rw [parseRtattrFlagsLoop, dif_neg fun hok => absurd hok.1 (by decide)]
    refine Prod.ext (funext fun t => ?_) rfl
    dsimp only
    by_cases ht : t ≤ max ∧ tb t = .null
    · rw [if_pos ht, ht.2]
      rfl
    · rw [if_neg ht]
  | cons a attrs ih =>
    rw [parseRtattrFlagsLoop_layout_cons, ih]
    refine Prod.ext (funext fun t => ?_) rfl
    dsimp only
    rw [storeFirst_apply, layoutEntries, List.lookup_cons]
    by_cases ht : t = a.type
    · subst ht
      by_cases hcond : a.type ≤ max ∧ tb a.type = .null
      · simp [hcond]
      · simp [hcond]
    · have hbeq : (t == a.type) = false := beq_eq_false_iff_ne.mpr ht
      simp [ht, hbeq]

theorem parseRtattrFlags_layout (tb : RtaTable) (max : ℕ) (attrs : List Rtattr) (behind : Mem) :
    parseRtattrFlags tb max (layout attrs ++ behind) (layout attrs).length 0 =
      (fun t => if t ≤ max then ((layoutEntries attrs behind).lookup t).getD .null else tb t,
        none) := by
  unfold parseRtattrFlags
  rw [parseRtattrFlagsLoop_layout]
  refine Prod.ext (funext fun t => ?_) rfl
  dsimp only
  by_cases ht : t ≤ max
  · simp [ht]
  · simp [ht]

theorem rel_lookup_layoutEntries (attrs : List Rtattr) (t : ℕ) (behind : Mem) :
    Option.Rel (fun a p => Shows (some a) p) (attrs.find? fun a => a.type = t)
      ((layoutEntries attrs behind).lookup t) := by
  induction attrs with
  | nil => exact Option.Rel.none
  | cons a attrs ih =>
    rw [layoutEntries, List.lookup_cons, List.find?_cons]
    by_cases ht : a.type = t
    · subst ht
      simp only [decide_true, BEq.rfl]
      exact Option.Rel.some (Shows.present a _)
    · have hbeq : (t == a.type) = false := beq_eq_false_iff_ne.mpr fun hc => ht hc.symm
      simp only [ht, decide_false, hbeq]
      exact ih

theorem shows_parseRtattrFlags (tb : RtaTable) {max t : ℕ} (ht : t ≤ max) (attrs : List Rtattr)
    (behind : Mem) :
    Shows (attrs.find? fun a => a.type = t)
      ((parseRtattrFlags tb max (layout attrs ++ behind) (layout attrs).length 0).1 t) := by
  have hrel := rel_lookup_layoutEntries attrs t behind
  rw [parseRtattrFlags_layout]
  dsimp only
  rw [if_pos ht]
  generalize (attrs.find? fun a => a.type = t) = a, (layoutEntries attrs behind).lookup t = p
    at hrel
  cases hrel with
  | none => exact Shows.absent
  | some hshows => exact hshows

/-- The pointer leads to an attribute with this payload. -/
def PayloadIs (p : Ptr) (data : Mem) : Prop :=
  ∃ m, p = .mem m ∧ rtaPayload p = .ok data.length ∧ (m.drop 4).take data.length = data

theorem Shows.payloadIs {a : Rtattr} {p : Ptr} (h : Shows (some a) p) : PayloadIs p a.payload := by
  cases h with
  | present a behind => exact ⟨_, rfl, a.rtaPayload_bytes behind, a.take_payload behind⟩

theorem Shows.eq_null {p : Ptr} (h : Shows none p) : p = .null := by
  cases h
  rfl

/-- Among the types that a table has entries for, the entries lead to the payloads of these
arguments, and there are no others. -/
structure ShowsPayloads (args : List AttributeArg) (inTable : ℕ → Prop) (entry : ℕ → Ptr) :
    Prop where
  appended : ∀ a ∈ args, inTable a.type → PayloadIs (entry a.type) a.data
  others : ∀ t, inTable t → (∀ a ∈ args, a.type ≠ t) → entry t = .null

/-- The attributes are those of the arguments, with any padding. -/
def Renders (args : List AttributeArg) (attrs : List Rtattr) : Prop :=
  List.Forall₂ (fun a r => r.type = a.type ∧ r.payload = a.data) args attrs

section Renders

variable {args : List AttributeArg} {attrs : List Rtattr}

theorem Renders.map_type (h : Renders args attrs) :
    attrs.map Rtattr.type = args.map AttributeArg.type := by
  induction h with
  | nil => rfl
  | cons hhead _ ih => rw [List.map_cons, List.map_cons, hhead.1, ih]

theorem Renders.exists_attr (h : Renders args attrs) {a : AttributeArg} (ha : a ∈ args) :
    ∃ r ∈ attrs, r.type = a.type ∧ r.payload = a.data := by
  induction h with
  | nil => exact absurd ha List.not_mem_nil
  | cons hhead _ ih =>
    rcases List.mem_cons.mp ha with rfl | ha
    · exact ⟨_, List.mem_cons_self, hhead⟩
    · obtain ⟨r, hr, hsame⟩ := ih ha
      exact ⟨r, List.mem_cons_of_mem _ hr, hsame⟩

theorem Renders.exists_arg (h : Renders args attrs) {r : Rtattr} (hr : r ∈ attrs) :
    ∃ a ∈ args, r.type = a.type := by
  have hmem : r.type ∈ attrs.map Rtattr.type := List.mem_map_of_mem hr
  rw [h.map_type] at hmem
  obtain ⟨a, ha, htype⟩ := List.mem_map.mp hmem
  exact ⟨a, ha, htype.symm⟩

/-- A table that shows one attribute of each type reads the arguments back, if their
types are distinct. -/
theorem Renders.showsPayloads (h : Renders args attrs) {inTable : ℕ → Prop} {entry : ℕ → Ptr}
    {pick : ℕ → Option Rtattr} (hshows : ∀ t, inTable t → Shows (pick t) (entry t))
    (hpick : ∀ r ∈ attrs, pick r.type = some r)
    (hnone : ∀ t, (∀ r ∈ attrs, r.type ≠ t) → pick t = none) :
    ShowsPayloads args inTable entry where
  appended a ha ht := by
    obtain ⟨r, hr, htype, hpayload⟩ := h.exists_attr ha
    have hentry := hshows a.type ht
    rw [← htype, hpick r hr, htype] at hentry
    rw [← hpayload]
    exact hentry.payloadIs
  others t ht hother := by
    have hentry := hshows t ht
    rw [hnone t] at hentry
    · exact hentry.eq_null
    · intro r hr hc
      obtain ⟨a, ha, htype⟩ := h.exists_arg hr
      exact hother a ha (htype.symm.trans hc)

theorem find?_type_of_nodup (hnodup : (attrs.map Rtattr.type).Nodup) {r : Rtattr}
    (hr : r ∈ attrs) : (attrs.find? fun a => a.type = r.type) = some r := by
  cases hfind : attrs.find? fun a => a.type = r.type with
  | none =>
    have hnone := List.find?_eq_none.mp hfind r hr
    exact absurd (decide_eq_true rfl) hnone
  | some r' =>
    have htype : r'.type = r.type := by simpa using List.find?_some hfind
    exact congrArg some (List.inj_on_of_nodup_map hnodup (List.mem_of_find?_eq_some hfind) hr htype)

theorem Renders.parsers (h : Renders args attrs) (hdistinct : (args.map AttributeArg.type).Nodup)
    (behind : Mem) :
    ∃ rtas, rtaArray (layout attrs ++ behind) (layout attrs).length = .ok rtas ∧
      ShowsPayloads args (· < maxAttrs) rtas.get ∧
      ∀ tb max, ShowsPayloads args (· ≤ max)
        (parseRtattrFlags tb max (layout attrs ++ behind) (layout attrs).length 0).1 := by
  have hnodup : (attrs.map Rtattr.type).Nodup := by
    rw [h.map_type]
    exact hdistinct
  have htypes : ∀ r ∈ attrs, r.type < maxAttrs := by
    intro r hr
    obtain ⟨a, -, htype⟩ := h.exists_arg hr
    rw [htype]
    exact a.type_lt
  obtain ⟨rtas, hrtas, hshows⟩ := rtaArray_layout_shows htypes behind
  refine ⟨rtas, hrtas, ?_, fun tb max => ?_⟩
  · exact h.showsPayloads (fun t _ => hshows t) (fun r hr => newest_of_nodup _ hnodup hr)
      fun t ht => (newest_eq_none_iff _).mpr ht
  · refine h.showsPayloads (fun t ht => shows_parseRtattrFlags tb ht attrs behind)
      (fun r hr => find?_type_of_nodup hnodup hr) fun t ht => ?_
    rw [List.find?_eq_none]
    intro r hr
    simpa using ht r hr

end Renders

/-! ### Appending -/

theorem maxAttrs_lt : maxAttrs < 65536 := by decide

namespace AttributeArg

variable (a : AttributeArg)

def written : Mem := bytes16 (a.data.length + 4) ++ (bytes16 a.type ++ a.data)

theorem length_written : a.written.length = a.data.length + 4 := by
  simp only [written, List.length_append, bytes16, List.length_cons, List.length_nil]
  omega

def space : ℕ := rtaAlign (a.data.length + 4)

theorem space_eq : a.space = a.written.length + (rtaAlign a.data.length - a.data.length) := by
  rw [length_written]
  unfold space rtaAlign
  omega

theorem space_le : a.space ≤ 65536 := by
  have hle := a.data_le
  unfold space rtaAlign
  omega

def rendered (fill : Mem)
    (hfill : rtaAlign a.data.length - a.data.length ≤ fill.length) : Rtattr where
  type := a.type
  payload := a.data
  padding := fill.take (rtaAlign a.data.length - a.data.length)
  type_lt := a.type_lt.trans maxAttrs_lt
  payload_le := a.data_le
  padded := List.length_take_of_le hfill

theorem bytes_rendered (fill : Mem)
    (hfill : rtaAlign a.data.length - a.data.length ≤ fill.length) :
    a.written ++ fill =
      (a.rendered fill hfill).bytes ++ fill.drop (rtaAlign a.data.length - a.data.length) := by
  simp [Rtattr.bytes, Rtattr.len, rendered, written]

theorem length_layout_rendered (attrs : List Rtattr) (fill : Mem)
    (hfill : rtaAlign a.data.length - a.data.length ≤ fill.length) :
    (layout (attrs ++ [a.rendered fill hfill])).length = (layout attrs).length + a.space := by
  rw [layout_append, List.length_append, layout_cons, layout_nil, List.append_nil,
    Rtattr.length_bytes]
  rfl

end AttributeArg

theorem writeAt_ok {m : Mem} {pos : ℕ} {bs : Mem} (h : pos + bs.length ≤ m.length) :
    writeAt m pos bs = .ok (splice m pos bs) := if_pos h

theorem nlmsgLen_splice (m : Mem) {x : ℕ} (hx : x < 2 ^ 32) :
    nlmsgLen (splice m 0 (bytes32 x)) = x := by
  rw [nlmsgLen, splice, List.take_zero, List.nil_append, le32_bytes32 hx]

theorem length_bytes32 (x : ℕ) : (bytes32 x).length = 4 := rfl

/-- The buffer of the request, with these attributes appended. Before the first one the message
may end inside a word, and beyond the bound. -/
structure Holding (req : RequestBuffer) (attrs : List Rtattr) (n : Mem) : Prop where
  length_eq : n.length = req.bytes.length
  len_lt : nlmsgLen n < 2 ^ 31
  align_eq : rtaAlign (nlmsgLen n) = req.areaStart + (layout attrs).length
  len_le : attrs ≠ [] → nlmsgLen n ≤ req.maxlen
  len_eq : attrs ≠ [] → nlmsgLen n = req.areaStart + (layout attrs).length
  area : ∃ behind, n.drop req.areaStart = layout attrs ++ behind

theorem RequestBuffer.holding_nil (req : RequestBuffer) : Holding req [] req.bytes :=
  ⟨rfl, req.len_lt, rfl, fun hne => absurd rfl hne, fun hne => absurd rfl hne, _, rfl⟩

theorem RequestBuffer.header_le_areaStart (req : RequestBuffer) : 16 ≤ req.areaStart := by
  have hheader := req.header_le
  unfold areaStart rtaAlign
  omega

theorem RequestBuffer.toNat_maxlen (req : RequestBuffer) :
    (UInt32.ofInt (req.maxlen : ℤ)).toNat = req.maxlen := by
  have hlt := req.maxlen_lt
  rw [UInt32.ofInt, UInt32.toNat_ofNat']
  omega

namespace Holding

variable {req : RequestBuffer} {attrs : List Rtattr} {n : Mem}

theorem tail_eq (h : Holding req attrs n) :
    (nlmsgAlign (le32 n 0)).toNat = req.areaStart + (layout attrs).length := by
  have hlt : (le32 n 0).toNat < 2 ^ 31 := h.len_lt
  have halign : ((le32 n 0).toNat + 3) / 4 * 4 = req.areaStart + (layout attrs).length :=
    h.align_eq
  rw [toNat_nlmsgAlign]
  omega

theorem total_eq (h : Holding req attrs n) {k : ℕ} (hk : k ≤ 65536) :
    (nlmsgAlign (le32 n 0) + UInt32.ofNat k).toNat =
      req.areaStart + (layout attrs).length + k := by
  have hlt := h.len_lt
  have halign : (nlmsgLen n + 3) / 4 * 4 = req.areaStart + (layout attrs).length := h.align_eq
  rw [UInt32.toNat_add, UInt32.toNat_ofNat', h.tail_eq]
  omega

theorem toNat_total (h : Holding req attrs n) (a : AttributeArg) :
    (nlmsgAlign (le32 n 0) + UInt32.ofNat (rtaAlign (a.data.length + 4))).toNat =
      req.areaStart + (layout attrs).length + a.space := h.total_eq a.space_le

theorem exceeds_iff (h : Holding req attrs n) (a : AttributeArg) :
    UInt32.ofInt (req.maxlen : ℤ) <
        nlmsgAlign (le32 n 0) + UInt32.ofNat (rtaAlign (a.data.length + 4)) ↔
      req.maxlen < req.areaStart + (layout attrs).length + a.space := by
  rw [UInt32.lt_iff_toNat_lt, h.toNat_total, req.toNat_maxlen]

theorem addattrL_eq (h : Holding req attrs n) (a : AttributeArg)
    (hfits : req.areaStart + (layout attrs).length + a.space ≤ req.maxlen) :
    addattrL n req.maxlen a.type a.data =
      .ok (splice (splice n (req.areaStart + (layout attrs).length) a.written) 0
        (bytes32 (req.areaStart + (layout attrs).length + a.space)), 0) := by
  have hheader := req.header_le_areaStart
  have hwrite : req.areaStart + (layout attrs).length + a.written.length ≤ n.length := by
    have hroom := req.room
    have hspace := a.space_eq
    rw [h.length_eq]
    omega
  unfold addattrL
  dsimp only
  -- the second read of the length sees the header, which the attribute lies behind
  rw [if_neg (mt (h.exceeds_iff a).mp (not_lt.mpr hfits)), h.tail_eq, ← AttributeArg.written,
    writeAt_ok hwrite, ok_bind, le32_splice (by omega) (by omega), h.toNat_total, writeAt_ok,
    ok_bind]
  · rfl
  · rw [length_splice hwrite, length_bytes32]
    omega

theorem drop_areaStart (h : Holding req attrs n) {bs fill : Mem}
    (hfill : n.drop (req.areaStart + (layout attrs).length + bs.length) = fill)
    (htail : req.areaStart + (layout attrs).length ≤ n.length) (x : ℕ) :
    (splice (splice n (req.areaStart + (layout attrs).length) bs) 0 (bytes32 x)).drop
      req.areaStart = layout attrs ++ (bs ++ fill) := by
  have hheader := req.header_le_areaStart
  obtain ⟨behind, hbehind⟩ := h.area
  rw [drop_splice_of_ge (by rw [length_bytes32]; omega) (Nat.zero_le _),
    drop_splice_of_le (Nat.le_add_right _ _) htail, Nat.add_sub_cancel_left, hbehind,
    List.take_left, hfill]

theorem append (h : Holding req attrs n) (a : AttributeArg)
    (hfits : req.areaStart + (layout attrs).length + a.space ≤ req.maxlen) :
    ∃ n' r, addattrL n req.maxlen a.type a.data = .ok (n', 0) ∧ r.type = a.type ∧
      r.payload = a.data ∧ Holding req (attrs ++ [r]) n' := by
  have hmax := req.maxlen_lt
  have hwrite : req.areaStart + (layout attrs).length + a.space ≤ n.length := by
    rw [h.length_eq]
    exact hfits.trans req.room
  have hspace := a.space_eq
  -- what the buffer holds behind the payload becomes the padding
  obtain ⟨fill, hdrop⟩ : ∃ fill,
      n.drop (req.areaStart + (layout attrs).length + a.written.length) = fill := ⟨_, rfl⟩
  have hfill : rtaAlign a.data.length - a.data.length ≤ fill.length := by
    rw [← hdrop, List.length_drop]
    omega
  have hlayout := a.length_layout_rendered attrs fill hfill
  have hlen := nlmsgLen_splice (splice n (req.areaStart + (layout attrs).length) a.written)
    (show req.areaStart + (layout attrs).length + a.space < 2 ^ 32 by omega)
  refine ⟨_, a.rendered fill hfill, h.addattrL_eq a hfits, rfl, rfl, ?_, ?_, ?_, ?_, ?_, ?_⟩
  · have hheader := req.header_le_areaStart
    have hinner := length_splice (show req.areaStart + (layout attrs).length +
      a.written.length ≤ n.length by omega)
    rw [length_splice (by rw [hinner, length_bytes32]; omega), hinner, h.length_eq]
  · rw [hlen]
    exact hfits.trans_lt hmax
  · have halign : (nlmsgLen n + 3) / 4 * 4 = req.areaStart + (layout attrs).length := h.align_eq
    rw [hlen, hlayout]
    unfold rtaAlign AttributeArg.space rtaAlign
    omega
  · intro _
    rw [hlen]
    exact hfits
  · intro _
    rw [hlen, hlayout, Nat.add_assoc]
  · refine ⟨fill.drop (rtaAlign a.data.length - a.data.length), ?_⟩
    rw [h.drop_areaStart hdrop (by omega), a.bytes_rendered fill hfill,
      layout_append, layout_cons, layout_nil, List.append_nil, List.append_assoc]

theorem refuse (h : Holding req attrs n) (a : AttributeArg)
    (hfits : ¬ req.areaStart + (layout attrs).length + a.space ≤ req.maxlen) :
    addattrL n req.maxlen a.type a.data = .ok (n, -1) :=
  if_pos ((h.exceeds_iff a).mpr (not_le.mp hfits))

end Holding

def accepted (args : List AttributeArg) (codes : List ℤ) : List AttributeArg :=
  ((args.zip codes).filter fun p => p.2 = 0).map Prod.fst

theorem accepted_eq_self {args : List AttributeArg} {codes : List ℤ}
    (hlength : codes.length = args.length) (hzero : ∀ c ∈ codes, c = 0) :
    accepted args codes = args := by
  have hall : (args.zip codes).filter (fun p => p.2 = 0) = args.zip codes := by
    rw [List.filter_eq_self]
    intro p hp
    exact decide_eq_true (hzero p.2 (List.of_mem_zip hp).2)
  rw [accepted, hall, List.map_fst_zip hlength.ge]

/-- Whatever the calls return, the buffer then holds the attributes of those that returned 0. -/
theorem Holding.addattrAll {req : RequestBuffer} {attrs : List Rtattr} {n : Mem}
    (h : Holding req attrs n) (args : List AttributeArg) :
    ∃ n' codes attrs', Routerd.addattrAll n req.maxlen args = .ok (n', codes) ∧
      codes.length = args.length ∧ Renders (accepted args codes) attrs' ∧
      Holding req (attrs ++ attrs') n' := by
  induction args generalizing attrs n with
  | nil => exact ⟨n, [], [], rfl, rfl, .nil, by rw [List.append_nil]; exact h⟩
  | cons a args ih =>
    by_cases hfits : req.areaStart + (layout attrs).length + a.space ≤ req.maxlen
    · obtain ⟨n₁, r, hcall, htype, hpayload, h₁⟩ := h.append a hfits
      obtain ⟨n', codes, attrs', hall, hlength, hrenders, h'⟩ := ih h₁
      refine ⟨n', 0 :: codes, r :: attrs', ?_, by simp [hlength], ?_, ?_⟩
      · rw [Routerd.addattrAll, hcall, ok_bind]
        dsimp only
        rw [hall]
        rfl
      · exact .cons ⟨htype, hpayload⟩ hrenders
      · rw [List.append_assoc] at h'
        exact h'
    · obtain ⟨n', codes, attrs', hall, hlength, hrenders, h'⟩ := ih h
      refine ⟨n', -1 :: codes, attrs', ?_, by simp [hlength], ?_, h'⟩
      · rw [Routerd.addattrAll, h.refuse a hfits, ok_bind]
        dsimp only
        rw [hall]
        rfl
      · simpa [accepted] using hrenders

theorem addattrL_unchanged {n n' : Mem} {maxlen : ℤ} {type : ℕ} {data : Mem}
    (h : addattrL n maxlen type data = .ok (n', -1)) : n' = n := by
  unfold addattrL at h
  dsimp only at h
  split at h
  · cases h
    rfl
  · obtain ⟨n₁, -, h⟩ := bind_eq_ok h
    obtain ⟨n₂, -, h⟩ := bind_eq_ok h
    cases h

/-- Attributes of distinct types are appended to a request. If every call returns 0, the message
ends at a word boundary within the bound, and both parsers, over the area behind the header,
find for each type that was appended the payload and nothing for any other type. A call that
returns -1 leaves the message as it was. -/
theorem addattr_read_back (req : RequestBuffer) (args : List AttributeArg) (hne : args ≠ [])
    (hdistinct : (args.map AttributeArg.type).Nodup) :
    (∃ n codes, addattrAll req.bytes req.maxlen args = .ok (n, codes) ∧
      codes.length = args.length ∧
      ((∀ c ∈ codes, c = 0) → nlmsgLen n % 4 = 0 ∧ nlmsgLen n ≤ req.maxlen ∧
        ∃ rtas, rtaArray (n.drop req.areaStart) (nlmsgLen n - req.areaStart) = .ok rtas ∧
          ShowsPayloads args (· < maxAttrs) rtas.get ∧
          ∀ tb max, ShowsPayloads args (· ≤ max) (parseRtattrFlags tb max (n.drop req.areaStart)
            (nlmsgLen n - req.areaStart : ℕ) 0).1)) ∧
      ∀ n n' maxlen type data, addattrL n maxlen type data = .ok (n', -1) → n' = n := by
  refine ⟨?_, fun n n' maxlen type data => addattrL_unchanged⟩
  obtain ⟨n, codes, attrs, hall, hlength, hrenders, h⟩ := req.holding_nil.addattrAll args
  refine ⟨n, codes, hall, hlength, fun hzero => ?_⟩
  rw [accepted_eq_self hlength hzero] at hrenders
  rw [List.nil_append] at h
  have hattrs : attrs ≠ [] := by
    rintro rfl
    cases hrenders
    exact hne rfl
  obtain ⟨behind, harea⟩ := h.area
  have hlen := h.len_eq hattrs
  have halign : (nlmsgLen n + 3) / 4 * 4 = req.areaStart + (layout attrs).length := h.align_eq
  refine ⟨by omega, h.len_le hattrs, ?_⟩
  rw [harea, hlen, Nat.add_sub_cancel_left]
  exact hrenders.parsers hdistinct behind

/-- Two attributes fit into a request of 44 bytes; the second one has no payload. -/
theorem addattr_read_back_two : ∃ (req : RequestBuffer) (args : List AttributeArg) (n : Mem),
    args.map AttributeArg.type = [8, 1] ∧
      addattrAll req.bytes req.maxlen args = .ok (n, [0, 0]) ∧ nlmsgLen n = 28 ∧
      ∃ rtas, rtaArray (n.drop req.areaStart) (nlmsgLen n - req.areaStart) = .ok rtas ∧
        ShowsPayloads args (· < maxAttrs) rtas.get := by
  refine ⟨⟨bytes32 16 ++ List.replicate 40 170, 44, by decide, by decide, by decide, by decide⟩,
    [⟨8, [7], by decide, by decide⟩, ⟨1, [], by decide, by decide⟩],
    bytes32 28 ++ List.replicate 12 170 ++ [5, 0, 8, 0, 7, 170, 170, 170, 4, 0, 1, 0] ++
      List.replicate 16 170, rfl, rfl, rfl, ?_⟩
  obtain ⟨⟨n, codes, hall, -, hread⟩, -⟩ := addattr_read_back
    ⟨bytes32 16 ++ List.replicate 40 170, 44, by decide, by decide, by decide, by decide⟩
    [⟨8, [7], by decide, by decide⟩, ⟨1, [], by decide, by decide⟩] (by simp) (by decide)
  cases hall
  obtain ⟨-, -, rtas, hrtas, hback, -⟩ := hread (by decide)
  exact ⟨rtas, hrtas, hback⟩

end Routerd
