import Routerd.LegibleAttributes
import Routerd.MessageSummaries
import Routerd.SummaryLines

/-!
# An encapsulation and its type in a message

The nested attributes of an encapsulation are printed by its type, which is another
attribute of the message. `rtmsg_rtattr_summary` and `nhmsg_rtattr_summary` do not search
the message for it: they read whatever comes next and assert that it is the type. So the
order of the attributes matters, which it should not. Which messages are rendered is said
by the types, lengths and order of their attributes; two of them that differ in the order
only have the same lines.
-/

namespace Routerd
open ByteMemory NumeralText

def rtmsgSummary (rtm : Mem) : Text :=
  "fmly=".toList ++ decimal (byteAt rtm 0).toNat ++ " dl=".toList ++
    decimal (byteAt rtm 1).toNat ++ " sl=".toList ++ decimal (byteAt rtm 2).toNat ++
    " tos=".toList ++ decimal (byteAt rtm 3).toNat ++ " tab=".toList ++
    decimal (byteAt rtm 4).toNat ++ " pro=".toList ++ decimal (byteAt rtm 5).toNat ++
    " scope=".toList ++ decimal (byteAt rtm 6).toNat ++ " type=".toList ++
    decimal (byteAt rtm 7).toNat ++ " f=0x".toList ++ hex (le32 rtm 8).toNat

/-- `RTM_RTA` is behind the twelve bytes of the `rtmsg`, the length is `IFA_PAYLOAD`. -/
def rtnlRouteSummary (fuel : ℕ) (hdr : Mem) : SummaryRun :=
  summaryLoop rtmsgRtattrSummary hdr fuel (16 + 12) (ifaPayload hdr)
    (rtmsgSummary (nlmsgBody hdr) ++ ['\n'])

/-- The messages whose summaries have the branch of an encapsulation. -/
inductive EncapFamily where
  | route
  | nexthop
  deriving DecidableEq, Repr

namespace EncapFamily

def encap : EncapFamily → ℕ
  | route => rtaEncap
  | nexthop => nhaEncap

def encapType : EncapFamily → ℕ
  | route => rtaEncapType
  | nexthop => nhaEncapType

def encapName : EncapFamily → String
  | route => "RTA_ENCAP"
  | nexthop => "NHA_ENCAP"

def size : EncapFamily → ℕ
  | route => 12
  | nexthop => 8

def msgSummary : EncapFamily → Mem → Text
  | route => rtmsgSummary
  | nexthop => nhmsgSummary

def attrSummary : EncapFamily → Mem → Except Fault Text
  | route => rtmsgRtattrSummary
  | nexthop => nhmsgRtattrSummary

def summary (f : EncapFamily) (hdr : Mem) : SummaryRun :=
  match f with
  | route => rtnlRouteSummary hdr.length hdr
  | nexthop => rtnlNexthopSummary hdr.length hdr

/-- The walk over the next hops of a route, which goes on behind the attribute. -/
def Reaches (f : EncapFamily) (a : Rtattr) : Prop := f = .route ∧ a.type = rtaMultipath

/-- The length that is asserted of an attribute of the message. -/
def Length (f : EncapFamily) (a : Rtattr) : Prop :=
  match f with
  | route => RouteLength a.type a.len (le16 a.bytes 4)
  | nexthop => NexthopLength a.type a.len

/-- What the nested attributes of an encapsulation print in their place by a kind. -/
def encapText (f : EncapFamily) (nested : List Rtattr) (kind : ℕ) (behind : Mem) :
    Except Fault Text := do
  let texts ← (layoutViews nested behind).mapM (encapAttrSummary kind)
  .ok (attrHdr 16 f.encap f.encapName ++ nestedData 4 texts)

end EncapFamily

/-- The text of an encapsulation by its kind. -/
def EncapFamily.encapLine (f : EncapFamily) (nested : List Rtattr) (kind : ℕ) : Option Text := do
  let texts ← nested.mapM (ownText kind)
  some (attrHdr 16 f.encap f.encapName ++ nestedData 4 texts)

/-- A message with one encapsulation and one type of it, somewhere. Next hops of a route have
neither an encapsulation nor next hops of their own. -/
structure EncapMessage (f : EncapFamily) extends ListedMessage f.size where
  before : List Rtattr
  encap : Rtattr
  after : List Rtattr
  nested : List Rtattr
  encapType : Rtattr
  kind : UInt16
  hops : Rtattr → List NextHop
  list_eq : list = before ++ encap :: after
  encap_type : encap.type = f.encap
  encap_payload : encap.payload = layout nested
  encapType_payload : encapType.payload = bytes16 kind.toNat
  one_encap : ∀ a ∈ before ++ after, a.type ≠ f.encap
  one_encapType : (before ++ after).filter (fun a => a.type = f.encapType) = [encapType]
  hops_payload : ∀ a ∈ list, f.Reaches a → a.payload = hopsBytes (hops a)
  hops_plain : ∀ a ∈ list, f.Reaches a → ∀ h ∈ hops a, ∀ b ∈ h.attrs,
    b.type ≠ rtaEncap ∧ b.type ≠ rtaMultipath

namespace EncapMessage

variable {f : EncapFamily} (m : EncapMessage f) (behind : Mem)

/-- The text of an attribute wherever it stands: of the encapsulation by its type, and of
any other attribute what is printed for it alone. -/
def line (a : Rtattr) : Option Text :=
  if a.type = f.encap then f.encapLine m.nested m.kind.toNat else (f.attrSummary a.bytes).toOption

/-- The summary ends, and it shows a line for each attribute of the message, in order. -/
def Rendered : Prop :=
  ∃ lines : List Text, m.list.map m.line = lines.map some ∧
    (f.summary (m.own ++ behind)).visited.map
        (fun h => f.attrSummary ((m.own ++ behind).drop h)) = lines.map .ok ∧
    (f.summary (m.own ++ behind)).ending =
      .printed (f.msgSummary (nlmsgBody (m.own ++ behind)) ++ ['\n'] ++ linesText lines)

def behindEncap : Mem := layout m.after ++ behind

/-- The encapsulation is printed by `kind`: its type comes next, or it is the last
attribute and the memory behind the message passes for a type. -/
def TypeSeen (kind : ℕ) : Prop :=
  (m.after.head? = some m.encapType ∧ kind = m.kind.toNat) ∨
    (m.after = [] ∧ rtaType behind = f.encapType ∧ rtaLen behind = 6 ∧ kind = le16 behind 4)

/-- What has to hold of the attributes of a message. Each has the length asserted of its type. Next
hops are not followed by what passes for one more. The type comes right behind the encapsulation, or
what is read there prints the same, and the nested attributes have their lengths. Behind the message
there is no attribute. -/
structure Legible : Prop where
  lengths : ∀ a ∈ m.before ++ m.after, f.Length a
  hops : ∀ x ∈ located m.list behind, f.Reaches x.1 →
    (∀ h ∈ m.hops x.1, ∀ b ∈ h.attrs, RouteLength b.type b.len (le16 b.bytes 4)) ∧
      ¬ rtnhOk x.2 x.1.payload.length
  encap : ∃ kind, m.TypeSeen behind kind ∧ KindsAlike m.nested kind m.kind.toNat ∧
    ∀ a ∈ m.nested, NestedLegible m.kind.toNat a
  last : ¬ rtaOk behind (f.size - 8)

end EncapMessage

/-! ### The walk -/

theorem EncapFamily.summary_eq (f : EncapFamily) (hdr : Mem) : f.summary hdr =
    summaryLoop f.attrSummary hdr hdr.length (16 + f.size) (ifaPayload hdr)
      (f.msgSummary (nlmsgBody hdr) ++ ['\n']) := by
  cases f <;> rfl

theorem EncapFamily.attrSummary_of_encap (f : EncapFamily) {rta : Mem}
    (htype : rtaType rta = f.encap) : f.attrSummary rta = (do
      let texts ← encapTexts f.encapType rta
      .ok (attrHdr 16 f.encap f.encapName ++ nestedData 4 texts)) := by
  cases f with
  | route =>
    have htypes : rtaEncap ∉ routeTypes32 := by decide
    have hname : rtaTypeRouteToStr rtaEncap = "RTA_ENCAP" := by decide
    change rtmsgRtattrSummary rta = _
    rw [rtmsgRtattrSummary_eq]
    unfold rtmsgRtattrSummaryWith
    rw [htype, EncapFamily.encap, if_neg htypes, if_neg (by decide), if_neg (by decide), if_pos rfl,
      hname, EncapFamily.encapType, EncapFamily.encapName]
  | nexthop =>
    have hid : ¬ (nhaEncap = nhaId ∨ nhaEncap = nhaOif) := by decide
    have hname : rtaTypeNexthopToStr nhaEncap = "NHA_ENCAP" := by decide
    change nhmsgRtattrSummary rta = _
    unfold nhmsgRtattrSummary
    rw [htype, EncapFamily.encap, if_neg hid, if_neg (by decide), if_neg (by decide),
      if_neg (by decide), if_pos rfl, hname, EncapFamily.encapType, EncapFamily.encapName]

theorem EncapFamily.attrSummary_place (f : EncapFamily) {a : Rtattr} (hencap : a.type ≠ f.encap)
    (hreaches : ¬ f.Reaches a) (behind : Mem) :
    f.attrSummary (a.bytes ++ behind) = f.attrSummary a.bytes := by
  cases f with
  | route => exact rtmsgRtattrSummary_place a hencap (fun htype => hreaches ⟨rfl, htype⟩) behind
  | nexthop => exact nhmsgRtattrSummary_place a hencap behind

namespace EncapMessage

variable {f : EncapFamily} (m : EncapMessage f) (behind : Mem)

theorem drop_append_eq : (m.own ++ behind).drop (16 + f.size) = layout m.list ++ behind := by
  rw [m.drop_append, m.wellFormed]

theorem exists_summary_eq : ∃ fuel, f.summary (m.own ++ behind) =
    summaryLoop f.attrSummary (m.own ++ behind) (m.list.length + (fuel + 1)) (16 + f.size)
      ((layout m.list).length + (f.size - 8))
      (f.msgSummary (nlmsgBody (m.own ++ behind)) ++ ['\n']) := by
  have hsize : 8 ≤ f.size := by
    cases f <;> decide
  have hcovers := m.covers
  have hattrs := m.length_attrs
  have hcount := length_le_layout m.list
  rw [m.wellFormed] at hattrs
  have hlength : (m.own ++ behind).length = m.own.length + behind.length := List.length_append
  refine ⟨(m.own ++ behind).length - m.list.length - 1, ?_⟩
  rw [f.summary_eq, m.ifaPayload_append hsize, m.wellFormed]
  congr 1
  omega

/-- If every attribute prints, the walk came to all of them and then to what the rest of the
count shows. -/
theorem exists_summary_of_printed {texts : List Text}
    (htexts : (layoutViews m.list behind).map f.attrSummary = texts.map .ok) :
    ∃ run : SummaryRun, (run.visited = [] ↔ ¬ rtaOk behind (f.size - 8)) ∧
      (¬ rtaOk behind (f.size - 8) → run.ending =
        .printed (f.msgSummary (nlmsgBody (m.own ++ behind)) ++ ['\n'] ++ linesText texts)) ∧
      f.summary (m.own ++ behind) =
        ⟨layoutOffsets (16 + f.size) m.list ++ run.visited, run.ending⟩ := by
  have hbehind : (m.own ++ behind).drop (16 + f.size + (layout m.list).length) = behind := by
    rw [← List.drop_drop, m.drop_append_eq, List.drop_left]
  obtain ⟨fuel, hsummary⟩ := m.exists_summary_eq behind
  rw [summaryLoop_layout (m.drop_append_eq behind) htexts] at hsummary
  refine ⟨_, ?_, fun hno => ?_, hsummary⟩
  · rw [visited_summaryLoop_eq_nil_iff, hbehind]
  · rw [summaryLoop, hbehind, if_neg hno]

/-- Each attribute is printed in its place as anywhere, and none behind the message. -/
theorem rendered_iff_located : m.Rendered behind ↔
    (∀ x ∈ located m.list behind, ∃ t, m.line x.1 = some t ∧
      f.attrSummary (x.1.bytes ++ x.2) = .ok t) ∧ ¬ rtaOk behind (f.size - 8) := by
  have hlines : m.list.map m.line = (located m.list behind).map fun x => m.line x.1 := by
    change _ = (located m.list behind).map (m.line ∘ Prod.fst)
    rw [← List.map_map, map_fst_located]
  have hviews : (layoutViews m.list behind).map f.attrSummary =
      (located m.list behind).map fun x => f.attrSummary (x.1.bytes ++ x.2) := by
    rw [← map_located, List.map_map]
    rfl
  have hplaces : (layoutOffsets (16 + f.size) m.list).map
      (fun h => f.attrSummary ((m.own ++ behind).drop h)) =
      (layoutViews m.list behind).map f.attrSummary := by
    rw [← map_drop_layoutOffsets (m.drop_append_eq behind), List.map_map]
    rfl
  constructor
  · rintro ⟨lines, hok, hvisited, hending⟩
    have hprints : ∀ v ∈ layoutViews m.list behind, ∃ t, f.attrSummary v = .ok t := by
      intro v hv
      cases hprint : f.attrSummary v with
      | ok t => exact ⟨t, rfl⟩
      | error fault =>
        obtain ⟨fuel, hsummary⟩ := m.exists_summary_eq behind
        obtain ⟨fault', habort⟩ := summaryLoop_layout_error (m.drop_append_eq behind) hv hprint
          (fuel + 1) (f.size - 8) (f.msgSummary (nlmsgBody (m.own ++ behind)) ++ ['\n'])
        rw [hsummary, habort] at hending
        cases hending
    obtain ⟨texts, htexts⟩ := exists_map_ok hprints
    obtain ⟨run, hnone, -, hsummary⟩ := m.exists_summary_of_printed behind htexts
    rw [hsummary, List.map_append, hplaces] at hvisited
    have hlength : ((layoutViews m.list behind).map f.attrSummary).length =
        (lines.map (Except.ok : Text → Except Fault Text)).length := by
      have hcount := congrArg List.length hok
      rw [List.length_map, List.length_map] at hcount
      rw [List.length_map, List.length_map, length_layoutViews, hcount]
    rw [← List.append_nil (lines.map Except.ok)] at hvisited
    obtain ⟨hsame, hrest⟩ := List.append_inj hvisited hlength
    refine ⟨?_, hnone.mp (List.map_eq_nil_iff.mp hrest)⟩
    rw [hviews] at hsame
    rw [hlines] at hok
    exact forall_map_eq hok hsame
  · rintro ⟨hprints, hno⟩
    obtain ⟨texts, hsome, hok⟩ := exists_map_eq hprints
    rw [← hlines] at hsome
    rw [← hviews] at hok
    obtain ⟨run, hnone, hended, hsummary⟩ := m.exists_summary_of_printed behind hok
    rw [Rendered, hsummary]
    refine ⟨texts, hsome, ?_, hended hno⟩
    rw [hnone.mpr hno, List.append_nil, hplaces, hok]

/-! ### The encapsulation -/

theorem padding_encap : m.encap.padding = [] := by
  have hpadded := m.encap.padded
  have hmod := length_layout_mod m.nested
  rw [m.encap_payload] at hpadded
  unfold rtaAlign at hpadded
  exact List.length_eq_zero_iff.mp (by omega)

theorem drop_encap (rest : Mem) :
    (m.encap.bytes ++ rest).drop (rtaLen (m.encap.bytes ++ rest)) = rest := by
  have hlength : m.encap.len = m.encap.bytes.length := by
    have hmod := length_layout_mod m.nested
    rw [m.encap.length_bytes, Rtattr.len, m.encap_payload]
    unfold rtaAlign
    omega
  rw [m.encap.rtaLen_bytes, hlength, List.drop_left]

theorem encapTexts_encap (rest : Mem) : encapTexts f.encapType (m.encap.bytes ++ rest) =
    if rtaType rest = f.encapType ∧ rtaLen rest = 6 then
      (layoutViews m.nested rest).mapM (encapAttrSummary (le16 rest 4))
    else .error .assertion := by
  rw [encapTexts, m.drop_encap, nestedTexts_payload _ m.encap m.encap_payload, m.padding_encap]
  rfl

theorem attrSummary_encap (rest : Mem) : f.attrSummary (m.encap.bytes ++ rest) =
    if rtaType rest = f.encapType ∧ rtaLen rest = 6 then
      f.encapText m.nested (le16 rest 4) rest
    else .error .assertion := by
  have htype : rtaType (m.encap.bytes ++ rest) = f.encap := by
    rw [m.encap.rtaType_bytes, m.encap_type]
  rw [f.attrSummary_of_encap htype, m.encapTexts_encap]
  by_cases hseen : rtaType rest = f.encapType ∧ rtaLen rest = 6
  · rw [if_pos hseen, if_pos hseen, EncapFamily.encapText]
  · rw [if_neg hseen, if_neg hseen, error_bind]

theorem encapType_mem : m.encapType ∈ m.before ++ m.after ∧ m.encapType.type = f.encapType := by
  have hmem : m.encapType ∈ (m.before ++ m.after).filter (fun a => a.type = f.encapType) := by
    rw [m.one_encapType]
    exact List.mem_cons_self
  obtain ⟨hmem, htype⟩ := List.mem_filter.mp hmem
  exact ⟨hmem, of_decide_eq_true htype⟩

theorem eq_encapType {a : Rtattr} (hmem : a ∈ m.before ++ m.after) (htype : a.type = f.encapType) :
    a = m.encapType := by
  have hfilter : a ∈ (m.before ++ m.after).filter (fun a => a.type = f.encapType) :=
    List.mem_filter.mpr ⟨hmem, decide_eq_true htype⟩
  rw [m.one_encapType] at hfilter
  exact List.mem_singleton.mp hfilter

theorem len_encapType : m.encapType.len = 6 := by
  rw [Rtattr.len, m.encapType_payload]
  rfl

theorem le16_encapType (rest : Mem) : le16 (m.encapType.bytes ++ rest) 4 = m.kind.toNat := by
  rw [Rtattr.bytes, m.encapType_payload, List.append_assoc, List.append_assoc, List.append_assoc,
    le16_bytes16_behind, le16_bytes16_behind, le16_bytes16, Nat.mod_eq_of_lt m.kind.toNat_lt]

theorem typeSeen_iff (kind : ℕ) : m.TypeSeen behind kind ↔
    rtaType (m.behindEncap behind) = f.encapType ∧ rtaLen (m.behindEncap behind) = 6 ∧
      kind = le16 (m.behindEncap behind) 4 := by
  rw [TypeSeen, behindEncap]
  cases hafter : m.after with
  | nil => simp
  | cons b after =>
    have hb : b ∈ m.before ++ m.after := by
      rw [hafter]
      exact List.mem_append_right _ List.mem_cons_self
    rw [layout_cons, List.append_assoc, b.rtaType_bytes, b.rtaLen_bytes]
    constructor
    · rintro (⟨hhead, rfl⟩ | ⟨hnil, -⟩)
      · cases hhead
        exact ⟨m.encapType_mem.2, m.len_encapType, (m.le16_encapType _).symm⟩
      · cases hnil
    · rintro ⟨htype, -, rfl⟩
      cases m.eq_encapType hb htype
      exact Or.inl ⟨rfl, m.le16_encapType _⟩

theorem encap_printed_iff :
    (∃ t, m.line m.encap = some t ∧
      f.attrSummary (m.encap.bytes ++ m.behindEncap behind) = .ok t) ↔
    ∃ kind, m.TypeSeen behind kind ∧ KindsAlike m.nested kind m.kind.toNat ∧
      ∀ a ∈ m.nested, NestedLegible m.kind.toNat a := by
  rw [line, if_pos m.encap_type, m.attrSummary_encap]
  constructor
  · rintro ⟨t, hline, hplace⟩
    obtain ⟨texts, htexts, htext⟩ := Option.bind_eq_some_iff.mp hline
    cases htext
    by_cases hseen : rtaType (m.behindEncap behind) = f.encapType ∧
        rtaLen (m.behindEncap behind) = 6
    · rw [if_pos hseen] at hplace
      obtain ⟨texts', htexts', htext'⟩ := bind_eq_ok hplace
      have hdata := List.append_cancel_left (Except.ok.inj htext')
      refine ⟨_, (m.typeSeen_iff behind _).mpr ⟨hseen.1, hseen.2, rfl⟩, ?_,
        fun a ha => exists_ownText_iff.mp (forall_of_mapM_some htexts a ha)⟩
      cases hnested : m.nested with
      | nil => exact .inl rfl
      | cons a nested =>
        rw [hnested] at htexts htexts'
        exact kindsAlike_of_kindLetter (kindLetter_eq_of_nestedData htexts'
          (mapM_layoutViews_ownText htexts []) hdata)
    · rw [if_neg hseen] at hplace
      cases hplace
  · rintro ⟨kind, hseen, halike, hlegible⟩
    obtain ⟨htype, hlen, rfl⟩ := (m.typeSeen_iff behind kind).mp hseen
    obtain ⟨texts, htexts⟩ := mapM_some_of_forall fun a ha => exists_ownText_iff.mpr (hlegible a ha)
    refine ⟨attrHdr 16 f.encap f.encapName ++ nestedData 4 texts, ?_, ?_⟩
    · rw [EncapFamily.encapLine, htexts]
      rfl
    · rw [if_pos ⟨htype, hlen⟩, EncapFamily.encapText, halike.encapAttrSummary_eq,
        mapM_layoutViews_ownText htexts]
      rfl

/-! ### The other attributes -/

def multipath {a : Rtattr} (ha : a ∈ m.list) (hreaches : f.Reaches a) : Multipath :=
  ⟨a, m.hops a, hreaches.2, m.hops_payload a ha hreaches⟩

theorem exists_attrSummary_iff {a : Rtattr} (hencap : a.type ≠ f.encap) (hreaches : ¬ f.Reaches a) :
    (∃ t, f.attrSummary a.bytes = .ok t) ↔ f.Length a := by
  cases f with
  | route =>
    have hmultipath : a.type ≠ rtaMultipath := fun h => hreaches ⟨rfl, h⟩
    change (∃ t, rtmsgRtattrSummary a.bytes = .ok t) ↔ RouteLength _ _ _
    rw [exists_rtmsgRtattrSummary_iff (by rw [a.rtaType_self]; exact hencap)
      (by rw [a.rtaType_self]; exact hmultipath), a.rtaType_self, a.rtaLen_self]
  | nexthop =>
    change (∃ t, nhmsgRtattrSummary a.bytes = .ok t) ↔ NexthopLength _ _
    rw [exists_nhmsgRtattrSummary_iff]
    refine ⟨fun h => ?_, fun h => ⟨?_, fun htype => ?_⟩⟩
    · have hlength := h.length
      rwa [a.rtaType_self, a.rtaLen_self] at hlength
    · rwa [a.rtaType_self, a.rtaLen_self]
    · rw [a.rtaType_self] at htype
      exact absurd htype hencap

theorem length_of_reaches {a : Rtattr} (hreaches : f.Reaches a) : f.Length a := by
  obtain ⟨rfl, htype⟩ := hreaches
  change RouteLength _ _ _
  rw [htype]
  simp [RouteLength, rtaMultipath, routeTypes32, rtaEncapType, rtaExpires, rtaPref, rtaDst, rtaSrc,
    rtaGateway, rtaMfcStats, rtaVia]

theorem other_printed_iff {x : Rtattr × Mem} (hx : x.1 ∈ m.list) (hencap : x.1.type ≠ f.encap) :
    (∃ t, m.line x.1 = some t ∧ f.attrSummary (x.1.bytes ++ x.2) = .ok t) ↔
      f.Length x.1 ∧ (f.Reaches x.1 →
        (∀ h ∈ m.hops x.1, ∀ b ∈ h.attrs, RouteLength b.type b.len (le16 b.bytes 4)) ∧
          ¬ rtnhOk x.2 x.1.payload.length) := by
  simp only [line, if_neg hencap, toOption_eq_some_iff]
  by_cases hreaches : f.Reaches x.1
  · have hprinted := (m.multipath hx hreaches).printed_iff (m.hops_plain _ hx hreaches) x.2
    have hroute : f = .route := hreaches.1
    rw [and_iff_right (length_of_reaches hreaches), imp_iff_right hreaches]
    subst hroute
    exact hprinted
  · rw [← exists_attrSummary_iff hencap hreaches, f.attrSummary_place hencap hreaches x.2]
    simp only [and_self]
    exact ⟨fun h => ⟨h, fun h' => absurd h' hreaches⟩, fun h => h.1⟩

theorem encap_located : (m.encap, m.behindEncap behind) ∈ located m.list behind := by
  rw [m.list_eq, located_append]
  exact List.mem_append_right _ List.mem_cons_self

theorem exists_located {a : Rtattr} (ha : a ∈ m.before ++ m.after) :
    ∃ x ∈ located m.list behind, x.1 = a := by
  have hlist : a ∈ m.list := by
    rw [m.list_eq]
    rcases List.mem_append.mp ha with hbefore | hafter
    · exact List.mem_append_left _ hbefore
    · exact List.mem_append_right _ (List.mem_cons_of_mem _ hafter)
  rw [← map_fst_located m.list behind] at hlist
  exact List.mem_map.mp hlist

theorem located_cases {x : Rtattr × Mem} (hx : x ∈ located m.list behind) :
    x = (m.encap, m.behindEncap behind) ∨ x.1 ∈ m.before ++ m.after := by
  rw [m.list_eq, located_append] at hx
  rcases List.mem_append.mp hx with hbefore | hx
  · exact Or.inr (List.mem_append_left _ (mem_of_located hbefore))
  · rcases List.mem_cons.mp hx with hencap | hafter
    · exact Or.inl hencap
    · exact Or.inr (List.mem_append_right _ (mem_of_located hafter))

theorem rendered_iff_legible : m.Rendered behind ↔ m.Legible behind := by
  have hmem : ∀ x ∈ located m.list behind, x.1 ∈ m.list := fun x hx => mem_of_located hx
  rw [m.rendered_iff_located]
  constructor
  · rintro ⟨hprints, hno⟩
    have hother : ∀ x ∈ located m.list behind, x.1.type ≠ f.encap → f.Length x.1 ∧
        (f.Reaches x.1 →
          (∀ h ∈ m.hops x.1, ∀ b ∈ h.attrs, RouteLength b.type b.len (le16 b.bytes 4)) ∧
            ¬ rtnhOk x.2 x.1.payload.length) :=
      fun x hx hencap => (m.other_printed_iff (hmem x hx) hencap).mp (hprints x hx)
    refine ⟨fun a ha => ?_, fun x hx hreaches => ?_,
      (m.encap_printed_iff behind).mp (hprints _ (m.encap_located behind)), hno⟩
    · obtain ⟨x, hx, rfl⟩ := m.exists_located behind ha
      exact (hother x hx (m.one_encap _ ha)).1
    · refine (hother x hx ?_).2 hreaches
      rw [hreaches.1, hreaches.2]
      decide
  · rintro ⟨hlengths, hhops, hencap, hno⟩
    refine ⟨fun x hx => ?_, hno⟩
    rcases m.located_cases behind hx with rfl | hother
    · exact (m.encap_printed_iff behind).mpr hencap
    · exact (m.other_printed_iff (hmem x hx) (m.one_encap _ hother)).mpr
        ⟨hlengths _ hother, hhops x hx⟩

/-! ### Other orders -/

theorem eq_encap {a : Rtattr} (ha : a ∈ m.list) (htype : a.type = f.encap) : a = m.encap := by
  rw [m.list_eq] at ha
  rcases List.mem_append.mp ha with hbefore | ha
  · exact absurd htype (m.one_encap a (List.mem_append_left _ hbefore))
  · rcases List.mem_cons.mp ha with rfl | hafter
    · rfl
    · exact absurd htype (m.one_encap a (List.mem_append_right _ hafter))

theorem line_eq_of_perm {m m' : EncapMessage f} (hperm : m.list.Perm m'.list) : m.line = m'.line := by
  have hencap : m.encap = m'.encap := by
    refine m'.eq_encap (hperm.subset ?_) m.encap_type
    rw [m.list_eq]
    exact List.mem_append_right _ List.mem_cons_self
  have hnested : m.nested = m'.nested := layout_injective (by
    rw [← m.encap_payload, ← m'.encap_payload, hencap])
  have hencapType : m.encapType = m'.encapType := by
    obtain ⟨hmem, htype⟩ := m.encapType_mem
    have hlist : m.encapType ∈ m'.list := by
      refine hperm.subset ?_
      rw [m.list_eq]
      rcases List.mem_append.mp hmem with hbefore | hafter
      · exact List.mem_append_left _ hbefore
      · exact List.mem_append_right _ (List.mem_cons_of_mem _ hafter)
    refine m'.eq_encapType ?_ htype
    rw [m'.list_eq] at hlist
    rcases List.mem_append.mp hlist with hbefore | hrest
    · exact List.mem_append_left _ hbefore
    · rcases List.mem_cons.mp hrest with heq | hafter
      · rw [heq, m'.encap_type] at htype
        exact absurd htype (by cases f <;> decide)
      · exact List.mem_append_right _ hafter
  have hkind : m.kind = m'.kind := by
    refine UInt16.toNat_inj.mp ?_
    rw [← m.le16_encapType [], ← m'.le16_encapType [], hencapType]
  funext a
  rw [line, line, hnested, hkind]

/-- The message is rendered exactly if its attributes are legible: they have the lengths asserted of
their types, the type comes right behind the encapsulation, and nothing behind next hops or behind
the message passes for more of them. Two such messages with the same attributes in another order
show the same lines in another order. -/
theorem rendered_iff : (m.Rendered behind ↔ m.Legible behind) ∧
    ∀ (m' : EncapMessage f) (behind' : Mem), m.list.Perm m'.list →
      m.Legible behind → m'.Legible behind' →
      ∃ lines lines' : List Text, lines.Perm lines' ∧
        (f.summary (m.own ++ behind)).ending =
          .printed (f.msgSummary (nlmsgBody (m.own ++ behind)) ++ ['\n'] ++ linesText lines) ∧
        (f.summary (m'.own ++ behind')).ending =
          .printed (f.msgSummary (nlmsgBody (m'.own ++ behind')) ++ ['\n'] ++ linesText lines') := by
  refine ⟨m.rendered_iff_legible behind, fun m' behind' hperm h h' => ?_⟩
  obtain ⟨lines, hlines, -, hending⟩ := (m.rendered_iff_legible behind).mpr h
  obtain ⟨lines', hlines', -, hending'⟩ := (m'.rendered_iff_legible behind').mpr h'
  have hsome : (lines.map some).Perm (lines'.map some) := by
    rw [← hlines, ← hlines', line_eq_of_perm hperm]
    exact hperm.map _
  exact ⟨lines, lines', (List.map_perm_map_iff fun _ _ => Option.some.inj).mp hsome, hending, hending'⟩

end EncapMessage

def tableEncap : Rtattr :=
  plainRtattr 22 (layout [plainRtattr 1 [3, 0, 0, 0], plainRtattr 3 [254, 0, 0, 0]])

def seg6LocalType : Rtattr := plainRtattr 21 [7, 0]

theorem typeFirst_list : endTable.list = [seg6LocalType] ++ tableEncap :: [] := rfl

theorem typeFirst_noHops : ∀ a ∈ endTable.list, a.type ≠ rtaMultipath := by decide

def typeFirst : EncapMessage .route where
  toListedMessage := endTable
  before := [seg6LocalType]
  encap := tableEncap
  after := []
  nested := [plainRtattr 1 [3, 0, 0, 0], plainRtattr 3 [254, 0, 0, 0]]
  encapType := seg6LocalType
  kind := 7
  hops := fun _ => []
  list_eq := typeFirst_list
  encap_type := rfl
  encap_payload := rfl
  encapType_payload := rfl
  one_encap := by decide
  one_encapType := rfl
  hops_payload := fun a ha hreaches => absurd hreaches.2 (typeFirst_noHops a ha)
  hops_plain := fun a ha hreaches => absurd hreaches.2 (typeFirst_noHops a ha)

def typeNext : ListedMessage 12 where
  own := nlmsgBytes 24 (rtmsgBytes 10 128 254 1 ++ layout [tableEncap, seg6LocalType])
  length := by decide +kernel
  aligned := by decide +kernel
  covers := by decide +kernel
  list := [tableEncap, seg6LocalType]
  wellFormed := by decide +kernel

def interfaceTwo : Rtattr := plainRtattr 4 [2, 0, 0, 0]

def interfaceFirst : ListedMessage 12 where
  own := nlmsgBytes 24 (rtmsgBytes 10 128 254 1 ++ layout [interfaceTwo, tableEncap, seg6LocalType])
  length := by decide +kernel
  aligned := by decide +kernel
  covers := by decide +kernel
  list := [interfaceTwo, tableEncap, seg6LocalType]
  wellFormed := by decide +kernel

def interfaceLast : ListedMessage 12 where
  own := nlmsgBytes 24 (rtmsgBytes 10 128 254 1 ++ layout [tableEncap, seg6LocalType, interfaceTwo])
  length := by decide +kernel
  aligned := by decide +kernel
  covers := by decide +kernel
  list := [tableEncap, seg6LocalType, interfaceTwo]
  wellFormed := by decide +kernel

theorem tableRoute_noHops :
    ∀ a ∈ [interfaceTwo, tableEncap, seg6LocalType, interfaceTwo], a.type ≠ rtaMultipath := by decide

theorem interfaceFirst_noHops (a : Rtattr) (ha : a ∈ interfaceFirst.list) : a.type ≠ rtaMultipath :=
  tableRoute_noHops a (List.mem_append_left [interfaceTwo] ha)

theorem interfaceLast_noHops (a : Rtattr) (ha : a ∈ interfaceLast.list) : a.type ≠ rtaMultipath :=
  tableRoute_noHops a (List.mem_cons_of_mem interfaceTwo ha)

def routeInterfaceFirst : EncapMessage .route where
  toListedMessage := interfaceFirst
  before := [interfaceTwo]
  encap := tableEncap
  after := [seg6LocalType]
  nested := [plainRtattr 1 [3, 0, 0, 0], plainRtattr 3 [254, 0, 0, 0]]
  encapType := seg6LocalType
  kind := 7
  hops := fun _ => []
  list_eq := rfl
  encap_type := rfl
  encap_payload := rfl
  encapType_payload := rfl
  one_encap := by decide
  one_encapType := rfl
  hops_payload := fun a ha hreaches => absurd hreaches.2 (interfaceFirst_noHops a ha)
  hops_plain := fun a ha hreaches => absurd hreaches.2 (interfaceFirst_noHops a ha)

def routeInterfaceLast : EncapMessage .route where
  toListedMessage := interfaceLast
  before := []
  encap := tableEncap
  after := [seg6LocalType, interfaceTwo]
  nested := [plainRtattr 1 [3, 0, 0, 0], plainRtattr 3 [254, 0, 0, 0]]
  encapType := seg6LocalType
  kind := 7
  hops := fun _ => []
  list_eq := rfl
  encap_type := rfl
  encap_payload := rfl
  encapType_payload := rfl
  one_encap := by decide
  one_encapType := rfl
  hops_payload := fun a ha hreaches => absurd hreaches.2 (interfaceLast_noHops a ha)
  hops_plain := fun a ha hreaches => absurd hreaches.2 (interfaceLast_noHops a ha)

theorem tableNested_legible : ∀ a ∈ [plainRtattr 1 [3, 0, 0, 0], plainRtattr 3 [254, 0, 0, 0]],
    NestedLegible 7 a := by
  have hlength : ∀ a ∈ [plainRtattr 1 [3, 0, 0, 0], plainRtattr 3 [254, 0, 0, 0]],
      Seg6LocalLength a.type a.len := by decide
  have hsegments : ∀ a ∈ [plainRtattr 1 [3, 0, 0, 0], plainRtattr 3 [254, 0, 0, 0]],
      SegmentsInside 7 a := by decide
  exact fun a ha => ⟨fun _ => hlength a ha, hsegments a ha⟩

theorem tableRoute_lengths : ∀ a ∈ [interfaceTwo, seg6LocalType, interfaceTwo],
    RouteLength a.type a.len (le16 a.bytes 4) := by decide

theorem routeInterfaceFirst_legible : routeInterfaceFirst.Legible [] where
  lengths := fun a ha => tableRoute_lengths a (List.mem_append_left [interfaceTwo] ha)
  hops := fun _ hx hreaches =>
    absurd hreaches.2 (interfaceFirst_noHops _ (mem_of_located hx))
  encap := ⟨7, .inl ⟨rfl, rfl⟩, .inr (.inl rfl), tableNested_legible⟩
  last := by decide

theorem routeInterfaceLast_legible : routeInterfaceLast.Legible [] where
  lengths := fun a ha => tableRoute_lengths a (List.mem_cons_of_mem interfaceTwo ha)
  hops := fun _ hx hreaches =>
    absurd hreaches.2 (interfaceLast_noHops _ (mem_of_located hx))
  encap := ⟨7, .inl ⟨rfl, rfl⟩, .inr (.inl rfl), tableNested_legible⟩
  last := by decide

theorem rendered_iff_tableRoute :
    routeInterfaceFirst.Rendered [] ∧ ∃ lines lines' : List Text, lines.Perm lines' ∧
      (EncapFamily.route.summary (routeInterfaceFirst.own ++ [])).ending =
        .printed (rtmsgSummary (nlmsgBody (routeInterfaceFirst.own ++ [])) ++ ['\n'] ++
          linesText lines) ∧
      (EncapFamily.route.summary (routeInterfaceLast.own ++ [])).ending =
        .printed (rtmsgSummary (nlmsgBody (routeInterfaceLast.own ++ [])) ++ ['\n'] ++
          linesText lines') := by
  obtain ⟨hiff, hreordered⟩ := routeInterfaceFirst.rendered_iff []
  have hperm : ([interfaceTwo] ++ [tableEncap, seg6LocalType]).Perm
      ([tableEncap, seg6LocalType] ++ [interfaceTwo]) := List.perm_append_comm
  exact ⟨hiff.mpr routeInterfaceFirst_legible, hreordered routeInterfaceLast [] hperm
    routeInterfaceFirst_legible routeInterfaceLast_legible⟩

/-- The summary fails its assertion: behind the encapsulation there is no type. The other
way round it shows a line for each attribute. -/
theorem typeFirst_aborts :
    (EncapFamily.route.summary typeFirst.own).ending = .aborted .assertion ∧
    (EncapFamily.route.summary typeNext.own).ending = .printed
      ("fmly=10 dl=128 sl=0 tos=0 tab=254 pro=0 scope=0 type=1 f=0x0\n".toList ++
        "  0x0016 RTA_ENCAP        :: nested-data\n".toList ++
        "    0x0001 SEG6_LOCAL_ACTION    :: 3 (SEG6_LOCAL_ACTION_END_T)\n".toList ++
        "    0x0003 SEG6_LOCAL_TABLE     :: 254\n".toList ++
        "  0x0015 RTA_ENCAP_TYPE   :: 7 (LWTUNNEL_ENCAP_SEG6_LOCAL)\n".toList) ∧
    ¬ typeFirst.Rendered [] := by
  have hends : (EncapFamily.route.summary typeFirst.own).ending = .aborted .assertion := by
    decide +kernel
  refine ⟨hends, by decide +kernel, ?_⟩
  rintro ⟨lines, -, -, hending⟩
  rw [List.append_nil, hends] at hending
  cases hending

end Routerd
