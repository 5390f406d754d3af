import Routerd.AttributeText

/-!
# The summary of link attributes

`IFLA_LINKINFO` nests the kind of the link and, behind it, data whose attributes have a
numbering of their own for each kind. The kind is kept in a variable of the call that
prints it, so the call that prints the data never knows it: whatever is nested there,
nothing of it is printed.
-/

namespace Routerd
open ByteMemory NumeralText

/-! ### The decoders of the kinds -/

def ifinfomsgRtattrVxlanSummary : Mem → Text := AttrTable.summary
  ⟨30,
    [("IFLA_VXLAN_UNSPEC", .unknown), ("IFLA_VXLAN_ID", .u32), ("IFLA_VXLAN_GROUP", .dotted),
     ("IFLA_VXLAN_LINK", .u32), ("IFLA_VXLAN_LOCAL", .dotted), ("IFLA_VXLAN_TTL", .u8),
     ("IFLA_VXLAN_TOS", .u8), ("IFLA_VXLAN_LEARNING", .u8), ("IFLA_VXLAN_AGEING", .u32),
     ("IFLA_VXLAN_LIMIT", .u32), ("IFLA_VXLAN_PORT_RANGE", .u32), ("IFLA_VXLAN_PROXY", .u8),
     ("IFLA_VXLAN_RSC", .u8), ("IFLA_VXLAN_L2MISS", .u8), ("IFLA_VXLAN_L3MISS", .u8),
     ("IFLA_VXLAN_PORT", .u8), ("IFLA_VXLAN_GROUP6", .unknown), ("IFLA_VXLAN_LOCAL6", .unknown),
     ("IFLA_VXLAN_UDP_CSUM", .u8), ("IFLA_VXLAN_UDP_ZERO_CSUM6_TX", .u8),
     ("IFLA_VXLAN_UDP_ZERO_CSUM6_RX", .u8), ("IFLA_VXLAN_REMCSUM_TX", .u8),
     ("IFLA_VXLAN_REMCSUM_RX", .u8), ("IFLA_VXLAN_GBP", .unknown),
     ("IFLA_VXLAN_REMCSUM_NOPARTIAL", .unknown), ("IFLA_VXLAN_COLLECT_METADATA", .u8),
     ("IFLA_VXLAN_LABEL", .u32), ("IFLA_VXLAN_GPE", .unknown)],
    "IFLA_BR_XXXXXXXXUNKNOWN"⟩

def ifinfomsgRtattrBrSummary : Mem → Text := AttrTable.summary
  ⟨34,
    [("IFLA_BR_UNSPEC", .unknown), ("IFLA_BR_FORWARD_DELAY", .u32), ("IFLA_BR_HELLO_TIME", .u32),
     ("IFLA_BR_MAX_AGE", .u32), ("IFLA_BR_AGEING_TIME", .u32), ("IFLA_BR_STP_STATE", .u32),
     ("IFLA_BR_PRIORITY", .u16), ("IFLA_BR_VLAN_FILTERING", .u8), ("IFLA_BR_VLAN_PROTOCOL", .u16),
     ("IFLA_BR_GROUP_FWD_MASK", .u16), ("IFLA_BR_ROOT_ID", .u64), ("IFLA_BR_BRIDGE_ID", .u64),
     ("IFLA_BR_ROOT_PORT", .u16), ("IFLA_BR_ROOT_PATH_COST", .u32),
     ("IFLA_BR_TOPOLOGY_CHANGE", .u8), ("IFLA_BR_TOPOLOGY_CHANGE_DETECTED", .u8),
     ("IFLA_BR_HELLO_TIMER", .u64), ("IFLA_BR_TCN_TIMER", .u64),
     ("IFLA_BR_TOPOLOGY_CHANGE_TIMER", .u64), ("IFLA_BR_GC_TIMER", .u64),
     ("IFLA_BR_GROUP_ADDR", .unknown), ("IFLA_BR_FDB_FLUSH", .unknown),
     ("IFLA_BR_MCAST_ROUTER", .u8), ("IFLA_BR_MCAST_SNOOPING", .u8),
     ("IFLA_BR_MCAST_QUERY_USE_IFADDR", .u8), ("IFLA_BR_MCAST_QUERIER", .u8),
     ("IFLA_BR_MCAST_HASH_ELASTICITY", .u32), ("IFLA_BR_MCAST_HASH_MAX", .u32),
     ("IFLA_BR_MCAST_LAST_MEMBER_CNT", .u32), ("IFLA_BR_MCAST_STARTUP_QUERY_CNT", .u32),
     ("IFLA_BR_MCAST_LAST_MEMBER_INTVL", .u64), ("IFLA_BR_MCAST_MEMBERSHIP_INTVL", .u64),
     ("IFLA_BR_MCAST_QUERIER_INTVL", .u64), ("IFLA_BR_MCAST_QUERY_INTVL", .u64),
     ("IFLA_BR_MCAST_QUERY_RESPONSE_INTVL", .u64), ("IFLA_BR_MCAST_STARTUP_QUERY_INTVL", .u64),
     ("IFLA_BR_NF_CALL_IPTABLES", .u8), ("IFLA_BR_NF_CALL_IP6TABLES", .u8),
     ("IFLA_BR_NF_CALL_ARPTABLES", .u8), ("IFLA_BR_VLAN_DEFAULT_PVID", .u16),
     ("IFLA_BR_PAD", .unknown), ("IFLA_BR_VLAN_STATS_ENABLED", .u8),
     ("IFLA_BR_MCAST_STATS_ENABLED", .u8), ("IFLA_BR_MCAST_IGMP_VERSION", .u8),
     ("IFLA_BR_MCAST_MLD_VERSION", .u8)],
    "IFLA_BR_XXXXXXXXUNKNOWN"⟩

def ifinfomsgRtattrVrfSummary : Mem → Text := AttrTable.summary
  ⟨24, [("IFLA_VRF_UNSPEC", .unknown), ("IFLA_VRF_TABLE", .u32)], "IFLA_VRF_XXXXXXXXUNKNOWN"⟩

def ifinfomsgRtattrVlanSummary : Mem → Text := AttrTable.summary
  ⟨24,
    [("IFLA_VLAN_UNSPEC", .unknown), ("IFLA_VLAN_ID", .u16), ("IFLA_VLAN_FLAGS", .hex64),
      ("IFLA_VLAN_EGRESS_QOS", .unknown), ("IFLA_VLAN_INGRESS_QOS", .unknown),
      ("IFLA_VLAN_PROTOCOL", .u16)],
    "IFLA_VLAN_XXXXXXXXUNKNOWN"⟩

/-! ### `IFLA_LINKINFO` -/

def rtaTypeIflaInfoToStr (type : ℕ) : String :=
  ["IFLA_INFO_UNSPEC", "IFLA_INFO_KIND", "IFLA_INFO_DATA", "IFLA_INFO_XSTATS",
    "IFLA_INFO_SLAVE_KIND", "IFLA_INFO_SLAVE_DATA"].getD type "IFLA_INFO_XXXXXXXXUNKNOWN"

def iflaInfoSlaveKind : ℕ := 4

/-- `astr` in the loop over the data. -/
def infoDataSummary (tmpKind : Text) (rta : Mem) : Text :=
  if tmpKind = "vlan".toList then ifinfomsgRtattrVlanSummary rta
  else if tmpKind = "vrf".toList then ifinfomsgRtattrVrfSummary rta
  else if tmpKind = "bridge".toList then ifinfomsgRtattrBrSummary rta
  else if tmpKind = "vxlan".toList then ifinfomsgRtattrVxlanSummary rta
  else []

def ifinfomsgRtattrLinkinfoSummary (rta : Mem) : Except Fault Text :=
  let hdr := attrHdr 24 (rtaType rta) (rtaTypeIflaInfoToStr (rtaType rta))
  let tmpKind : Text := []
  if rtaType rta = iflaInfoKind ∨ rtaType rta = iflaInfoSlaveKind then
    -- The source sets `tmp_kind` here and returns.
    .ok (hdr ++ cString (rta.drop 4))
  else if rtaType rta = iflaInfoData then do
    let texts ← nestedTexts (fun rta => .ok (infoDataSummary tmpKind rta)) (rta.drop 4)
      (sizeSub (rtaLen rta) 4)
    .ok (hdr ++ nestedData 6 texts)
  else .ok (hdr ++ unknownFmt rta)

/-! ### The attributes of a link -/

def linkTypeNames : List String :=
  ["IFLA_UNSPEC", "IFLA_ADDRESS", "IFLA_BROADCAST", "IFLA_IFNAME", "IFLA_MTU", "IFLA_LINK ",
    "IFLA_QDISC", "IFLA_STATS", "IFLA_COST", "IFLA_PRIORITY", "IFLA_MASTER", "IFLA_WIRELESS",
    "IFLA_PROTINFO", "IFLA_TXQLEN", "IFLA_MAP", "IFLA_WEIGHT", "IFLA_OPERSTATE", "IFLA_LINKMODE",
    "IFLA_LINKINFO", "IFLA_NET_NS_PID", "IFLA_IFALIAS", "IFLA_NUM_VF", "IFLA_VFINFO_LIST",
    "IFLA_STATS64", "IFLA_VF_PORTS", "IFLA_PORT_SELF", "IFLA_AF_SPEC", "IFLA_GROUP",
    "IFLA_NET_NS_FD", "IFLA_EXT_MASK", "IFLA_PROMISCUITY", "IFLA_NUM_TX_QUEUES",
    "IFLA_NUM_RX_QUEUES", "IFLA_CARRIER", "IFLA_PHYS_PORT_ID", "IFLA_CARRIER_CHANGES",
    "IFLA_PHYS_SWITCH_ID", "IFLA_LINK_NETNSID", "IFLA_PHYS_PORT_NAME", "IFLA_PROTO_DOWN",
    "IFLA_GSO_MAX_SEGS", "IFLA_GSO_MAX_SIZE", "IFLA_PAD", "IFLA_XDP", "IFLA_EVENT",
    "IFLA_NEW_NETNSID", "IFLA_IF_NETNSID", "IFLA_CARRIER_UP_COUNT", "IFLA_CARRIER_DOWN_COUNT",
    "IFLA_NEW_IFINDEX"]

def rtaTypeLinkToStr (type : ℕ) : String := linkTypeNames.getD type "IFLA_XXXXUNKNOWNXXX"

/-- `"%02x"` of each byte with `":"` between. -/
def colonHex : List UInt8 → Text
  | [] => []
  | [b] => zeroHex 2 b.toNat
  | b :: bs => zeroHex 2 b.toNat ++ ":".toList ++ colonHex bs

/-- A number that must have `len` bytes with its header. -/
def sizedValue (rta : Mem) (len : ℕ) (format : ValueFormat) : Except Fault Text :=
  if rtaLen rta = len then .ok (formatValue rta format) else .error .assertion

/-- What is printed for the attributes of `IFLA_LINKINFO`. -/
def linkinfoTexts (rta : Mem) : Except Fault (List Text) :=
  nestedTexts ifinfomsgRtattrLinkinfoSummary (rta.drop 4) (sizeSub (rtaLen rta) 4)

/-- The types of one byte: `OPERSTATE`, `LINKMODE`, `CARRIER` and `PROTO_DOWN`. -/
def linkTypes8 : List ℕ := [16, 17, 33, 39]

/-- The types of four bytes: `MASTER`, `MTU` and `LINK`, and then `CARRIER_CHANGES`, `TXQLEN`,
`GROUP`, `NUM_TX_QUEUES`, `GSO_MAX_SEGS`, `GSO_MAX_SIZE`, `CARRIER_UP_COUNT`,
`CARRIER_DOWN_COUNT` and `NUM_RX_QUEUES`, which the source prints in a branch of their own. -/
def linkTypes32 : List ℕ := [10, 4, 5, 35, 13, 27, 31, 40, 41, 47, 48, 32]

def iflaBroadcast : ℕ := 2

def iflaPromiscuity : ℕ := 30

def ifinfomsgRtattrSummary (rta : Mem) : Except Fault Text :=
  let type := rtaType rta
  let hdr := attrHdr 24 type (rtaTypeLinkToStr type)
  if type = iflaIfname then .ok (hdr ++ cString (rta.drop 4))
  else if type = iflaAddress ∨ type = iflaBroadcast then
    let substr := colonHex ((rta.drop 4).take (sizeSub (rtaLen rta) 4))
    -- `substr` has 1000 bytes, and `strncat` does not ask.
    if 1000 ≤ substr.length then .error .overflow else .ok (hdr ++ substr)
  else if type = iflaPromiscuity then
    .ok (hdr ++ if le32 rta 4 = 1 then "on".toList else "off".toList)
  else if type ∈ linkTypes32 then do .ok (hdr ++ (← sizedValue rta 8 .u32))
  else if type = iflaLinkinfo then do .ok (hdr ++ nestedData 4 (← linkinfoTexts rta))
  else if type ∈ linkTypes8 then do .ok (hdr ++ (← sizedValue rta 5 .u8))
  else .ok (hdr ++ unknownFmt rta)

/-! ### Links with data of their kind -/

inductive InfoKind where
  | vlan
  | vrf
  | bridge
  | vxlan
  deriving DecidableEq, Repr

def InfoKind.name : InfoKind → Text
  | .vlan => "vlan".toList
  | .vrf => "vrf".toList
  | .bridge => "bridge".toList
  | .vxlan => "vxlan".toList

def InfoKind.summary : InfoKind → Mem → Text
  | .vlan => ifinfomsgRtattrVlanSummary
  | .vrf => ifinfomsgRtattrVrfSummary
  | .bridge => ifinfomsgRtattrBrSummary
  | .vxlan => ifinfomsgRtattrVxlanSummary

/-- An `IFLA_LINKINFO` with a kind and, somewhere behind it, the data of that kind. -/
structure LinkInfo where
  kind : InfoKind
  before : List Rtattr
  kindAttr : Rtattr
  between : List Rtattr
  dataAttr : Rtattr
  after : List Rtattr
  inner : List Rtattr
  attr : Rtattr
  attr_type : attr.type = iflaLinkinfo
  nested : attr.payload = layout (before ++ kindAttr :: (between ++ dataAttr :: after))
  kind_type : kindAttr.type = iflaInfoKind
  kind_name : cString kindAttr.payload = kind.name
  data_type : dataAttr.type = iflaInfoData
  data_payload : dataAttr.payload = layout inner

namespace LinkInfo

variable (m : LinkInfo) (behind : Mem)

def behindData : Mem := layout m.after ++ (m.attr.padding ++ behind)

/-- What should be printed for the data: a line for each of its attributes, as the decoder
of the kind prints it. -/
def dataText : Text :=
  attrHdr 24 iflaInfoData "IFLA_INFO_DATA" ++
    nestedData 6 ((layoutViews m.inner (m.dataAttr.padding ++ m.behindData behind)).map
      m.kind.summary)

/-- The summary of the attribute has that text where the data stands. -/
def RendersData : Prop :=
  ∃ texts, ifinfomsgRtattrSummary (m.attr.bytes ++ behind) =
      .ok (attrHdr 24 iflaLinkinfo "IFLA_LINKINFO" ++ nestedData 4 texts) ∧
    linkinfoTexts (m.attr.bytes ++ behind) = .ok texts ∧
    texts[m.before.length + 1 + m.between.length]? = some (m.dataText behind)

end LinkInfo

/-! ### What is printed -/

theorem mapM_getElem? {summary : Mem → Except Fault Text} {views : List Mem} {texts : List Text}
    (h : views.mapM summary = .ok texts) {i : ℕ} {v : Mem} (hi : views[i]? = some v) {t : Text}
    (hv : summary v = .ok t) : texts[i]? = some t := by
  induction views generalizing texts i with
  | nil => cases hi
  | cons w views ih =>
    rw [List.mapM_cons] at h
    obtain ⟨s, hs, h⟩ := bind_eq_ok h
    obtain ⟨rest, hrest, h⟩ := bind_eq_ok h
    cases h
    cases i with
    | zero =>
      cases hi
      cases hs.symm.trans hv
      rfl
    | succ i => exact ih hrest hi

theorem nestedLoop_exists_ok {summary : Mem → Except Fault Text}
    (h : ∀ rta, ∃ t, summary rta = .ok t) (fuel : ℕ) (rta : Mem) (len : ℕ) :
    ∃ texts, nestedLoop summary fuel rta len = .ok texts := by
  induction fuel generalizing rta len with
  | zero => exact ⟨[], rfl⟩
  | succ fuel ih =>
    rw [nestedLoop]
    split
    · obtain ⟨t, ht⟩ := h rta
      obtain ⟨rest, hrest⟩ := ih (rtaNext rta) (sizeSub len (rtaAlign (rtaLen rta)))
      exact ⟨t :: rest, by rw [ht, ok_bind, hrest, ok_bind]⟩
    · exact ⟨[], rfl⟩

theorem linkinfoSummary_ok (rta : Mem) : ∃ t, ifinfomsgRtattrLinkinfoSummary rta = .ok t := by
  unfold ifinfomsgRtattrLinkinfoSummary
  dsimp only
  split
  · exact ⟨_, rfl⟩
  · split
    · obtain ⟨texts, htexts⟩ := nestedLoop_exists_ok (fun r => ⟨infoDataSummary [] r, rfl⟩)
        (rta.drop 4).length (rta.drop 4) (sizeSub (rtaLen rta) 4)
      rw [nestedTexts, htexts, ok_bind]
      exact ⟨_, rfl⟩
    · exact ⟨_, rfl⟩

theorem infoDataSummary_nil (rta : Mem) : infoDataSummary [] rta = [] := by
  have hvlan : ([] : Text) ≠ "vlan".toList := by decide
  have hvrf : ([] : Text) ≠ "vrf".toList := by decide
  have hbridge : ([] : Text) ≠ "bridge".toList := by decide
  have hvxlan : ([] : Text) ≠ "vxlan".toList := by decide
  rw [infoDataSummary, if_neg hvlan, if_neg hvrf, if_neg hbridge, if_neg hvxlan]

theorem linkinfoSummary_data {a : Rtattr} (htype : a.type = iflaInfoData) {inner : List Rtattr}
    (hpayload : a.payload = layout inner) (behind : Mem) :
    ifinfomsgRtattrLinkinfoSummary (a.bytes ++ behind) =
      .ok (attrHdr 24 iflaInfoData "IFLA_INFO_DATA" ++ nestedData 6 []) := by
  have hkind : ¬ (iflaInfoData = iflaInfoKind ∨ iflaInfoData = iflaInfoSlaveKind) := by decide
  have hname : rtaTypeIflaInfoToStr iflaInfoData = "IFLA_INFO_DATA" := by decide
  have hblank : ∀ views : List Mem, nestedData 6 (views.map (infoDataSummary [])) =
      nestedData 6 [] := by
    intro views
    have hlines : (views.map (infoDataSummary [])).flatMap (fun s =>
        if s = [] then [] else List.replicate 6 ' ' ++ s ++ ['\n']) = [] := by
      rw [List.flatMap_eq_nil_iff]
      intro s hs
      obtain ⟨v, -, rfl⟩ := List.mem_map.mp hs
      rw [infoDataSummary_nil, if_pos rfl]
    rw [nestedData, hlines]
    rfl
  unfold ifinfomsgRtattrLinkinfoSummary
  simp only [a.rtaType_bytes, htype, if_neg hkind, if_true, hname]
  rw [nestedTexts_payload _ a hpayload, mapM_ok, ok_bind, hblank]

theorem attrHdr_ne_nil (width type : ℕ) (name : String) : attrHdr width type name ≠ [] :=
  List.append_ne_nil_of_left_ne_nil (List.append_ne_nil_of_left_ne_nil
    (List.append_ne_nil_of_left_ne_nil (List.append_ne_nil_of_left_ne_nil (by decide) _) _) _) _

theorem InfoKind.summary_ne_nil (kind : InfoKind) (rta : Mem) : kind.summary rta ≠ [] := by
  cases kind <;> exact List.append_ne_nil_of_left_ne_nil (attrHdr_ne_nil _ _ _) _

/-- Each attribute that has a text makes the nested text longer. -/
theorem nestedData_ne {texts : List Text} (hne : texts ≠ []) (htexts : ∀ s ∈ texts, s ≠ [])
    (indent : ℕ) : nestedData indent texts ≠ nestedData indent [] := by
  obtain ⟨s, rest, rfl⟩ := List.exists_cons_of_ne_nil hne
  intro heq
  have hlength := congrArg List.length heq
  rw [nestedData, nestedData, List.length_dropLast, List.length_dropLast, List.length_append,
    List.flatMap_cons, if_neg (htexts s List.mem_cons_self)] at hlength
  simp only [List.length_append, List.length_singleton, List.flatMap_nil, List.append_nil] at hlength
  have hbase : 0 < "nested-data\n".toList.length := by decide
  omega

namespace LinkInfo

variable (m : LinkInfo) (behind : Mem)

theorem views_getElem? :
    (layoutViews (m.before ++ m.kindAttr :: (m.between ++ m.dataAttr :: m.after))
        (m.attr.padding ++ behind))[m.before.length + 1 + m.between.length]? =
      some (m.dataAttr.bytes ++ m.behindData behind) := by
  rw [layoutViews_append, List.getElem?_append_right (by rw [length_layoutViews]; omega),
    length_layoutViews, Nat.add_assoc, Nat.add_sub_cancel_left, layoutViews, Nat.add_comm 1,
    List.getElem?_cons_succ, layoutViews_append,
    List.getElem?_append_right (length_layoutViews _ _).le, length_layoutViews, Nat.sub_self,
    layoutViews, List.getElem?_cons_zero, behindData]

theorem summary_eq {texts : List Text} (h : linkinfoTexts (m.attr.bytes ++ behind) = .ok texts) :
    ifinfomsgRtattrSummary (m.attr.bytes ++ behind) =
      .ok (attrHdr 24 iflaLinkinfo "IFLA_LINKINFO" ++ nestedData 4 texts) := by
  have hname : rtaTypeLinkToStr iflaLinkinfo = "IFLA_LINKINFO" := by decide
  have hstring : iflaLinkinfo ≠ iflaIfname := by decide
  have haddress : ¬ (iflaLinkinfo = iflaAddress ∨ iflaLinkinfo = iflaBroadcast) := by decide
  have hpromiscuity : iflaLinkinfo ≠ iflaPromiscuity := by decide
  have hnumber : iflaLinkinfo ∉ linkTypes32 := by decide
  unfold ifinfomsgRtattrSummary
  simp only [m.attr.rtaType_bytes, m.attr_type, if_neg hstring, if_neg haddress,
    if_neg hpromiscuity, if_neg hnumber, if_true, h, ok_bind, hname]

theorem texts_getElem? {texts : List Text}
    (h : linkinfoTexts (m.attr.bytes ++ behind) = .ok texts) :
    texts[m.before.length + 1 + m.between.length]? =
      some (attrHdr 24 iflaInfoData "IFLA_INFO_DATA" ++ nestedData 6 []) := by
  rw [linkinfoTexts, nestedTexts_payload _ m.attr m.nested] at h
  exact mapM_getElem? h (m.views_getElem? behind)
    (linkinfoSummary_data m.data_type m.data_payload (m.behindData behind))

/-- The attributes of the data are printed as the kind asks for exactly if there are none. -/
theorem rendersData_iff : m.RendersData behind ↔ m.inner = [] := by
  obtain ⟨texts, htexts⟩ : ∃ texts, linkinfoTexts (m.attr.bytes ++ behind) = .ok texts :=
    nestedLoop_exists_ok linkinfoSummary_ok _ _ _
  have hdata := m.texts_getElem? behind htexts
  constructor
  · rintro ⟨texts', -, htexts', hright⟩
    cases htexts.symm.trans htexts'
    by_contra hinner
    have hne : (layoutViews m.inner (m.dataAttr.padding ++ m.behindData behind)).map
        m.kind.summary ≠ [] := by
      rw [ne_eq, List.map_eq_nil_iff, ← List.length_eq_zero_iff, length_layoutViews]
      exact fun hzero => hinner (List.length_eq_zero_iff.mp hzero)
    have hlines : ∀ s ∈ (layoutViews m.inner (m.dataAttr.padding ++ m.behindData behind)).map
        m.kind.summary, s ≠ [] := by
      intro s hs
      obtain ⟨v, -, rfl⟩ := List.mem_map.mp hs
      exact m.kind.summary_ne_nil v
    have heq := Option.some.inj (hright.symm.trans hdata)
    exact nestedData_ne hne hlines 6 (List.append_cancel_left heq)
  · intro hinner
    refine ⟨texts, m.summary_eq behind htexts, htexts, ?_⟩
    rw [hdata, dataText, hinner]
    rfl

end LinkInfo

def vlanTen : Rtattr := plainRtattr 1 [10, 0]

def vlanLinkInfo : LinkInfo where
  kind := .vlan
  before := []
  kindAttr := plainRtattr 1 [118, 108, 97, 110, 0]
  between := []
  dataAttr := plainRtattr 2 (layout [vlanTen])
  after := []
  inner := [vlanTen]
  attr := plainRtattr 18
    (layout [plainRtattr 1 [118, 108, 97, 110, 0], plainRtattr 2 (layout [vlanTen])])
  attr_type := rfl
  nested := rfl
  kind_type := rfl
  kind_name := rfl
  data_type := rfl
  data_payload := rfl

theorem infoData_blank : attrHdr 24 iflaInfoData "IFLA_INFO_DATA" ++ nestedData 6 [] =
    "0x0002 IFLA_INFO_DATA           :: nested-data".toList := by decide +kernel

theorem vlanLinkInfo_dataText : vlanLinkInfo.dataText [] =
    ("0x0002 IFLA_INFO_DATA           :: nested-data\n" ++
      "      0x0001 IFLA_VLAN_ID             :: 10").toList := by decide +kernel

/-- What is printed for the data is its name only, and not its one attribute. -/
theorem vlanLinkInfo_lost :
    (∃ texts, linkinfoTexts (vlanLinkInfo.attr.bytes ++ []) = .ok texts ∧
      texts[1]? = some "0x0002 IFLA_INFO_DATA           :: nested-data".toList) ∧
    vlanLinkInfo.dataText [] = ("0x0002 IFLA_INFO_DATA           :: nested-data\n" ++
      "      0x0001 IFLA_VLAN_ID             :: 10").toList ∧
    ¬ vlanLinkInfo.RendersData [] := by
  obtain ⟨texts, htexts⟩ : ∃ texts, linkinfoTexts (vlanLinkInfo.attr.bytes ++ []) = .ok texts :=
    nestedLoop_exists_ok linkinfoSummary_ok _ _ _
  have hdata := vlanLinkInfo.texts_getElem? [] htexts
  rw [infoData_blank] at hdata
  refine ⟨⟨texts, htexts, hdata⟩, vlanLinkInfo_dataText, ?_⟩
  rintro ⟨texts', -, htexts', hright⟩
  cases htexts.symm.trans htexts'
  have heq := Option.some.inj (hdata.symm.trans hright)
  rw [vlanLinkInfo_dataText] at heq
  exact absurd heq (by decide +kernel)

end Routerd
