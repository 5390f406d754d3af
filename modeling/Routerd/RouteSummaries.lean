import Routerd.AttributeText
import Routerd.RouteCommands
import Routerd.SummaryWalks

/-!
# The summaries of route and nexthop attributes

`rtmsg_rtattr_summary` is recursive: the attributes of a next hop are attributes of a
route again. What it prints for them is first a parameter. A nested attribute lies behind
the one it is nested in, so as many levels as there are bytes are enough, and the function
satisfies the equation of the source. `nhmsg_rtattr_summary` has copies of some branches.
-/

namespace Routerd
open ByteMemory NumeralText InetText

/-! ### Names -/

def routeTypeNames : List String :=
  ["RTA_UNSPEC", "RTA_DST", "RTA_SRC", "RTA_IIF", "RTA_OIF", "RTA_GATEWAY", "RTA_PRIORITY",
    "RTA_PREFSRC", "RTA_METRICS", "RTA_MULTIPATH", "RTA_PROTOINFO", "RTA_FLOW", "RTA_CACHEINFO",
    "RTA_SESSION", "RTA_MP_ALGO", "RTA_TABLE", "RTA_MARK", "RTA_MFC_STATS", "RTA_VIA",
    "RTA_NEWDST", "RTA_PREF", "RTA_ENCAP_TYPE", "RTA_ENCAP", "RTA_EXPIRES", "RTA_PAD", "RTA_UID",
    "RTA_TTL_PROPAGATE", "RTA_IP_PROTO", "RTA_SPORT", "RTA_DPORT", "RTA_NH_ID"]

def rtaTypeRouteToStr (type : ℕ) : String := routeTypeNames.getD type "RTA_XXXUNKNOWNXXX"

def nexthopTypeNames : List String :=
  ["NHA_UNSPEC", "NHA_ID", "NHA_GROUP", "NHA_GROUP_TYPE", "NHA_BLACKHOLE", "NHA_OIF",
    "NHA_GATEWAY", "NHA_ENCAP_TYPE", "NHA_ENCAP", "NHA_GROUPS", "NHA_MASTER"]

def rtaTypeNexthopToStr (type : ℕ) : String := nexthopTypeNames.getD type "NHA_XXXUNKNOWNXXX"

def lwtunnelEncapTypesToStr (type : ℕ) : String :=
  ["LWTUNNEL_ENCAP_NONE", "LWTUNNEL_ENCAP_MPLS", "LWTUNNEL_ENCAP_IP", "LWTUNNEL_ENCAP_ILA",
    "LWTUNNEL_ENCAP_IP6", "LWTUNNEL_ENCAP_SEG6", "LWTUNNEL_ENCAP_BPF",
    "LWTUNNEL_ENCAP_SEG6_LOCAL"].getD type "LWTUNNEL_ENCAP_UNKNOWN"

/-- The parameter is a `uint16_t`. -/
def seg6LocalActionToStr (act : UInt32) : String :=
  ["SEG6_LOCAL_ACTION_UNSPEC ", "SEG6_LOCAL_ACTION_END", "SEG6_LOCAL_ACTION_END_X",
    "SEG6_LOCAL_ACTION_END_T", "SEG6_LOCAL_ACTION_END_DX2", "SEG6_LOCAL_ACTION_END_DX6",
    "SEG6_LOCAL_ACTION_END_DX4", "SEG6_LOCAL_ACTION_END_DT6", "SEG6_LOCAL_ACTION_END_DT4",
    "SEG6_LOCAL_ACTION_END_B6", "SEG6_LOCAL_ACTION_END_B6_ENCAP", "SEG6_LOCAL_ACTION_END_BM",
    "SEG6_LOCAL_ACTION_END_S", "SEG6_LOCAL_ACTION_END_AS",
    "SEG6_LOCAL_ACTION_END_AM"].getD (act.toNat % 65536) "SEG6_LOCAL_ACTION_UNKNOWN"

def seg6LocalToStr (type : ℕ) : String :=
  ["SEG6_LOCAL_UNSPEC", "SEG6_LOCAL_ACTION", "SEG6_LOCAL_SRH", "SEG6_LOCAL_TABLE ",
    "SEG6_LOCAL_NH4", "SEG6_LOCAL_NH6", "SEG6_LOCAL_IIF",
    "SEG6_LOCAL_OIF"].getD type "SEG6_LOCAL_UKNOWN"

def seg6IptunnelToStr (type : ℕ) : String :=
  ["SEG6_IPTUNNEL_UNSPEC", "SEG6_IPTUNNEL_SRH"].getD type "SEG6_IPTUNNEL_UNKNOWN"

/-- The parameter is a `uint16_t`. -/
def seg6IptunModeToStr (mode : UInt32) : String :=
  ["SEG6_IPTUN_MODE_INLINE", "SEG6_IPTUN_MODE_ENCAP",
    "SEG6_IPTUN_MODE_L2ENCAP"].getD (mode.toNat % 65536) "SEG6_IPTUN_MODE_UNKNOWN"

/-! ### Encapsulations -/

/-- The segments of a routing header; a list of none has no closing bracket. -/
def segmentsText (srh : Mem) (n : ℕ) : Text :=
  (List.range n).flatMap fun i =>
    inetNtop6 (bytes 16 (srh.drop (8 + 16 * i))) ++ if i + 1 < n then ",".toList else "]".toList

/-- `n` is `((hdrlen * 8 + 8) - 8) / 16`. -/
def ipv6SrHdrSummary (srh : Mem) : Text :=
  "nh=".toList ++ decimal (byteAt srh 0).toNat ++ " hl=".toList ++ decimal (byteAt srh 1).toNat ++
    " t=".toList ++ decimal (byteAt srh 2).toNat ++ " sl=".toList ++
    decimal (byteAt srh 3).toNat ++ " [".toList ++
    segmentsText srh (((byteAt srh 1).toNat * 8 + 8 - 8) / 16)

def rtmsgRtattrSeg6Summary (rta : Mem) : Text :=
  let hdr := attrHdr 20 (rtaType rta) (seg6IptunnelToStr (rtaType rta))
  if rtaType rta = seg6IptunnelSrh then
    hdr ++ "mode=".toList ++ decimal (le32 rta 4).toNat ++ " (".toList ++
      (seg6IptunModeToStr (le32 rta 4)).toList ++ ") ".toList ++ ipv6SrHdrSummary (rta.drop 8)
  else hdr ++ unknownFmt rta

/-- The text of an address of `len` bytes. -/
def addressText (addr : Mem) (len : ℕ) : Text :=
  if len = 4 then inetNtop4 (bytes 4 addr) else inetNtop6 (bytes 16 addr)

/-- The value of an attribute, if it has this length with its header. -/
def sizedText (rta : Mem) (len : ℕ) (text : Text) : Except Fault Text :=
  if rtaLen rta = len then .ok text else .error .assertion

def seg6LocalSrh : ℕ := 2

def seg6LocalIif : ℕ := 6

def rtmsgRtattrSeg6LocalSummary (rta : Mem) : Except Fault Text :=
  let type := rtaType rta
  let hdr := attrHdr 20 type (seg6LocalToStr type)
  if type = seg6LocalAction then
    sizedText rta 8 (hdr ++ decimal (le32 rta 4).toNat ++ " (".toList ++
      (seg6LocalActionToStr (le32 rta 4)).toList ++ ")".toList)
  else if type = seg6LocalNh6 then sizedText rta 20 (hdr ++ addressText (rta.drop 4) 16)
  else if type = seg6LocalNh4 then sizedText rta 8 (hdr ++ addressText (rta.drop 4) 4)
  else if type = seg6LocalOif ∨ type = seg6LocalIif ∨ type = seg6LocalTable then
    sizedText rta 8 (hdr ++ formatValue rta .u32)
  else if type = seg6LocalSrh then .ok (hdr ++ ipv6SrHdrSummary (rta.drop 4))
  else .ok (hdr ++ unknownFmt rta)

/-- `attr_str` in the loop over an encapsulation. -/
def encapAttrSummary (encapKind : ℕ) (rta : Mem) : Except Fault Text :=
  if encapKind = lwtunnelEncapSeg6Local then rtmsgRtattrSeg6LocalSummary rta
  else if encapKind = lwtunnelEncapSeg6 then .ok (rtmsgRtattrSeg6Summary rta)
  else .ok []

/-- The branch of an encapsulation, which the two summaries have in common but for the
number of the type of the encapsulation. Its value is looked for right behind the attribute. -/
def encapTexts (encapTypeType : ℕ) (rta : Mem) : Except Fault (List Text) :=
  let rtan := rta.drop (rtaLen rta)
  if rtaType rtan = encapTypeType ∧ rtaLen rtan = 6 then
    nestedTexts (encapAttrSummary (le16 rtan 4)) (rta.drop 4) (sizeSub (rtaLen rta) 4)
  else .error .assertion

/-! ### Routes -/

def rtnhLen (rtnh : Mem) : ℕ := le16 rtnh 0

/-- `RTNH_OK`, which reads the length before it looks at `len`. -/
def rtnhOk (rtnh : Mem) (len : ℕ) : Prop := 8 ≤ rtnhLen rtnh ∧ rtnhLen rtnh ≤ len

instance (rtnh : Mem) (len : ℕ) : Decidable (rtnhOk rtnh len) :=
  inferInstanceAs (Decidable (_ ∧ _))

def nexthopLine (flags hops : UInt8) (ifindex : UInt32) : Text :=
  "\n    nexthop flags=0x".toList ++ hex flags.toNat ++ " hops=".toList ++ decimal hops.toNat ++
    " ifindex=".toList ++ signedDecimal ifindex

/-- The attributes of a next hop, each on a line. -/
def nexthopAttrs (texts : List Text) : Text := texts.flatMap fun s => "\n      ".toList ++ s

/-- The loop over the next hops. `plen` is what it was at the start, in every round. -/
def multipathLoop (summary : Mem → Except Fault Text) : ℕ → Mem → ℕ → Except Fault Text
  | 0, _, _ => .ok []
  | fuel + 1, rtnh, plen =>
    if rtnhOk rtnh plen then do
      let attrs ← nestedTexts summary (rtnh.drop 8) (rtnhLen rtnh - 8)
      let rest ← multipathLoop summary fuel (rtnh.drop (rtaAlign (rtnhLen rtnh))) plen
      .ok (nexthopLine (byteAt rtnh 2) (byteAt rtnh 3) (le32 rtnh 4) ++ nexthopAttrs attrs ++ rest)
    else .ok []

/-- The next hops from `rtnh` on. A round for each byte is more than enough. -/
def nextHopsText (summary : Mem → Except Fault Text) (rtnh : Mem) (plen : ℕ) :
    Except Fault Text :=
  multipathLoop summary rtnh.length rtnh plen

def multipathText (summary : Mem → Except Fault Text) (rta : Mem) : Except Fault Text :=
  nextHopsText summary (rta.drop 4) (sizeSub (rtaLen rta) 4)

/-- `PRIORITY`, `PREFSRC`, `TABLE`, `IIF`, `OIF` and `NH_ID`. -/
def routeTypes32 : List ℕ := [6, 7, 15, 3, 4, 30]

def rtaExpires : ℕ := 23

def rtaPref : ℕ := 20

def rtaMfcStats : ℕ := 17

def rtaMultipath : ℕ := 9

def rtaVia : ℕ := 18

def encapTypeText (rta : Mem) : Text :=
  decimal (le16 rta 4) ++ " (".toList ++ (lwtunnelEncapTypesToStr (le16 rta 4)).toList ++ ")".toList

/-- An address of either family, by its length. -/
def gatewayText (rta : Mem) : Except Fault Text :=
  let addrLen := sizeSub (rtaLen rta) 4
  if addrLen = 4 ∨ addrLen = 16 then .ok (addressText (rta.drop 4) addrLen) else .error .assertion

def viaText (rta : Mem) : Except Fault Text :=
  let addrLen := sizeSub (rtaLen rta) 4
  let family := le16 rta 4
  if addrLen = 6 ∧ family = 2 then .ok ("inet ".toList ++ addressText (rta.drop 6) 4)
  else if addrLen = 18 ∧ family = 10 then .ok ("inet6 ".toList ++ addressText (rta.drop 6) 16)
  else .error .assertion

def mfcStatsText (rta : Mem) : Text :=
  "pkt=".toList ++ decimal (le64 rta 4) ++ " bytes=".toList ++ decimal (le64 rta 12) ++
    " wrong_if=".toList ++ decimal (le64 rta 20)

/-- `rtmsg_rtattr_summary`, with `summary` for the attributes of next hops. -/
def rtmsgRtattrSummaryWith (summary : Mem → Except Fault Text) (rta : Mem) : Except Fault Text :=
  let type := rtaType rta
  let hdr := attrHdr 16 type (rtaTypeRouteToStr type)
  if type ∈ routeTypes32 then sizedText rta 8 (hdr ++ formatValue rta .u32)
  else if type = rtaEncapType then sizedText rta 6 (hdr ++ encapTypeText rta)
  else if type = rtaExpires then sizedText rta 12 (hdr ++ formatValue rta .u64)
  else if type = rtaEncap then do .ok (hdr ++ nestedData 4 (← encapTexts rtaEncapType rta))
  else if type = rtaPref then sizedText rta 5 (hdr ++ formatValue rta .u8)
  else if type = rtaDst ∨ type = rtaSrc ∨ type = rtaGateway then do
    .ok (hdr ++ (← gatewayText rta))
  else if type = rtaMfcStats then sizedText rta 28 (hdr ++ mfcStatsText rta)
  else if type = rtaMultipath then do
    .ok (hdr ++ "nested".toList ++ (← multipathText summary rta))
  else if type = rtaVia then do .ok (hdr ++ (← viaText rta))
  else .ok (hdr ++ unknownFmt rta)

/-- The function followed for a number of levels. -/
def rtmsgRtattrSummaryDepth : ℕ → Mem → Except Fault Text
  | 0 => fun _ => .ok []
  | depth + 1 => rtmsgRtattrSummaryWith (rtmsgRtattrSummaryDepth depth)

def rtmsgRtattrSummary (rta : Mem) : Except Fault Text :=
  rtmsgRtattrSummaryDepth (rta.length + 1) rta

/-! ### Nexthops -/

def nhaId : ℕ := 1

def nhaGroup : ℕ := 2

def nhaGroupType : ℕ := 3

def nhaOif : ℕ := 5

def nhaGateway : ℕ := 6

def nhaEncapType : ℕ := 7

def nhaEncap : ℕ := 8

/-- A `nexthop_grp` is the id, the weight, one byte, and three of padding. -/
def groupText (rta : Mem) : Except Fault Text :=
  let len := rtaLen rta - 4
  if len % 8 = 0 then
    .ok ("array-data\n".toList ++ (List.range (len / 8)).flatMap fun i =>
      "    id=".toList ++ decimal (le32 rta (4 + 8 * i)).toNat ++ " weight=".toList ++
        decimal (byteAt rta (4 + 8 * i + 4)).toNat ++ "\n".toList).dropLast
  else .error .assertion

def groupTypeText (rta : Mem) : Text :=
  decimal (le16 rta 4) ++ " (".toList ++
    (if le16 rta 4 = 0 then "NEXTHOP_GRP_TYPE_MPATH".toList
      else "NHA_GRP_TYPE_XXXUNKNOWNXXX".toList) ++ ")".toList

def nhmsgRtattrSummary (rta : Mem) : Except Fault Text :=
  let type := rtaType rta
  let hdr := attrHdr 16 type (rtaTypeNexthopToStr type)
  if type = nhaId ∨ type = nhaOif then sizedText rta 8 (hdr ++ formatValue rta .u32)
  else if type = nhaEncapType then sizedText rta 6 (hdr ++ encapTypeText rta)
  else if type = nhaGroup then do .ok (hdr ++ (← groupText rta))
  else if type = nhaGroupType then sizedText rta 6 (hdr ++ groupTypeText rta)
  else if type = nhaEncap then do .ok (hdr ++ nestedData 4 (← encapTexts nhaEncapType rta))
  else if type = nhaGateway then do .ok (hdr ++ (← gatewayText rta))
  else .ok (hdr ++ unknownFmt rta)

/-! ### The equation of the source -/

section Levels

variable {summary summary' : Mem → Except Fault Text}

theorem nestedLoop_congr {rta : Mem} (h : ∀ m : Mem, m.length ≤ rta.length → summary m = summary' m)
    (fuel len : ℕ) : nestedLoop summary fuel rta len = nestedLoop summary' fuel rta len := by
  induction fuel generalizing rta len with
  | zero => rfl
  | succ fuel ih =>
    have hnext : (rtaNext rta).length ≤ rta.length :=
      (List.drop_sublist _ _).length_le
    rw [nestedLoop, nestedLoop, h rta le_rfl, ih fun m hm => h m (hm.trans hnext)]

theorem multipathLoop_congr {rtnh : Mem}
    (h : ∀ m : Mem, m.length ≤ rtnh.length → summary m = summary' m) (fuel plen : ℕ) :
    multipathLoop summary fuel rtnh plen = multipathLoop summary' fuel rtnh plen := by
  induction fuel generalizing rtnh with
  | zero => rfl
  | succ fuel ih =>
    have hdrop : ∀ n, (rtnh.drop n).length ≤ rtnh.length := fun n =>
      (List.drop_sublist _ _).length_le
    have hattrs : nestedTexts summary (rtnh.drop 8) (rtnhLen rtnh - 8) =
        nestedTexts summary' (rtnh.drop 8) (rtnhLen rtnh - 8) :=
      nestedLoop_congr (fun m hm => h m (hm.trans (hdrop 8))) _ _
    rw [multipathLoop, multipathLoop, hattrs, ih fun m hm => h m (hm.trans (hdrop _))]

theorem rtmsgRtattrSummaryWith_congr {rta : Mem}
    (h : ∀ m : Mem, m.length < rta.length → summary m = summary' m) :
    rtmsgRtattrSummaryWith summary rta = rtmsgRtattrSummaryWith summary' rta := by
  by_cases htype : rtaType rta = rtaMultipath
  · have hpos : 0 < rta.length := by
      rw [List.length_pos_iff]
      rintro rfl
      exact absurd htype (by decide)
    have hdrop : (rta.drop 4).length < rta.length := by
      rw [List.length_drop]
      omega
    have htext : multipathText summary rta = multipathText summary' rta :=
      multipathLoop_congr (fun m hm => h m (lt_of_le_of_lt hm hdrop)) _ _
    unfold rtmsgRtattrSummaryWith
    rw [htext]
  · unfold rtmsgRtattrSummaryWith
    simp only [if_neg htype]

theorem rtmsgRtattrSummaryDepth_eq {depth depth' : ℕ} {rta : Mem} (h : rta.length < depth)
    (h' : rta.length < depth') :
    rtmsgRtattrSummaryDepth depth rta = rtmsgRtattrSummaryDepth depth' rta := by
  induction depth generalizing depth' rta with
  | zero => omega
  | succ depth ih =>
    obtain ⟨depth', rfl⟩ : ∃ k, depth' = k + 1 := ⟨depth' - 1, by omega⟩
    rw [rtmsgRtattrSummaryDepth, rtmsgRtattrSummaryDepth]
    exact rtmsgRtattrSummaryWith_congr fun m hm => ih (by omega) (by omega)

end Levels

theorem rtmsgRtattrSummary_eq (rta : Mem) :
    rtmsgRtattrSummary rta = rtmsgRtattrSummaryWith rtmsgRtattrSummary rta := by
  rw [rtmsgRtattrSummary, rtmsgRtattrSummaryDepth]
  exact rtmsgRtattrSummaryWith_congr fun m hm => rtmsgRtattrSummaryDepth_eq hm (Nat.lt_succ_self _)

theorem rtnhOk_length_pos {rtnh : Mem} {plen : ℕ} (hok : rtnhOk rtnh plen) : 0 < rtnh.length := by
  rw [List.length_pos_iff]
  rintro rfl
  exact absurd hok.1 (by decide)

theorem length_drop_rtnh_lt {rtnh : Mem} {plen : ℕ} (hok : rtnhOk rtnh plen) :
    (rtnh.drop (rtaAlign (rtnhLen rtnh))).length < rtnh.length := by
  have hpos := rtnhOk_length_pos hok
  have hmin := hok.1
  rw [List.length_drop]
  unfold rtaAlign
  omega

theorem isWalk_multipathLoop (summary : Mem → Except Fault Text) :
    IsWalk rtnhOk (fun rtnh => rtnh.drop (rtaAlign (rtnhLen rtnh))) (fun _ => .ok [])
      (fun rtnh plen rest => do
        let attrs ← nestedTexts summary (rtnh.drop 8) (rtnhLen rtnh - 8)
        let rest ← rest plen
        .ok (nexthopLine (byteAt rtnh 2) (byteAt rtnh 3) (le32 rtnh 4) ++ nexthopAttrs attrs ++
          rest))
      (multipathLoop summary) :=
  ⟨fun _ _ => rfl, fun _ _ _ => rfl, fun _ _ => length_drop_rtnh_lt⟩

theorem nextHopsText_unfold (summary : Mem → Except Fault Text) (rtnh : Mem) (plen : ℕ) :
    nextHopsText summary rtnh plen =
      if rtnhOk rtnh plen then (do
        let attrs ← nestedTexts summary (rtnh.drop 8) (rtnhLen rtnh - 8)
        let rest ← nextHopsText summary (rtnh.drop (rtaAlign (rtnhLen rtnh))) plen
        .ok (nexthopLine (byteAt rtnh 2) (byteAt rtnh 3) (le32 rtnh 4) ++ nexthopAttrs attrs ++
          rest))
      else .ok [] :=
  (isWalk_multipathLoop summary).unfold rtnh plen

end Routerd
