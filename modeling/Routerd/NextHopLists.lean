import Routerd.RouteSummaries

/-!
# The next hops of a multipath route

`RTNH_NEXT` does not count down the length as `RTA_NEXT` does, and the loop over the next
hops does not do it either. Each header is compared with the length of the whole list, and
so is the one behind the last next hop, which is outside the attribute. The next hops of
the list are printed as they should be; whether more are printed is up to what follows.
-/

namespace Routerd
open ByteMemory NumeralText

/-- A next hop with a list of attributes. -/
structure NextHop where
  flags : UInt8
  hops : UInt8
  ifindex : UInt32
  attrs : List Rtattr
  fits : (layout attrs).length + 8 < 65536

namespace NextHop

def len (h : NextHop) : ℕ := (layout h.attrs).length + 8

def bytes (h : NextHop) : Mem :=
  bytes16 h.len ++ ([h.flags, h.hops] ++ (bytes32 h.ifindex.toNat ++ layout h.attrs))

end NextHop

def hopsBytes (hs : List NextHop) : Mem := hs.flatMap NextHop.bytes

/-- An `RTA_MULTIPATH` attribute made of next hops. -/
structure Multipath where
  attr : Rtattr
  list : List NextHop
  attr_type : attr.type = rtaMultipath
  payload : attr.payload = hopsBytes list

/-- What should be printed for the next hops: each once, with its own attributes. -/
def hopsText (summary : Mem → Except Fault Text) : List NextHop → Mem → Except Fault Text
  | [], _ => .ok []
  | h :: hs, behind => do
    let attrs ← (layoutViews h.attrs (hopsBytes hs ++ behind)).mapM summary
    let rest ← hopsText summary hs behind
    .ok (nexthopLine h.flags h.hops h.ifindex ++ nexthopAttrs attrs ++ rest)

/-- The offsets at which the loop reads the length of a next hop. -/
def rtnhTests (summary : Mem → Except Fault Text) : ℕ → Mem → ℕ → ℕ → List ℕ
  | 0, _, _, offset => [offset]
  | fuel + 1, rtnh, plen, offset =>
    offset ::
      if rtnhOk rtnh plen then
        match nestedTexts summary (rtnh.drop 8) (rtnhLen rtnh - 8) with
        | .error _ => []
        | .ok _ => rtnhTests summary fuel (rtnh.drop (rtaAlign (rtnhLen rtnh))) plen
            (offset + rtaAlign (rtnhLen rtnh))
      else []

namespace Multipath

variable (m : Multipath) (behind : Mem)

/-- The summary of the attribute shows the next hops of the list and nothing else. -/
def RendersHops : Prop :=
  ∃ text, hopsText rtmsgRtattrSummary m.list (m.attr.padding ++ behind) = .ok text ∧
    rtmsgRtattrSummary (m.attr.bytes ++ behind) =
      .ok (attrHdr 16 rtaMultipath "RTA_MULTIPATH" ++ "nested".toList ++ text)

/-- No length of a next hop is read outside the attribute. -/
def ReadsInside : Prop :=
  ∀ offset ∈ rtnhTests rtmsgRtattrSummary (m.attr.payload ++ (m.attr.padding ++ behind)).length
    (m.attr.payload ++ (m.attr.padding ++ behind)) m.attr.payload.length 4,
    offset + 2 ≤ m.attr.len

end Multipath

/-! ### One next hop -/

namespace NextHop

variable (h : NextHop) (rest : Mem)

theorem length_bytes : h.bytes.length = h.len := by
  rw [bytes, List.length_append, List.length_append, List.length_append, len]
  change 2 + (2 + (4 + _)) = _
  omega

theorem rtnhLen_bytes : rtnhLen (h.bytes ++ rest) = h.len := by
  rw [rtnhLen, bytes, List.append_assoc, le16_bytes16]
  exact Nat.mod_eq_of_lt h.fits

theorem le32_bytes : le32 (h.bytes ++ rest) 4 = h.ifindex := by
  have hread := le32_bytes32 h.ifindex.toNat_lt (layout h.attrs ++ rest)
  rw [← List.append_assoc] at hread
  exact UInt32.toNat_inj.mp hread

theorem drop_bytes : (h.bytes ++ rest).drop 8 = layout h.attrs ++ rest := rfl

theorem rtaAlign_len : rtaAlign h.len = h.bytes.length := by
  have hmod := length_layout_mod h.attrs
  rw [length_bytes]
  unfold rtaAlign len
  omega

theorem drop_rtaAlign : (h.bytes ++ rest).drop (rtaAlign (rtnhLen (h.bytes ++ rest))) = rest := by
  rw [rtnhLen_bytes, rtaAlign_len, List.drop_left]

theorem rtnhOk_bytes {plen : ℕ} (hfits : h.len ≤ plen) : rtnhOk (h.bytes ++ rest) plen := by
  rw [rtnhOk, rtnhLen_bytes]
  exact ⟨Nat.le_add_left 8 _, hfits⟩

theorem nestedTexts_bytes (summary : Mem → Except Fault Text) :
    nestedTexts summary ((h.bytes ++ rest).drop 8) (rtnhLen (h.bytes ++ rest) - 8) =
      (layoutViews h.attrs rest).mapM summary := by
  rw [rtnhLen_bytes, drop_bytes, len, Nat.add_sub_cancel, nestedTexts_layout]

end NextHop

/-! ### The list -/

section Lists

variable {summary : Mem → Except Fault Text} {plen : ℕ}

/-- The next hops of the list are printed, and then whatever passes for one behind it. -/
theorem nextHopsText_hops {hs : List NextHop} (hfits : ∀ h ∈ hs, h.len ≤ plen) (behind : Mem) :
    nextHopsText summary (hopsBytes hs ++ behind) plen = (do
      let text ← hopsText summary hs behind
      let more ← nextHopsText summary behind plen
      .ok (text ++ more)) := by
  induction hs with
  | nil =>
    change nextHopsText summary behind plen = _
    rw [hopsText, ok_bind]
    cases nextHopsText summary behind plen with
    | error e => rfl
    | ok more => rfl
  | cons h hs ih =>
    have hview : hopsBytes (h :: hs) ++ behind = h.bytes ++ (hopsBytes hs ++ behind) :=
      List.append_assoc _ _ _
    rw [hview, nextHopsText_unfold, if_pos (h.rtnhOk_bytes _ (hfits h List.mem_cons_self)),
      h.nestedTexts_bytes, h.drop_rtaAlign, h.le32_bytes,
      ih fun h' hh' => hfits h' (List.mem_cons_of_mem h hh'), hopsText]
    cases (layoutViews h.attrs (hopsBytes hs ++ behind)).mapM summary with
    | error e => rfl
    | ok attrs =>
      cases hopsText summary hs behind with
      | error e => rfl
      | ok text =>
        cases nextHopsText summary behind plen with
        | error e => rfl
        | ok more => exact congrArg Except.ok (List.append_assoc _ _ _).symm

theorem mem_rtnhTests_behind {hs : List NextHop} (hfits : ∀ h ∈ hs, h.len ≤ plen) {behind : Mem}
    {text : Text} (htext : hopsText summary hs behind = .ok text) {fuel : ℕ}
    (hfuel : hs.length ≤ fuel) (offset : ℕ) :
    offset + (hopsBytes hs).length ∈
      rtnhTests summary fuel (hopsBytes hs ++ behind) plen offset := by
  induction hs generalizing fuel offset text with
  | nil =>
    cases fuel with
    | zero => exact List.mem_cons_self
    | succ fuel => exact List.mem_cons_self
  | cons h hs ih =>
    obtain ⟨fuel, rfl⟩ : ∃ k, fuel = k + 1 :=
      ⟨fuel - 1, by rw [List.length_cons] at hfuel; omega⟩
    have hview : hopsBytes (h :: hs) ++ behind = h.bytes ++ (hopsBytes hs ++ behind) :=
      List.append_assoc _ _ _
    have hlength : (hopsBytes (h :: hs)).length = h.bytes.length + (hopsBytes hs).length :=
      List.length_append
    rw [hopsText] at htext
    obtain ⟨attrs, hattrs, htext⟩ := bind_eq_ok htext
    obtain ⟨rest, hrest, -⟩ := bind_eq_ok htext
    rw [hview, rtnhTests, if_pos (h.rtnhOk_bytes _ (hfits h List.mem_cons_self)),
      h.nestedTexts_bytes, hattrs, h.drop_rtaAlign, h.rtnhLen_bytes, h.rtaAlign_len, hlength,
      ← Nat.add_assoc]
    exact List.mem_cons_of_mem _ (ih (fun h' hh' => hfits h' (List.mem_cons_of_mem h hh')) hrest
      (Nat.le_of_succ_le_succ hfuel) _)

end Lists

theorem NextHop.len_le_hopsBytes {h : NextHop} {hs : List NextHop} (hmem : h ∈ hs) :
    h.len ≤ (hopsBytes hs).length := by
  rw [← h.length_bytes]
  exact (List.sublist_flatten_of_mem (List.mem_map_of_mem hmem)).length_le

theorem length_le_hopsBytes (hs : List NextHop) : hs.length ≤ (hopsBytes hs).length := by
  induction hs with
  | nil => exact Nat.le_refl 0
  | cons h hs ih =>
    have hlength : (hopsBytes (h :: hs)).length = h.bytes.length + (hopsBytes hs).length :=
      List.length_append
    have hlen : 8 ≤ h.bytes.length := by
      rw [h.length_bytes]
      exact Nat.le_add_left 8 _
    rw [hlength, List.length_cons]
    omega

theorem nexthopLine_ne_nil (flags hops : UInt8) (ifindex : UInt32) :
    nexthopLine flags hops ifindex ≠ [] := by
  have htext : "\n    nexthop flags=0x".toList ≠ [] := by decide
  exact List.append_ne_nil_of_left_ne_nil (List.append_ne_nil_of_left_ne_nil
    (List.append_ne_nil_of_left_ne_nil (List.append_ne_nil_of_left_ne_nil
      (List.append_ne_nil_of_left_ne_nil htext _) _) _) _) _

theorem nextHopsText_eq_nil_iff {summary : Mem → Except Fault Text} {rtnh : Mem} {plen : ℕ} :
    nextHopsText summary rtnh plen = .ok [] ↔ ¬ rtnhOk rtnh plen := by
  rw [nextHopsText_unfold]
  constructor
  · intro hnil hok
    rw [if_pos hok] at hnil
    obtain ⟨attrs, -, hnil⟩ := bind_eq_ok hnil
    obtain ⟨rest, -, hnil⟩ := bind_eq_ok hnil
    have hleft := List.append_eq_nil_iff.mp (Except.ok.inj hnil)
    exact nexthopLine_ne_nil _ _ _ (List.append_eq_nil_iff.mp hleft.1).1
  · intro hno
    exact if_neg hno

namespace Multipath

variable (m : Multipath) (behind : Mem)

theorem fits (h : NextHop) (hmem : h ∈ m.list) : h.len ≤ m.attr.payload.length := by
  rw [m.payload]
  exact NextHop.len_le_hopsBytes hmem

theorem rtmsgRtattrSummary_bytes : rtmsgRtattrSummary (m.attr.bytes ++ behind) = (do
    let text ← nextHopsText rtmsgRtattrSummary (m.attr.payload ++ (m.attr.padding ++ behind))
      m.attr.payload.length
    .ok (attrHdr 16 rtaMultipath "RTA_MULTIPATH" ++ "nested".toList ++ text)) := by
  have htypes : rtaMultipath ∉ routeTypes32 := by decide
  have haddress : ¬ (rtaMultipath = rtaDst ∨ rtaMultipath = rtaSrc ∨ rtaMultipath = rtaGateway) := by
    decide
  have hname : rtaTypeRouteToStr rtaMultipath = "RTA_MULTIPATH" := by decide
  rw [rtmsgRtattrSummary_eq]
  unfold rtmsgRtattrSummaryWith
  rw [m.attr.rtaType_bytes, m.attr_type, if_neg htypes, if_neg (by decide), if_neg (by decide),
    if_neg (by decide), if_neg (by decide), if_neg haddress, if_neg (by decide), if_pos rfl, hname,
    multipathText, m.attr.sizeSub_rtaLen, m.attr.drop_bytes]

theorem nextHopsText_payload :
    nextHopsText rtmsgRtattrSummary (m.attr.payload ++ (m.attr.padding ++ behind))
      m.attr.payload.length = (do
        let text ← hopsText rtmsgRtattrSummary m.list (m.attr.padding ++ behind)
        let more ← nextHopsText rtmsgRtattrSummary (m.attr.padding ++ behind) m.attr.payload.length
        .ok (text ++ more)) := by
  rw [← nextHopsText_hops m.fits, ← m.payload]

/-- The next hops are all that is printed exactly if what is behind the attribute does not
pass for one more. -/
theorem rendersHops_iff : m.RendersHops behind ↔
    (∃ text, hopsText rtmsgRtattrSummary m.list (m.attr.padding ++ behind) = .ok text) ∧
      ¬ rtnhOk (m.attr.padding ++ behind) m.attr.payload.length := by
  rw [RendersHops, m.rtmsgRtattrSummary_bytes, ← nextHopsText_eq_nil_iff, m.nextHopsText_payload]
  constructor
  · rintro ⟨text, htext, hsummary⟩
    refine ⟨⟨text, htext⟩, ?_⟩
    rw [htext, ok_bind] at hsummary
    obtain ⟨all, hall, hsummary⟩ := bind_eq_ok hsummary
    obtain ⟨more, hmore, hall⟩ := bind_eq_ok hall
    cases hall
    have hmore' := List.append_cancel_left (Except.ok.inj hsummary)
    rw [hmore, List.append_right_eq_self.mp hmore']
  · rintro ⟨⟨text, htext⟩, hmore⟩
    refine ⟨text, htext, ?_⟩
    rw [htext, hmore]
    exact congrArg Except.ok (congrArg _ (List.append_nil text))

/-- The attribute is never rendered within its bounds: either it is not rendered, or the
length of a next hop behind the last one is read. -/
theorem hops_rendered_iff : ¬ (m.RendersHops behind ∧ m.ReadsInside behind) ∧
    (m.RendersHops behind ↔
      (∃ text, hopsText rtmsgRtattrSummary m.list (m.attr.padding ++ behind) = .ok text) ∧
        ¬ rtnhOk (m.attr.padding ++ behind) m.attr.payload.length) := by
  refine ⟨?_, m.rendersHops_iff behind⟩
  rintro ⟨⟨text, htext, -⟩, hinside⟩
  have hfuel : m.list.length ≤ (m.attr.payload ++ (m.attr.padding ++ behind)).length := by
    rw [List.length_append, m.payload]
    exact (length_le_hopsBytes m.list).trans (Nat.le_add_right _ _)
  have htested := mem_rtnhTests_behind m.fits htext hfuel 4
  rw [← m.payload] at htested
  have hread := hinside _ htested
  rw [Rtattr.len] at hread
  omega

end Multipath

theorem bareHop_fits : (layout []).length + 8 < 65536 := by decide

def bareHop : NextHop where
  flags := 0
  hops := 0
  ifindex := 2
  attrs := []
  fits := bareHop_fits

def oneHop : Multipath where
  attr := plainRtattr 9 (hopsBytes [bareHop])
  list := [bareHop]
  attr_type := rfl
  payload := rfl

def mainTable : Rtattr := plainRtattr 15 [254, 0, 0, 0]

/-- The table behind the list of one next hop is printed as a second next hop, over
interface 254. -/
theorem oneHop_printed_twice :
    hopsText rtmsgRtattrSummary oneHop.list (oneHop.attr.padding ++ mainTable.bytes) =
      .ok "\n    nexthop flags=0x0 hops=0 ifindex=2".toList ∧
    rtmsgRtattrSummary (oneHop.attr.bytes ++ mainTable.bytes) =
      .ok ("0x0009 RTA_MULTIPATH    :: nested".toList ++
        "\n    nexthop flags=0x0 hops=0 ifindex=2".toList ++
        "\n    nexthop flags=0xf hops=0 ifindex=254".toList) ∧
    ¬ oneHop.RendersHops mainTable.bytes := by
  have hok : rtnhOk (oneHop.attr.padding ++ mainTable.bytes) oneHop.attr.payload.length := by decide
  refine ⟨by decide +kernel, ?_, fun h => ((oneHop.rendersHops_iff _).mp h).2 hok⟩
  rw [oneHop.rtmsgRtattrSummary_bytes]
  decide +kernel

end Routerd
