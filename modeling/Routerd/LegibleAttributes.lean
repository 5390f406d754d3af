import Routerd.AttributePlaces
import Routerd.AssertedLengths
import Routerd.NextHopLists

/-!
# Nested attributes in their place

What an attribute prints that is nested in an encapsulation does not depend on what lies behind it
if the routing header in it has the segments it announces. By two kinds an encapsulation prints the
same only if the kinds are equal, or there is nothing to tell them apart. The next hops of a route
print in their place what they print alone if nothing behind them passes for one more.
-/

namespace Routerd
open ByteMemory NumeralText InetText

/-! ### Routing headers -/

/-- A routing header that a nested attribute holds by this kind has the segments it announces. -/
def SegmentsInside (kind : ℕ) (a : Rtattr) : Prop :=
  (kind = lwtunnelEncapSeg6Local → a.type = seg6LocalSrh →
      8 + 16 * ((byteAt a.payload 1).toNat / 2) ≤ a.payload.length) ∧
    (kind = lwtunnelEncapSeg6 → a.type = seg6IptunnelSrh →
      12 + 16 * ((byteAt a.payload 5).toNat / 2) ≤ a.payload.length)

instance (kind : ℕ) (a : Rtattr) : Decidable (SegmentsInside kind a) :=
  inferInstanceAs (Decidable (_ ∧ _))

/-- A nested attribute has the length that is asserted by its kind, and its segments. -/
structure NestedLegible (kind : ℕ) (a : Rtattr) : Prop where
  length : kind = lwtunnelEncapSeg6Local → Seg6LocalLength a.type a.len
  segments : SegmentsInside kind a

/-- The text of a nested attribute by its kind, of its own bytes alone. -/
def ownText (kind : ℕ) (a : Rtattr) : Option Text :=
  if SegmentsInside kind a then (encapAttrSummary kind a.bytes).toOption else none

theorem ipv6SrHdrSummary_append {srh : Mem}
    (h : 8 + 16 * ((byteAt srh 1).toNat / 2) ≤ srh.length) (behind : Mem) :
    ipv6SrHdrSummary (srh ++ behind) = ipv6SrHdrSummary srh := by
  have hcount : ((byteAt srh 1).toNat * 8 + 8 - 8) / 16 = (byteAt srh 1).toNat / 2 := by omega
  have hsegments : ∀ i ∈ List.range ((byteAt srh 1).toNat / 2),
      bytes 16 ((srh ++ behind).drop (8 + 16 * i)) = bytes 16 (srh.drop (8 + 16 * i)) := by
    intro i hi
    have hlt := List.mem_range.mp hi
    rw [List.drop_append_of_le_length (by omega),
      bytes_append (by rw [List.length_drop]; omega)]
  unfold ipv6SrHdrSummary segmentsText
  rw [byteAt_append (by omega), byteAt_append (by omega), byteAt_append (by omega),
    byteAt_append (by omega), hcount]
  rw [List.flatMap_congr fun i hi => by rw [hsegments i hi]]

namespace Rtattr

variable (a : Rtattr) (behind : Mem)

theorem drop_self : a.bytes.drop 4 = a.payload ++ a.padding := by
  rw [← List.append_nil a.bytes, a.drop_bytes, List.append_nil]

theorem eq_of_bytes_append {a b : Rtattr} {rest rest' : Mem}
    (h : a.bytes ++ rest = b.bytes ++ rest') : a = b ∧ rest = rest' := by
  have hlen : a.len = b.len := by rw [← a.rtaLen_bytes rest, h, b.rtaLen_bytes]
  have hlength : a.payload.length = b.payload.length := Nat.add_right_cancel hlen
  obtain ⟨hbytes, hrest⟩ := List.append_inj h (by rw [a.length_bytes, b.length_bytes, hlen])
  have hbody := congrArg (List.drop 4) hbytes
  rw [a.drop_self, b.drop_self] at hbody
  obtain ⟨hpayload, hpadding⟩ := List.append_inj hbody hlength
  have htype : a.type = b.type := by rw [← a.rtaType_self, hbytes, b.rtaType_self]
  refine ⟨?_, hrest⟩
  cases a
  cases b
  cases hpayload
  cases hpadding
  cases htype
  rfl

theorem action_place (hdr : Text) :
    sizedText (a.bytes ++ behind) 8 (hdr ++ decimal (le32 (a.bytes ++ behind) 4).toNat ++
        " (".toList ++ (seg6LocalActionToStr (le32 (a.bytes ++ behind) 4)).toList ++ ")".toList) =
      sizedText a.bytes 8 (hdr ++ decimal (le32 a.bytes 4).toNat ++
        " (".toList ++ (seg6LocalActionToStr (le32 a.bytes 4)).toList ++ ")".toList) :=
  a.sizedText_place behind (fun rta => hdr ++ decimal (le32 rta 4).toNat ++ " (".toList ++
    (seg6LocalActionToStr (le32 rta 4)).toList ++ ")".toList) fun hlen => by
      rw [le32_append (by omega)]

theorem sizedAddress_place (hdr : Text) {len : ℕ} (hlen : len = 4 ∨ len = 16) :
    sizedText (a.bytes ++ behind) (4 + len)
        (hdr ++ addressText ((a.bytes ++ behind).drop 4) len) =
      sizedText a.bytes (4 + len) (hdr ++ addressText (a.bytes.drop 4) len) :=
  a.sizedText_place behind (fun rta => hdr ++ addressText (rta.drop 4) len) fun hfits => by
    rw [a.addressText_place behind hlen hfits]

theorem srh_place {i : ℕ}
    (h : i + 8 + 16 * ((byteAt a.payload (i + 1)).toNat / 2) ≤ a.payload.length) :
    ipv6SrHdrSummary ((a.bytes ++ behind).drop (4 + i)) =
      ipv6SrHdrSummary (a.bytes.drop (4 + i)) := by
  have hsrh : ∀ rest : Mem, ipv6SrHdrSummary ((a.payload ++ rest).drop i) =
      ipv6SrHdrSummary (a.payload.drop i) := by
    intro rest
    have hbyte : byteAt (a.payload.drop i) 1 = byteAt a.payload (i + 1) := by
      simp [byteAt, List.getD_eq_getElem?_getD]
    rw [List.drop_append_of_le_length (by omega)]
    exact ipv6SrHdrSummary_append (by rw [hbyte, List.length_drop]; omega) rest
  rw [← List.drop_drop, ← List.drop_drop, a.drop_bytes, a.drop_self, hsrh, hsrh]

theorem seg6Local_place (hsegments : SegmentsInside lwtunnelEncapSeg6Local a) :
    rtmsgRtattrSeg6LocalSummary (a.bytes ++ behind) = rtmsgRtattrSeg6LocalSummary a.bytes := by
  unfold rtmsgRtattrSeg6LocalSummary
  rw [a.rtaType_bytes, a.rtaType_self]
  dsimp only
  rw [a.action_place, a.sizedAddress_place behind _ (Or.inr rfl),
    a.sizedAddress_place behind _ (Or.inl rfl), a.sized32_place, a.unknownFmt_place]
  by_cases htype : a.type = seg6LocalSrh
  · have hfits := hsegments.1 rfl htype
    have hsrh := a.srh_place behind (i := 0) (by simpa using hfits)
    rw [Nat.add_zero] at hsrh
    rw [hsrh]
  · simp only [if_neg htype]

theorem seg6_place (hsegments : SegmentsInside lwtunnelEncapSeg6 a) :
    rtmsgRtattrSeg6Summary (a.bytes ++ behind) = rtmsgRtattrSeg6Summary a.bytes := by
  unfold rtmsgRtattrSeg6Summary
  rw [a.rtaType_bytes, a.rtaType_self, a.unknownFmt_place]
  by_cases htype : a.type = seg6IptunnelSrh
  · have hfits := hsegments.2 rfl htype
    have hlength := a.len_le_length
    rw [len] at hlength
    have hsrh := a.srh_place behind (i := 4) (by omega)
    simp only [if_pos htype]
    rw [hsrh, le32_append (by omega)]
  · simp only [if_neg htype]

/-- A nested attribute prints in its place what it prints alone. -/
theorem encapAttr_place {kind : ℕ} (hsegments : SegmentsInside kind a) :
    encapAttrSummary kind (a.bytes ++ behind) = encapAttrSummary kind a.bytes := by
  unfold encapAttrSummary
  split
  · rename_i hkind
    subst hkind
    exact a.seg6Local_place behind hsegments
  · split
    · rename_i hkind
      subst hkind
      rw [a.seg6_place behind hsegments]
    · rfl

end Rtattr

theorem layout_injective {attrs attrs' : List Rtattr} (h : layout attrs = layout attrs') :
    attrs = attrs' := by
  induction attrs generalizing attrs' with
  | nil =>
    cases attrs' with
    | nil => rfl
    | cons a attrs' =>
      have hlength := congrArg List.length h
      have hhead := a.four_le_length
      rw [layout_cons, List.length_append, layout_nil, List.length_nil] at hlength
      omega
  | cons a attrs ih =>
    cases attrs' with
    | nil =>
      have hlength := congrArg List.length h
      have hhead := a.four_le_length
      rw [layout_cons, List.length_append, layout_nil, List.length_nil] at hlength
      omega
    | cons b attrs' =>
      obtain ⟨rfl, hrest⟩ := Rtattr.eq_of_bytes_append h
      rw [ih hrest]

/-! ### Texts of nested attributes -/

theorem ownText_eq_some_iff {kind : ℕ} {a : Rtattr} {t : Text} : ownText kind a = some t ↔
    SegmentsInside kind a ∧ encapAttrSummary kind a.bytes = .ok t := by
  unfold ownText
  split
  · rename_i h
    cases encapAttrSummary kind a.bytes <;> simp [Except.toOption, h]
  · rename_i h
    simp [h]

theorem exists_ownText_iff {kind : ℕ} {a : Rtattr} :
    (∃ t, ownText kind a = some t) ↔ NestedLegible kind a := by
  have hprints := exists_encapAttrSummary_iff kind a.bytes
  rw [a.rtaType_self, a.rtaLen_self] at hprints
  simp only [ownText_eq_some_iff, exists_and_left, hprints]
  exact ⟨fun h => ⟨h.2, h.1⟩, fun h => ⟨h.segments, h.length⟩⟩

theorem mapM_some_of_forall {α : Type} {g : α → Option Text} {l : List α}
    (h : ∀ a ∈ l, ∃ t, g a = some t) : ∃ texts, l.mapM g = some texts := by
  induction l with
  | nil => exact ⟨[], rfl⟩
  | cons a l ih =>
    obtain ⟨t, ht⟩ := h a List.mem_cons_self
    obtain ⟨texts, htexts⟩ := ih fun b hb => h b (List.mem_cons_of_mem a hb)
    exact ⟨t :: texts, by rw [List.mapM_cons, ht, htexts]; rfl⟩

theorem forall_of_mapM_some {α : Type} {g : α → Option Text} {l : List α} {texts : List Text}
    (h : l.mapM g = some texts) : ∀ a ∈ l, ∃ t, g a = some t := by
  induction l generalizing texts with
  | nil => simp
  | cons a l ih =>
    rw [List.mapM_cons] at h
    obtain ⟨t, ht, hrest⟩ := Option.bind_eq_some_iff.mp h
    obtain ⟨ts, hts, -⟩ := Option.bind_eq_some_iff.mp hrest
    exact List.forall_mem_cons.mpr ⟨⟨t, ht⟩, ih hts⟩

theorem mapM_layoutViews_ownText {kind : ℕ} {nested : List Rtattr} {texts : List Text}
    (h : nested.mapM (ownText kind) = some texts) (behind : Mem) :
    (layoutViews nested behind).mapM (encapAttrSummary kind) = .ok texts := by
  induction nested generalizing texts with
  | nil =>
    cases h
    rfl
  | cons a nested ih =>
    rw [List.mapM_cons] at h
    obtain ⟨t, ht, hrest⟩ := Option.bind_eq_some_iff.mp h
    obtain ⟨ts, hts, heq⟩ := Option.bind_eq_some_iff.mp hrest
    cases heq
    obtain ⟨hsegments, hprint⟩ := ownText_eq_some_iff.mp ht
    rw [layoutViews, List.mapM_cons, a.encapAttr_place _ hsegments, hprint, ih hts]
    rfl

/-! ### Kinds -/

/-- The letter by which the texts of the two kinds of encapsulations differ. -/
def kindLetter (kind : ℕ) : Option Char :=
  if kind = lwtunnelEncapSeg6Local then some 'L'
  else if kind = lwtunnelEncapSeg6 then some 'I'
  else none

/-- Nothing in the text of the encapsulation tells the kinds apart. -/
def KindsAlike (nested : List Rtattr) (kind kind' : ℕ) : Prop :=
  nested = [] ∨ kind = kind' ∨ ∀ k ∈ [kind, kind'], k ≠ lwtunnelEncapSeg6Local ∧ k ≠ lwtunnelEncapSeg6

theorem getD_of_forall {p : String → Prop} {names : List String} {default : String}
    (h : ∀ s ∈ default :: names, p s) (i : ℕ) : p (names.getD i default) := by
  rw [List.getD_eq_getElem?_getD]
  cases hi : names[i]? with
  | none => exact h default List.mem_cons_self
  | some s => exact h s (List.mem_cons_of_mem _ (List.mem_of_getElem? hi))

def letterText (type : ℕ) (c : Char) : Text := "0x".toList ++ zeroHex 4 type ++ " SEG6_".toList ++ [c]

theorem letterText_attrHdr {type : ℕ} {c : Char} {name : String}
    (h : "SEG6_".toList ++ [c] <+: name.toList) : letterText type c <+: attrHdr 20 type name := by
  obtain ⟨rest, hrest⟩ := h
  refine ⟨rest ++ List.replicate (20 - name.toList.length) ' ' ++ " :: ".toList, ?_⟩
  rw [attrHdr, padRight, ← hrest, letterText]
  simp only [List.append_assoc]
  rfl

theorem letterText_seg6Local (type : ℕ) :
    letterText type 'L' <+: attrHdr 20 type (seg6LocalToStr type) := by
  refine letterText_attrHdr ?_
  unfold seg6LocalToStr
  refine getD_of_forall (p := fun name => "SEG6_".toList ++ ['L'] <+: name.toList) ?_ type
  decide +kernel

theorem letterText_seg6 (type : ℕ) :
    letterText type 'I' <+: attrHdr 20 type (seg6IptunnelToStr type) := by
  refine letterText_attrHdr ?_
  unfold seg6IptunnelToStr
  refine getD_of_forall (p := fun name => "SEG6_".toList ++ ['I'] <+: name.toList) ?_ type
  decide +kernel

theorem sizedText_eq_ok {rta : Mem} {len : ℕ} {text t : Text} (h : sizedText rta len text = .ok t) :
    t = text := by
  rw [sizedText] at h
  split at h
  · exact (Except.ok.inj h).symm
  · cases h

theorem seg6Local_header {rta : Mem} {t : Text} (h : rtmsgRtattrSeg6LocalSummary rta = .ok t) :
    attrHdr 20 (rtaType rta) (seg6LocalToStr (rtaType rta)) <+: t := by
  unfold rtmsgRtattrSeg6LocalSummary at h
  dsimp only at h
  split at h
  · rw [sizedText_eq_ok h]
    simp only [List.append_assoc]
    exact List.prefix_append _ _
  split at h
  · rw [sizedText_eq_ok h]
    exact List.prefix_append _ _
  split at h
  · rw [sizedText_eq_ok h]
    exact List.prefix_append _ _
  split at h
  · rw [sizedText_eq_ok h]
    exact List.prefix_append _ _
  split at h
  · rw [← Except.ok.inj h]
    exact List.prefix_append _ _
  · rw [← Except.ok.inj h]
    exact List.prefix_append _ _

theorem seg6_header (rta : Mem) : attrHdr 20 (rtaType rta) (seg6IptunnelToStr (rtaType rta)) <+:
    rtmsgRtattrSeg6Summary rta := by
  unfold rtmsgRtattrSeg6Summary
  dsimp only
  split
  · simp only [List.append_assoc]
    exact List.prefix_append _ _
  · exact List.prefix_append _ _

/-- What a nested attribute prints shows the letter of the kind, and nothing by a kind without one. -/
theorem encapAttrSummary_letter {kind : ℕ} {rta : Mem} {t : Text}
    (h : encapAttrSummary kind rta = .ok t) :
    (kindLetter kind = none ∧ t = []) ∨
      ∃ c, kindLetter kind = some c ∧ letterText (rtaType rta) c <+: t := by
  unfold encapAttrSummary at h
  unfold kindLetter
  split at h
  · rename_i hkind
    exact .inr ⟨'L', if_pos hkind, (letterText_seg6Local _).trans (seg6Local_header h)⟩
  · rename_i hlocal
    rw [if_neg hlocal]
    split at h
    · rename_i hkind
      rw [← Except.ok.inj h]
      exact .inr ⟨'I', if_pos hkind, (letterText_seg6 _).trans (seg6_header rta)⟩
    · rename_i hseg6
      exact .inl ⟨if_neg hseg6, (Except.ok.inj h).symm⟩

theorem nestedData_nil {texts : List Text} (h : ∀ t ∈ texts, t = []) :
    nestedData 4 texts = "nested-data".toList := by
  have hlines : (texts.flatMap fun s =>
      if s = [] then [] else List.replicate 4 ' ' ++ s ++ ['\n']) = [] :=
    List.flatMap_eq_nil_iff.mpr fun t ht => if_pos (h t ht)
  rw [nestedData, hlines]
  rfl

theorem nestedData_cons {t : Text} (ht : t ≠ []) (texts : List Text) : ∃ rest,
    nestedData 4 (t :: texts) = "nested-data\n    ".toList ++ t ++ rest := by
  rw [nestedData, List.flatMap_cons, if_neg ht]
  refine ⟨(['\n'] ++ texts.flatMap fun s =>
    if s = [] then [] else List.replicate 4 ' ' ++ s ++ ['\n']).dropLast, ?_⟩
  have hassoc : ∀ tail : Text, "nested-data\n".toList ++ (List.replicate 4 ' ' ++ t ++ ['\n'] ++
      tail) = ("nested-data\n    ".toList ++ t) ++ (['\n'] ++ tail) := by
    intro tail
    simp only [List.append_assoc]
    rfl
  rw [hassoc, List.dropLast_append_of_ne_nil (by simp)]

theorem mapM_letter {kind : ℕ} {views : List Mem} {texts : List Text}
    (h : views.mapM (encapAttrSummary kind) = .ok texts) (hkind : kindLetter kind = none) :
    ∀ t ∈ texts, t = [] := by
  induction views generalizing texts with
  | nil =>
    cases h
    simp
  | cons v views ih =>
    rw [List.mapM_cons] at h
    obtain ⟨t, ht, hrest⟩ := bind_eq_ok h
    obtain ⟨ts, hts, heq⟩ := bind_eq_ok hrest
    cases heq
    refine List.forall_mem_cons.mpr ⟨?_, ih hts⟩
    rcases encapAttrSummary_letter ht with ⟨-, rfl⟩ | ⟨c, hc, -⟩
    · rfl
    · rw [hkind] at hc
      cases hc

theorem nestedData_letter {kind : ℕ} {v : Mem} {views : List Mem} {texts : List Text}
    (h : (v :: views).mapM (encapAttrSummary kind) = .ok texts) :
    (kindLetter kind = none ∧ nestedData 4 texts = "nested-data".toList) ∨
      ∃ c, kindLetter kind = some c ∧
        "nested-data\n    ".toList ++ letterText (rtaType v) c <+: nestedData 4 texts := by
  have hall := mapM_letter h
  rw [List.mapM_cons] at h
  obtain ⟨t, ht, hrest⟩ := bind_eq_ok h
  obtain ⟨ts, hts, heq⟩ := bind_eq_ok hrest
  cases heq
  rcases encapAttrSummary_letter ht with ⟨hnone, -⟩ | ⟨c, hc, hletter⟩
  · exact .inl ⟨hnone, nestedData_nil (hall hnone)⟩
  · have hne : t ≠ [] := by
      rintro rfl
      simpa [letterText] using List.prefix_nil.mp hletter
    obtain ⟨rest, hdata⟩ := nestedData_cons hne ts
    obtain ⟨rest', rfl⟩ := hletter
    refine .inr ⟨c, hc, rest' ++ rest, ?_⟩
    rw [hdata]
    simp only [List.append_assoc]

theorem kindLetter_eq_of_nestedData {kind kind' : ℕ} {a : Rtattr} {nested : List Rtattr}
    {behind behind' : Mem} {texts texts' : List Text}
    (h : (layoutViews (a :: nested) behind).mapM (encapAttrSummary kind) = .ok texts)
    (h' : (layoutViews (a :: nested) behind').mapM (encapAttrSummary kind') = .ok texts')
    (heq : nestedData 4 texts = nestedData 4 texts') : kindLetter kind = kindLetter kind' := by
  have hlong : ∀ {x : Text}, ¬ "nested-data\n    ".toList ++ x <+: "nested-data".toList := by
    intro x hx
    have hle := hx.length_le
    rw [List.length_append] at hle
    exact absurd ((Nat.le_add_right _ _).trans hle) (by decide)
  rcases nestedData_letter h with ⟨hnone, htext⟩ | ⟨c, hc, htext⟩ <;>
    rcases nestedData_letter h' with ⟨hnone', htext'⟩ | ⟨c', hc', htext'⟩
  · rw [hnone, hnone']
  · rw [← heq, htext] at htext'
    exact absurd htext' hlong
  · rw [heq, htext'] at htext
    exact absurd htext hlong
  · rw [a.rtaType_bytes] at htext htext'
    rw [← heq] at htext'
    have hsame : letterText a.type c = letterText a.type c' := by
      have hlength : ("nested-data\n    ".toList ++ letterText a.type c).length =
          ("nested-data\n    ".toList ++ letterText a.type c').length := by
        simp [letterText]
      exact List.append_cancel_left
        ((List.prefix_of_prefix_length_le htext htext' hlength.le).eq_of_length hlength)
    rw [hc, hc', (List.cons.inj (List.append_cancel_left hsame)).1]

theorem kindsAlike_of_kindLetter {nested : List Rtattr} {kind kind' : ℕ}
    (h : kindLetter kind = kindLetter kind') : KindsAlike nested kind kind' := by
  unfold kindLetter at h
  refine .inr ?_
  by_cases hl : kind = lwtunnelEncapSeg6Local <;> by_cases hl' : kind' = lwtunnelEncapSeg6Local
  · exact .inl (hl.trans hl'.symm)
  · rw [if_pos hl, if_neg hl'] at h
    split at h <;> simp at h
  · rw [if_neg hl, if_pos hl'] at h
    split at h <;> simp at h
  · rw [if_neg hl, if_neg hl'] at h
    by_cases hs : kind = lwtunnelEncapSeg6 <;> by_cases hs' : kind' = lwtunnelEncapSeg6
    · exact .inl (hs.trans hs'.symm)
    · rw [if_pos hs, if_neg hs'] at h
      cases h
    · rw [if_neg hs, if_pos hs'] at h
      cases h
    · exact .inr (by simp [hl, hl', hs, hs'])

theorem KindsAlike.encapAttrSummary_eq {nested : List Rtattr} {kind kind' : ℕ}
    (h : KindsAlike nested kind kind') (behind : Mem) :
    (layoutViews nested behind).mapM (encapAttrSummary kind) =
      (layoutViews nested behind).mapM (encapAttrSummary kind') := by
  rcases h with rfl | rfl | h
  · rfl
  · rfl
  · have hnone : ∀ k ∈ [kind, kind'], encapAttrSummary k = fun _ => .ok [] := by
      intro k hk
      funext rta
      rw [encapAttrSummary, if_neg (h k hk).1, if_neg (h k hk).2]
    rw [hnone kind (by simp), hnone kind' (by simp)]

/-! ### Next hops -/

theorem mapM_layoutViews_place {summary : Mem → Except Fault Text} {attrs : List Rtattr}
    (h : ∀ b ∈ attrs, ∀ behind, summary (b.bytes ++ behind) = summary b.bytes) (behind : Mem) :
    (layoutViews attrs behind).mapM summary = attrs.mapM fun b => summary b.bytes := by
  induction attrs with
  | nil => rfl
  | cons b attrs ih =>
    rw [layoutViews, List.mapM_cons, List.mapM_cons, h b List.mem_cons_self,
      ih fun b' hb' => h b' (List.mem_cons_of_mem b hb')]

/-- No encapsulation and no next hops in the next hops. -/
def PlainHops (hs : List NextHop) : Prop :=
  ∀ h ∈ hs, ∀ b ∈ h.attrs, b.type ≠ rtaEncap ∧ b.type ≠ rtaMultipath

theorem hopsText_place {hs : List NextHop} (hplain : PlainHops hs) (behind behind' : Mem) :
    hopsText rtmsgRtattrSummary hs behind = hopsText rtmsgRtattrSummary hs behind' := by
  induction hs with
  | nil => rfl
  | cons h hs ih =>
    obtain ⟨hhead, htail⟩ := List.forall_mem_cons.mp hplain
    have hattrs : ∀ b ∈ h.attrs, ∀ rest,
        rtmsgRtattrSummary (b.bytes ++ rest) = rtmsgRtattrSummary b.bytes := fun b hb rest =>
      rtmsgRtattrSummary_place b (hhead b hb).1 (hhead b hb).2 rest
    rw [hopsText, hopsText, mapM_layoutViews_place hattrs, mapM_layoutViews_place hattrs, ih htail]

theorem exists_hopsText_iff {hs : List NextHop} (hplain : PlainHops hs) (behind : Mem) :
    (∃ text, hopsText rtmsgRtattrSummary hs behind = .ok text) ↔
      ∀ h ∈ hs, ∀ b ∈ h.attrs, RouteLength b.type b.len (le16 b.bytes 4) := by
  induction hs with
  | nil => exact iff_of_true ⟨[], rfl⟩ (by simp)
  | cons h hs ih =>
    obtain ⟨hhead, htail⟩ := List.forall_mem_cons.mp hplain
    have hattrs : ∀ b ∈ h.attrs, ∀ rest,
        rtmsgRtattrSummary (b.bytes ++ rest) = rtmsgRtattrSummary b.bytes := fun b hb rest =>
      rtmsgRtattrSummary_place b (hhead b hb).1 (hhead b hb).2 rest
    have hprint : ∀ b ∈ h.attrs, (∃ t, rtmsgRtattrSummary b.bytes = .ok t) ↔
        RouteLength b.type b.len (le16 b.bytes 4) := by
      intro b hb
      rw [exists_rtmsgRtattrSummary_iff (by rw [b.rtaType_self]; exact (hhead b hb).1)
        (by rw [b.rtaType_self]; exact (hhead b hb).2), b.rtaType_self, b.rtaLen_self]
    rw [List.forall_mem_cons, ← forall₂_congr hprint, ← exists_mapM_eq_ok_iff, ← ih htail, hopsText,
      mapM_layoutViews_place hattrs]
    constructor
    · rintro ⟨text, htext⟩
      obtain ⟨attrs, hmap, htext⟩ := bind_eq_ok htext
      obtain ⟨rest, hrest, -⟩ := bind_eq_ok htext
      exact ⟨⟨attrs, hmap⟩, rest, hrest⟩
    · rintro ⟨⟨attrs, hmap⟩, rest, hrest⟩
      exact ⟨_, by rw [hmap, hrest]; rfl⟩

namespace Multipath

variable (m : Multipath)

theorem padding_nil : m.attr.padding = [] := by
  have hmod : ∀ hs : List NextHop, (hopsBytes hs).length % 4 = 0 := by
    intro hs
    induction hs with
    | nil => rfl
    | cons h hs ih =>
      have hlength : (hopsBytes (h :: hs)).length = h.bytes.length + (hopsBytes hs).length :=
        List.length_append
      have hlayout := length_layout_mod h.attrs
      rw [hlength, h.length_bytes, NextHop.len]
      omega
  have hpadded := m.attr.padded
  have hpayload := hmod m.list
  rw [← m.payload] at hpayload
  unfold rtaAlign at hpadded
  exact List.length_eq_zero_iff.mp (by omega)

theorem printed_iff (hplain : PlainHops m.list) (behind : Mem) :
    (∃ t, rtmsgRtattrSummary m.attr.bytes = .ok t ∧
      rtmsgRtattrSummary (m.attr.bytes ++ behind) = .ok t) ↔
    (∀ h ∈ m.list, ∀ b ∈ h.attrs, RouteLength b.type b.len (le16 b.bytes 4)) ∧
      ¬ rtnhOk behind m.attr.payload.length := by
  have halone : ¬ rtnhOk [] m.attr.payload.length := fun h => absurd h.1 (by decide)
  have hrenders := m.rendersHops_iff behind
  have hrendersAlone := m.rendersHops_iff []
  rw [m.padding_nil, List.nil_append, exists_hopsText_iff hplain] at hrenders hrendersAlone
  rw [← hrenders]
  constructor
  · rintro ⟨t, ht, hplace⟩
    have hsummary := m.rtmsgRtattrSummary_bytes []
    rw [m.nextHopsText_payload, List.append_nil, ht] at hsummary
    obtain ⟨all, hall, -⟩ := bind_eq_ok hsummary.symm
    obtain ⟨text, htext, -⟩ := bind_eq_ok hall
    rw [m.padding_nil] at htext
    have hlengths := (exists_hopsText_iff hplain _).mp ⟨text, htext⟩
    obtain ⟨text', htext', hprints⟩ := hrendersAlone.mpr ⟨hlengths, halone⟩
    rw [List.append_nil, ht] at hprints
    refine ⟨text', ?_, by rw [hplace, hprints]⟩
    rw [hopsText_place hplain _ (m.attr.padding ++ []), htext']
  · rintro hplace
    have hlengths := (hrenders.mp hplace).1
    obtain ⟨text, htext, hprint⟩ := hplace
    obtain ⟨text', htext', hprint'⟩ := hrendersAlone.mpr ⟨hlengths, halone⟩
    rw [hopsText_place hplain _ (m.attr.padding ++ behind), htext] at htext'
    cases htext'
    rw [List.append_nil] at hprint'
    exact ⟨_, hprint', hprint⟩

end Multipath

end Routerd
