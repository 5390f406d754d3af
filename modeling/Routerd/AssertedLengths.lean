import Routerd.RouteSummaries

/-!
# The lengths that the summaries assert

The summaries of nexthop and route attributes assert the length of most types before they read a
value, and of an encapsulation what comes right behind it. Which attributes print is said here by
types and lengths alone, for any memory: of an encapsulation by those of the attributes that
`RTA_OK` and `RTA_NEXT` come to in it.
-/

namespace Routerd
open ByteMemory NumeralText

/-! ### Attributes in an attribute -/

def viewsLoop : ℕ → Mem → ℕ → List Mem
  | 0, _, _ => []
  | fuel + 1, rta, len =>
    if rtaOk rta len then
      rta :: viewsLoop fuel (rtaNext rta) (sizeSub len (rtaAlign (rtaLen rta)))
    else []

/-- The memory from each attribute on that `RTA_OK` and `RTA_NEXT` come to. -/
def nestedViews (rta : Mem) (len : ℕ) : List Mem := viewsLoop rta.length rta len

theorem nestedLoop_eq_mapM (summary : Mem → Except Fault Text) (fuel : ℕ) (rta : Mem) (len : ℕ) :
    nestedLoop summary fuel rta len = (viewsLoop fuel rta len).mapM summary := by
  induction fuel generalizing rta len with
  | zero => rfl
  | succ fuel ih =>
    rw [nestedLoop, viewsLoop]
    split
    · rw [ih, List.mapM_cons]
      rfl
    · rfl

theorem nestedTexts_eq_mapM (summary : Mem → Except Fault Text) (rta : Mem) (len : ℕ) :
    nestedTexts summary rta len = (nestedViews rta len).mapM summary :=
  nestedLoop_eq_mapM summary _ rta len

theorem exists_mapM_eq_ok_iff {α : Type} (g : α → Except Fault Text) (l : List α) :
    (∃ texts, l.mapM g = .ok texts) ↔ ∀ a ∈ l, ∃ t, g a = .ok t := by
  induction l with
  | nil => exact iff_of_true ⟨[], rfl⟩ (by simp)
  | cons a l ih =>
    rw [List.mapM_cons, List.forall_mem_cons, ← ih]
    constructor
    · rintro ⟨texts, htexts⟩
      obtain ⟨t, ht, hrest⟩ := bind_eq_ok htexts
      obtain ⟨ts, hts, -⟩ := bind_eq_ok hrest
      exact ⟨⟨t, ht⟩, ts, hts⟩
    · rintro ⟨⟨t, ht⟩, ts, hts⟩
      exact ⟨t :: ts, by rw [ht, hts]; rfl⟩

theorem exists_bind_ok_iff {α : Type} (x : Except Fault α) (f : α → Text) :
    (∃ t, (do .ok (f (← x)) : Except Fault Text) = .ok t) ↔ ∃ a, x = .ok a := by
  cases x with
  | error e => exact iff_of_false (by rintro ⟨t, ht⟩; cases ht) (by rintro ⟨a, ha⟩; cases ha)
  | ok a => exact iff_of_true ⟨f a, rfl⟩ ⟨a, rfl⟩

/-! ### Lengths -/

theorem exists_ite_error_iff {α : Type} {c : Prop} [Decidable c] {x : Except Fault α} {e : Fault}
    (hx : ∃ t, x = .ok t) : (∃ t, (if c then x else .error e) = .ok t) ↔ c := by
  split
  · rename_i h
    exact iff_of_true hx h
  · rename_i h
    exact iff_of_false (by rintro ⟨t, ht⟩; cases ht) h

theorem exists_sizedText_iff (rta : Mem) (len : ℕ) (text : Text) :
    (∃ t, sizedText rta len text = .ok t) ↔ rtaLen rta = len :=
  exists_ite_error_iff ⟨text, rfl⟩

theorem sizeSub_rtaLen_eq_iff (rta : Mem) {n : ℕ} (hn : n < 65536) :
    sizeSub (rtaLen rta) 4 = n ↔ rtaLen rta = n + 4 := by
  have hlt := le16_lt rta 0
  unfold sizeSub rtaLen
  split <;> omega

theorem exists_gatewayText_iff (rta : Mem) :
    (∃ t, gatewayText rta = .ok t) ↔ rtaLen rta = 8 ∨ rtaLen rta = 20 := by
  rw [gatewayText, ← sizeSub_rtaLen_eq_iff rta (show 4 < 65536 by decide),
    ← sizeSub_rtaLen_eq_iff rta (show 16 < 65536 by decide)]
  exact exists_ite_error_iff ⟨_, rfl⟩

theorem exists_viaText_iff (rta : Mem) : (∃ t, viaText rta = .ok t) ↔
    (rtaLen rta = 10 ∧ le16 rta 4 = 2) ∨ (rtaLen rta = 22 ∧ le16 rta 4 = 10) := by
  rw [viaText, ← sizeSub_rtaLen_eq_iff rta (show 6 < 65536 by decide),
    ← sizeSub_rtaLen_eq_iff rta (show 18 < 65536 by decide)]
  split
  · rename_i h
    exact iff_of_true ⟨_, rfl⟩ (.inl h)
  · rename_i hshort
    rw [or_iff_right hshort]
    exact exists_ite_error_iff ⟨_, rfl⟩

theorem exists_groupText_iff (rta : Mem) :
    (∃ t, groupText rta = .ok t) ↔ (rtaLen rta - 4) % 8 = 0 :=
  exists_ite_error_iff ⟨_, rfl⟩

/-- The length of an attribute of a seg6local encapsulation. -/
def Seg6LocalLength (type len : ℕ) : Prop :=
  (type = seg6LocalNh6 → len = 20) ∧
    (type ∈ [seg6LocalAction, seg6LocalNh4, seg6LocalOif, seg6LocalIif, seg6LocalTable] → len = 8)

instance (type len : ℕ) : Decidable (Seg6LocalLength type len) := inferInstanceAs (Decidable (_ ∧ _))

theorem exists_rtmsgRtattrSeg6LocalSummary_iff (rta : Mem) :
    (∃ t, rtmsgRtattrSeg6LocalSummary rta = .ok t) ↔
      Seg6LocalLength (rtaType rta) (rtaLen rta) := by
  unfold rtmsgRtattrSeg6LocalSummary Seg6LocalLength
  generalize rtaType rta = type
  dsimp only
  split
  · rename_i h
    rw [exists_sizedText_iff, h]
    simp [seg6LocalAction, seg6LocalNh6]
  split
  · rename_i h
    rw [exists_sizedText_iff, h]
    simp [seg6LocalAction, seg6LocalNh6, seg6LocalNh4, seg6LocalOif, seg6LocalIif, seg6LocalTable]
  split
  · rename_i h
    rw [exists_sizedText_iff, h]
    simp [seg6LocalNh4, seg6LocalNh6]
  split
  · rename_i hnh6 _ h
    rw [exists_sizedText_iff]
    rcases h with rfl | rfl | rfl <;>
      simp [seg6LocalNh6, seg6LocalOif, seg6LocalIif, seg6LocalTable]
  · rename_i haction hnh6 hnh4 h
    have htypes : type ∉
        [seg6LocalAction, seg6LocalNh4, seg6LocalOif, seg6LocalIif, seg6LocalTable] := by
      simp only [List.mem_cons, List.not_mem_nil, or_false, not_or] at h ⊢
      exact ⟨haction, hnh4, h⟩
    refine iff_of_true ?_ ⟨fun h => absurd h hnh6, fun h => absurd h htypes⟩
    split <;> exact ⟨_, rfl⟩

theorem exists_encapAttrSummary_iff (kind : ℕ) (rta : Mem) :
    (∃ t, encapAttrSummary kind rta = .ok t) ↔
      (kind = lwtunnelEncapSeg6Local → Seg6LocalLength (rtaType rta) (rtaLen rta)) := by
  unfold encapAttrSummary
  split
  · rename_i h
    rw [exists_rtmsgRtattrSeg6LocalSummary_iff, imp_iff_right h]
  · rename_i h
    refine iff_of_true ?_ fun h' => absurd h' h
    split <;> exact ⟨_, rfl⟩

/-- What the branch of an encapsulation asserts: right behind it the type, of two bytes, and the
lengths of what is nested if that is seg6local. -/
structure EncapAsserts (encapTypeType : ℕ) (rta : Mem) : Prop where
  type_next : rtaType (rta.drop (rtaLen rta)) = encapTypeType
  type_len : rtaLen (rta.drop (rtaLen rta)) = 6
  nested : le16 (rta.drop (rtaLen rta)) 4 = lwtunnelEncapSeg6Local →
    ∀ v ∈ nestedViews (rta.drop 4) (sizeSub (rtaLen rta) 4), Seg6LocalLength (rtaType v) (rtaLen v)

theorem exists_encapTexts_iff (encapTypeType : ℕ) (rta : Mem) :
    (∃ texts, encapTexts encapTypeType rta = .ok texts) ↔ EncapAsserts encapTypeType rta := by
  unfold encapTexts
  dsimp only
  split
  · rename_i h
    rw [nestedTexts_eq_mapM, exists_mapM_eq_ok_iff]
    simp only [exists_encapAttrSummary_iff]
    exact ⟨fun hall => ⟨h.1, h.2, fun hkind v hv => hall v hv hkind⟩,
      fun hall v hv hkind => hall.nested hkind v hv⟩
  · rename_i h
    exact iff_of_false (by rintro ⟨t, ht⟩; cases ht) fun hall => h ⟨hall.type_next, hall.type_len⟩

def NexthopLength (type len : ℕ) : Prop :=
  (type ∈ [nhaId, nhaOif] → len = 8) ∧ (type ∈ [nhaEncapType, nhaGroupType] → len = 6) ∧
    (type = nhaGroup → (len - 4) % 8 = 0) ∧ (type = nhaGateway → len = 8 ∨ len = 20)

instance (type len : ℕ) : Decidable (NexthopLength type len) := inferInstanceAs (Decidable (_ ∧ _))

structure NexthopAsserts (rta : Mem) : Prop where
  length : NexthopLength (rtaType rta) (rtaLen rta)
  encap : rtaType rta = nhaEncap → EncapAsserts nhaEncapType rta

theorem exists_nhmsgRtattrSummary_iff (rta : Mem) :
    (∃ t, nhmsgRtattrSummary rta = .ok t) ↔ NexthopAsserts rta := by
  have hsplit : NexthopAsserts rta ↔ NexthopLength (rtaType rta) (rtaLen rta) ∧
      (rtaType rta = nhaEncap → EncapAsserts nhaEncapType rta) :=
    ⟨fun h => ⟨h.length, h.encap⟩, fun h => ⟨h.1, h.2⟩⟩
  rw [hsplit]
  unfold nhmsgRtattrSummary NexthopLength
  generalize rtaType rta = type
  dsimp only
  split
  · rename_i h
    rw [exists_sizedText_iff]
    rcases h with rfl | rfl <;>
      simp [nhaId, nhaOif, nhaEncapType, nhaGroupType, nhaGroup, nhaGateway, nhaEncap]
  split
  · rename_i h
    rw [exists_sizedText_iff, h]
    simp [nhaId, nhaOif, nhaEncapType, nhaGroup, nhaGateway, nhaEncap]
  split
  · rename_i h
    rw [exists_bind_ok_iff, exists_groupText_iff, h]
    simp [nhaId, nhaOif, nhaEncapType, nhaGroupType, nhaGroup, nhaGateway, nhaEncap]
  split
  · rename_i h
    rw [exists_sizedText_iff, h]
    simp [nhaId, nhaOif, nhaGroupType, nhaGroup, nhaGateway, nhaEncap]
  split
  · rename_i h
    rw [exists_bind_ok_iff, exists_encapTexts_iff, h]
    simp [nhaId, nhaOif, nhaEncapType, nhaGroupType, nhaGroup, nhaGateway, nhaEncap]
  split
  · rename_i h
    rw [exists_bind_ok_iff, exists_gatewayText_iff, h]
    simp [nhaId, nhaOif, nhaEncapType, nhaGroupType, nhaGroup, nhaGateway, nhaEncap]
  · rename_i hid htype hgroup hgroupType hencap hgateway
    rw [not_or] at hid
    refine iff_of_true ⟨_, rfl⟩ ?_
    simp [hid, htype, hgroup, hgroupType, hencap, hgateway]

/-- The length of a route attribute that has no attributes in it, and the family of an `RTA_VIA`. -/
def RouteLength (type len family : ℕ) : Prop :=
  (type ∈ routeTypes32 → len = 8) ∧ (type = rtaEncapType → len = 6) ∧
    (type = rtaExpires → len = 12) ∧ (type = rtaPref → len = 5) ∧
    (type ∈ [rtaDst, rtaSrc, rtaGateway] → len = 8 ∨ len = 20) ∧ (type = rtaMfcStats → len = 28) ∧
    (type = rtaVia → (len = 10 ∧ family = 2) ∨ (len = 22 ∧ family = 10))

instance (type len family : ℕ) : Decidable (RouteLength type len family) :=
  inferInstanceAs (Decidable (_ ∧ _))

theorem exists_rtmsgRtattrSummary_iff {rta : Mem} (hencap : rtaType rta ≠ rtaEncap)
    (hmultipath : rtaType rta ≠ rtaMultipath) :
    (∃ t, rtmsgRtattrSummary rta = .ok t) ↔
      RouteLength (rtaType rta) (rtaLen rta) (le16 rta 4) := by
  rw [rtmsgRtattrSummary_eq]
  unfold rtmsgRtattrSummaryWith RouteLength
  revert hencap hmultipath
  generalize rtaType rta = type
  intro hencap hmultipath
  dsimp only
  split
  · rename_i h
    rw [exists_sizedText_iff]
    simp only [routeTypes32, List.mem_cons, List.not_mem_nil, or_false] at h
    rcases h with rfl | rfl | rfl | rfl | rfl | rfl <;>
      simp [routeTypes32, rtaEncapType, rtaExpires, rtaPref, rtaDst, rtaSrc, rtaGateway,
        rtaMfcStats, rtaVia]
  split
  · rename_i h
    rw [exists_sizedText_iff, h]
    simp [routeTypes32, rtaEncapType, rtaExpires, rtaPref, rtaDst, rtaSrc, rtaGateway,
      rtaMfcStats, rtaVia]
  split
  · rename_i h
    rw [exists_sizedText_iff, h]
    simp [routeTypes32, rtaEncapType, rtaExpires, rtaPref, rtaDst, rtaSrc, rtaGateway,
      rtaMfcStats, rtaVia]
  split
  · rename_i h
    rw [exists_sizedText_iff, h]
    simp [routeTypes32, rtaEncapType, rtaExpires, rtaPref, rtaDst, rtaSrc, rtaGateway,
      rtaMfcStats, rtaVia]
  split
  · rename_i h
    rw [exists_bind_ok_iff, exists_gatewayText_iff]
    rcases h with rfl | rfl | rfl <;>
      simp [routeTypes32, rtaEncapType, rtaExpires, rtaPref, rtaDst, rtaSrc, rtaGateway,
        rtaMfcStats, rtaVia]
  split
  · rename_i h
    rw [exists_sizedText_iff, h]
    simp [routeTypes32, rtaEncapType, rtaExpires, rtaPref, rtaDst, rtaSrc, rtaGateway,
      rtaMfcStats, rtaVia]
  split
  · rename_i h
    rw [exists_bind_ok_iff, exists_viaText_iff, h]
    simp [routeTypes32, rtaEncapType, rtaExpires, rtaPref, rtaDst, rtaSrc, rtaGateway,
      rtaMfcStats, rtaVia]
  · rename_i h32 htype hexpires hpref haddress hstats hvia
    have haddress' : type ∉ [rtaDst, rtaSrc, rtaGateway] := by simpa using haddress
    refine iff_of_true ⟨_, rfl⟩ ?_
    simp only [h32, htype, hexpires, hpref, haddress', hstats, hvia, false_imp_iff, and_self]

end Routerd
