import Routerd.RouteSummaries

/-!
# What an attribute prints in its place

The summaries of route and nexthop attributes get a pointer, and what they print could
depend on what lies behind the attribute. It does not: a value is read after its length is
checked, and where the length is not checked no more is read than there is. The exceptions
are an encapsulation, whose type is looked for behind it, and the next hops of a route.
-/

namespace Routerd
open ByteMemory NumeralText InetText

namespace Rtattr

variable (a : Rtattr) (behind : Mem)

theorem four_le_length : 4 ≤ a.bytes.length := (Nat.le_add_left 4 _).trans a.len_le_length

theorem rtaLen_self : rtaLen a.bytes = a.len := by
  rw [← rtaLen_append a.four_le_length [], a.rtaLen_bytes]

theorem rtaType_self : rtaType a.bytes = a.type := by
  rw [← rtaType_append a.four_le_length [], a.rtaType_bytes]

theorem sizedText_place (text : Mem → Text) {len : ℕ}
    (htext : len ≤ a.bytes.length → text (a.bytes ++ behind) = text a.bytes) :
    sizedText (a.bytes ++ behind) len (text (a.bytes ++ behind)) =
      sizedText a.bytes len (text a.bytes) := by
  rw [sizedText, sizedText, a.rtaLen_bytes, a.rtaLen_self]
  by_cases hlen : a.len = len
  · rw [if_pos hlen, if_pos hlen, htext (hlen ▸ a.len_le_length)]
  · rw [if_neg hlen, if_neg hlen]

theorem sized8_place (hdr : Text) :
    sizedText (a.bytes ++ behind) 5 (hdr ++ formatValue (a.bytes ++ behind) .u8) =
      sizedText a.bytes 5 (hdr ++ formatValue a.bytes .u8) :=
  a.sizedText_place behind (fun rta => hdr ++ formatValue rta .u8) fun hlen => by
    rw [formatValue, byteAt_append (by omega), formatValue]

theorem sized32_place (hdr : Text) :
    sizedText (a.bytes ++ behind) 8 (hdr ++ formatValue (a.bytes ++ behind) .u32) =
      sizedText a.bytes 8 (hdr ++ formatValue a.bytes .u32) :=
  a.sizedText_place behind (fun rta => hdr ++ formatValue rta .u32) fun hlen => by
    rw [formatValue, le32_append (by omega), formatValue]

theorem le64_place {i : ℕ} (hi : i + 8 ≤ a.bytes.length) :
    le64 (a.bytes ++ behind) i = le64 a.bytes i := by
  rw [le64, le32_append (by omega), le32_append (by omega), le64]

theorem sized64_place (hdr : Text) :
    sizedText (a.bytes ++ behind) 12 (hdr ++ formatValue (a.bytes ++ behind) .u64) =
      sizedText a.bytes 12 (hdr ++ formatValue a.bytes .u64) :=
  a.sizedText_place behind (fun rta => hdr ++ formatValue rta .u64) fun hlen => by
    rw [formatValue, a.le64_place behind (by omega), formatValue]

theorem encapType_place (hdr : Text) :
    sizedText (a.bytes ++ behind) 6 (hdr ++ encapTypeText (a.bytes ++ behind)) =
      sizedText a.bytes 6 (hdr ++ encapTypeText a.bytes) :=
  a.sizedText_place behind (fun rta => hdr ++ encapTypeText rta) fun hlen => by
    rw [encapTypeText, le16_append (by omega), encapTypeText]

theorem groupType_place (hdr : Text) :
    sizedText (a.bytes ++ behind) 6 (hdr ++ groupTypeText (a.bytes ++ behind)) =
      sizedText a.bytes 6 (hdr ++ groupTypeText a.bytes) :=
  a.sizedText_place behind (fun rta => hdr ++ groupTypeText rta) fun hlen => by
    rw [groupTypeText, le16_append (by omega), groupTypeText]

theorem mfcStats_place (hdr : Text) :
    sizedText (a.bytes ++ behind) 28 (hdr ++ mfcStatsText (a.bytes ++ behind)) =
      sizedText a.bytes 28 (hdr ++ mfcStatsText a.bytes) :=
  a.sizedText_place behind (fun rta => hdr ++ mfcStatsText rta) fun hlen => by
    unfold mfcStatsText
    rw [a.le64_place behind (by omega), a.le64_place behind (by omega),
      a.le64_place behind (by omega)]

theorem addressText_place {i len : ℕ} (hlen : len = 4 ∨ len = 16) (hi : i + len ≤ a.bytes.length) :
    addressText ((a.bytes ++ behind).drop i) len = addressText (a.bytes.drop i) len := by
  have hdrop : (a.bytes ++ behind).drop i = a.bytes.drop i ++ behind :=
    List.drop_append_of_le_length (by omega)
  have hlength : (a.bytes.drop i).length = a.bytes.length - i := List.length_drop
  rw [hdrop, addressText, addressText]
  rcases hlen with rfl | rfl
  · rw [if_pos rfl, if_pos rfl, bytes_append (by omega)]
  · rw [if_neg (by decide), if_neg (by decide), bytes_append (by omega)]

theorem gatewayText_place : gatewayText (a.bytes ++ behind) = gatewayText a.bytes := by
  have hfits := a.len_le_length
  have hpayload := a.sizeSub_len_add
  unfold gatewayText
  rw [a.rtaLen_bytes, a.rtaLen_self]
  by_cases hlen : sizeSub a.len 4 = 4 ∨ sizeSub a.len 4 = 16
  · rw [if_pos hlen, if_pos hlen, a.addressText_place behind hlen (by omega)]
  · rw [if_neg hlen, if_neg hlen]

theorem viaText_place : viaText (a.bytes ++ behind) = viaText a.bytes := by
  have hfits := a.len_le_length
  have hpayload := a.sizeSub_len_add
  unfold viaText
  rw [a.rtaLen_bytes, a.rtaLen_self]
  by_cases hlen : sizeSub a.len 4 = 6 ∨ sizeSub a.len 4 = 18
  · rw [le16_append (by omega), a.addressText_place behind (Or.inl rfl) (by omega)]
    by_cases hlong : sizeSub a.len 4 = 18
    · rw [a.addressText_place behind (Or.inr rfl) (by omega)]
    · simp only [hlong, false_and, if_false]
  · rw [not_or] at hlen
    simp only [hlen.1, hlen.2, false_and, if_false]

theorem unknownFmt_place : unknownFmt (a.bytes ++ behind) = unknownFmt a.bytes := by
  have hfits := a.len_le_length
  have hpayload := a.sizeSub_len_add
  have hbytes : ∀ i ∈ List.range (min 4 (sizeSub a.len 4)),
      zeroHex 2 (byteAt (a.bytes ++ behind) (4 + i)).toNat =
        zeroHex 2 (byteAt a.bytes (4 + i)).toNat := by
    intro i hi
    have hlt := List.mem_range.mp hi
    rw [byteAt_append (by omega)]
  unfold unknownFmt
  rw [a.rtaLen_bytes, a.rtaLen_self]
  dsimp only
  rw [List.flatMap_congr hbytes]

theorem groupText_place : groupText (a.bytes ++ behind) = groupText a.bytes := by
  have hfits := a.len_le_length
  unfold groupText
  rw [a.rtaLen_bytes, a.rtaLen_self]
  by_cases hmod : (a.len - 4) % 8 = 0
  · rw [if_pos hmod, if_pos hmod, List.flatMap_congr]
    intro i hi
    have hlt := List.mem_range.mp hi
    rw [le32_append (by omega), byteAt_append (by omega)]
  · rw [if_neg hmod, if_neg hmod]

end Rtattr

theorem rtmsgRtattrSummary_place (a : Rtattr) (hencap : a.type ≠ rtaEncap)
    (hmultipath : a.type ≠ rtaMultipath) (behind : Mem) :
    rtmsgRtattrSummary (a.bytes ++ behind) = rtmsgRtattrSummary a.bytes := by
  rw [rtmsgRtattrSummary_eq, rtmsgRtattrSummary_eq]
  unfold rtmsgRtattrSummaryWith
  rw [a.rtaType_bytes, a.rtaType_self]
  dsimp only
  rw [a.sized32_place, a.encapType_place, a.sized64_place, a.sized8_place, a.gatewayText_place,
    a.mfcStats_place, a.viaText_place, a.unknownFmt_place]
  simp only [if_neg hencap, if_neg hmultipath]

theorem nhmsgRtattrSummary_place (a : Rtattr) (hencap : a.type ≠ nhaEncap) (behind : Mem) :
    nhmsgRtattrSummary (a.bytes ++ behind) = nhmsgRtattrSummary a.bytes := by
  unfold nhmsgRtattrSummary
  rw [a.rtaType_bytes, a.rtaType_self]
  dsimp only
  rw [a.sized32_place, a.encapType_place, a.groupText_place, a.groupType_place,
    a.gatewayText_place, a.unknownFmt_place]
  simp only [if_neg hencap]

end Routerd
