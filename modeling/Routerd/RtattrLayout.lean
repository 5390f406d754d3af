import Routerd.NetlinkMessages
import Routerd.OverwriteStore

/-!
# Attribute lists in memory

An attribute is laid out as its header, its payload and the bytes that fill the last word,
whatever these are. Over such a list the remaining count of the walk and the stride stay
in step, so `parse_rtattr` makes one write to its table for each attribute, in order, and
the table then shows the last attribute of each type.
-/

namespace Routerd
open ByteMemory KeyedUpdates OverwriteStore

structure Rtattr where
  type : ℕ
  payload : Mem
  padding : Mem
  type_lt : type < 65536
  payload_le : payload.length ≤ 65531
  padded : padding.length = rtaAlign payload.length - payload.length

def Rtattr.len (a : Rtattr) : ℕ := a.payload.length + 4

def Rtattr.bytes (a : Rtattr) : Mem :=
  bytes16 a.len ++ (bytes16 a.type ++ (a.payload ++ a.padding))

def layout (attrs : List Rtattr) : Mem := attrs.flatMap Rtattr.bytes

@[simp] theorem layout_nil : layout [] = [] := rfl

@[simp] theorem layout_cons (a : Rtattr) (attrs : List Rtattr) :
    layout (a :: attrs) = a.bytes ++ layout attrs := rfl

@[simp] theorem layout_append (attrs attrs' : List Rtattr) :
    layout (attrs ++ attrs') = layout attrs ++ layout attrs' := List.flatMap_append

namespace Rtattr

variable (a : Rtattr) (behind : Mem)

theorem length_bytes : a.bytes.length = rtaAlign a.len := by
  have hpad := a.padded
  have h : a.bytes.length = a.payload.length + a.padding.length + 1 + 1 + 1 + 1 := by
    simp [bytes, bytes16]
  unfold rtaAlign at hpad ⊢
  unfold len
  omega

theorem len_le_length : a.len ≤ a.bytes.length := by
  rw [a.length_bytes]
  unfold rtaAlign
  omega

theorem len_le_layout (attrs : List Rtattr) : a.len ≤ (layout (a :: attrs)).length := by
  rw [layout_cons, List.length_append]
  exact a.len_le_length.trans (Nat.le_add_right _ _)

theorem sizeSub_layout_cons (attrs : List Rtattr) (extra : ℕ) :
    sizeSub ((layout (a :: attrs)).length + extra) (rtaAlign a.len) =
      (layout attrs).length + extra := by
  have hlen := a.length_bytes
  rw [layout_cons, List.length_append, sizeSub_of_le (by omega)]
  omega

theorem drop_layout_cons {buf : Mem} {h : ℕ} {attrs : List Rtattr}
    (hbuf : buf.drop h = layout (a :: attrs) ++ behind) :
    buf.drop (h + a.bytes.length) = layout attrs ++ behind := by
  rw [← List.drop_drop, hbuf, layout_cons, List.append_assoc, List.drop_left]

@[simp] theorem rtaLen_bytes : rtaLen (a.bytes ++ behind) = a.len := by
  have hlen := a.payload_le
  rw [rtaLen, bytes, List.append_assoc, le16_bytes16]
  unfold len
  omega

@[simp] theorem rtaType_bytes : rtaType (a.bytes ++ behind) = a.type := by
  rw [rtaType, bytes, List.append_assoc, List.append_assoc, le16_bytes16_behind _ _ 0,
    le16_bytes16, Nat.mod_eq_of_lt a.type_lt]

theorem drop_bytes : (a.bytes ++ behind).drop 4 = a.payload ++ (a.padding ++ behind) := by
  simp [bytes, bytes16]

@[simp] theorem take_payload : ((a.bytes ++ behind).drop 4).take a.payload.length = a.payload := by
  rw [a.drop_bytes, List.take_left]

@[simp] theorem rtaNext_bytes : rtaNext (a.bytes ++ behind) = behind := by
  rw [rtaNext, a.rtaLen_bytes, ← a.length_bytes, List.drop_left]

theorem rtaOk_bytes {len : ℕ} (h : a.len ≤ len) : rtaOk (a.bytes ++ behind) len := by
  have hlen : 4 ≤ a.len := Nat.le_add_left 4 _
  rw [rtaOk, a.rtaLen_bytes]
  exact ⟨hlen.trans h, hlen, h⟩

theorem sizeSub_len : sizeSub a.len 4 = a.payload.length := by
  rw [len, sizeSub_of_le (Nat.le_add_left 4 _), Nat.add_sub_cancel]

theorem sizeSub_len_add : sizeSub a.len 4 + 4 = a.len := by
  rw [a.sizeSub_len, len]

theorem rtaPayload_bytes : rtaPayload (.mem (a.bytes ++ behind)) = .ok a.payload.length := by
  change Except.ok (sizeSub (rtaLen (a.bytes ++ behind)) 4) = _
  rw [a.rtaLen_bytes, a.sizeSub_len]

theorem rtaReadptr_bytes :
    rtaReadptr (.mem (a.bytes ++ behind)) = .mem (a.payload ++ (a.padding ++ behind)) := by
  rw [rtaReadptr_mem, a.drop_bytes]

theorem rtaRead16_bytes (h : a.payload.length ≤ 2) :
    rtaRead16 (.mem (a.bytes ++ behind)) = .ok (le16 (a.payload ++ (a.padding ++ behind)) 0) := by
  rw [rtaRead16, a.rtaPayload_bytes, a.rtaReadptr_bytes]
  exact if_neg (Nat.not_lt.mpr h)

theorem rtaRead32_bytes (h : a.payload.length ≤ 4) :
    rtaRead32 (.mem (a.bytes ++ behind)) = .ok (le32 (a.payload ++ (a.padding ++ behind)) 0) := by
  rw [rtaRead32, a.rtaPayload_bytes, a.rtaReadptr_bytes]
  exact if_neg (Nat.not_lt.mpr h)

theorem rtaRead16_eq_ok_iff {x : ℕ} : rtaRead16 (.mem (a.bytes ++ behind)) = .ok x ↔
    a.payload.length ≤ 2 ∧ x = le16 (a.payload ++ (a.padding ++ behind)) 0 := by
  by_cases hlen : a.payload.length ≤ 2
  · rw [a.rtaRead16_bytes behind hlen, Except.ok.injEq]
    exact ⟨fun h => ⟨hlen, h.symm⟩, fun h => h.2.symm⟩
  · have herror : rtaRead16 (.mem (a.bytes ++ behind)) = .error .readMiss := by
      rw [rtaRead16, a.rtaPayload_bytes]
      exact if_pos (Nat.lt_of_not_le hlen)
    simp [herror, hlen]

theorem rtaRead32_eq_ok_iff {x : UInt32} : rtaRead32 (.mem (a.bytes ++ behind)) = .ok x ↔
    a.payload.length ≤ 4 ∧ x = le32 (a.payload ++ (a.padding ++ behind)) 0 := by
  by_cases hlen : a.payload.length ≤ 4
  · rw [a.rtaRead32_bytes behind hlen, Except.ok.injEq]
    exact ⟨fun h => ⟨hlen, h.symm⟩, fun h => h.2.symm⟩
  · have herror : rtaRead32 (.mem (a.bytes ++ behind)) = .error .readMiss := by
      rw [rtaRead32, a.rtaPayload_bytes]
      exact if_pos (Nat.lt_of_not_le hlen)
    simp [herror, hlen]

end Rtattr

def layoutEntries : List Rtattr → Mem → List (ℕ × Ptr)
  | [], _ => []
  | a :: attrs, behind =>
    (a.type, .mem (a.bytes ++ (layout attrs ++ behind))) :: layoutEntries attrs behind

/-- The memory from each attribute of a list on. -/
def layoutViews : List Rtattr → Mem → List Mem
  | [], _ => []
  | a :: attrs, behind => (a.bytes ++ (layout attrs ++ behind)) :: layoutViews attrs behind

theorem length_layout_mod (attrs : List Rtattr) : (layout attrs).length % 4 = 0 := by
  induction attrs with
  | nil => rfl
  | cons a attrs ih =>
    rw [layout_cons, List.length_append, a.length_bytes]
    unfold rtaAlign
    omega

theorem length_layoutViews (attrs : List Rtattr) (behind : Mem) :
    (layoutViews attrs behind).length = attrs.length := by
  induction attrs with
  | nil => rfl
  | cons a attrs ih => rw [layoutViews, List.length_cons, ih, List.length_cons]

theorem layoutViews_append (attrs attrs' : List Rtattr) (behind : Mem) :
    layoutViews (attrs ++ attrs') behind =
      layoutViews attrs (layout attrs' ++ behind) ++ layoutViews attrs' behind := by
  induction attrs with
  | nil => rfl
  | cons a attrs ih =>
    rw [List.cons_append, layoutViews, layoutViews, ih, layout_append, List.append_assoc,
      List.cons_append]

theorem update_eq_applyWrites (table : RtaTable) (t : ℕ) (p : Ptr) (us : List (ℕ × Ptr)) :
    applyWrites (Function.update table t p) us = applyWrites table ((t, p) :: us) := by
  have hstep : Function.update table t p = fun k => if k = t then p else table k := by
    funext k
    exact Function.update_apply table t p k
  rw [hstep]
  rfl

theorem parseRtattr_layout_cons (a : Rtattr) (attrs : List Rtattr) (behind : Mem) (left : ℕ)
    (table : RtaTable) (max : ℕ) :
    parseRtattr (layout (a :: attrs) ++ behind) ((layout (a :: attrs)).length + left) table max =
      if a.type < max then
        parseRtattr (layout attrs ++ behind) ((layout attrs).length + left)
          (Function.update table a.type (.mem (a.bytes ++ (layout attrs ++ behind)))) max
      else .error .assertion := by
  have hlen : (layout (a :: attrs)).length = rtaAlign a.len + (layout attrs).length := by
    rw [layout_cons, List.length_append, a.length_bytes]
  have hle := a.len_le_length
  rw [a.length_bytes] at hle
  have hok : rtaOk (a.bytes ++ (layout attrs ++ behind))
      ((layout (a :: attrs)).length + left) := a.rtaOk_bytes _ (by omega)
  rw [layout_cons, List.append_assoc, parseRtattr_unfold, ← layout_cons, if_pos hok,
    a.rtaType_bytes, a.rtaNext_bytes, a.rtaLen_bytes, sizeSub_of_le (by omega), hlen]
  rw [show rtaAlign a.len + (layout attrs).length + left - rtaAlign a.len =
    (layout attrs).length + left by omega]

/-- The walk over a list in memory writes one entry for each attribute and leaves with the
count that is left over. -/
theorem parseRtattr_layout {attrs : List Rtattr} {max : ℕ} (htypes : ∀ a ∈ attrs, a.type < max)
    (behind : Mem) (left : ℕ) (table : RtaTable) :
    parseRtattr (layout attrs ++ behind) ((layout attrs).length + left) table max =
      parseRtattr behind left (applyWrites table (layoutEntries attrs behind)) max := by
  induction attrs generalizing table with
  | nil =>
    rw [layout_nil, List.nil_append, List.length_nil, Nat.zero_add]
    rfl
  | cons a attrs ih =>
    obtain ⟨ha, hattrs⟩ := List.forall_mem_cons.mp htypes
    rw [parseRtattr_layout_cons, if_pos ha, ih hattrs, update_eq_applyWrites]
    rfl

theorem parseRtattr_layout_refused {attrs : List Rtattr} {max : ℕ}
    (h : ¬ ∀ a ∈ attrs, a.type < max) (behind : Mem) (left : ℕ) (table : RtaTable) :
    parseRtattr (layout attrs ++ behind) ((layout attrs).length + left) table max =
      .error .assertion := by
  induction attrs generalizing table with
  | nil => exact absurd (List.forall_mem_nil _) h
  | cons a attrs ih =>
    rw [parseRtattr_layout_cons]
    split
    · rename_i ha
      exact ih (fun hattrs => h (List.forall_mem_cons.mpr ⟨ha, hattrs⟩)) _
    · rfl

theorem parseRtattr_zero (buf : Mem) (table : RtaTable) (max : ℕ) :
    parseRtattr buf 0 table max = .ok table := by
  rw [parseRtattr_unfold, if_neg]
  exact fun hok => absurd hok.1 (by decide)

theorem rtaArray_eq_ok {head : Mem} {len : ℕ} {attrs : RtaTable}
    (h : parseRtattr head len nullTable maxAttrs = .ok attrs) :
    ∃ rtas, rtaArray head len = .ok rtas ∧ rtas.attrs = attrs := by
  refine ⟨⟨attrs, parseRtattr_valid h⟩, ?_, rfl⟩
  unfold rtaArray
  split
  · rename_i attrs' h'
    rw [h] at h'
    cases h'
    rfl
  · rename_i e h'
    rw [h] at h'
    cases h'

theorem rtaArray_eq_error {head : Mem} {len : ℕ} {e : Fault}
    (h : parseRtattr head len nullTable maxAttrs = .error e) : rtaArray head len = .error e := by
  unfold rtaArray
  split
  · rename_i attrs' h'
    rw [h] at h'
    cases h'
  · rename_i e' h'
    rw [h] at h'
    cases h'
    rfl

theorem layoutEntries_ne_null {attrs : List Rtattr} {behind : Mem} {t : ℕ} :
    (t, .null) ∉ layoutEntries attrs behind := by
  induction attrs with
  | nil => simp [layoutEntries]
  | cons a attrs ih => simp [layoutEntries, ih]

theorem lastWrite_layoutEntries_eq_none {attrs : List Rtattr} {t : ℕ} (behind : Mem) :
    lastWrite t (layoutEntries attrs behind) = none ↔ ∀ a ∈ attrs, a.type ≠ t := by
  induction attrs with
  | nil => simp [layoutEntries]
  | cons a attrs ih =>
    rw [layoutEntries, lastWrite, Option.or_eq_none_iff, ih, List.forall_mem_cons]
    by_cases ha : a.type = t
    · simp [ha]
    · simp [ha]

theorem layoutEntries_append (before attrs : List Rtattr) (behind : Mem) :
    layoutEntries (before ++ attrs) behind =
      layoutEntries before (layout attrs ++ behind) ++ layoutEntries attrs behind := by
  induction before with
  | nil => rfl
  | cons a before ih =>
    rw [List.cons_append, layoutEntries, layoutEntries, ih, layout_append, List.append_assoc]
    rfl

theorem lastWrite_layoutEntries_last (before : List Rtattr) (a : Rtattr) {after : List Rtattr}
    (hlast : ∀ a' ∈ after, a'.type ≠ a.type) (behind : Mem) :
    lastWrite a.type (layoutEntries (before ++ a :: after) behind) =
      some (.mem (a.bytes ++ (layout after ++ behind))) := by
  rw [layoutEntries_append, lastWrite_append, layoutEntries, lastWrite,
    (lastWrite_layoutEntries_eq_none _).mpr hlast]
  simp

/-- The array built over a list of attributes laid out in memory, whatever follows it: no
entry for a type that does not occur, and for one that does the address of the last
attribute of that type, found there with its length and its payload. -/
theorem rtaArray_layout (attrs : List Rtattr) (htypes : ∀ a ∈ attrs, a.type < maxAttrs)
    (behind : Mem) :
    ∃ rtas, rtaArray (layout attrs ++ behind) (layout attrs).length = .ok rtas ∧
      ∀ t < maxAttrs, (rtas.get t = .null ↔ ∀ a ∈ attrs, a.type ≠ t) ∧
        ∀ before a after, attrs = before ++ a :: after → a.type = t →
          (∀ a' ∈ after, a'.type ≠ t) →
          ∃ m, rtas.get t = .mem m ∧
            m = (layout attrs ++ behind).drop (layout before).length ∧ rtaType m = t ∧
            rtaLen m = a.payload.length + 4 ∧ (m.drop 4).take a.payload.length = a.payload := by
  have hparse := parseRtattr_layout htypes behind 0 nullTable
  rw [Nat.add_zero, parseRtattr_zero] at hparse
  obtain ⟨rtas, hrtas, htable⟩ := rtaArray_eq_ok hparse
  have hget : ∀ t, rtas.get t = (lastWrite t (layoutEntries attrs behind)).getD .null := by
    intro t
    rw [RtaArray.get, htable, applyWrites_eq_lastWrite]
    rfl
  refine ⟨rtas, hrtas, fun t _ => ⟨?_, ?_⟩⟩
  · rw [hget, ← lastWrite_layoutEntries_eq_none behind]
    cases hlast : lastWrite t (layoutEntries attrs behind) with
    | none => simp
    | some p =>
      have hne : p ≠ .null := by
        rintro rfl
        exact layoutEntries_ne_null (mem_of_lastWrite hlast)
      simp [hne]
  · rintro before a after rfl rfl hlast
    refine ⟨a.bytes ++ (layout after ++ behind), ?_, ?_, by simp, by simp [Rtattr.len], by simp⟩
    · rw [hget, lastWrite_layoutEntries_last before a hlast]
      rfl
    · rw [layout_append, List.append_assoc, List.drop_left, layout_cons, List.append_assoc]

/-! ### Attributes in front of other bytes -/

/-- The entry of a table holds this attribute, or nothing. -/
inductive Shows : Option Rtattr → Ptr → Prop where
  | absent : Shows none .null
  | present (a : Rtattr) (behind : Mem) : Shows (some a) (.mem (a.bytes ++ behind))

/-- The walk over these bytes finds no attribute of these types, and dies on none. -/
def QuietFor (types : List ℕ) (buf : Mem) (len : ℕ) : Prop :=
  ∃ found, parseRtattr buf len nullTable maxAttrs = .ok found ∧ ∀ t ∈ types, found t = .null

theorem rel_lastWrite_layoutEntries (attrs : List Rtattr) (t : ℕ) (behind : Mem) :
    Option.Rel (fun a p => Shows (some a) p) (newest Rtattr.type attrs t)
      (lastWrite t (layoutEntries attrs behind)) := by
  induction attrs with
  | nil => exact Option.Rel.none
  | cons a attrs ih =>
    have hnewest : newest Rtattr.type (a :: attrs) t =
        (newest Rtattr.type attrs t).or (if a.type = t then some a else none) := rfl
    rw [hnewest, layoutEntries, lastWrite]
    generalize newest Rtattr.type attrs t = a', lastWrite t (layoutEntries attrs behind) = p at ih
    cases ih with
    | some h => exact Option.Rel.some h
    | none =>
      by_cases ht : a.type = t
      · rw [if_pos ht, if_pos ht]
        exact Option.Rel.some (Shows.present a _)
      · rw [if_neg ht, if_neg ht]
        exact Option.Rel.none

/-- What a walk over a list leaves in a table: its attributes, and of the other types what
was there before. -/
theorem shows_applyWrites {attrs : List Rtattr} {t : ℕ} {table : RtaTable} (behind : Mem)
    (h : newest Rtattr.type attrs t ≠ none ∨ table t = .null) :
    Shows (newest Rtattr.type attrs t) (applyWrites table (layoutEntries attrs behind) t) := by
  have hrel := rel_lastWrite_layoutEntries attrs t behind
  rw [applyWrites_eq_lastWrite]
  generalize newest Rtattr.type attrs t = a, lastWrite t (layoutEntries attrs behind) = p at h hrel
  cases hrel with
  | some hshows => exact hshows
  | none =>
    rw [Option.getD_none, h.resolve_left (not_not.mpr rfl)]
    exact Shows.absent

theorem rtaArray_layout_shows {attrs : List Rtattr} (htypes : ∀ a ∈ attrs, a.type < maxAttrs)
    (behind : Mem) :
    ∃ rtas, rtaArray (layout attrs ++ behind) (layout attrs).length = .ok rtas ∧
      ∀ t, Shows (newest Rtattr.type attrs t) (rtas.get t) := by
  have hparse := parseRtattr_layout htypes behind 0 nullTable
  rw [Nat.add_zero, parseRtattr_zero] at hparse
  obtain ⟨rtas, hrtas, htable⟩ := rtaArray_eq_ok hparse
  refine ⟨rtas, hrtas, fun t => ?_⟩
  rw [RtaArray.get, htable]
  exact shows_applyWrites behind (Or.inr rfl)

theorem rtaArray_layout_behind {attrs : List Rtattr} (htypes : ∀ a ∈ attrs, a.type < maxAttrs)
    {types : List ℕ} {behind : Mem} {left : ℕ} (hquiet : QuietFor types behind left) :
    ∃ rtas, rtaArray (layout attrs ++ behind) ((layout attrs).length + left) = .ok rtas ∧
      ∀ t ∈ types, Shows (newest Rtattr.type attrs t) (rtas.get t) := by
  obtain ⟨found, hfound, hnull⟩ := hquiet
  have hparse : parseRtattr (layout attrs ++ behind) ((layout attrs).length + left) nullTable
      maxAttrs = .ok (overlay found (applyWrites nullTable (layoutEntries attrs behind))) := by
    rw [parseRtattr_layout htypes, parseRtattr_overlay, hfound]
    rfl
  obtain ⟨rtas, hrtas, htable⟩ := rtaArray_eq_ok hparse
  refine ⟨rtas, hrtas, fun t ht => ?_⟩
  have hkept : rtas.get t = applyWrites nullTable (layoutEntries attrs behind) t := by
    rw [RtaArray.get, htable]
    exact if_pos (hnull t ht)
  rw [hkept]
  exact shows_applyWrites behind (Or.inr rfl)

def plainRtattr (type : UInt16) (payload : Mem) : Rtattr where
  type := type.toNat
  payload := payload.take 65531
  padding := List.replicate (rtaAlign (payload.take 65531).length - (payload.take 65531).length) 0
  type_lt := type.toNat_lt
  payload_le := List.length_take_le _ _
  padded := List.length_replicate

def repeatedDst : List Rtattr :=
  [plainRtattr 1 [10, 0, 0, 1], plainRtattr 4 [5], plainRtattr 1 [10, 0, 0, 2]]

theorem rtaArray_layout_repeatedDst :
    (layout repeatedDst).length = 24 ∧ (∀ a ∈ repeatedDst, a.type < maxAttrs) ∧
      ∃ rtas, rtaArray (layout repeatedDst ++ [7]) (layout repeatedDst).length = .ok rtas ∧
        rtas.get rtaDst = .mem [8, 0, 1, 0, 10, 0, 0, 2, 7] ∧ rtas.get rtaGateway = .null := by
  have htypes : ∀ a ∈ repeatedDst, a.type < maxAttrs := by
    simp [repeatedDst, plainRtattr, maxAttrs]
  obtain ⟨rtas, hrtas, hget⟩ := rtaArray_layout repeatedDst htypes [7]
  refine ⟨by decide, htypes, rtas, hrtas, ?_, ?_⟩
  · obtain ⟨m, hm, rfl, -⟩ := (hget rtaDst (by decide)).2 (repeatedDst.take 2) _ [] rfl rfl
      (by simp)
    rw [hm]
    decide
  · rw [(hget rtaGateway (by decide)).1]
    simp [repeatedDst, plainRtattr, rtaGateway]

end Routerd
