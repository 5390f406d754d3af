import Routerd.AttributeWindow

/-!
# The attributes nested in an attribute

The payload of an attribute is a list of attributes and then bytes that begin none. Where the
payload ends without the padding of the last attribute the count of the walk wraps around: the
padding of the enclosing attribute takes the place of the missing bytes, and what lies behind the
enclosing attribute passes for nested as well, header after header.
-/

namespace Routerd
open ByteMemory KeyedUpdates OverwriteStore

/-- The attributes that follow each other from `m` on while a count of `left` bytes lasts. -/
inductive RunsOn : Mem → ℕ → List Mem → Prop where
  | stop {m : Mem} {left : ℕ} (hno : ¬ rtaOk m left) : RunsOn m left []
  | next {m : Mem} {left : ℕ} {ms : List Mem} (hok : rtaOk m left)
      (hrest : RunsOn (rtaNext m) (sizeSub left (rtaAlign (rtaLen m))) ms) : RunsOn m left (m :: ms)

/-- The attributes nested in the attribute `a` that has `rest` behind it. -/
inductive Nested (a : Rtattr) (rest : Mem) : List Mem → Prop where
  | whole {nested : List Rtattr} {tail : Mem} (hpayload : a.payload = layout nested ++ tail)
      (hend : ¬ rtaOk tail tail.length) :
      Nested a rest (layoutViews nested (tail ++ (a.padding ++ rest)))
  | cut {nested : List Rtattr} {last : Rtattr} {found : List Mem}
      (hpayload : a.payload ++ a.padding = layout (nested ++ [last])) (hcut : 0 < a.padding.length)
      (hle : a.padding.length ≤ last.padding.length)
      (hrest : RunsOn rest (2 ^ 64 - a.padding.length) found) :
      Nested a rest (layoutViews (nested ++ [last]) rest ++ found)

/-- The last attribute of a type among those found, or else what a table held before. -/
def shown (stale : RtaTable) (found : List Mem) (t : ℕ) : Ptr :=
  ((newest rtaType found t).map Ptr.mem).getD (stale t)

/-! ### Attributes in bytes -/

theorem Rtattr.length_bytes_eq (a : Rtattr) : a.bytes.length = a.len + a.padding.length := by
  rw [a.length_bytes, a.padded, Rtattr.len]
  unfold rtaAlign
  omega

theorem bytes16_toNat (low high : UInt8) : bytes16 (low.toNat + 256 * high.toNat) = [low, high] := by
  have hlow := low.toNat_lt
  have hhigh : (low.toNat + 256 * high.toNat) / 256 = high.toNat := by omega
  have hmod : (low.toNat + 256 * high.toNat) % 256 = low.toNat := by omega
  rw [bytes16, hhigh, UInt8.ofNat_toNat]
  congr 1
  apply UInt8.toNat_inj.mp
  rw [UInt8.toNat_ofNat']
  exact hmod

theorem exists_header {m : Mem} (h : 4 ≤ m.length) :
    ∃ b₀ b₁ b₂ b₃ body, m = b₀ :: b₁ :: b₂ :: b₃ :: body := by
  rcases m with _ | ⟨b₀, _ | ⟨b₁, _ | ⟨b₂, _ | ⟨b₃, body⟩⟩⟩⟩
  · simp at h
  · simp at h
  · simp at h
  · simp at h
  · exact ⟨b₀, b₁, b₂, b₃, body, rfl⟩

theorem exists_rtattr {m : Mem} (hmin : 4 ≤ rtaLen m) (hpad : rtaAlign (rtaLen m) ≤ m.length) :
    ∃ a : Rtattr, m = a.bytes ++ rtaNext m ∧ a.len = rtaLen m := by
  have halign := rtaLen_le_rtaAlign m
  have hwords : rtaAlign (rtaLen m) = 4 + rtaAlign (rtaLen m - 4) := by
    unfold rtaAlign
    omega
  obtain ⟨b₀, b₁, b₂, b₃, body, rfl⟩ := exists_header (show 4 ≤ m.length by omega)
  have hlen : rtaLen (b₀ :: b₁ :: b₂ :: b₃ :: body) = b₀.toNat + 256 * b₁.toNat := rfl
  generalize hn : rtaLen (b₀ :: b₁ :: b₂ :: b₃ :: body) = n at *
  have h₀ := b₀.toNat_lt
  have h₁ := b₁.toNat_lt
  have h₂ := b₂.toNat_lt
  have h₃ := b₃.toNat_lt
  simp only [List.length_cons] at hpad
  have hpayload : (body.take (n - 4)).length = n - 4 := List.length_take_of_le (by omega)
  have hpadding : ((body.drop (n - 4)).take (rtaAlign (n - 4) - (n - 4))).length =
      rtaAlign (n - 4) - (n - 4) := by
    apply List.length_take_of_le
    rw [List.length_drop]
    omega
  refine ⟨⟨b₂.toNat + 256 * b₃.toNat, body.take (n - 4),
    (body.drop (n - 4)).take (rtaAlign (n - 4) - (n - 4)), by omega, by omega, ?_⟩, ?_, ?_⟩
  · rw [hpayload, hpadding]
  · have hnext : rtaNext (b₀ :: b₁ :: b₂ :: b₃ :: body) = body.drop (rtaAlign (n - 4)) := by
      rw [rtaNext, hn, hwords, Nat.add_comm]
      rfl
    have hsplit : rtaAlign (n - 4) = n - 4 + (rtaAlign (n - 4) - (n - 4)) := by
      unfold rtaAlign
      omega
    have hbody : body = body.take (n - 4) ++
        ((body.drop (n - 4)).take (rtaAlign (n - 4) - (n - 4)) ++ body.drop (rtaAlign (n - 4))) := by
      nth_rewrite 2 [hsplit]
      rw [← List.drop_drop, List.take_append_drop, List.take_append_drop]
    have hfront : bytes16 ((body.take (n - 4)).length + 4) = [b₀, b₁] := by
      rw [hpayload, Nat.sub_add_cancel hmin, hlen, bytes16_toNat]
    rw [hnext, Rtattr.bytes, Rtattr.len]
    dsimp only
    rw [hfront, bytes16_toNat]
    simp only [List.cons_append, List.nil_append, List.append_assoc]
    rw [← hbody]
  · rw [Rtattr.len, hpayload, Nat.sub_add_cancel hmin]

theorem exists_layout_append (m : Mem) :
    ∃ nested tail, m = layout nested ++ tail ∧
      ¬ (4 ≤ rtaLen tail ∧ rtaAlign (rtaLen tail) ≤ tail.length) := by
  induction hn : m.length using Nat.strongRecOn generalizing m with
  | _ n ih =>
    by_cases hfront : 4 ≤ rtaLen m ∧ rtaAlign (rtaLen m) ≤ m.length
    · obtain ⟨a, hm, -⟩ := exists_rtattr hfront.1 hfront.2
      have hlt : (rtaNext m).length < n := by
        have halign := rtaLen_le_rtaAlign m
        rw [length_rtaNext]
        omega
      obtain ⟨nested, tail, htail, hend⟩ := ih _ hlt (rtaNext m) rfl
      refine ⟨a :: nested, tail, ?_, hend⟩
      rw [layout_cons, List.append_assoc, ← htail]
      exact hm
    · exact ⟨[], m, rfl, hfront⟩

theorem exists_runsOn (m : Mem) (left : ℕ) : ∃ ms, RunsOn m left ms := by
  induction hn : m.length using Nat.strongRecOn generalizing m left with
  | _ n ih =>
    by_cases hok : rtaOk m left
    · have hpos : 0 < m.length := by
        apply List.length_pos_of_ne_nil
        rintro rfl
        exact not_rtaOk_nil _ hok
      have hlt : (rtaNext m).length < n := by
        have hmin := hok.2.1
        have halign := rtaLen_le_rtaAlign m
        rw [length_rtaNext]
        omega
      obtain ⟨ms, hms⟩ := ih _ hlt (rtaNext m) _ rfl
      exact ⟨m :: ms, .next hok hms⟩
    · exact ⟨[], .stop hok⟩

theorem exists_nested (a : Rtattr) (rest : Mem) : ∃ found, Nested a rest found := by
  obtain ⟨nested, tail, hpayload, hend⟩ := exists_layout_append a.payload
  by_cases hok : rtaOk tail tail.length
  · -- only the padding is missing, and that of the enclosing attribute has its length
    obtain ⟨hfour, hmin, hfit⟩ := hok
    have hshort : tail.length < rtaAlign (rtaLen tail) := by
      by_contra hle
      exact hend ⟨hmin, Nat.le_of_not_lt hle⟩
    have hlength : tail.length + a.padding.length = rtaAlign (rtaLen tail) := by
      have hmod := length_layout_mod nested
      have hsum := congrArg List.length hpayload
      have hpad := a.padded
      rw [List.length_append] at hsum
      unfold rtaAlign at hpad hshort ⊢
      omega
    have hlen : rtaLen (tail ++ a.padding) = rtaLen tail := rtaLen_append hfour _
    obtain ⟨last, hlast, hlastLen⟩ := @exists_rtattr (tail ++ a.padding) (by rw [hlen]; exact hmin)
      (by rw [hlen, List.length_append]; exact hlength.ge)
    have hnext : rtaNext (tail ++ a.padding) = [] := by
      rw [rtaNext, hlen, List.drop_of_length_le]
      rw [List.length_append]
      exact hlength.le
    rw [hnext, List.append_nil] at hlast
    obtain ⟨found, hfound⟩ := exists_runsOn rest (2 ^ 64 - a.padding.length)
    refine ⟨_, @Nested.cut a rest nested last found ?_ (by omega) ?_ hfound⟩
    · rw [layout_append, layout_cons, layout_nil, List.append_nil, ← hlast, hpayload,
        List.append_assoc]
    · have hbytes := last.length_bytes_eq
      rw [← hlast, List.length_append, hlastLen, hlen] at hbytes
      omega
  · exact ⟨_, .whole hpayload hok⟩

/-! ### The walk over nested attributes -/

theorem RunsOn.layout {behind : Mem} {left : ℕ} {found : List Mem} (h : RunsOn behind left found)
    (attrs : List Rtattr) :
    RunsOn (layout attrs ++ behind) ((layout attrs).length + left)
      (layoutViews attrs behind ++ found) := by
  induction attrs with
  | nil =>
    rw [layout_nil, List.nil_append, List.length_nil, Nat.zero_add]
    exact h
  | cons a attrs ih =>
    have hle := a.len_le_layout attrs
    rw [layout_cons, List.append_assoc, ← layout_cons]
    refine .next (a.rtaOk_bytes _ (by omega)) ?_
    rw [a.rtaNext_bytes, a.rtaLen_bytes, a.sizeSub_layout_cons]
    exact ih

theorem RunsOn.unique {m : Mem} {left : ℕ} {found found' : List Mem} (h : RunsOn m left found)
    (h' : RunsOn m left found') : found = found' := by
  induction h generalizing found' with
  | stop hno =>
    cases h' with
    | stop => rfl
    | next hok => exact absurd hok hno
  | next hok hrest ih =>
    cases h' with
    | stop hno => exact absurd hok hno
    | next hok' hrest' => rw [ih hrest']

/-- The nested attributes are those the walk over the payload meets. -/
theorem Nested.runsOn {a : Rtattr} {rest : Mem} {found : List Mem} (h : Nested a rest found) :
    RunsOn (a.payload ++ (a.padding ++ rest)) a.payload.length found := by
  cases h with
  | @whole nested tail hpayload hend =>
    have hstop : ¬ rtaOk (tail ++ (a.padding ++ rest)) tail.length := by
      intro hok
      exact hend ((rtaOk_append hok.1 _ _).mp hok)
    have hrun := (RunsOn.stop hstop).layout nested
    rw [List.append_nil] at hrun
    rw [hpayload, List.append_assoc, List.length_append]
    exact hrun
  | @cut nested last found hpayload hcut hle hrest =>
    have hbytes := last.length_bytes_eq
    have halign := last.length_bytes
    have hlength := congrArg List.length hpayload
    rw [List.length_append, layout_append, List.length_append, layout_cons, layout_nil,
      List.append_nil] at hlength
    have hcount : a.payload.length =
        (Routerd.layout nested).length + (last.bytes.length - a.padding.length) := by omega
    have hlast : RunsOn (last.bytes ++ rest) (last.bytes.length - a.padding.length)
        ((last.bytes ++ rest) :: found) := by
      refine .next (last.rtaOk_bytes _ (by omega)) ?_
      have hwrap : sizeSub (last.bytes.length - a.padding.length) last.bytes.length =
          2 ^ 64 - a.padding.length := by
        unfold sizeSub
        rw [if_neg (by omega)]
        congr 1
        omega
      rw [last.rtaNext_bytes, last.rtaLen_bytes, ← halign, hwrap]
      exact hrest
    have hrun := hlast.layout nested
    have hlayoutViews : layoutViews (nested ++ [last]) rest =
        layoutViews nested (last.bytes ++ rest) ++ [last.bytes ++ rest] := by
      rw [layoutViews_append, layout_cons, layout_nil, List.append_nil]
      rfl
    rw [← List.append_assoc, hpayload, hcount, hlayoutViews, layout_append, layout_cons, layout_nil,
      List.append_nil, List.append_assoc, List.append_assoc]
    exact hrun

theorem Nested.unique {a : Rtattr} {rest : Mem} {found found' : List Mem} (h : Nested a rest found)
    (h' : Nested a rest found') : found = found' := h.runsOn.unique h'.runsOn

theorem shown_cons (table : RtaTable) (m : Mem) (ms : List Mem) (t : ℕ) :
    shown (Function.update table (rtaType m) (.mem m)) ms t = shown table (m :: ms) t := by
  have hcons : newest rtaType (m :: ms) t = (newest rtaType ms t).or (newest rtaType [m] t) :=
    newest_append rtaType [m] ms t
  rw [shown, shown, hcons, Function.update_apply]
  cases newest rtaType ms t with
  | some m' => rfl
  | none =>
    have hone : newest rtaType [m] t = if rtaType m = t then some m else none :=
      newest_concat rtaType [] m t
    rw [Option.none_or, hone]
    by_cases ht : rtaType m = t
    · rw [if_pos ht, if_pos ht.symm]
      rfl
    · rw [if_neg ht, if_neg fun heq => ht heq.symm]

theorem RunsOn.parseRtattr_eq {m : Mem} {left : ℕ} {found : List Mem} (h : RunsOn m left found)
    (table : RtaTable) (max : ℕ) :
    parseRtattr m left table max =
      if ∀ x ∈ found, rtaType x < max then .ok (shown table found) else .error .assertion := by
  induction h generalizing table with
  | stop hno =>
    rw [parseRtattr_unfold, if_neg hno, if_pos (List.forall_mem_nil _)]
    rfl
  | @next m left ms hok hrest ih =>
    rw [parseRtattr_unfold, if_pos hok, ih]
    by_cases htype : rtaType m < max
    · have hshown :
          shown (Function.update table (rtaType m) (.mem m)) ms = shown table (m :: ms) := by
        funext t
        exact shown_cons table m ms t
      rw [if_pos htype, hshown]
      simp only [List.forall_mem_cons, htype, true_and]
    · rw [if_neg htype, if_neg fun hall => htype (hall m List.mem_cons_self)]

end Routerd
