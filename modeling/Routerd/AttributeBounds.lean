import Routerd.AttributeWindow

/-!
# Attribute walks over buffers of any length

`RTA_NEXT` takes the padded length of an attribute off a `size_t` counter. An attribute at
the end of the buffer can be whole while the bytes that fill its last word are not there:
the counter then wraps, and the walk goes on behind the buffer with almost `2 ^ 64` bytes
left. Every pointer that is stored lies inside the buffer, whatever the memory behind it
holds, exactly if the walk comes to no such attribute.
-/

namespace Routerd
open ByteMemory

def PointsInside (mem : Mem) (len : ℕ) (p : Ptr) : Prop :=
  ∃ h, p = .mem (mem.drop h) ∧ h + rtaLen (mem.drop h) ≤ len

/-- The walk over `buf` is through after one round for every four bytes, so that further
rounds change nothing, and it stores only attributes that lie in `buf`. -/
structure WalkInside (max : ℕ) (buf behind : Mem) : Prop where
  ends : ∀ attrs fuel, buf.length / 4 ≤ fuel →
    parseRtattrLoop max fuel (buf ++ behind) buf.length attrs =
      parseRtattr (buf ++ behind) buf.length attrs max
  inside : ∀ attrs table t, parseRtattr (buf ++ behind) buf.length attrs max = .ok table →
    table t = attrs t ∨ PointsInside (buf ++ behind) buf.length (table t)

/-- The walk comes to an attribute that lies in the buffer without all of its padding. -/
inductive CutPadding (max : ℕ) : Mem → Prop where
  | here {a : Mem} (hmin : 4 ≤ rtaLen a) (hfit : rtaLen a ≤ a.length)
      (hcut : a.length < rtaAlign (rtaLen a)) (htype : rtaType a < max) : CutPadding max a
  | next {a : Mem} (hmin : 4 ≤ rtaLen a) (hpad : rtaAlign (rtaLen a) ≤ a.length)
      (htype : rtaType a < max) (hrest : CutPadding max (rtaNext a)) : CutPadding max a

variable {max : ℕ} {a behind : Mem}

theorem rtaAlign_le_of_not_cutPadding (h : ¬ CutPadding max a) (hok : rtaOk a a.length)
    (htype : rtaType a < max) : rtaAlign (rtaLen a) ≤ a.length := by
  by_contra hpad
  exact h (.here hok.2.1 hok.2.2 (Nat.lt_of_not_le hpad) htype)

theorem not_cutPadding_rtaNext (h : ¬ CutPadding max a) (hok : rtaOk a a.length)
    (htype : rtaType a < max) : ¬ CutPadding max (rtaNext a) :=
  fun hrest => h (.next hok.2.1 (rtaAlign_le_of_not_cutPadding h hok htype) htype hrest)

theorem rtaOk_own_iff : rtaOk (a ++ behind) a.length ↔ rtaOk a a.length := by
  by_cases hlen : 4 ≤ a.length
  · exact rtaOk_append hlen behind _
  · exact ⟨fun hok => absurd hok.1 hlen, fun hok => absurd hok.1 hlen⟩

theorem parseRtattr_round (h : ¬ CutPadding max a) (behind : Mem) (attrs : RtaTable) :
    (¬ rtaOk a a.length ∧ parseRtattr (a ++ behind) a.length attrs max = .ok attrs) ∨
      (rtaOk a a.length ∧ max ≤ rtaType a ∧
        parseRtattr (a ++ behind) a.length attrs max = .error .assertion) ∨
      (rtaOk a a.length ∧ rtaType a < max ∧
        parseRtattr (a ++ behind) a.length attrs max =
          parseRtattr (rtaNext a ++ behind) (rtaNext a).length
            (Function.update attrs (rtaType a) (.mem (a ++ behind))) max) := by
  by_cases hok : rtaOk a a.length
  · by_cases htype : rtaType a < max
    · have hpad := rtaAlign_le_of_not_cutPadding h hok htype
      exact Or.inr (Or.inr ⟨hok, htype, parseRtattr_own hok.2.1 hpad htype 0 behind attrs⟩)
    · refine Or.inr (Or.inl ⟨hok, Nat.le_of_not_lt htype, ?_⟩)
      rw [parseRtattr_unfold, if_pos (rtaOk_own_iff.mpr hok), rtaType_append hok.1, if_neg htype]
  · refine Or.inl ⟨hok, ?_⟩
    rw [parseRtattr_unfold, if_neg fun hok' => hok (rtaOk_own_iff.mp hok')]

/-- Each round that stores takes four bytes or more. -/
theorem parseRtattrLoop_ends {fuel : ℕ} (h : ¬ CutPadding max a) (hfuel : a.length / 4 ≤ fuel)
    (attrs : RtaTable) :
    parseRtattrLoop max fuel (a ++ behind) a.length attrs =
      parseRtattr (a ++ behind) a.length attrs max := by
  induction fuel generalizing a attrs with
  | zero =>
    rcases parseRtattr_round h behind attrs with ⟨-, hend⟩ | ⟨hok, -⟩ | ⟨hok, -⟩
    · rw [hend]
      rfl
    · have hlen := hok.1
      omega
    · have hlen := hok.1
      omega
  | succ fuel ih =>
    rcases parseRtattr_round h behind attrs with
      ⟨hno, hend⟩ | ⟨hok, htype, habort⟩ | ⟨hok, htype, hstep⟩
    · rw [hend, parseRtattrLoop, if_neg fun hok => hno (rtaOk_own_iff.mp hok)]
    · rw [habort, parseRtattrLoop, if_pos (rtaOk_own_iff.mpr hok), rtaType_append hok.1,
        if_neg (Nat.not_lt.mpr htype)]
    · have hpad := rtaAlign_le_of_not_cutPadding h hok htype
      have hmin := hok.2.1.trans (rtaLen_le_rtaAlign a)
      have hnext := length_rtaNext a
      rw [hstep, ← ih (not_cutPadding_rtaNext h hok htype) (by omega), parseRtattrLoop,
        if_pos (rtaOk_own_iff.mpr hok), rtaType_append hok.1, if_pos htype, rtaLen_append hok.1,
        rtaNext_append hok.1 hpad, sizeSub_of_le hpad, hnext]

theorem parseRtattr_inside {buf : Mem} (hsuffix : a <:+ buf) (h : ¬ CutPadding max a)
    {attrs table : RtaTable} (hparse : parseRtattr (a ++ behind) a.length attrs max = .ok table)
    (t : ℕ) : table t = attrs t ∨ PointsInside (buf ++ behind) buf.length (table t) := by
  induction hn : a.length using Nat.strongRecOn generalizing a attrs with
  | _ n ih =>
    subst hn
    rcases parseRtattr_round h behind attrs with
      ⟨-, hend⟩ | ⟨-, -, habort⟩ | ⟨hok, htype, hstep⟩
    · rw [hparse] at hend
      cases hend
      exact Or.inl rfl
    · rw [hparse] at habort
      cases habort
    · rw [hstep] at hparse
      rcases ih _ (rtaNext_length_lt hok) ((List.drop_suffix _ _).trans hsuffix)
        (not_cutPadding_rtaNext h hok htype) hparse rfl with hkept | hinside
      · by_cases ht : t = rtaType a
        · subst ht
          rw [Function.update_self] at hkept
          refine Or.inr ⟨buf.length - a.length, ?_, ?_⟩
          · rw [hkept, drop_of_suffix hsuffix]
          · have hfit := hok.2.2
            have hle := hsuffix.length_le
            rw [drop_of_suffix hsuffix, rtaLen_append hok.1]
            omega
        · rw [Function.update_of_ne ht] at hkept
          exact Or.inl hkept
      · exact Or.inr hinside

theorem CutPadding.exists_stored (h : CutPadding max a) :
    ∃ behind, ∀ attrs, ∃ table m, parseRtattr (a ++ behind) a.length attrs max = .ok table ∧
      table 0 = .mem m ∧ m.length < behind.length := by
  induction h with
  | @here a hmin hfit hcut htype =>
    have hlen : 4 ≤ a.length := hmin.trans hfit
    let gap := rtaAlign (rtaLen a) - a.length
    let behind : Mem := List.replicate gap 0 ++ [4, 0, 0, 0]
    refine ⟨behind, fun attrs =>
      ⟨Function.update (Function.update attrs (rtaType a) (.mem (a ++ behind))) 0
        (.mem [4, 0, 0, 0]), [4, 0, 0, 0], ?_, Function.update_self .., ?_⟩⟩
    · have hnext : rtaNext (a ++ behind) = [4, 0, 0, 0] := by
        have hgap : rtaAlign (rtaLen a) = (a ++ List.replicate gap 0).length := by
          rw [List.length_append, List.length_replicate]
          omega
        rw [rtaNext, rtaLen_append hlen, hgap, ← List.append_assoc, List.drop_left]
      -- The counter has wrapped, so that the header behind the buffer is accepted.
      have hwrap : 2 ^ 64 - 3 ≤ sizeSub a.length (rtaAlign (rtaLen a)) := by
        have halign : rtaAlign (rtaLen a) ≤ rtaLen a + 3 := by
          unfold rtaAlign
          omega
        rw [sizeSub, if_neg (Nat.not_le.mpr hcut)]
        omega
      have hok : rtaOk [4, 0, 0, 0] (sizeSub a.length (rtaAlign (rtaLen a))) :=
        ⟨by omega, by decide, by rw [show rtaLen [4, 0, 0, 0] = 4 by decide]; omega⟩
      rw [parseRtattr_unfold, if_pos ((rtaOk_append hlen _ _).mpr ⟨hlen, hmin, hfit⟩),
        rtaType_append hlen, if_pos htype, rtaLen_append hlen, hnext, parseRtattr_unfold,
        if_pos hok, show rtaType [4, 0, 0, 0] = 0 by decide, if_pos (Nat.zero_lt_of_lt htype),
        show rtaNext [4, 0, 0, 0] = [] by decide, parseRtattr_unfold, if_neg (not_rtaOk_nil _)]
    · rw [List.length_append, List.length_replicate]
      change 4 < gap + 4
      omega
  | @next a hmin hpad htype hrest ih =>
    obtain ⟨behind, hbehind⟩ := ih
    refine ⟨behind, fun attrs => ?_⟩
    rw [show parseRtattr (a ++ behind) a.length attrs max = _ from
      parseRtattr_own hmin hpad htype 0 behind attrs]
    exact hbehind _

theorem not_cutPadding_of_aligned (halign : a.length % 4 = 0) : ¬ CutPadding max a := by
  intro hcut
  induction hcut with
  | here hmin hfit hcut htype => exact absurd (rtaAlign_le halign hfit) (Nat.not_le.mpr hcut)
  | next hmin hpad htype hrest ih => exact ih (length_rtaNext_mod halign)

/-- Whatever lies behind the buffer, the walk over it ends in time and stores only
attributes of the buffer, exactly if it comes to no attribute whose padding is cut off by
the end of the buffer. -/
theorem walkInside_iff (max : ℕ) (buf : Mem) :
    (∀ behind, WalkInside max buf behind) ↔ ¬ CutPadding max buf := by
  constructor
  · intro hinside hcut
    obtain ⟨behind, hbehind⟩ := hcut.exists_stored
    obtain ⟨table, m, hparse, hentry, hout⟩ := hbehind nullTable
    rcases (hinside behind).inside nullTable table 0 hparse with hnull | ⟨h, hpoints, hle⟩
    · rw [hentry] at hnull
      cases hnull
    · rw [hentry] at hpoints
      cases hpoints
      rw [List.length_drop, List.length_append] at hout
      omega
  · intro hcut behind
    exact ⟨fun attrs fuel hfuel => parseRtattrLoop_ends hcut hfuel attrs,
      fun attrs table t hparse => parseRtattr_inside List.suffix_rfl hcut hparse t⟩

/-- Five bytes hold one attribute of five bytes; the attribute stored besides it stands three
bytes behind them. -/
theorem walkInside_fails :
    (parseRtattr ([5, 0, 1, 0, 9] ++ [0, 0, 0, 4, 0, 2, 0]) 5 nullTable maxAttrs).toOption.map
        (fun table => (table 1, table 2)) =
      some (.mem [5, 0, 1, 0, 9, 0, 0, 0, 4, 0, 2, 0], .mem [4, 0, 2, 0]) ∧
      ¬ WalkInside maxAttrs [5, 0, 1, 0, 9] [0, 0, 0, 4, 0, 2, 0] := by
  have hstored : (parseRtattr ([5, 0, 1, 0, 9] ++ [0, 0, 0, 4, 0, 2, 0]) 5 nullTable
      maxAttrs).toOption.map (fun table => (table 1, table 2)) =
        some (.mem [5, 0, 1, 0, 9, 0, 0, 0, 4, 0, 2, 0], .mem [4, 0, 2, 0]) := by decide +kernel
  refine ⟨hstored, fun hinside => ?_⟩
  obtain ⟨table, hparse, hentries⟩ := ok_of_toOption_map hstored
  have hentry : table 2 = .mem [4, 0, 2, 0] := congrArg Prod.snd hentries
  rcases hinside.inside nullTable table 2 hparse with hnull | ⟨h, hpoints, hle⟩
  · rw [hentry] at hnull
    cases hnull
  · rw [hentry, Ptr.mem.injEq] at hpoints
    have hlength := congrArg List.length hpoints
    rw [List.length_drop] at hlength
    simp at hlength hle
    omega

end Routerd
