import Routerd.SummaryWalks
import Routerd.AttributePlaces
import Routerd.ReadSafety

/-!
# The lines of a summary

Over a well-formed list the walk of a summary comes to each attribute, in the memory from it on, and
adds a line for it. What the rest of the count shows behind the list comes after that. An attribute
that does not print ends the process.
-/

namespace Routerd
open ByteMemory NumeralText

def linesText (texts : List Text) : Text :=
  texts.flatMap fun s => if s = [] then [] else [' ', ' '] ++ s ++ ['\n']

section Walk

variable {summary : Mem → Except Fault Text} {buf behind : Mem}

theorem map_drop_layoutOffsets {attrs : List Rtattr} {h : ℕ}
    (hbuf : buf.drop h = layout attrs ++ behind) :
    (layoutOffsets h attrs).map (fun h => buf.drop h) = layoutViews attrs behind := by
  induction attrs generalizing h with
  | nil => rfl
  | cons a attrs ih =>
    have hnext := a.drop_layout_cons behind hbuf
    rw [layoutOffsets, List.map_cons, ih hnext, hbuf, layout_cons, List.append_assoc, layoutViews]

/-- The walk over a list that prints: a line for each attribute, and then whatever the rest
of the count shows behind the list. -/
theorem summaryLoop_layout {attrs : List Rtattr} {h : ℕ}
    (hbuf : buf.drop h = layout attrs ++ behind) {texts : List Text}
    (htexts : (layoutViews attrs behind).map summary = texts.map .ok) (fuel extra : ℕ)
    (str : Text) :
    summaryLoop summary buf (attrs.length + fuel) h ((layout attrs).length + extra) str =
      ⟨layoutOffsets h attrs ++ (summaryLoop summary buf fuel (h + (layout attrs).length) extra
          (str ++ linesText texts)).visited,
        (summaryLoop summary buf fuel (h + (layout attrs).length) extra
          (str ++ linesText texts)).ending⟩ := by
  induction attrs generalizing h texts str with
  | nil =>
    rw [List.map_eq_nil_iff.mp htexts.symm]
    change summaryLoop summary buf (0 + fuel) h (0 + extra) str = _
    rw [Nat.zero_add, Nat.zero_add]
    change _ = SummaryRun.mk (summaryLoop summary buf fuel h extra (str ++ [])).visited
      (summaryLoop summary buf fuel h extra (str ++ [])).ending
    rw [List.append_nil]
  | cons a attrs ih =>
    have hnext := a.drop_layout_cons behind hbuf
    have hfits := Nat.le_add_right_of_le (a.len_le_layout attrs) (k := extra)
    rw [layout_cons, List.append_assoc] at hbuf
    rw [layoutViews, List.map_cons] at htexts
    obtain ⟨t, texts, rfl⟩ : ∃ t ts, texts = t :: ts := by
      cases texts with
      | nil => cases htexts
      | cons t ts => exact ⟨t, ts, rfl⟩
    obtain ⟨ht, htexts⟩ := List.cons.inj htexts
    have hstr : (if t = [] then str else str ++ ([' ', ' '] ++ t ++ ['\n'])) ++ linesText texts =
        str ++ linesText (t :: texts) := by
      rw [linesText, linesText, List.flatMap_cons]
      by_cases hnil : t = []
      · rw [if_pos hnil, if_pos hnil, List.nil_append]
      · rw [if_neg hnil, if_neg hnil, List.append_assoc]
    rw [List.length_cons, Nat.add_right_comm, summaryLoop, hbuf, if_pos (a.rtaOk_bytes _ hfits), ht]
    dsimp only
    rw [a.rtaLen_bytes, a.sizeSub_layout_cons, ← a.length_bytes, ih hnext htexts, hstr,
      layout_cons, List.length_append, Nat.add_assoc, layoutOffsets, List.cons_append]

theorem summaryLoop_layout_error {attrs : List Rtattr} {h : ℕ}
    (hbuf : buf.drop h = layout attrs ++ behind) {fault : Fault} {v : Mem}
    (hv : v ∈ layoutViews attrs behind) (hfault : summary v = .error fault) (fuel extra : ℕ)
    (str : Text) :
    ∃ fault, (summaryLoop summary buf (attrs.length + fuel) h ((layout attrs).length + extra)
      str).ending = .aborted fault := by
  induction attrs generalizing h str with
  | nil => cases hv
  | cons a attrs ih =>
    have hnext := a.drop_layout_cons behind hbuf
    have hfits := Nat.le_add_right_of_le (a.len_le_layout attrs) (k := extra)
    rw [layout_cons, List.append_assoc] at hbuf
    rw [List.length_cons, Nat.add_right_comm, summaryLoop, hbuf, if_pos (a.rtaOk_bytes _ hfits)]
    cases hhead : summary (a.bytes ++ (layout attrs ++ behind)) with
    | error fault => exact ⟨fault, rfl⟩
    | ok t =>
      dsimp only
      rw [a.rtaLen_bytes, a.sizeSub_layout_cons, ← a.length_bytes]
      refine ih hnext ?_ _
      rcases List.mem_cons.mp hv with rfl | hv
      · rw [hhead] at hfault
        cases hfault
      · exact hv

theorem visited_summaryLoop_eq_nil_iff (fuel h len : ℕ) (str : Text) :
    (summaryLoop summary buf (fuel + 1) h len str).visited = [] ↔ ¬ rtaOk (buf.drop h) len := by
  by_cases hok : rtaOk (buf.drop h) len
  · rw [summaryLoop, if_pos hok]
    cases summary (buf.drop h) with
    | error fault => simp [hok]
    | ok t => simp [hok]
  · rw [summaryLoop, if_neg hok]
    exact ⟨fun _ => hok, fun _ => rfl⟩

end Walk

/-! ### Lists of attributes in their places -/

theorem map_fst_located (attrs : List Rtattr) (behind : Mem) :
    (located attrs behind).map Prod.fst = attrs := by
  induction attrs with
  | nil => rfl
  | cons a attrs ih => rw [located, List.map_cons, ih]

theorem map_located (attrs : List Rtattr) (behind : Mem) :
    (located attrs behind).map (fun x => x.1.bytes ++ x.2) = layoutViews attrs behind := by
  induction attrs with
  | nil => rfl
  | cons a attrs ih => rw [located, List.map_cons, ih, layoutViews]

theorem located_append (attrs attrs' : List Rtattr) (behind : Mem) :
    located (attrs ++ attrs') behind =
      located attrs (layout attrs' ++ behind) ++ located attrs' behind := by
  induction attrs with
  | nil => rfl
  | cons a attrs ih =>
    rw [List.cons_append, located, located, ih, layout_append, List.append_assoc, List.cons_append]

theorem exists_map_eq {α : Type} {g : α → Option Text} {g' : α → Except Fault Text} {l : List α}
    (h : ∀ a ∈ l, ∃ t, g a = some t ∧ g' a = .ok t) :
    ∃ texts : List Text, l.map g = texts.map some ∧ l.map g' = texts.map .ok := by
  induction l with
  | nil => exact ⟨[], rfl, rfl⟩
  | cons a l ih =>
    obtain ⟨t, ht, ht'⟩ := h a List.mem_cons_self
    obtain ⟨texts, hg, hg'⟩ := ih fun b hb => h b (List.mem_cons_of_mem a hb)
    exact ⟨t :: texts, by rw [List.map_cons, ht, hg, List.map_cons],
      by rw [List.map_cons, ht', hg', List.map_cons]⟩

theorem exists_map_ok {α : Type} {g : α → Except Fault Text} {l : List α}
    (h : ∀ a ∈ l, ∃ t, g a = .ok t) : ∃ texts : List Text, l.map g = texts.map .ok := by
  have hboth : ∀ a ∈ l, ∃ t, (g a).toOption = some t ∧ g a = .ok t := by
    intro a ha
    obtain ⟨t, ht⟩ := h a ha
    exact ⟨t, by rw [ht]; rfl, ht⟩
  obtain ⟨texts, -, htexts⟩ := exists_map_eq hboth
  exact ⟨texts, htexts⟩

theorem forall_map_eq {α : Type} {g : α → Option Text} {g' : α → Except Fault Text} {l : List α}
    {texts : List Text} (h : l.map g = texts.map some) (h' : l.map g' = texts.map .ok) :
    ∀ a ∈ l, ∃ t, g a = some t ∧ g' a = .ok t := by
  induction l generalizing texts with
  | nil => simp
  | cons a l ih =>
    cases texts with
    | nil => cases h
    | cons t texts =>
      obtain ⟨ht, hrest⟩ := List.cons.inj h
      obtain ⟨ht', hrest'⟩ := List.cons.inj h'
      exact List.forall_mem_cons.mpr ⟨⟨t, ht, ht'⟩, ih hrest hrest'⟩

theorem length_le_layout (attrs : List Rtattr) : attrs.length ≤ (layout attrs).length := by
  induction attrs with
  | nil => exact Nat.le_refl 0
  | cons a attrs ih =>
    have hlen := a.four_le_length
    rw [layout_cons, List.length_append, List.length_cons]
    omega

theorem mem_of_located {attrs : List Rtattr} {behind : Mem} {x : Rtattr × Mem}
    (hx : x ∈ located attrs behind) : x.1 ∈ attrs := by
  have hmem := List.mem_map_of_mem (f := Prod.fst) hx
  rwa [map_fst_located] at hmem

theorem toOption_eq_some_iff {x : Except Fault Text} {t : Text} :
    x.toOption = some t ↔ x = .ok t := by
  cases x <;> simp [Except.toOption]

end Routerd
