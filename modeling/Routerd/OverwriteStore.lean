import Routerd.KeyedUpdates
import Mathlib.Data.List.Induction
import Mathlib.Data.List.Nodup

/-!
# A list of entries in which a write overwrites and appends

A write replaces every entry of its key and adds one more at the end. The first entry of a
key is then the last one written, while the list grows with every write. All statements
are over arbitrary entries and keys.
-/

namespace OverwriteStore
open KeyedUpdates

variable {α κ : Type*} [DecidableEq κ] (key : α → κ)

def put (es : List α) (e : α) : List α :=
  es.map (fun x => if key x = key e then e else x) ++ [e]

def store (ws : List α) : List α := ws.foldl (put key) []

/-- The last entry written under a key. -/
def newest (ws : List α) (k : κ) : Option α := lastWrite k (ws.map fun w => (key w, w))

theorem store_concat (ws : List α) (w : α) : store key (ws ++ [w]) = put key (store key ws) w := by
  simp [store]

theorem foldl_eq_store {β : Type*} {step : List α → β → List α} {f : β → α}
    (hstep : ∀ es b, step es b = put key es (f b)) (bs : List β) :
    bs.foldl step [] = store key (bs.map f) := by
  rw [store, List.foldl_map]
  apply congrArg (List.foldl · [] bs)
  funext es b
  exact hstep es b

theorem newest_concat (ws : List α) (w : α) (k : κ) :
    newest key (ws ++ [w]) k = if key w = k then some w else newest key ws k := by
  rw [newest, List.map_append]
  exact lastWrite_concat k _ _

theorem newest_append (ws ws' : List α) (k : κ) :
    newest key (ws ++ ws') k = (newest key ws' k).or (newest key ws k) := by
  rw [newest, List.map_append]
  exact lastWrite_append k _ _

theorem newest_map {β : Type*} {key' : β → κ} {f : α → β} (hf : ∀ w, key' (f w) = key w)
    (ws : List α) (k : κ) : newest key' (ws.map f) k = (newest key ws k).map f := by
  rw [newest, newest, ← lastWrite_map_value, List.map_map, List.map_map]
  apply congrArg (lastWrite k)
  apply List.map_congr_left
  intro w _
  simp [hf w]

theorem key_of_newest {ws : List α} {k : κ} {w : α} (h : newest key ws k = some w) :
    w ∈ ws ∧ key w = k := by
  obtain ⟨w', hw', heq⟩ := List.mem_map.mp (mem_of_lastWrite h)
  cases heq
  exact ⟨hw', rfl⟩

theorem newest_eq_none_iff {ws : List α} {k : κ} :
    newest key ws k = none ↔ ∀ w ∈ ws, key w ≠ k := by
  rw [newest, lastWrite_eq_none_iff, List.map_map]
  simp

theorem newest_of_nodup {ws : List α} (h : (ws.map key).Nodup) {w : α} (hw : w ∈ ws) :
    newest key ws (key w) = some w := by
  cases hnewest : newest key ws (key w) with
  | none => exact absurd rfl ((newest_eq_none_iff key).mp hnewest w hw)
  | some w' =>
    obtain ⟨hw', hkey⟩ := key_of_newest key hnewest
    exact congrArg some (List.inj_on_of_nodup_map h hw' hw hkey)

theorem map_key_put (es : List α) (e : α) : (put key es e).map key = es.map key ++ [key e] := by
  rw [put, List.map_append, List.map_map]
  congr 1
  apply List.map_congr_left
  intro x _
  by_cases hx : key x = key e
  · simp [hx]
  · simp [hx]

theorem map_key_store (ws : List α) : (store key ws).map key = ws.map key := by
  induction ws using List.reverseRecOn with
  | nil => rfl
  | append_singleton ws w ih =>
    rw [store_concat, map_key_put, ih, List.map_append]
    rfl

/-- Every entry is the last one written under its key. -/
theorem newest_of_mem_store {ws : List α} {e : α} (he : e ∈ store key ws) :
    newest key ws (key e) = some e := by
  induction ws using List.reverseRecOn generalizing e with
  | nil => cases he
  | append_singleton ws w ih =>
    rw [store_concat, put] at he
    rw [newest_concat]
    rcases List.mem_append.mp he with he | he
    · obtain ⟨x, hx, rfl⟩ := List.mem_map.mp he
      by_cases hk : key x = key w
      · rw [if_pos hk, if_pos rfl]
      · rw [if_neg hk, if_neg (Ne.symm hk)]
        exact ih hx
    · rw [List.mem_singleton.mp he, if_pos rfl]

theorem find?_put (es : List α) (e : α) (k : κ) :
    (put key es e).find? (fun x => decide (key x = k)) =
      if key e = k then some e else es.find? fun x => decide (key x = k) := by
  induction es with
  | nil => by_cases hk : key e = k <;> simp [put, hk]
  | cons x es ih =>
    have hcons : put key (x :: es) e = (if key x = key e then e else x) :: put key es e := rfl
    rw [hcons]
    by_cases hx : key x = key e
    · by_cases hk : key e = k
      · simp [hx, hk]
      · simp [hx, hk, ih]
    · by_cases hk : key e = k
      · have hne : key x ≠ k := fun h => hx (h.trans hk.symm)
        simp [hne, hk, ih]
      · by_cases hxk : key x = k
        · rw [if_neg hx, if_neg hk, List.find?_cons_of_pos (by simpa using hxk),
            List.find?_cons_of_pos (by simpa using hxk)]
        · rw [if_neg hx, if_neg hk, List.find?_cons_of_neg (by simpa using hxk),
            List.find?_cons_of_neg (by simpa using hxk), ih, if_neg hk]

theorem find?_store (ws : List α) (k : κ) :
    (store key ws).find? (fun x => decide (key x = k)) = newest key ws k := by
  induction ws using List.reverseRecOn with
  | nil => rfl
  | append_singleton ws w ih => rw [store_concat, find?_put, ih, newest_concat]

end OverwriteStore
