import Mathlib.Data.List.Basic

/-!
# Tables written key by key

A sequence of writes leaves in every cell the last value written to it. All
statements are over arbitrary keys and values.
-/

namespace KeyedUpdates

variable {κ ν μ : Type*} [DecidableEq κ]

/-- The last value written to `k`, if it was written at all. -/
def lastWrite (k : κ) : List (κ × ν) → Option ν
  | [] => none
  | u :: us => (lastWrite k us).or (if u.1 = k then some u.2 else none)

/-- The table after the writes, each replacing the value of its key. -/
def applyWrites (s : κ → ν) (us : List (κ × ν)) : κ → ν :=
  us.foldl (fun s u k => if k = u.1 then u.2 else s k) s

@[simp] theorem lastWrite_nil (k : κ) : lastWrite k ([] : List (κ × ν)) = none := rfl

theorem lastWrite_append (k : κ) (us vs : List (κ × ν)) :
    lastWrite k (us ++ vs) = (lastWrite k vs).or (lastWrite k us) := by
  induction us with
  | nil => simp
  | cons u us ih => simp only [List.cons_append, lastWrite, ih, Option.or_assoc]

/-- The law of the table: the last write wins and an unwritten cell is untouched. -/
theorem applyWrites_eq_lastWrite (s : κ → ν) (us : List (κ × ν)) (k : κ) :
    applyWrites s us k = (lastWrite k us).getD (s k) := by
  induction us generalizing s with
  | nil => rfl
  | cons u us ih =>
    have htail : applyWrites s (u :: us) k =
        (lastWrite k us).getD (if k = u.1 then u.2 else s k) := ih _
    rw [htail, lastWrite]
    by_cases hk : u.1 = k
    · subst hk
      cases lastWrite u.1 us <;> simp
    · rw [if_neg (Ne.symm hk), if_neg hk, Option.or_none]

theorem mem_of_lastWrite {k : κ} {v : ν} {us : List (κ × ν)} (h : lastWrite k us = some v) :
    (k, v) ∈ us := by
  induction us with
  | nil => cases h
  | cons u us ih =>
    rw [lastWrite, Option.or_eq_some_iff] at h
    rcases h with h | ⟨-, h⟩
    · exact List.mem_cons_of_mem _ (ih h)
    · by_cases hk : u.1 = k
      · rw [if_pos hk] at h
        cases h
        subst hk
        exact List.mem_cons_self
      · rw [if_neg hk] at h
        cases h

theorem lastWrite_eq_none_iff {k : κ} {us : List (κ × ν)} :
    lastWrite k us = none ↔ k ∉ us.map Prod.fst := by
  induction us with
  | nil => simp
  | cons u us ih =>
    rw [lastWrite, Option.or_eq_none_iff, ih, List.map_cons, List.mem_cons, not_or]
    by_cases hk : u.1 = k
    · simp [hk]
    · simp [hk, Ne.symm hk]

theorem lastWrite_map_value (f : ν → μ) (k : κ) (us : List (κ × ν)) :
    lastWrite k (us.map fun u => (u.1, f u.2)) = (lastWrite k us).map f := by
  induction us with
  | nil => rfl
  | cons u us ih =>
    simp only [List.map_cons, lastWrite, ih]
    by_cases hk : u.1 = k
    · rw [if_pos hk, if_pos hk]
      cases lastWrite k us <;> rfl
    · rw [if_neg hk, if_neg hk, Option.or_none, Option.or_none]

theorem lastWrite_concat (k : κ) (us : List (κ × ν)) (u : κ × ν) :
    lastWrite k (us ++ [u]) = if u.1 = k then some u.2 else lastWrite k us := by
  rw [lastWrite_append]
  by_cases hk : u.1 = k <;> simp [lastWrite, hk]

theorem lastWrite_filter {α : Type*} (p : α → Bool) (f : α → κ × ν) (k : κ) (as : List α)
    (h : ∀ a ∈ as, (f a).1 = k → p a = true) :
    lastWrite k ((as.filter p).map f) = lastWrite k (as.map f) := by
  induction as with
  | nil => rfl
  | cons a as ih =>
    obtain ⟨ha, has⟩ := List.forall_mem_cons.mp h
    cases hp : p a with
    | true => simp only [List.filter_cons, hp, if_true, List.map_cons, lastWrite, ih has]
    | false =>
      have hk : (f a).1 ≠ k := fun hk => by
        rw [ha hk] at hp
        cases hp
      simp only [List.filter_cons, hp, Bool.false_eq_true, if_false, List.map_cons, lastWrite,
        if_neg hk, Option.or_none, ih has]

/-- Renaming the keys keeps the last write of a key that nothing is confused with. -/
theorem lastWrite_map_key {ι : Type*} [DecidableEq ι] (f : ι → κ) (i : ι) (us : List (ι × ν))
    (h : ∀ u ∈ us, f u.1 = f i → u.1 = i) :
    lastWrite (f i) (us.map fun u => (f u.1, u.2)) = lastWrite i us := by
  induction us with
  | nil => rfl
  | cons u us ih =>
    obtain ⟨hu, hus⟩ := List.forall_mem_cons.mp h
    have hiff : f u.1 = f i ↔ u.1 = i := ⟨hu, fun he => by rw [he]⟩
    simp only [List.map_cons, lastWrite, ih hus, hiff]

end KeyedUpdates
