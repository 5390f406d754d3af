import Mathlib.Data.List.FinRange
import Routerd.PartialInverse

/-!
# Tables of slots that are searched from the front

A table has a fixed number of slots, each empty or holding a value. Values are found
by the first slot that satisfies a test, new ones go to the first empty slot, and a
slot can be emptied and used again. All statements are over arbitrary values and keys.
-/

namespace SlotTable
open PartialInverse

variable {n : ℕ} {α κ : Type*}

/-- The first slot whose value satisfies the test, with the value. -/
def first (p : Fin n → α → Bool) (t : Fin n → Option α) : Option (Fin n × α) :=
  (Fin.find? fun i => (t i).any (p i)).bind fun i => (t i).map (Prod.mk i)

def firstFree (t : Fin n → Option α) : Option (Fin n) := Fin.find? fun i => (t i).isNone

variable {p : Fin n → α → Bool} {t : Fin n → Option α} {i : Fin n} {a : α}

theorem first_eq_some_iff : first p t = some (i, a) ↔
    t i = some a ∧ p i a = true ∧ ∀ j < i, ∀ b, t j = some b → p j b = false := by
  constructor
  · intro h
    obtain ⟨k, hk, hval⟩ := Option.bind_eq_some_iff.mp h
    obtain ⟨b, hb, heq⟩ := Option.map_eq_some_iff.mp hval
    cases heq
    obtain ⟨hp, hbefore⟩ := Fin.find?_eq_some_iff.mp hk
    rw [hb] at hp
    refine ⟨hb, hp, fun j hj b' hb' => ?_⟩
    have hnot := hbefore j hj
    rw [hb'] at hnot
    exact hnot
  · rintro ⟨hval, hp, hbefore⟩
    have hfind : (Fin.find? fun i => (t i).any (p i)) = some i := by
      refine Fin.find?_eq_some_iff.mpr ⟨by rw [hval]; exact hp, fun j hj => ?_⟩
      cases hj' : t j with
      | none => rfl
      | some b => exact hbefore j hj b hj'
    rw [first, hfind, Option.bind_some, hval, Option.map_some]

theorem first_eq_none_iff : first p t = none ↔ ∀ i a, t i = some a → p i a = false := by
  constructor
  · intro h i a hval
    cases hfind : Fin.find? fun i => (t i).any (p i) with
    | none =>
      have hnot := Fin.find?_eq_none_iff.mp hfind i
      rw [hval] at hnot
      exact hnot
    | some k =>
      rw [first, hfind, Option.bind_some, Option.map_eq_none_iff] at h
      have hk := (Fin.find?_eq_some_iff.mp hfind).1
      rw [h] at hk
      cases hk
  · intro h
    have hfind : (Fin.find? fun i => (t i).any (p i)) = none := by
      refine Fin.find?_eq_none_iff.mpr fun i => ?_
      cases hval : t i with
      | none => rfl
      | some a => exact h i a hval
    rw [first, hfind, Option.bind_none]

theorem firstFree_eq_none_of (h : firstFree t = some i) : t i = none :=
  Option.isNone_iff_eq_none.mp (Fin.find?_eq_some_iff.mp h).1

theorem firstFree_eq_none_iff : firstFree t = none ↔ ∀ i, t i ≠ none := by
  rw [firstFree, Fin.find?_eq_none_iff]
  exact forall_congr' fun i => by rw [Option.isNone_eq_false_iff, Option.isSome_iff_ne_none]

/-- Some slot holds the value. -/
def Holds (t : Fin n → Option α) (a : α) : Prop := ∃ i, t i = some a

theorem Holds.of_clear {b : α} (h : Holds (Function.update t i none) b) : Holds t b := by
  obtain ⟨j, hj⟩ := h
  exact ⟨j, (update_none_eq_some hj).2⟩

theorem Holds.of_write {b : α} (h : Holds (Function.update t i (some a)) b) :
    b = a ∨ ∃ j ≠ i, t j = some b := by
  obtain ⟨j, hj⟩ := h
  rcases update_some_eq_some hj with ⟨-, rfl⟩ | ⟨hji, hj⟩
  · exact Or.inl rfl
  · exact Or.inr ⟨j, hji, hj⟩

/-- No key stands in two slots. -/
def DistinctKeys (key : α → κ) (t : Fin n → Option α) : Prop :=
  ∀ ⦃i j a b⦄, t i = some a → t j = some b → key a = key b → i = j

variable {key : α → κ}

theorem distinctKeys_empty (key : α → κ) : DistinctKeys key (fun _ : Fin n => none) :=
  fun _ _ _ _ h => nomatch h

theorem DistinctKeys.clear (h : DistinctKeys key t) (i : Fin n) :
    DistinctKeys key (Function.update t i none) := by
  intro j k a b hj hk hab
  exact h (update_none_eq_some hj).2 (update_none_eq_some hk).2 hab

theorem DistinctKeys.write (h : DistinctKeys key t)
    (hnew : ∀ j ≠ i, ∀ b, t j = some b → key b ≠ key a) :
    DistinctKeys key (Function.update t i (some a)) := by
  intro j k b c hj hk hbc
  rcases update_some_eq_some hj with ⟨rfl, rfl⟩ | ⟨hji, hold⟩ <;>
    rcases update_some_eq_some hk with ⟨rfl, rfl⟩ | ⟨hki, hold'⟩
  · rfl
  · exact absurd hbc.symm (hnew k hki c hold')
  · exact absurd hbc (hnew j hji b hold)
  · exact h hold hold' hbc

end SlotTable
