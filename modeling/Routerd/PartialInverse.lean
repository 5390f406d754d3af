import Mathlib.Logic.Function.Basic
import Mathlib.Data.Option.Basic

/-!
# Pairs of partial maps that undo each other

Two partial maps `f : α → Option β` and `g : β → Option α` are kept by separate
writes. `Tracks f g` is one half of being inverse; the two halves are kept by
different conditions on a new binding, which is why they are stated apart. All
statements are over arbitrary types.
-/

namespace PartialInverse

variable {α β : Type*} {f : α → Option β} {g : β → Option α} {a : α} {b : β}

/-- `g` leads back from everything `f` holds. -/
def Tracks (f : α → Option β) (g : β → Option α) : Prop :=
  ∀ ⦃a b⦄, f a = some b → g b = some a

/-- Each map holds exactly the bindings of the other, read backwards. -/
def Inverse (f : α → Option β) (g : β → Option α) : Prop :=
  ∀ a b, f a = some b ↔ g b = some a

/-- `g` holds a binding of `b` that `f` has not. -/
def Stale (f : α → Option β) (g : β → Option α) (b : β) : Prop :=
  ∃ a, g b = some a ∧ f a ≠ some b

theorem inverse_iff_tracks : Inverse f g ↔ Tracks f g ∧ Tracks g f := by
  constructor
  · intro h
    exact ⟨fun a b => (h a b).mp, fun b a => (h a b).mpr⟩
  · intro ⟨hf, hg⟩ a b
    exact ⟨fun h => hf h, fun h => hg h⟩

theorem Tracks.injective (h : Tracks f g) {a' : α} (ha : f a = some b) (ha' : f a' = some b) :
    a = a' :=
  Option.some.inj ((h ha).symm.trans (h ha'))

theorem not_inverse_of_stale (h : Stale f g b) : ¬ Inverse f g := by
  intro hinv
  obtain ⟨a, hb, ha⟩ := h
  exact ha ((hinv a b).mpr hb)

theorem ne_of_bound {a' : α} (h : f a = some b) (hfree : f a' = none) : a ≠ a' := by
  rintro rfl
  rw [h] at hfree
  cases hfree

section Update

variable [DecidableEq α] {a' : α} {b' : β}

theorem update_some_eq_some (h : Function.update f a (some b) a' = some b') :
    (a' = a ∧ b' = b) ∨ (a' ≠ a ∧ f a' = some b') := by
  by_cases ha : a' = a
  · subst ha
    rw [Function.update_self] at h
    exact Or.inl ⟨rfl, (Option.some.inj h).symm⟩
  · rw [Function.update_of_ne ha] at h
    exact Or.inr ⟨ha, h⟩

theorem update_none_eq_some (h : Function.update f a none a' = some b') :
    a' ≠ a ∧ f a' = some b' := by
  by_cases ha : a' = a
  · subst ha
    rw [Function.update_self] at h
    cases h
  · rw [Function.update_of_ne ha] at h
    exact ⟨ha, h⟩

theorem update_some_eq_none (h : Function.update f a (some b) a' = none) :
    a' ≠ a ∧ f a' = none := by
  by_cases ha : a' = a
  · subst ha
    rw [Function.update_self] at h
    cases h
  · rw [Function.update_of_ne ha] at h
    exact ⟨ha, h⟩

theorem update_some_none (h : f a = none) (b : β) :
    Function.update (Function.update f a (some b)) a none = f := by
  rw [Function.update_idem, ← h, Function.update_eq_self]

end Update

variable [DecidableEq α] [DecidableEq β]

theorem Tracks.insert (h : Tracks f g) (hb : g b = none) :
    Tracks (Function.update f a (some b)) (Function.update g b (some a)) := by
  intro a' b' hab
  rcases update_some_eq_some hab with ⟨rfl, rfl⟩ | ⟨-, hold⟩
  · rw [Function.update_self]
  · rw [Function.update_of_ne (ne_of_bound (h hold) hb)]
    exact h hold

theorem Tracks.erase (h : Tracks f g) (hb : g b = some a) :
    Tracks (Function.update f a none) (Function.update g b none) := by
  intro a' b' hab
  obtain ⟨ha, hab⟩ := update_none_eq_some hab
  have hb' : b' ≠ b := by
    rintro rfl
    rw [h hab] at hb
    exact ha (Option.some.inj hb)
  rw [Function.update_of_ne hb']
  exact h hab

theorem Inverse.insert (h : Inverse f g) (ha : f a = none) (hb : g b = none) :
    Inverse (Function.update f a (some b)) (Function.update g b (some a)) := by
  obtain ⟨hf, hg⟩ := inverse_iff_tracks.mp h
  exact inverse_iff_tracks.mpr ⟨hf.insert hb, hg.insert ha⟩

theorem Inverse.erase (h : Inverse f g) (ha : f a = some b) :
    Inverse (Function.update f a none) (Function.update g b none) := by
  obtain ⟨hf, hg⟩ := inverse_iff_tracks.mp h
  exact inverse_iff_tracks.mpr ⟨hf.erase (hf ha), hg.erase ha⟩

/-- Rebinding `a` leaves its old partner stale. -/
theorem stale_of_rebind {b₀ : β} (h : Tracks f g) (ha : f a = some b₀) (hb : g b = none) :
    Stale (Function.update f a (some b)) (Function.update g b (some a)) b₀ := by
  have hne : b₀ ≠ b := ne_of_bound (h ha) hb
  refine ⟨a, ?_, ?_⟩
  · rw [Function.update_of_ne hne]
    exact h ha
  · rw [Function.update_self]
    exact fun hc => hne (Option.some.inj hc).symm

theorem Stale.insert {b₀ : β} (h : Stale f g b₀) (hb : g b = none) :
    Stale (Function.update f a (some b)) (Function.update g b (some a)) b₀ := by
  obtain ⟨a₀, hg, hf⟩ := h
  have hne : b₀ ≠ b := ne_of_bound hg hb
  refine ⟨a₀, by rw [Function.update_of_ne hne]; exact hg, ?_⟩
  by_cases ha : a₀ = a
  · subst ha
    rw [Function.update_self]
    exact fun hc => hne (Option.some.inj hc).symm
  · rw [Function.update_of_ne ha]
    exact hf

theorem Stale.erase {b₀ : β} (h : Stale f g b₀) (ht : Tracks f g) (ha : f a = some b) :
    Stale (Function.update f a none) (Function.update g b none) b₀ := by
  obtain ⟨a₀, hg, hf⟩ := h
  have hne : b₀ ≠ b := by
    rintro rfl
    rw [ht ha] at hg
    cases hg
    exact hf ha
  refine ⟨a₀, by rw [Function.update_of_ne hne]; exact hg, ?_⟩
  by_cases haa : a₀ = a
  · subst haa
    rw [Function.update_self]
    exact nofun
  · rw [Function.update_of_ne haa]
    exact hf

end PartialInverse
