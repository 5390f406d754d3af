import Mathlib

/-!
# The order of binary heaps

The items of a heap lie at the numbers below its size, and no item is before the one at its parent.
While an item is moved to its place the order is broken around one number only: upwards the item
there may be before its parent, downwards it may be after its children. An exchange with the parent
or with the better child moves the break on; the items stay the same, as a permutation of numbers.
-/

namespace HeapOrder

variable {α β : Type*}

/-- The number above; that of the root is the root itself. -/
def parent (i : ℕ) : ℕ := (i - 1) / 2

theorem parent_lt {i : ℕ} (h : 0 < i) : parent i < i := by
  unfold parent
  omega

theorem parent_eq_iff {i p : ℕ} (h : 0 < i) : parent i = p ↔ i = 2 * p + 1 ∨ i = 2 * p + 2 := by
  unfold parent
  omega

/-- The items at the numbers below the size. -/
def items (a : ℕ → α) (n : ℕ) : List α := (List.range n).map a

theorem mem_items {a : ℕ → α} {n : ℕ} {x : α} : x ∈ items a n ↔ ∃ i < n, a i = x := by
  simp [items]

theorem items_succ (a : ℕ → α) (n : ℕ) : items a (n + 1) = items a n ++ [a n] := by
  simp [items, List.range_succ]

theorem items_congr {a b : ℕ → α} {n : ℕ} (h : ∀ i < n, a i = b i) : items a n = items b n :=
  List.map_congr_left fun i hi => h i (List.mem_range.mp hi)

theorem items_comp_perm (a : ℕ → α) {n : ℕ} (σ : Equiv.Perm ℕ) (hσ : ∀ i, n ≤ i → σ i = i) :
    (items (a ∘ σ) n).Perm (items a n) := by
  have hlt : ∀ i, σ i < n ↔ i < n := by
    intro i
    constructor
    · intro hi
      by_contra hn
      rw [hσ i (not_lt.mp hn)] at hi
      exact hn hi
    · intro hi
      by_contra hn
      have := σ.injective (hσ (σ i) (not_lt.mp hn))
      rw [this] at hn
      exact hn hi
  have hrange : ((List.range n).map σ).Perm (List.range n) := by
    refine (List.perm_ext_iff_of_nodup (List.nodup_range.map σ.injective) List.nodup_range).mpr ?_
    intro i
    rw [List.mem_map, List.mem_range]
    constructor
    · rintro ⟨j, hj, rfl⟩
      exact (hlt j).mpr (List.mem_range.mp hj)
    · intro hi
      refine ⟨σ.symm i, List.mem_range.mpr ?_, σ.apply_symm_apply i⟩
      rwa [← hlt, σ.apply_symm_apply]
  have := hrange.map a
  rwa [List.map_map] at this

theorem swap_fixes {n i j : ℕ} (hi : i < n) (hj : j < n) :
    ∀ k, n ≤ k → Equiv.swap i j k = k := by
  intro k hk
  exact Equiv.swap_apply_of_ne_of_ne (by omega) (by omega)

theorem update_swap (a : ℕ → α) (x : α) {i j : ℕ} (h : i ≠ j) :
    Function.update (Function.update a i (a j)) j x = Function.update a i x ∘ Equiv.swap i j := by
  funext k
  by_cases hj : k = j
  · subst hj
    simp
  · by_cases hi : k = i
    · subst hi
      simp [Function.update_of_ne hj, Function.update_of_ne h.symm]
    · simp [Function.update_of_ne hj, Function.update_of_ne hi, Equiv.swap_apply_of_ne_of_ne hi hj]

theorem items_drop_perm (a : ℕ → α) {n i : ℕ} (hi : i < n) :
    (a i :: items (Function.update a i (a n)) n).Perm (items a (n + 1)) := by
  have hswap : items (a ∘ Equiv.swap i n) (n + 1) = items (Function.update a i (a n)) n ++ [a i] := by
    rw [items_succ, Function.comp_apply, Equiv.swap_apply_right]
    refine congrArg (· ++ [a i]) (items_congr fun k hk => ?_)
    by_cases hki : k = i
    · subst hki
      simp
    · rw [Function.comp_apply, Equiv.swap_apply_of_ne_of_ne hki hk.ne, Function.update_of_ne hki]
  have hperm := items_comp_perm a (Equiv.swap i n)
    (swap_fixes (Nat.lt_succ_of_lt hi) (Nat.lt_succ_self n))
  rw [hswap] at hperm
  exact (List.perm_append_singleton _ _).symm.trans hperm

section Order
variable [LinearOrder β] (key : α → β)

def Ordered (a : ℕ → α) (n : ℕ) : Prop := ∀ i, 0 < i → i < n → key (a (parent i)) ≤ key (a i)

/-- The order is broken at most between the item at one number and the one at its parent. -/
structure UpTo (a : ℕ → α) (n hole : ℕ) : Prop where
  others : ∀ i, 0 < i → i < n → i ≠ hole → key (a (parent i)) ≤ key (a i)
  grand : 0 < hole → ∀ i, 0 < i → i < n → parent i = hole → key (a (parent hole)) ≤ key (a i)

/-- The order is broken at most between the item at one number and those at its children. -/
structure DownFrom (a : ℕ → α) (n hole : ℕ) : Prop where
  others : ∀ i, 0 < i → i < n → parent i ≠ hole → key (a (parent i)) ≤ key (a i)
  grand : 0 < hole → ∀ i, 0 < i → i < n → parent i = hole → key (a (parent hole)) ≤ key (a i)

variable {key} {a : ℕ → α} {n hole : ℕ}

theorem Ordered.root_le (h : Ordered key a n) {i : ℕ} (hi : i < n) : key (a 0) ≤ key (a i) := by
  induction i using Nat.strong_induction_on with
  | _ i ih =>
    rcases Nat.eq_zero_or_pos i with rfl | hpos
    · exact le_rfl
    · have hlt := parent_lt hpos
      exact (ih _ hlt (hlt.trans hi)).trans (h i hpos hi)

theorem UpTo.ordered (h : UpTo key a n hole)
    (hstop : 0 < hole → key (a (parent hole)) ≤ key (a hole)) : Ordered key a n := by
  intro i hpos hi
  by_cases hhole : i = hole
  · subst hhole
    exact hstop hpos
  · exact h.others i hpos hi hhole

theorem DownFrom.ordered (h : DownFrom key a n hole)
    (hstop : ∀ i, 0 < i → i < n → parent i = hole → key (a hole) ≤ key (a i)) :
    Ordered key a n := by
  intro i hpos hi
  by_cases hhole : parent i = hole
  · rw [hhole]
    exact hstop i hpos hi hhole
  · exact h.others i hpos hi hhole

theorem UpTo.swap (h : UpTo key a n hole) (hpos : 0 < hole) (hlt : hole < n)
    (hsmall : key (a hole) ≤ key (a (parent hole))) :
    UpTo key (a ∘ Equiv.swap hole (parent hole)) n (parent hole) := by
  have hp := parent_lt hpos
  have hup : 0 < parent hole → key (a (parent (parent hole))) ≤ key (a (parent hole)) :=
    fun h0 => h.others _ h0 (by omega) (by omega)
  have hout : ∀ {i : ℕ}, i ≠ hole → i ≠ parent hole →
      (a ∘ Equiv.swap hole (parent hole)) i = a i := by
    intro i h1 h2
    rw [Function.comp_apply, Equiv.swap_apply_of_ne_of_ne h1 h2]
  constructor
  · intro i hi hin hne
    by_cases hih : i = hole
    · subst hih
      simpa using hsmall
    · rw [hout hih hne]
      by_cases hph : parent i = hole
      · rw [hph, Function.comp_apply, Equiv.swap_apply_left]
        exact h.grand hpos i hi hin hph
      · by_cases hpp : parent i = parent hole
        · rw [hpp, Function.comp_apply, Equiv.swap_apply_right]
          exact hsmall.trans (hpp ▸ h.others i hi hin hih)
        · rw [hout hph hpp]
          exact h.others i hi hin hih
  · intro h0 i hi hin hpi
    have hpp := parent_lt h0
    rw [hout (show parent (parent hole) ≠ hole by omega) (by omega)]
    by_cases hih : i = hole
    · subst hih
      rw [Function.comp_apply, Equiv.swap_apply_left]
      exact hup h0
    · rw [hout hih (fun heq => by have := parent_lt hi; omega)]
      exact (hup h0).trans (hpi ▸ h.others i hi hin hih)

theorem DownFrom.swap (h : DownFrom key a n hole) {which : ℕ} (hpos : 0 < which) (hlt : which < n)
    (hchild : parent which = hole)
    (hbest : ∀ i, 0 < i → i < n → parent i = hole → key (a which) ≤ key (a i))
    (hsmall : key (a which) ≤ key (a hole)) :
    DownFrom key (a ∘ Equiv.swap hole which) n which := by
  have hp := parent_lt hpos
  have hout : ∀ {i : ℕ}, i ≠ hole → i ≠ which → (a ∘ Equiv.swap hole which) i = a i := by
    intro i h1 h2
    rw [Function.comp_apply, Equiv.swap_apply_of_ne_of_ne h1 h2]
  constructor
  · intro i hi hin hne
    by_cases hph : parent i = hole
    · rw [hph, Function.comp_apply, Equiv.swap_apply_left]
      by_cases hiw : i = which
      · subst hiw
        simpa using hsmall
      · rw [hout (fun heq => by have := parent_lt hi; omega) hiw]
        exact hbest i hi hin hph
    · rw [hout hph hne]
      by_cases hih : i = hole
      · subst hih
        rw [Function.comp_apply, Equiv.swap_apply_left]
        exact h.grand hi which hpos hlt hchild
      · rw [hout hih (fun heq => hph (heq ▸ hchild))]
        exact h.others i hi hin hph
  · intro _ i hi hin hpi
    have := parent_lt hi
    rw [hchild, Function.comp_apply, Equiv.swap_apply_left, hout (by omega) (by omega)]
    have := h.others i hi hin (by omega)
    rwa [hpi] at this

end Order
end HeapOrder
