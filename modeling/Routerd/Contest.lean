import Mathlib

/-!
# The best of several candidates, and whether it is alone

Candidates are compared by a key. The leader of a list of candidates is its first candidate of
least key, marked as tied when another candidate has this key too. The leader of two lists joined
is found from the leaders of the two alone, so that a search may keep one candidate for each of
its branches.
-/

namespace Contest

variable {α κ : Type*}

/-- The candidate that leads, and whether another one is as good. -/
structure Leader (α : Type*) where
  best : α
  tied : Bool

variable [LinearOrder κ] (key : α → κ)

def pick (a b : Leader α) : Leader α :=
  if key a.best < key b.best then a
  else if key b.best < key a.best then b
  else ⟨a.best, true⟩

def meet : Option (Leader α) → Option (Leader α) → Option (Leader α)
  | none, b => b
  | some a, none => some a
  | some a, some b => some (pick key a b)

def leader : List α → Option (Leader α)
  | [] => none
  | a :: as => meet key (some ⟨a, false⟩) (leader as)

@[simp] theorem leader_nil : leader key [] = none := rfl

@[simp] theorem meet_none_left (b : Option (Leader α)) : meet key none b = b := rfl

@[simp] theorem meet_none_right (a : Option (Leader α)) : meet key a none = a := by
  cases a <;> rfl

theorem pick_of_lt {a b : Leader α} (h : key a.best < key b.best) : pick key a b = a :=
  if_pos h

theorem pick_of_gt {a b : Leader α} (h : key b.best < key a.best) : pick key a b = b := by
  rw [pick, if_neg h.le.not_gt, if_pos h]

theorem pick_of_eq {a b : Leader α} (h : key a.best = key b.best) :
    pick key a b = ⟨a.best, true⟩ := by
  rw [pick, if_neg h.ge.not_gt, if_neg h.le.not_gt]

theorem key_pick (a b : Leader α) : key (pick key a b).best = min (key a.best) (key b.best) := by
  rcases lt_trichotomy (key a.best) (key b.best) with h | h | h
  · rw [pick_of_lt key h, min_eq_left h.le]
  · rw [pick_of_eq key h, min_eq_left h.le]
  · rw [pick_of_gt key h, min_eq_right h.le]

theorem pick_assoc (a b c : Leader α) :
    pick key (pick key a b) c = pick key a (pick key b c) := by
  rcases lt_trichotomy (key a.best) (key b.best) with hab | hab | hab <;>
    rcases lt_trichotomy (key b.best) (key c.best) with hbc | hbc | hbc
  · rw [pick_of_lt key hab, pick_of_lt key hbc, pick_of_lt key hab, pick_of_lt key (hab.trans hbc)]
  · rw [pick_of_lt key hab, pick_of_eq key hbc, pick_of_lt key (hab.trans_eq hbc),
      pick_of_lt key (b := ⟨b.best, true⟩) hab]
  · rw [pick_of_lt key hab, pick_of_gt key hbc]
  · rw [pick_of_eq key hab, pick_of_lt key hbc, pick_of_eq key hab,
      pick_of_lt key (a := ⟨a.best, true⟩) (hab.trans_lt hbc)]
  · rw [pick_of_eq key hab, pick_of_eq key hbc,
      pick_of_eq key (a := ⟨a.best, true⟩) (hab.trans hbc),
      pick_of_eq key (b := ⟨b.best, true⟩) hab]
  · rw [pick_of_eq key hab, pick_of_gt key hbc,
      pick_of_gt key (a := ⟨a.best, true⟩) (hbc.trans_eq hab.symm),
      pick_of_gt key (hbc.trans_eq hab.symm)]
  · rw [pick_of_gt key hab, pick_of_lt key hbc, pick_of_gt key hab]
  · rw [pick_of_gt key hab, pick_of_eq key hbc, pick_of_gt key (b := ⟨b.best, true⟩) hab]
  · rw [pick_of_gt key hab, pick_of_gt key hbc, pick_of_gt key (hbc.trans hab)]

theorem meet_assoc (a b c : Option (Leader α)) :
    meet key (meet key a b) c = meet key a (meet key b c) := by
  cases a <;> cases b <;> cases c <;> simp [meet, pick_assoc]

theorem leader_append (as bs : List α) :
    leader key (as ++ bs) = meet key (leader key as) (leader key bs) := by
  induction as with
  | nil => simp
  | cons a as ih => rw [List.cons_append, leader, leader, ih, meet_assoc]

/-- A change of the candidates that keeps how they compare keeps the leader. -/
theorem leader_map {β κ' : Type*} [LinearOrder κ'] (key' : β → κ') (f : α → β)
    (h : ∀ a b, key' (f a) < key' (f b) ↔ key a < key b) (as : List α) :
    leader key' (as.map f) = (leader key as).map fun l => ⟨f l.best, l.tied⟩ := by
  induction as with
  | nil => rfl
  | cons a as ih =>
    rw [List.map_cons, leader, leader, ih]
    cases leader key as with
    | none => rfl
    | some r =>
      simp only [Option.map_some, meet, pick, h]
      split
      · rfl
      · split <;> rfl

@[simp] theorem leader_eq_none {as : List α} : leader key as = none ↔ as = [] := by
  cases as with
  | nil => simp
  | cons a as => cases h : leader key as <;> simp [leader, meet, h]

theorem leader_spec {as : List α} {l : Leader α} (h : leader key as = some l) :
    l.best ∈ as ∧ ∀ a ∈ as, key l.best ≤ key a := by
  induction as generalizing l with
  | nil => cases h
  | cons a as ih =>
    cases hrest : leader key as with
    | none =>
      obtain rfl := (leader_eq_none key).mp hrest
      cases h
      simp
    | some r =>
      obtain ⟨hmem, hle⟩ := ih hrest
      rw [leader, hrest] at h
      cases h
      refine ⟨?_, ?_⟩
      · rcases lt_trichotomy (key a) (key r.best) with hlt | heq | hgt
        · rw [pick_of_lt key hlt]; simp
        · rw [pick_of_eq key heq]; simp
        · rw [pick_of_gt key hgt]; simp [hmem]
      · intro b hb
        rw [key_pick key]
        rcases List.mem_cons.mp hb with rfl | hb
        · exact min_le_left _ _
        · exact (min_le_right _ _).trans (hle b hb)

theorem leader_of_alike {a : α} {as : List α} (h : ∀ b ∈ as, key b = key a) :
    leader key (a :: as) = some ⟨a, !as.isEmpty⟩ := by
  cases hrest : leader key as with
  | none =>
    obtain rfl := (leader_eq_none key).mp hrest
    rfl
  | some r =>
    have hmem := (leader_spec key hrest).1
    have hpick := pick_of_eq key (a := ⟨a, false⟩) (h r.best hmem).symm
    rw [leader, hrest, meet, hpick]
    cases as with
    | nil => cases hmem
    | cons b bs => rfl

/-- In a list without repetitions the leader is alone exactly when every other candidate has a
larger key. -/
theorem leader_tied_iff {as : List α} (hnodup : as.Nodup) {l : Leader α}
    (h : leader key as = some l) :
    l.tied = true ↔ ∃ a ∈ as, a ≠ l.best ∧ key a = key l.best := by
  induction as generalizing l with
  | nil => cases h
  | cons a as ih =>
    obtain ⟨hnew, hnodup⟩ := List.nodup_cons.mp hnodup
    cases hrest : leader key as with
    | none =>
      obtain rfl := (leader_eq_none key).mp hrest
      cases h
      simp
    | some r =>
      obtain ⟨hmem, hle⟩ := leader_spec key hrest
      have hne : r.best ≠ a := fun heq => hnew (heq ▸ hmem)
      rw [leader, hrest] at h
      cases h
      rcases lt_trichotomy (key a) (key r.best) with hlt | heq | hgt
      · rw [pick_of_lt key hlt]
        simp only [Bool.false_eq_true, false_iff, not_exists, not_and]
        intro b hb hba hkey
        rcases List.mem_cons.mp hb with rfl | hb
        · exact hba rfl
        · exact absurd (hle b hb) (by simpa [hkey] using hlt)
      · rw [pick_of_eq key heq]
        simp only [true_iff]
        exact ⟨r.best, List.mem_cons_of_mem _ hmem, hne, heq.symm⟩
      · rw [pick_of_gt key hgt, ih hnodup hrest]
        constructor
        · rintro ⟨b, hb, hba, hkey⟩
          exact ⟨b, List.mem_cons_of_mem _ hb, hba, hkey⟩
        · rintro ⟨b, hb, hba, hkey⟩
          rcases List.mem_cons.mp hb with rfl | hb
          · exact absurd hkey hgt.ne'
          · exact ⟨b, hb, hba, hkey⟩

end Contest
