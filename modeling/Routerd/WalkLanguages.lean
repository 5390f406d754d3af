import Mathlib

/-!
# Walks through graphs and the words they spell

A fragment is a piece of a graph with one node to enter and one to leave it. Some nodes are loud,
and the word that a walk spells is the list of the loud nodes on it. Fragments are put in a row,
set side by side between a fork and a join, made optional by an edge past them and repeatable by
an edge back; the words that are spelled follow the same construction of languages.

A fragment is quiet when no circle is free of loud nodes. All constructions keep this but the edge
back, which closes a circle without loud nodes exactly when the fragment spells the empty word.
-/

namespace Walks

open Computability

variable {V : Type*}

/-- A walk along edges, with the nodes that it comes to. -/
inductive Walk (E : V → V → Prop) : V → List V → V → Prop where
  | nil (a : V) : Walk E a [] a
  | cons {a b c : V} {xs : List V} (edge : E a b) (rest : Walk E b xs c) : Walk E a (b :: xs) c

variable {E F X : V → V → Prop} {a b c e : V} {xs ys : List V}

theorem Walk.append (h : Walk E a xs b) (h' : Walk E b ys c) : Walk E a (xs ++ ys) c := by
  induction h with
  | nil => exact h'
  | cons edge _ ih => exact .cons edge (ih h')

theorem Walk.mono (hEF : ∀ a b, E a b → F a b) (h : Walk E a xs b) : Walk F a xs b := by
  induction h with
  | nil => exact .nil _
  | cons edge _ ih => exact .cons (hEF _ _ edge) ih

theorem Walk.cases_first (h : Walk E a xs b) :
    (xs = [] ∧ a = b) ∨ ∃ c ys, xs = c :: ys ∧ E a c ∧ Walk E c ys b := by
  cases h with
  | nil => exact .inl ⟨rfl, rfl⟩
  | cons edge rest => exact .inr ⟨_, _, rfl, edge, rest⟩

theorem Walk.eq_nil_of_no_in (hb : ∀ a, ¬ E a b) (h : Walk E a xs b) : xs = [] ∧ a = b := by
  induction h with
  | nil => exact ⟨rfl, rfl⟩
  | cons edge _ ih => exact absurd ((ih hb).2 ▸ edge) (hb _)

theorem Walk.restrict {S : Set V} (hS : ∀ a ∈ S, ∀ b, E a b → F a b ∧ b ∈ S) (ha : a ∈ S)
    (h : Walk E a xs b) : Walk F a xs b ∧ b ∈ S := by
  induction h with
  | nil => exact ⟨.nil _, ha⟩
  | cons edge _ ih =>
    obtain ⟨hedge, hb⟩ := hS _ ha _ edge
    exact ⟨.cons hedge (ih hb).1, (ih hb).2⟩

/-- A walk with additional edges, all from one node, is cut where the first of them is taken. -/
theorem Walk.first_extra (hX : ∀ a b, X a b → a = e) (h : Walk (fun a b => E a b ∨ X a b) a xs b) :
    Walk E a xs b ∨ ∃ ys c zs, xs = ys ++ c :: zs ∧ Walk E a ys e ∧ X e c ∧
      Walk (fun a b => E a b ∨ X a b) c zs b := by
  induction h with
  | nil => exact .inl (.nil _)
  | @cons a b c xs edge rest ih =>
    rcases edge with edge | edge
    · rcases ih with ih | ⟨ys, d, zs, rfl, hys, hd, hzs⟩
      · exact .inl (.cons edge ih)
      · exact .inr ⟨b :: ys, d, zs, rfl, .cons edge hys, hd, hzs⟩
    · cases hX _ _ edge
      exact .inr ⟨[], b, xs, rfl, .nil _, edge, rest⟩

/-! ### Fragments -/

structure Fragment (V : Type*) where
  nodes : Set V
  edge : V → V → Prop
  first : V
  last : V
  first_mem : first ∈ nodes
  last_mem : last ∈ nodes
  confined : ∀ {a b : V}, edge a b → a ∈ nodes ∧ b ∈ nodes

namespace Fragment

def single (v : V) : Fragment V where
  nodes := {v}
  edge _ _ := False
  first := v
  last := v
  first_mem := rfl
  last_mem := rfl
  confined := False.elim

def seq (f g : Fragment V) : Fragment V where
  nodes := f.nodes ∪ g.nodes
  edge a b := (f.edge a b ∨ g.edge a b) ∨ (a = f.last ∧ b = g.first)
  first := f.first
  last := g.last
  first_mem := .inl f.first_mem
  last_mem := .inr g.last_mem
  confined := by
    rintro a b ((h | h) | ⟨rfl, rfl⟩)
    · exact ⟨.inl (f.confined h).1, .inl (f.confined h).2⟩
    · exact ⟨.inr (g.confined h).1, .inr (g.confined h).2⟩
    · exact ⟨.inl f.last_mem, .inr g.first_mem⟩

/-- A fragment between a fork and a join. -/
def enclose (fork join : V) (f : Fragment V) : Fragment V where
  nodes := f.nodes ∪ {fork, join}
  edge a b := f.edge a b ∨ (a = fork ∧ b = f.first) ∨ (a = f.last ∧ b = join)
  first := fork
  last := join
  first_mem := by simp
  last_mem := by simp
  confined := by
    rintro a b (h | ⟨rfl, rfl⟩ | ⟨rfl, rfl⟩)
    · exact ⟨.inl (f.confined h).1, .inl (f.confined h).2⟩
    · exact ⟨by simp, .inl f.first_mem⟩
    · exact ⟨.inl f.last_mem, by simp⟩

/-- One more fragment between the first and the last node. -/
def branch (f g : Fragment V) : Fragment V where
  nodes := f.nodes ∪ g.nodes
  edge a b := (f.edge a b ∨ g.edge a b) ∨ (a = f.first ∧ b = g.first) ∨ (a = g.last ∧ b = f.last)
  first := f.first
  last := f.last
  first_mem := .inl f.first_mem
  last_mem := .inl f.last_mem
  confined := by
    rintro a b ((h | h) | ⟨rfl, rfl⟩ | ⟨rfl, rfl⟩)
    · exact ⟨.inl (f.confined h).1, .inl (f.confined h).2⟩
    · exact ⟨.inr (g.confined h).1, .inr (g.confined h).2⟩
    · exact ⟨.inl f.first_mem, .inr g.first_mem⟩
    · exact ⟨.inr g.last_mem, .inl f.last_mem⟩

def skip (f : Fragment V) : Fragment V where
  nodes := f.nodes
  edge a b := f.edge a b ∨ (a = f.first ∧ b = f.last)
  first := f.first
  last := f.last
  first_mem := f.first_mem
  last_mem := f.last_mem
  confined := by
    rintro a b (h | ⟨rfl, rfl⟩)
    · exact f.confined h
    · exact ⟨f.first_mem, f.last_mem⟩

def again (f : Fragment V) : Fragment V where
  nodes := f.nodes
  edge a b := f.edge a b ∨ (a = f.last ∧ b = f.first)
  first := f.first
  last := f.last
  first_mem := f.first_mem
  last_mem := f.last_mem
  confined := by
    rintro a b (h | ⟨rfl, rfl⟩)
    · exact f.confined h
    · exact ⟨f.last_mem, f.first_mem⟩

/-- Nothing leads back to the beginning, and nothing on from the end. -/
structure Open (f : Fragment V) : Prop where
  no_in : ∀ a, ¬ f.edge a f.first
  no_out : ∀ b, ¬ f.edge f.last b

theorem open_enclose {fork join : V} {f : Fragment V} (hfork : fork ∉ f.nodes)
    (hjoin : join ∉ f.nodes) (hne : fork ≠ join) : (enclose fork join f).Open where
  no_in := by
    rintro a (h | ⟨-, h⟩ | ⟨-, h⟩)
    · exact hfork (f.confined h).2
    · exact hfork ((show fork = f.first from h) ▸ f.first_mem)
    · exact hne h
  no_out := by
    rintro b (h | ⟨h, -⟩ | ⟨h, -⟩)
    · exact hjoin (f.confined h).1
    · exact hne h.symm
    · exact hjoin ((show join = f.last from h) ▸ f.last_mem)

theorem Open.branch {f g : Fragment V} (hf : f.Open) (hdisjoint : Disjoint f.nodes g.nodes)
    (hne : f.first ≠ f.last) : (branch f g).Open where
  no_in := by
    rintro a ((h | h) | ⟨-, h⟩ | ⟨-, h⟩)
    · exact hf.no_in a h
    · exact Set.disjoint_left.mp hdisjoint f.first_mem (g.confined h).2
    · exact Set.disjoint_left.mp hdisjoint f.first_mem (h ▸ g.first_mem)
    · exact hne h
  no_out := by
    rintro b ((h | h) | ⟨h, -⟩ | ⟨h, -⟩)
    · exact hf.no_out b h
    · exact Set.disjoint_left.mp hdisjoint f.last_mem (g.confined h).1
    · exact hne h.symm
    · exact Set.disjoint_left.mp hdisjoint f.last_mem (h ▸ g.last_mem)

/-! ### The words that are spelled -/

variable (loud : V → Bool)

/-- The loud nodes on the walks from the beginning to the end. -/
def lang (f : Fragment V) : Language V :=
  {w | ∃ xs, Walk f.edge f.first xs f.last ∧ w = (f.first :: xs).filter loud}

theorem mem_lang {f : Fragment V} {w : List V} :
    w ∈ f.lang loud ↔ ∃ xs, Walk f.edge f.first xs f.last ∧ w = (f.first :: xs).filter loud :=
  Iff.rfl

theorem walk_confined {f : Fragment V} (h : Walk f.edge a xs b) : ∀ x ∈ xs, x ∈ f.nodes := by
  induction h with
  | nil => simp
  | cons edge _ ih => exact List.forall_mem_cons.mpr ⟨(f.confined edge).2, ih⟩

theorem mem_of_mem_lang {f : Fragment V} {w : List V} (hw : w ∈ f.lang loud) {x : V} (hx : x ∈ w) :
    x ∈ f.nodes ∧ loud x = true := by
  obtain ⟨xs, hwalk, rfl⟩ := hw
  obtain ⟨hmem, hloud⟩ := List.mem_filter.mp hx
  rcases List.mem_cons.mp hmem with rfl | hmem
  · exact ⟨f.first_mem, hloud⟩
  · exact ⟨walk_confined hwalk x hmem, hloud⟩

theorem lang_single {v : V} (hv : loud v = true) : (single v).lang loud = {[v]} := by
  ext w
  rw [mem_lang]
  constructor
  · rintro ⟨xs, hwalk, rfl⟩
    obtain ⟨rfl, -⟩ | ⟨c, ys, -, edge, -⟩ := hwalk.cases_first
    · rw [single, List.filter_cons_of_pos hv]
      rfl
    · exact edge.elim
  · rintro rfl
    exact ⟨[], .nil _, by simp [single, hv]⟩

theorem walk_left {f g : Fragment V} (hdisjoint : Disjoint f.nodes g.nodes) (ha : a ∈ f.nodes)
    (h : Walk (fun a b => f.edge a b ∨ g.edge a b) a xs b) : Walk f.edge a xs b ∧ b ∈ f.nodes := by
  refine h.restrict ?_ ha
  rintro a ha b (h | h)
  · exact ⟨h, (f.confined h).2⟩
  · exact absurd (g.confined h).1 (Set.disjoint_left.mp hdisjoint ha)

theorem lang_seq {f g : Fragment V} (hdisjoint : Disjoint f.nodes g.nodes) :
    (seq f g).lang loud = f.lang loud * g.lang loud := by
  ext w
  rw [Language.mem_mul]
  constructor
  · rintro ⟨xs, hwalk, rfl⟩
    rcases hwalk.first_extra (fun _ _ h => h.1) with h | ⟨ys, c, zs, rfl, hys, ⟨-, rfl⟩, hzs⟩
    · exact absurd g.last_mem (Set.disjoint_left.mp hdisjoint (walk_left hdisjoint f.first_mem h).2)
    · have hzs : Walk g.edge g.first zs g.last := by
        refine (hzs.restrict (S := g.nodes) ?_ g.first_mem).1
        rintro a ha b ((h | h) | ⟨rfl, -⟩)
        · exact absurd ha (Set.disjoint_left.mp hdisjoint (f.confined h).1)
        · exact ⟨h, (g.confined h).2⟩
        · exact absurd ha (Set.disjoint_left.mp hdisjoint f.last_mem)
      exact ⟨_, ⟨ys, (walk_left hdisjoint f.first_mem hys).1, rfl⟩, _, ⟨zs, hzs, rfl⟩,
        by simp [seq, ← List.filter_append]⟩
  · rintro ⟨_, ⟨ys, hys, rfl⟩, _, ⟨zs, hzs, rfl⟩, rfl⟩
    refine ⟨ys ++ g.first :: zs, ?_, by simp [seq, ← List.filter_append]⟩
    exact (hys.mono fun _ _ h => .inl (.inl h)).append
      (.cons (.inr ⟨rfl, rfl⟩) (hzs.mono fun _ _ h => .inl (.inr h)))

theorem walk_to_sink {f : Fragment V} {stop : V} (hstop : ∀ b, ¬ E stop b) (hmem : stop ∉ f.nodes)
    (hE : ∀ a ∈ f.nodes, ∀ b, E a b → f.edge a b ∨ (a = f.last ∧ b = stop)) (ha : a ∈ f.nodes)
    (h : Walk E a xs stop) : ∃ ys, xs = ys ++ [stop] ∧ Walk f.edge a ys f.last := by
  induction h with
  | nil => exact absurd ha hmem
  | cons edge rest ih =>
    rcases hE _ ha _ edge with h | ⟨rfl, rfl⟩
    · obtain ⟨ys, rfl, hys⟩ := ih hstop hmem hE (f.confined h).2
      exact ⟨_ :: ys, rfl, .cons h hys⟩
    · cases rest with
      | nil => exact ⟨[], rfl, .nil _⟩
      | cons edge => exact absurd edge (hstop _)

theorem lang_enclose {fork join : V} {f : Fragment V} (hfork : fork ∉ f.nodes)
    (hjoin : join ∉ f.nodes) (hne : fork ≠ join) (hfs : loud fork = false)
    (hjs : loud join = false) : (enclose fork join f).lang loud = f.lang loud := by
  have hopen := open_enclose hfork hjoin hne
  ext w
  constructor
  · rintro ⟨xs, hwalk, rfl⟩
    obtain ⟨-, h⟩ | ⟨c, xs, rfl, edge, rest⟩ := hwalk.cases_first
    · exact absurd h hne
    · obtain h | ⟨-, rfl⟩ | ⟨h, -⟩ := edge
      · exact absurd (f.confined h).1 hfork
      · obtain ⟨ys, rfl, hys⟩ := walk_to_sink (f := f) hopen.no_out hjoin (by
          rintro a ha b (h | ⟨rfl, -⟩ | h)
          · exact .inl h
          · exact absurd ha hfork
          · exact .inr h) f.first_mem rest
        exact ⟨ys, hys, by simp [enclose, hfs, hjs, List.filter_cons]⟩
      · exact absurd ((show fork = f.last from h) ▸ f.last_mem) hfork
  · rintro ⟨xs, hwalk, rfl⟩
    refine ⟨f.first :: (xs ++ [join]), .cons (.inr (.inl ⟨rfl, rfl⟩)) ?_, by
      simp [enclose, hfs, hjs, List.filter_cons]⟩
    exact (hwalk.mono fun _ _ h => .inl h).append (.cons (.inr (.inr ⟨rfl, rfl⟩)) (.nil _))

theorem lang_branch {f g : Fragment V} (hf : f.Open) (hdisjoint : Disjoint f.nodes g.nodes)
    (hne : f.first ≠ f.last) (hfs : loud f.first = false) (hls : loud f.last = false) :
    (branch f g).lang loud = f.lang loud + g.lang loud := by
  have hopen := hf.branch hdisjoint hne
  have hleft : ∀ {a : V}, a ∈ f.nodes → a ∉ g.nodes := fun ha => Set.disjoint_left.mp hdisjoint ha
  ext w
  rw [Language.mem_add]
  constructor
  · rintro ⟨xs, hwalk, rfl⟩
    obtain ⟨-, h⟩ | ⟨c, xs, rfl, edge, rest⟩ := hwalk.cases_first
    · exact absurd h hne
    · obtain (h | h) | ⟨-, rfl⟩ | ⟨h, -⟩ := edge
      · -- the first edge is one of the old ones, and then nothing leads back to the beginning
        left
        have hrest := rest.restrict (S := {a | a ∈ f.nodes ∧ a ≠ f.first}) (F := f.edge) (by
          rintro a ⟨ha, hfirst⟩ b ((h | h) | ⟨h, -⟩ | ⟨h, -⟩)
          · exact ⟨h, (f.confined h).2, fun hb => hf.no_in a (hb ▸ h)⟩
          · exact absurd (g.confined h).1 (hleft ha)
          · exact absurd h hfirst
          · exact absurd (h ▸ g.last_mem) (hleft ha))
          ⟨(f.confined h).2, fun hb => hf.no_in _ (hb ▸ h)⟩
        exact ⟨_ :: _, .cons h hrest.1, rfl⟩
      · exact absurd (g.confined h).1 (hleft f.first_mem)
      · right
        obtain ⟨ys, rfl, hys⟩ := walk_to_sink (f := g) hopen.no_out (hleft f.last_mem) (by
          rintro a ha b ((h | h) | ⟨rfl, -⟩ | h)
          · exact absurd ha (hleft (f.confined h).1)
          · exact .inl h
          · exact absurd ha (hleft f.first_mem)
          · exact .inr h) g.first_mem rest
        exact ⟨ys, hys, by simp [branch, hfs, hls, List.filter_cons]⟩
      · exact absurd (h ▸ g.last_mem) (hleft f.first_mem)
  · rintro (⟨xs, hwalk, rfl⟩ | ⟨xs, hwalk, rfl⟩)
    · exact ⟨xs, hwalk.mono fun _ _ h => .inl (.inl h), rfl⟩
    · refine ⟨g.first :: (xs ++ [f.last]), .cons (.inr (.inl ⟨rfl, rfl⟩)) ?_, by
        simp [branch, hfs, hls, List.filter_cons]⟩
      exact (hwalk.mono fun _ _ h => .inl (.inr h)).append
        (.cons (.inr (.inr ⟨rfl, rfl⟩)) (.nil _))

theorem lang_skip {f : Fragment V} (hf : f.Open) (hne : f.first ≠ f.last)
    (hfs : loud f.first = false) (hls : loud f.last = false) :
    f.skip.lang loud = f.lang loud + 1 := by
  ext w
  rw [Language.mem_add, Language.mem_one]
  constructor
  · rintro ⟨xs, hwalk, rfl⟩
    rcases hwalk.first_extra (fun _ _ h => h.1) with h | ⟨ys, c, zs, rfl, hys, ⟨-, rfl⟩, hzs⟩
    · exact .inl ⟨xs, h, rfl⟩
    · -- nothing leads to the beginning, so the edge past the fragment is the first and only one
      right
      obtain ⟨rfl, -⟩ := hys.eq_nil_of_no_in hf.no_in
      obtain ⟨rfl, -⟩ | ⟨c, zs, -, h | ⟨h, -⟩, -⟩ := hzs.cases_first
      · simp [skip, hfs, hls]
      · exact absurd h (hf.no_out c)
      · exact absurd h.symm hne
  · rintro (⟨xs, hwalk, rfl⟩ | rfl)
    · exact ⟨xs, hwalk.mono fun _ _ h => .inl h, rfl⟩
    · exact ⟨[f.last], .cons (.inr ⟨rfl, rfl⟩) (.nil _), by simp [skip, hfs, hls]⟩

theorem lang_again {f : Fragment V} : f.again.lang loud = f.lang loud * (f.lang loud)∗ := by
  ext w
  constructor
  · rintro ⟨xs, hwalk, rfl⟩
    -- the number of nodes on the walk goes down at every edge back
    induction hn : xs.length using Nat.strong_induction_on generalizing xs with
    | _ n ih =>
      rcases hwalk.first_extra (fun _ _ h => h.1) with h | ⟨ys, c, zs, rfl, hys, ⟨-, rfl⟩, hzs⟩
      · exact Language.mem_mul.mpr ⟨_, ⟨xs, h, rfl⟩, [], Language.nil_mem_kstar _, by simp [again]⟩
      · have hrest := ih zs.length (by rw [← hn]; simp; omega) zs hzs rfl
        obtain ⟨u, hu, v, hv, huv⟩ := Language.mem_mul.mp hrest
        refine Language.mem_mul.mpr ⟨_, ⟨ys, hys, rfl⟩, u ++ v, ?_, ?_⟩
        · rw [← Language.one_add_self_mul_kstar_eq_kstar]
          exact .inr (Language.append_mem_mul hu hv)
        · rw [huv]
          simp [again, ← List.filter_append]
  · intro h
    obtain ⟨u, ⟨ys, hys, rfl⟩, v, hv, rfl⟩ := Language.mem_mul.mp h
    obtain ⟨S, rfl, hS⟩ := Language.mem_kstar.mp hv
    clear h hv
    induction S generalizing ys with
    | nil => exact ⟨ys, hys.mono fun _ _ h => .inl h, by simp [again]⟩
    | cons w S ih =>
      obtain ⟨⟨zs, hzs, rfl⟩, hS'⟩ := List.forall_mem_cons.mp hS
      obtain ⟨rest, hrest, heq⟩ := ih zs hzs hS'
      refine ⟨ys ++ f.first :: rest, ?_, ?_⟩
      · exact (hys.mono fun _ _ h => .inl h).append (.cons (.inr ⟨rfl, rfl⟩) hrest)
      · rw [List.flatten_cons, heq]
        simp [again, ← List.filter_append]

/-! ### Circles without loud nodes -/

/-- An edge to a node that is not loud. -/
def quietEdge (f : Fragment V) (a b : V) : Prop := f.edge a b ∧ loud b = false

def Quiet (f : Fragment V) : Prop := ∀ x, ¬ Relation.TransGen (f.quietEdge loud) x x

theorem transGen_le_level {level : V → ℕ} (hle : ∀ a b, E a b → level a ≤ level b)
    (h : Relation.TransGen E a b) : level a ≤ level b := by
  induction h with
  | single h => exact hle _ _ h
  | tail _ h ih => exact ih.trans (hle _ _ h)

/-- Where no edge leads to a lower level, a circle stays on one level. -/
theorem acyclic_of_level (level : V → ℕ) (hle : ∀ a b, E a b → level a ≤ level b)
    (h : ∀ x, ¬ Relation.TransGen (fun a b => E a b ∧ level a = level x ∧ level b = level x) x x) :
    ∀ x, ¬ Relation.TransGen E x x := by
  intro x hx
  have hstay : ∀ b, Relation.TransGen E x b → Relation.ReflTransGen E b x →
      Relation.TransGen (fun a b => E a b ∧ level a = level x ∧ level b = level x) x b := by
    intro b hxb
    induction hxb with
    | @single b hedge =>
      intro hbx
      have hlevel : level b ≤ level x := by
        rcases Relation.reflTransGen_iff_eq_or_transGen.mp hbx with rfl | hbx
        · exact le_rfl
        · exact transGen_le_level hle hbx
      exact .single ⟨hedge, rfl, le_antisymm hlevel (hle _ _ hedge)⟩
    | @tail c b hxc hedge ih =>
      intro hbx
      have hc : level x ≤ level c := transGen_le_level hle hxc
      have hlevel : level b ≤ level x := by
        rcases Relation.reflTransGen_iff_eq_or_transGen.mp hbx with rfl | hbx
        · exact le_rfl
        · exact transGen_le_level hle hbx
      have hcb := hle _ _ hedge
      exact (ih (.head hedge hbx)).tail ⟨hedge, by omega, by omega⟩
  exact h x (hstay x hx .refl)

theorem quiet_mono {f g : Fragment V} (hfg : ∀ a b, f.edge a b → g.edge a b) (hg : g.Quiet loud) :
    f.Quiet loud :=
  fun x hx => hg x (Relation.TransGen.mono (fun a b h => ⟨hfg a b h.1, h.2⟩) x x hx)

theorem quiet_single (v : V) : (single v).Quiet loud := by
  intro x hx
  obtain ⟨b, -, h, -⟩ := Relation.TransGen.tail'_iff.mp hx
  exact h

open Classical in
theorem quiet_seq {f g : Fragment V} (hdisjoint : Disjoint f.nodes g.nodes) :
    (seq f g).Quiet loud ↔ f.Quiet loud ∧ g.Quiet loud := by
  constructor
  · intro h
    exact ⟨quiet_mono loud (fun a b h' => Or.inl (.inl h')) h,
      quiet_mono loud (fun a b h' => Or.inl (.inr h')) h⟩
  · rintro ⟨hf, hg⟩
    have hg' : ∀ {a : V}, a ∈ g.nodes → a ∉ f.nodes := fun ha =>
      Set.disjoint_right.mp hdisjoint ha
    refine acyclic_of_level (fun v => if v ∈ f.nodes then 0 else 1) ?_ ?_
    · rintro a b ⟨(h | h) | ⟨rfl, rfl⟩, -⟩
      · simp [f.confined h]
      · simp [hg' (g.confined h).1, hg' (g.confined h).2]
      · simp [f.last_mem]
    · intro x hx
      by_cases hxf : x ∈ f.nodes
      · refine hf x (Relation.TransGen.mono ?_ x x hx)
        rintro a b ⟨⟨(h | h) | ⟨rfl, rfl⟩, hb⟩, hla, hlb⟩
        · exact ⟨h, hb⟩
        · simp [hxf, hg' (g.confined h).1] at hla
        · simp [hxf, hg' g.first_mem] at hlb
      · refine hg x (Relation.TransGen.mono ?_ x x hx)
        rintro a b ⟨⟨(h | h) | ⟨rfl, rfl⟩, hb⟩, hla, hlb⟩
        · simp [hxf, (f.confined h).1] at hla
        · exact ⟨h, hb⟩
        · simp [hxf, f.last_mem] at hla

open Classical in
theorem quiet_enclose {fork join : V} {f : Fragment V} (hfork : fork ∉ f.nodes)
    (hjoin : join ∉ f.nodes) (hne : fork ≠ join) :
    (enclose fork join f).Quiet loud ↔ f.Quiet loud := by
  constructor
  · exact quiet_mono loud fun a b h => Or.inl h
  · intro hf
    have hf₁ : ∀ {a : V}, a ∈ f.nodes → a ≠ fork ∧ a ≠ join := fun ha =>
      ⟨fun h => hfork (h ▸ ha), fun h => hjoin (h ▸ ha)⟩
    refine acyclic_of_level (fun v => if v = fork then 0 else if v = join then 2 else 1)
      ?_ ?_
    · rintro a b ⟨h | ⟨rfl, rfl⟩ | ⟨rfl, rfl⟩, -⟩
      · simp [hf₁ (f.confined h).1, hf₁ (f.confined h).2]
      · simp
      · simp [hf₁ f.last_mem, hne.symm]
    · intro x hx
      refine hf x (Relation.TransGen.mono ?_ x x hx)
      rintro a b ⟨⟨h | ⟨rfl, rfl⟩ | ⟨rfl, rfl⟩, hb⟩, hla, hlb⟩
      · exact ⟨h, hb⟩
      · simp [hf₁ f.first_mem, ← hla] at hlb
      · simp [hf₁ f.last_mem, hne.symm, ← hla] at hlb

open Classical in
theorem quiet_branch {f g : Fragment V} (hf : f.Open) (hdisjoint : Disjoint f.nodes g.nodes)
    (hne : f.first ≠ f.last) :
    (branch f g).Quiet loud ↔ f.Quiet loud ∧ g.Quiet loud := by
  constructor
  · intro h
    exact ⟨quiet_mono loud (fun a b h' => Or.inl (.inl h')) h,
      quiet_mono loud (fun a b h' => Or.inl (.inr h')) h⟩
  · rintro ⟨hqf, hqg⟩
    have hf₁ : ∀ {a : V}, a ∈ f.nodes → a ∉ g.nodes := fun ha => Set.disjoint_left.mp hdisjoint ha
    have hg₁ : ∀ {a : V}, a ∈ g.nodes → a ≠ f.last := fun ha h => hf₁ f.last_mem (h ▸ ha)
    have hout : ∀ {a b : V}, f.edge a b → a ≠ f.last := fun h ha => hf.no_out _ (ha ▸ h)
    refine acyclic_of_level
      (fun v => if v = f.last then 2 else if v ∈ g.nodes then 1 else 0) ?_ ?_
    · rintro a b ⟨(h | h) | ⟨rfl, rfl⟩ | ⟨rfl, rfl⟩, -⟩
      · simp [hout h, hf₁ (f.confined h).1]
      · simp [hg₁ (g.confined h).1, hg₁ (g.confined h).2, g.confined h]
      · simp [hne, hf₁ f.first_mem]
      · simp [hg₁ g.last_mem, g.last_mem]
    · intro x hx
      by_cases hxg : x ∈ g.nodes
      · refine hqg x (Relation.TransGen.mono ?_ x x hx)
        rintro a b ⟨⟨(h | h) | ⟨rfl, rfl⟩ | ⟨rfl, rfl⟩, hb⟩, hla, hlb⟩
        · simp [hxg, hg₁ hxg, hout h, hf₁ (f.confined h).1] at hla
        · exact ⟨h, hb⟩
        · simp [hxg, hg₁ hxg, hne, hf₁ f.first_mem] at hla
        · simp [hxg, hg₁ hxg] at hlb
      · refine hqf x (Relation.TransGen.mono ?_ x x hx)
        rintro a b ⟨⟨(h | h) | ⟨rfl, rfl⟩ | ⟨rfl, rfl⟩, hb⟩, hla, hlb⟩
        · exact ⟨h, hb⟩
        · simp only [hg₁ (g.confined h).1, (g.confined h).1, if_true, if_false, hxg] at hla
          split at hla <;> omega
        · simp only [hg₁ g.first_mem, g.first_mem, if_true, if_false, hxg] at hlb
          split at hlb <;> omega
        · simp only [hg₁ g.last_mem, g.last_mem, if_true, if_false, hxg] at hla
          split at hla <;> omega

open Classical in
theorem quiet_skip {f : Fragment V} (hf : f.Open) (hne : f.first ≠ f.last) :
    f.skip.Quiet loud ↔ f.Quiet loud := by
  constructor
  · exact quiet_mono loud fun a b h => Or.inl h
  · intro hq
    have hout : ∀ {a b : V}, f.edge a b → a ≠ f.last := fun h ha => hf.no_out _ (ha ▸ h)
    have hin : ∀ {a b : V}, f.edge a b → b ≠ f.first := fun h hb => hf.no_in _ (hb ▸ h)
    refine acyclic_of_level
      (fun v => if v = f.first then 0 else if v = f.last then 2 else 1) ?_ ?_
    · rintro a b ⟨h | ⟨rfl, rfl⟩, -⟩
      · by_cases ha : a = f.first <;> by_cases hb : b = f.last <;>
          simp [ha, hb, hout h, hin h, hne.symm]
      · simp
    · intro x hx
      refine hq x (Relation.TransGen.mono ?_ x x hx)
      rintro a b ⟨⟨h | ⟨rfl, rfl⟩, hb⟩, hla, hlb⟩
      · exact ⟨h, hb⟩
      · simp [hne.symm, ← hla] at hlb

theorem nil_mem_lang {f : Fragment V} : [] ∈ f.lang loud ↔
    loud f.first = false ∧ Relation.ReflTransGen (f.quietEdge loud) f.first f.last := by
  have hwalk : ∀ {a b : V}, (∃ xs, Walk f.edge a xs b ∧ ∀ x ∈ xs, loud x = false) ↔
      Relation.ReflTransGen (f.quietEdge loud) a b := by
    intro a b
    constructor
    · rintro ⟨xs, hwalk, hxs⟩
      induction hwalk with
      | nil => exact .refl
      | cons edge _ ih =>
        obtain ⟨hb, hxs⟩ := List.forall_mem_cons.mp hxs
        exact .head ⟨edge, hb⟩ (ih hxs)
    · intro h
      induction h using Relation.ReflTransGen.head_induction_on with
      | refl => exact ⟨[], .nil _, by simp⟩
      | head h _ ih =>
        obtain ⟨xs, hwalk, hxs⟩ := ih
        exact ⟨_ :: xs, .cons h.1 hwalk, List.forall_mem_cons.mpr ⟨h.2, hxs⟩⟩
  rw [mem_lang, ← hwalk]
  constructor
  · rintro ⟨xs, h, hnil⟩
    simp only [eq_comm (a := ([] : List V)), List.filter_eq_nil_iff, List.mem_cons,
      forall_eq_or_imp, Bool.not_eq_true] at hnil
    exact ⟨hnil.1, xs, h, hnil.2⟩
  · rintro ⟨hfirst, xs, h, hxs⟩
    refine ⟨xs, h, ?_⟩
    rw [eq_comm, List.filter_eq_nil_iff]
    simpa [hfirst] using hxs

theorem transGen_extra (hX : ∀ a b, X a b → a = e ∧ b = c)
    (h : Relation.TransGen (fun a b => E a b ∨ X a b) a b) :
    Relation.TransGen E a b ∨ (Relation.ReflTransGen E a e ∧ Relation.ReflTransGen E c b) := by
  induction h with
  | single h =>
    rcases h with h | h
    · exact .inl (.single h)
    · obtain ⟨rfl, rfl⟩ := hX _ _ h
      exact .inr ⟨.refl, .refl⟩
  | tail _ h ih =>
    rcases h with h | h
    · rcases ih with ih | ⟨ih, ih'⟩
      · exact .inl (ih.tail h)
      · exact .inr ⟨ih, ih'.tail h⟩
    · obtain ⟨rfl, rfl⟩ := hX _ _ h
      rcases ih with ih | ⟨ih, -⟩
      · exact .inr ⟨ih.to_reflTransGen, .refl⟩
      · exact .inr ⟨ih, .refl⟩

/-- The edge back closes a circle without loud nodes exactly when the empty word is spelled. -/
theorem quiet_again {f : Fragment V} (hfs : loud f.first = false) :
    f.again.Quiet loud ↔ f.Quiet loud ∧ [] ∉ f.lang loud := by
  constructor
  · intro h
    refine ⟨quiet_mono loud (fun a b h' => Or.inl h') h, fun hnil => ?_⟩
    have hback : f.again.quietEdge loud f.last f.first := ⟨.inr ⟨rfl, rfl⟩, hfs⟩
    refine h f.last (.head' hback ?_)
    exact Relation.ReflTransGen.mono (fun a b h => ⟨Or.inl h.1, h.2⟩) _ _
      ((nil_mem_lang loud).mp hnil).2
  · rintro ⟨hf, hnil⟩ x hx
    have hx : Relation.TransGen (fun a b => f.quietEdge loud a b ∨ (a = f.last ∧ b = f.first)) x x :=
      Relation.TransGen.mono (fun a b h => h.1.imp (fun h' => ⟨h', h.2⟩) id) x x hx
    rcases transGen_extra (fun _ _ h => h) hx with hx | ⟨hlast, hfirst⟩
    · exact hf x hx
    · exact hnil ((nil_mem_lang loud).mpr ⟨hfs, hfirst.trans hlast⟩)

end Fragment
end Walks
