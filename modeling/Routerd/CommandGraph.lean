import Mathlib.Logic.Relation
import Mathlib.Data.List.Nodup
import Mathlib.Data.List.Range
import Routerd.CommandTokens

/-!
# Command graphs

The commands of a node are kept in a graph whose nodes are the tokens. Forks and joins take no
word: `add_nexthops` walks through them to the tokens that can come next, and it calls itself
for each of them. It comes back exactly when no chain of such nodes leads round in a circle.
-/

namespace Routerd.CommandMatch
open NumeralText

/-- What a node of a graph points to: a token, or behind the end of a command its element. -/
inductive NodeData (ε : Type) where
  | token (token : CmdToken)
  | element (element : ε)

/-- The nodes by their numbers, in the order in which they were made, with the vectors of the
nodes that each has edges to and from. -/
structure Graph (ε : Type) where
  size : ℕ
  data : ℕ → Option (NodeData ε)
  toNodes : ℕ → List ℕ
  fromNodes : ℕ → List ℕ

/-- `type >= SPECIAL_TKN && type != END_TKN`: the token takes no word of the line. -/
def CmdToken.transparent (token : CmdToken) : Bool :=
  token.type.isSpecial && token.type ≠ .endTkn

namespace Graph
variable {ε : Type}

def empty : Graph ε where
  size := 0
  data _ := none
  toNodes _ := []
  fromNodes _ := []

def token (g : Graph ε) (node : ℕ) : Option CmdToken :=
  match g.data node with
  | some (.token token) => some token
  | _ => none

def element (g : Graph ε) (node : ℕ) : Option ε :=
  match g.data node with
  | some (.element element) => some element
  | _ => none

def graphNewNode (g : Graph ε) (data : NodeData ε) : Graph ε where
  size := g.size + 1
  data := Function.update g.data g.size (some data)
  toNodes := Function.update g.toNodes g.size []
  fromNodes := Function.update g.fromNodes g.size []

def graphAddEdge (g : Graph ε) (source target : ℕ) : Graph ε :=
  { g with
    toNodes := Function.update g.toNodes source (g.toNodes source ++ [target])
    fromNodes := Function.update g.fromNodes target (g.fromNodes target ++ [source]) }

@[simp] theorem token_graphNewNode (g : Graph ε) (token : CmdToken) (i : ℕ) :
    (g.graphNewNode (.token token)).token i = if i = g.size then some token else g.token i := by
  unfold Graph.token graphNewNode
  by_cases h : i = g.size <;> simp [h]

@[simp] theorem toNodes_graphAddEdge (g : Graph ε) (a b i : ℕ) :
    (g.graphAddEdge a b).toNodes i = if i = a then g.toNodes a ++ [b] else g.toNodes i := by
  simp [graphAddEdge, Function.update_apply]

@[simp] theorem data_graphAddEdge (g : Graph ε) (a b : ℕ) :
    (g.graphAddEdge a b).data = g.data := rfl

@[simp] theorem token_graphAddEdge (g : Graph ε) (a b : ℕ) :
    (g.graphAddEdge a b).token = g.token := rfl

@[simp] theorem element_graphAddEdge (g : Graph ε) (a b : ℕ) :
    (g.graphAddEdge a b).element = g.element := rfl

/-! ### The tokens that come next -/

def eachChild {α : Type} (f : ℕ → Option (List α)) : List ℕ → Option (List α)
  | [] => some []
  | child :: children => do
    let added ← f child
    let others ← eachChild f children
    pure (added ++ others)

/-- The tokens that can follow a node, where the recursion may go as deep as given. The null stack
is the empty one: with either no child is left out. -/
def addNexthops (g : Graph ε) (stack : List ℕ) : ℕ → ℕ → Option (List ℕ)
  | 0, _ => none
  | depth + 1, node =>
    eachChild (fun child => do
      let token ← g.token child
      if token.allowrepeat = false ∧ child ∈ stack then pure []
      else if token.transparent then addNexthops g stack depth child
      else pure [child]) (g.toNodes node)

/-- What one child contributes to the walk below, given the walk from the nodes below it. -/
def childWays (g : Graph ε) (stack : List ℕ) (go : ℕ → Option (List (List ℕ × ℕ))) (child : ℕ) :
    Option (List (List ℕ × ℕ)) := do
  let token ← g.token child
  if token.allowrepeat = false ∧ child ∈ stack then pure []
  else if token.transparent then (go child).map (List.map fun way => (child :: way.1, way.2))
  else pure [([], child)]

/-- The same walk, with the nodes that were passed on the way to each token. -/
def ways (g : Graph ε) (stack : List ℕ) : ℕ → ℕ → Option (List (List ℕ × ℕ))
  | 0, _ => none
  | depth + 1, node => eachChild (g.childWays stack (g.ways stack depth)) (g.toNodes node)

/-- The token may be taken again, or is not on the stack. -/
def Free (stack : List ℕ) (token : CmdToken) (node : ℕ) : Prop :=
  token.allowrepeat = true ∨ node ∉ stack

/-- From the node through the nodes of `via` to the next token, none of them on the stack. -/
inductive Way (g : Graph ε) (stack : List ℕ) : ℕ → List ℕ → ℕ → Prop where
  | stop {node child : ℕ} {token : CmdToken} (edge : child ∈ g.toNodes node)
      (read : g.token child = some token) (free : Free stack token child)
      (loud : token.transparent = false) : Way g stack node [] child
  | pass {node child last : ℕ} {via : List ℕ} {token : CmdToken} (edge : child ∈ g.toNodes node)
      (read : g.token child = some token) (free : Free stack token child)
      (silent : token.transparent = true) (rest : Way g stack child via last) :
      Way g stack node (child :: via) last

def Silent (g : Graph ε) (node child : ℕ) : Prop :=
  child ∈ g.toNodes node ∧ ∃ token, g.token child = some token ∧ token.transparent = true

theorem eachChild_map {α β : Type} (f : ℕ → Option (List α)) (h : α → β) (children : List ℕ) :
    (eachChild f children).map (List.map h) =
      eachChild (fun child => (f child).map (List.map h)) children := by
  induction children with
  | nil => rfl
  | cons child children ih =>
    simp only [eachChild]
    rw [← ih]
    cases f child <;> cases eachChild f children <;> simp

theorem eachChild_eq_some {α : Type} {f : ℕ → Option (List α)} {child : ℕ} {children : List ℕ}
    {all : List α} : eachChild f (child :: children) = some all ↔
      ∃ added others, f child = some added ∧ eachChild f children = some others ∧
        all = added ++ others := by
  simp only [eachChild]
  cases f child <;> cases eachChild f children <;> simp [eq_comm]

theorem mem_of_eachChild {α : Type} {f : ℕ → Option (List α)} {children : List ℕ} {all : List α}
    (h : eachChild f children = some all) {a : α} :
    a ∈ all ↔ ∃ child ∈ children, ∃ added, f child = some added ∧ a ∈ added := by
  induction children generalizing all with
  | nil =>
    cases h
    simp
  | cons child children ih =>
    obtain ⟨added, others, hadded, hothers, rfl⟩ := eachChild_eq_some.mp h
    simp [ih hothers, hadded]

theorem eachChild_isSome {α : Type} {f : ℕ → Option (List α)} {children : List ℕ} :
    (eachChild f children).isSome ↔ ∀ child ∈ children, (f child).isSome := by
  induction children with
  | nil => simp [eachChild]
  | cons child children ih =>
    rw [List.forall_mem_cons, ← ih, eachChild]
    cases f child <;> cases eachChild f children <;> simp

theorem not_free {stack : List ℕ} {token : CmdToken} {node : ℕ} :
    ¬ Free stack token node ↔ token.allowrepeat = false ∧ node ∈ stack := by
  simp [Free]

theorem childWays_eq_some {g : Graph ε} {stack : List ℕ} {go : ℕ → Option (List (List ℕ × ℕ))}
    {child : ℕ} {added : List (List ℕ × ℕ)} :
    g.childWays stack go child = some added ↔ ∃ token, g.token child = some token ∧
      ((¬ Free stack token child ∧ added = []) ∨
        (Free stack token child ∧ token.transparent = true ∧ ∃ rest, go child = some rest ∧
          added = rest.map fun way => (child :: way.1, way.2)) ∨
        (Free stack token child ∧ token.transparent = false ∧ added = [([], child)])) := by
  unfold childWays
  cases g.token child with
  | none => simp
  | some token =>
    by_cases hfree : Free stack token child
    · have hstack : ¬ (token.allowrepeat = false ∧ child ∈ stack) := by
        rwa [← not_free, not_not]
      cases hsilent : token.transparent <;> cases hgo : go child <;>
        simp [hfree, hstack, hsilent] <;> exact eq_comm
    · simp [hfree, not_free.mp hfree]

theorem addNexthops_eq_ways (g : Graph ε) (stack : List ℕ) (depth node : ℕ) :
    g.addNexthops stack depth node = (g.ways stack depth node).map (List.map Prod.snd) := by
  induction depth generalizing node with
  | zero => rfl
  | succ depth ih =>
    rw [addNexthops, ways, eachChild_map]
    congr 1
    funext child
    unfold childWays
    cases htoken : g.token child with
    | none => rfl
    | some token =>
      by_cases hfree : token.allowrepeat = false ∧ child ∈ stack
      · simp [hfree]
      · by_cases hsilent : token.transparent = true
        · simp [hfree, hsilent, ih child, Function.comp_def]
        · simp [hfree, hsilent]

theorem mem_ways {g : Graph ε} {stack : List ℕ} {depth node : ℕ} {found : List (List ℕ × ℕ)}
    (h : g.ways stack depth node = some found) {via : List ℕ} {last : ℕ} :
    (via, last) ∈ found ↔ g.Way stack node via last := by
  induction depth generalizing node found via with
  | zero => cases h
  | succ depth ih =>
    rw [mem_of_eachChild h]
    constructor
    · rintro ⟨child, hedge, added, hadded, hmem⟩
      obtain ⟨token, hread, ⟨-, rfl⟩ | ⟨hfree, hsilent, rest, hrest, rfl⟩ | ⟨hfree, hloud, rfl⟩⟩ :=
        childWays_eq_some.mp hadded
      · simp at hmem
      · obtain ⟨⟨via', last'⟩, hin, heq⟩ := List.mem_map.mp hmem
        cases heq
        exact .pass hedge hread hfree hsilent ((ih hrest).mp hin)
      · cases List.mem_singleton.mp hmem
        exact .stop hedge hread hfree hloud
    · intro hway
      have hsome := eachChild_isSome.mp (Option.isSome_of_eq_some h)
      cases hway with
      | stop hedge hread hfree hloud =>
        exact ⟨last, hedge, _, childWays_eq_some.mpr ⟨_, hread, .inr (.inr ⟨hfree, hloud, rfl⟩)⟩,
          List.mem_singleton.mpr rfl⟩
      | @pass _ child _ via token hedge hread hfree hsilent hrest =>
        obtain ⟨added, hadded⟩ := Option.isSome_iff_exists.mp (hsome child hedge)
        refine ⟨child, hedge, added, hadded, ?_⟩
        obtain ⟨token', hread', hcases⟩ := childWays_eq_some.mp hadded
        cases hread.symm.trans hread'
        rcases hcases with ⟨hfree', -⟩ | ⟨-, -, rest, hgo, rfl⟩ | ⟨-, hloud, -⟩
        · exact absurd hfree hfree'
        · exact List.mem_map.mpr ⟨(via, last), (ih hgo).mpr hrest, rfl⟩
        · exact absurd (hsilent.symm.trans hloud) (by simp)

def firstHop (way : List ℕ × ℕ) : ℕ := way.1.headD way.2

theorem firstHop_of_childWays {g : Graph ε} {stack : List ℕ}
    {go : ℕ → Option (List (List ℕ × ℕ))} {child : ℕ} {added : List (List ℕ × ℕ)}
    (h : g.childWays stack go child = some added) : ∀ way ∈ added, firstHop way = child := by
  intro way hway
  obtain ⟨token, -, ⟨-, rfl⟩ | ⟨-, -, rest, -, rfl⟩ | ⟨-, -, rfl⟩⟩ := childWays_eq_some.mp h
  · simp at hway
  · obtain ⟨rest, -, rfl⟩ := List.mem_map.mp hway
    rfl
  · cases List.mem_singleton.mp hway
    rfl

/-- Where no node has two edges to one node, no way is found twice. -/
theorem nodup_ways {g : Graph ε} (hto : ∀ i, (g.toNodes i).Nodup) {stack : List ℕ} {depth node : ℕ}
    {found : List (List ℕ × ℕ)} (h : g.ways stack depth node = some found) : found.Nodup := by
  induction depth generalizing node found with
  | zero => cases h
  | succ depth ih =>
    have hchild : ∀ child added, g.childWays stack (g.ways stack depth) child = some added →
        added.Nodup := by
      intro child added hadded
      obtain ⟨token, -, ⟨-, rfl⟩ | ⟨-, -, rest, hrest, rfl⟩ | ⟨-, -, rfl⟩⟩ :=
        childWays_eq_some.mp hadded
      · simp
      · refine (ih hrest).map fun a b hab => ?_
        simp only [Prod.mk.injEq, List.cons.injEq, true_and] at hab
        exact Prod.ext hab.1 hab.2
      · simp
    rw [ways] at h
    have hnodup := hto node
    revert h hnodup
    generalize g.toNodes node = children
    intro h hnodup
    induction children generalizing found with
    | nil =>
      cases h
      simp
    | cons child children ihc =>
      obtain ⟨added, others, hadded, hothers, rfl⟩ := eachChild_eq_some.mp h
      obtain ⟨hnew, hnodup⟩ := List.nodup_cons.mp hnodup
      refine List.nodup_append.mpr ⟨hchild child added hadded, ihc hothers hnodup, ?_⟩
      rintro a ha b hb rfl
      obtain ⟨other, hother, added', hadded', hb⟩ := (mem_of_eachChild hothers).mp hb
      exact hnew (firstHop_of_childWays hadded a ha ▸ firstHop_of_childWays hadded' a hb ▸ hother)

/-! ### When the recursion comes back -/

/-- Only the end of a command has an edge to what is no token, and the nodes are numbered below
the size. -/
structure Closed (g : Graph ε) : Prop where
  bounded : ∀ i, (g.token i).isSome → i < g.size
  tokens : ∀ i child, child ∈ g.toNodes i → g.token child = none →
    ∃ token, g.token i = some token ∧ token.type = .endTkn

/-- A node that a walk may start from: it is no end of a command. -/
def Open (g : Graph ε) (node : ℕ) : Prop := ∃ token, g.token node = some token ∧ token.type ≠ .endTkn

theorem Closed.read {g : Graph ε} (hg : g.Closed) {node child : ℕ} (hnode : g.Open node)
    (hedge : child ∈ g.toNodes node) : ∃ token, g.token child = some token := by
  cases hread : g.token child with
  | some token => exact ⟨token, rfl⟩
  | none =>
    obtain ⟨token, htoken, hend⟩ := hg.tokens node child hedge hread
    obtain ⟨token', htoken', hne⟩ := hnode
    cases htoken.symm.trans htoken'
    exact absurd hend hne

theorem Silent.isOpen {g : Graph ε} {node child : ℕ} (h : g.Silent node child) : g.Open child := by
  obtain ⟨-, token, hread, hsilent⟩ := h
  exact ⟨token, hread, fun hend => by simp [CmdToken.transparent, hend] at hsilent⟩

theorem ways_succ_isSome {g : Graph ε} (hg : g.Closed) {stack : List ℕ} {depth node : ℕ}
    (hnode : g.Open node)
    (h : ∀ child, g.Silent node child → (g.ways stack depth child).isSome) :
    (g.ways stack (depth + 1) node).isSome := by
  rw [ways, eachChild_isSome]
  intro child hedge
  obtain ⟨token, hread⟩ := hg.read hnode hedge
  rw [Option.isSome_iff_exists]
  by_cases hfree : Free stack token child
  · by_cases hsilent : token.transparent = true
    · obtain ⟨rest, hrest⟩ := Option.isSome_iff_exists.mp (h child ⟨hedge, token, hread, hsilent⟩)
      exact ⟨_, childWays_eq_some.mpr ⟨token, hread, .inr (.inl ⟨hfree, hsilent, rest, hrest, rfl⟩)⟩⟩
    · exact ⟨_, childWays_eq_some.mpr
        ⟨token, hread, .inr (.inr ⟨hfree, by simpa using hsilent, rfl⟩)⟩⟩
  · exact ⟨_, childWays_eq_some.mpr ⟨token, hread, .inl ⟨hfree, rfl⟩⟩⟩

/-- The nodes passed so far are distinct, so there are no more of them than nodes. -/
theorem ways_isSome_of_trail {g : Graph ε} (hg : g.Closed) {stack : List ℕ} {depth node : ℕ}
    (trail : List ℕ) (hnode : g.Open node)
    (hacyclic : ∀ x, Relation.ReflTransGen g.Silent node x → ¬ Relation.TransGen g.Silent x x)
    (hnodup : (node :: trail).Nodup) (hbound : ∀ x ∈ trail, x < g.size)
    (htrail : ∀ x ∈ trail, Relation.TransGen g.Silent x node)
    (hdepth : g.size < depth + trail.length) : (g.ways stack depth node).isSome := by
  induction depth generalizing node trail with
  | zero =>
    have hsub : trail ⊆ List.range g.size := fun x hx => List.mem_range.mpr (hbound x hx)
    have hle := (List.subperm_of_subset hnodup.of_cons hsub).length_le
    simp only [List.length_range] at hle
    omega
  | succ depth ih =>
    apply ways_succ_isSome hg hnode
    intro child hsilent
    have hreach : ∀ x ∈ node :: trail, Relation.TransGen g.Silent x child := by
      intro x hx
      rcases List.mem_cons.mp hx with rfl | hx
      · exact .single hsilent
      · exact (htrail x hx).tail hsilent
    have hloop : ∀ x, Relation.ReflTransGen g.Silent child x → ¬ Relation.TransGen g.Silent x x :=
      fun x hx => hacyclic x (.head hsilent hx)
    refine ih (node :: trail) hsilent.isOpen hloop ?_ ?_ hreach (by simp; omega)
    · exact List.nodup_cons.mpr ⟨fun hin => hloop child .refl (hreach child hin), hnodup⟩
    · obtain ⟨token, hread, -⟩ := hnode
      exact List.forall_mem_cons.mpr ⟨hg.bounded node (by simp [hread]), hbound⟩

/-- A walk that comes back has met no circle. -/
theorem acc_of_ways_isSome {g : Graph ε} {depth node : ℕ}
    (h : (g.ways [] depth node).isSome) : Acc (fun child node => g.Silent node child) node := by
  induction depth generalizing node with
  | zero => cases h
  | succ depth ih =>
    refine Acc.intro node fun child hsilent => ih ?_
    rw [ways, eachChild_isSome] at h
    obtain ⟨added, hadded⟩ := Option.isSome_iff_exists.mp (h child hsilent.1)
    obtain ⟨token, hread, hcases⟩ := childWays_eq_some.mp hadded
    obtain ⟨token', hread', hsilent⟩ := hsilent.2
    cases hread.symm.trans hread'
    rcases hcases with ⟨hfree, -⟩ | ⟨-, -, rest, hrest, -⟩ | ⟨-, hloud, -⟩
    · exact absurd (Or.inr (List.not_mem_nil)) hfree
    · exact Option.isSome_of_eq_some hrest
    · exact absurd (hsilent.symm.trans hloud) (by simp)

theorem not_transGen_of_acc {α : Type*} {r : α → α → Prop} {x : α} (h : Acc r x) :
    ¬ Relation.TransGen r x x := by
  have hacc := h.transGen
  induction hacc with
  | intro x _ ih => exact fun hx => ih x hx (h.inv_of_transGen hx) hx

/-- The walk from a node comes back exactly when the forks and joins that can be reached from it
without taking a word form no circle. Where it comes back, it goes no deeper than there are
nodes. -/
theorem addNexthops_returns_iff {g : Graph ε} (hg : g.Closed) {node : ℕ} (hnode : g.Open node) :
    (∃ depth, (g.addNexthops [] depth node).isSome) ↔
      ∀ x, Relation.ReflTransGen g.Silent node x → ¬ Relation.TransGen g.Silent x x := by
  constructor
  · rintro ⟨depth, h⟩ x hx
    rw [addNexthops_eq_ways, Option.isSome_map] at h
    have hacc := acc_of_ways_isSome h
    have hx : Acc (fun child node => g.Silent node child) x := by
      induction hx with
      | refl => exact hacc
      | tail _ hstep ih => exact ih.inv hstep
    rw [← Relation.transGen_swap]
    exact not_transGen_of_acc hx
  · intro h
    refine ⟨g.size + 1, ?_⟩
    rw [addNexthops_eq_ways, Option.isSome_map]
    exact ways_isSome_of_trail hg [] hnode h (by simp) (by simp) (by simp) (by simp)

end Graph
end Routerd.CommandMatch
