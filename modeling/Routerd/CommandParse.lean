import Routerd.CommandSyntax

/-!
# From a command string to its graph

The actions of the parser turn the tree of a command string into nodes and edges, bottom up and
in the order of the reductions. What they add to the graph is the fragment of the tree, and the
search through the graph accepts the lines that the tree stands for, with the restriction that a
token may be used once only unless it is followed by dots.
-/

namespace Routerd.CommandMatch
open NumeralText Walks Computability

/-! ### The actions of the parser -/

def cmdTokenVarnameSet (token : CmdToken) (varname : Option Text) : CmdToken :=
  { token with varname := varname.map fun name => name.map fun c =>
      if c = '-' ∨ c = '+' ∨ c = '*' ∨ c = ':' then '_' else c.toLower }

def SimpleToken.token (s : SimpleToken) (attr : CmdAttr) : CmdToken :=
  cmdTokenVarnameSet { cmdTokenNew s.type attr s.text with min := s.min, max := s.max } s.varname

namespace Graph
variable {ε : Type}

def updateToken (g : Graph ε) (node : ℕ) (f : CmdToken → CmdToken) : Graph ε :=
  { g with data := fun i => if i = node then
      match g.data i with
      | some (.token token) => some (.token (f token))
      | other => other
    else g.data i }

/-- A new fork and join, paired with each other, around a fragment from `first` to `last`. -/
def newForkJoin (g : Graph ε) (attr : CmdAttr) (first last : ℕ) : Graph ε :=
  let fork := g.size
  let join := g.size + 1
  let g := g.graphNewNode (.token (cmdTokenNew .forkTkn attr []))
  let g := g.graphNewNode (.token (cmdTokenNew .joinTkn attr []))
  let g := g.updateToken fork fun token => { token with forkjoin := some join }
  let g := g.updateToken join fun token => { token with forkjoin := some fork }
  (g.graphAddEdge fork first).graphAddEdge last join

end Graph

structure Subgraph (ε : Type) where
  graph : Graph ε
  start : ℕ
  stop : ℕ

section Build
variable {ε : Type} (attr : CmdAttr)

mutual

def SelectorToken.build : SelectorToken → Graph ε → Subgraph ε
  | .simple s, g => ⟨g.graphNewNode (.token (s.token attr)), g.size, g.size⟩
  | .selector kind alts varname, g =>
    let sub := alts.build g
    let graph := match kind with
      | .angle => sub.graph
      | .brace => sub.graph.graphAddEdge sub.stop sub.start
      | .bracket => sub.graph.graphAddEdge sub.start sub.stop
    ⟨graph.updateToken sub.stop (cmdTokenVarnameSet · varname), sub.start, sub.stop⟩

def SelectorTokenSeq.build : SelectorTokenSeq → Graph ε → Subgraph ε
  | .one token, g => token.build g
  | .more seq token, g =>
    let first := seq.build g
    let second := token.build first.graph
    ⟨second.graph.graphAddEdge first.stop second.start, first.start, second.stop⟩

def SelectorSeqSeq.build : SelectorSeqSeq → Graph ε → Subgraph ε
  | .one seq, g =>
    let sub := seq.build g
    ⟨sub.graph.newForkJoin attr sub.start sub.stop, sub.graph.size, sub.graph.size + 1⟩
  | .more alts seq, g =>
    let all := alts.build g
    let sub := seq.build all.graph
    ⟨(sub.graph.graphAddEdge all.start sub.start).graphAddEdge sub.stop all.stop,
      all.start, all.stop⟩

end

def parseTokens : List SelectorToken → Graph ε → ℕ → Graph ε × ℕ
  | [], g, currnode => (g, currnode)
  | token :: tokens, g, currnode =>
    let sub := token.build attr g
    parseTokens tokens (sub.graph.graphAddEdge currnode sub.start) sub.stop

def parseVariadic (token : SimpleToken) (g : Graph ε) (currnode : ℕ) : Graph ε × ℕ :=
  let node := g.size
  let g := g.graphNewNode (.token (token.token attr))
  let g := g.graphAddEdge currnode node
  let g := g.updateToken node fun token => { token with allowrepeat := true }
  (g.graphAddEdge node node, node)

def terminateGraph (g : Graph ε) (finalnode : ℕ) (el : ε) : Graph ε :=
  let endToken := g.size
  let g := g.graphNewNode (.token (cmdTokenNew .endTkn attr "<cr>".toList))
  let g := g.graphNewNode (.element el)
  (g.graphAddEdge finalnode endToken).graphAddEdge endToken (endToken + 1)

def startGraph : Graph ε := Graph.empty.graphNewNode (.token (cmdTokenNew .startTkn .normal []))

def cmdGraphParse (cmd : CommandString) (el : ε) : Graph ε :=
  let parsed := parseTokens attr cmd.tokens startGraph 0
  let parsed := match cmd.variadic with
    | none => parsed
    | some token => parseVariadic attr token.1 parsed.1 parsed.2
  terminateGraph attr parsed.1 parsed.2 el

end Build

/-! ### What the actions add -/

namespace Graph
variable {ε : Type}

/-- Numbers that are not in use have no node, edges are between nodes, and none is there twice. -/
structure Tidy (g : Graph ε) : Prop where
  data : ∀ i, g.size ≤ i → g.data i = none
  edges : ∀ i b, b ∈ g.toNodes i → i < g.size ∧ b < g.size
  nodup : ∀ i, (g.toNodes i).Nodup

theorem Tidy.toNodes_of_le {g : Graph ε} (hg : g.Tidy) {i : ℕ} (hi : g.size ≤ i) :
    g.toNodes i = [] := by
  rw [List.eq_nil_iff_forall_not_mem]
  intro b hb
  exact absurd (hg.edges i b hb).1 (by omega)

theorem mem_toNodes_graphAddEdge {g : Graph ε} {a b i x : ℕ} :
    x ∈ (g.graphAddEdge a b).toNodes i ↔ x ∈ g.toNodes i ∨ (i = a ∧ x = b) := by
  rw [toNodes_graphAddEdge]
  by_cases hi : i = a
  · subst hi
    simp
  · simp [hi]

theorem Tidy.graphAddEdge {g : Graph ε} (hg : g.Tidy) {a b : ℕ} (ha : a < g.size)
    (hb : b < g.size) (hnew : b ∉ g.toNodes a) : (g.graphAddEdge a b).Tidy where
  data := hg.data
  edges i x hx := by
    rcases mem_toNodes_graphAddEdge.mp hx with hx | ⟨rfl, rfl⟩
    · exact hg.edges i x hx
    · exact ⟨ha, hb⟩
  nodup i := by
    rw [toNodes_graphAddEdge]
    split
    · exact List.nodup_append.mpr ⟨hg.nodup a, by simp, by
        rintro x hx y hy rfl
        exact hnew (List.mem_singleton.mp hy ▸ hx)⟩
    · exact hg.nodup i

theorem Tidy.mem_toNodes_graphNewNode {g : Graph ε} (hg : g.Tidy) (data : NodeData ε) {i x : ℕ} :
    x ∈ (g.graphNewNode data).toNodes i ↔ x ∈ g.toNodes i := by
  simp only [Graph.graphNewNode, Function.update_apply]
  split
  · rename_i hi
    simp [hg.toNodes_of_le (i := i) (by omega)]
  · rfl

theorem Tidy.graphNewNode {g : Graph ε} (hg : g.Tidy) (data : NodeData ε) :
    (g.graphNewNode data).Tidy where
  data i hi := by
    simp only [Graph.graphNewNode] at hi ⊢
    rw [Function.update_of_ne (by omega)]
    exact hg.data i (by omega)
  edges i b hb := by
    have := hg.edges i b ((hg.mem_toNodes_graphNewNode _).mp hb)
    simp only [Graph.graphNewNode]
    omega
  nodup i := by
    simp only [Graph.graphNewNode, Function.update_apply]
    split
    · simp
    · exact hg.nodup i

theorem Tidy.updateToken {g : Graph ε} (hg : g.Tidy) (node : ℕ) (f : CmdToken → CmdToken) :
    (g.updateToken node f).Tidy where
  data i hi := by
    simp only [Graph.updateToken]
    split
    · rw [hg.data i hi]
    · exact hg.data i hi
  edges := hg.edges
  nodup := hg.nodup

def Holds (g : Graph ε) (attr : CmdAttr) (node : ℕ) : Option SimpleToken → Prop
  | some s => g.token node = some (s.token attr)
  | none => ∃ token, g.token node = some token ∧ token.transparent = true ∧
      token.allowrepeat = false

/-- One graph is another one with these nodes behind its own and with these edges. -/
structure Grows (attr : CmdAttr) (g g' : Graph ε) (layout : List (Option SimpleToken))
    (edge : ℕ → ℕ → Prop) : Prop where
  tidy : g'.Tidy
  size : g'.size = g.size + layout.length
  old : ∀ i < g.size, g'.data i = g.data i
  edges : ∀ i b, b ∈ g'.toNodes i ↔ b ∈ g.toNodes i ∨ edge i b
  tokens : ∀ k o, layout[k]? = some o → g'.Holds attr (g.size + k) o

theorem token_congr {g g' : Graph ε} {node : ℕ} (h : g'.data node = g.data node) :
    g'.token node = g.token node := by
  unfold token
  rw [h]

theorem holds_congr {g g' : Graph ε} {attr : CmdAttr} {node : ℕ} (h : g'.data node = g.data node)
    (o : Option SimpleToken) : g'.Holds attr node o ↔ g.Holds attr node o := by
  cases o <;> simp [Holds, token_congr h]

theorem Grows.append {attr : CmdAttr} {g g₁ g₂ : Graph ε} {l₁ l₂ : List (Option SimpleToken)}
    {e₁ e₂ : ℕ → ℕ → Prop} (h₁ : Grows attr g g₁ l₁ e₁) (h₂ : Grows attr g₁ g₂ l₂ e₂) :
    Grows attr g g₂ (l₁ ++ l₂) fun a b => e₁ a b ∨ e₂ a b where
  tidy := h₂.tidy
  size := by rw [h₂.size, h₁.size, List.length_append, Nat.add_assoc]
  old i hi := by rw [h₂.old i (by rw [h₁.size]; omega), h₁.old i hi]
  edges i b := by rw [h₂.edges, h₁.edges, or_assoc]
  tokens k o hk := by
    rcases Nat.lt_or_ge k l₁.length with hlt | hge
    · rw [List.getElem?_append_left hlt] at hk
      exact (holds_congr (h₂.old _ (by rw [h₁.size]; omega)) o).mpr (h₁.tokens k o hk)
    · rw [List.getElem?_append_right hge] at hk
      have := h₂.tokens _ o hk
      rwa [h₁.size, Nat.add_assoc, Nat.add_sub_cancel' hge] at this

theorem Grows.addEdge {attr : CmdAttr} {g g' : Graph ε} {l : List (Option SimpleToken)}
    {e : ℕ → ℕ → Prop} (h : Grows attr g g' l e) {a b : ℕ} (ha : a < g'.size) (hb : b < g'.size)
    (hnew : b ∉ g'.toNodes a) :
    Grows attr g (g'.graphAddEdge a b) l fun x y => e x y ∨ (x = a ∧ y = b) where
  tidy := h.tidy.graphAddEdge ha hb hnew
  size := h.size
  old := h.old
  edges i x := by rw [mem_toNodes_graphAddEdge, h.edges, or_assoc]
  tokens := h.tokens

theorem Grows.newNode (attr : CmdAttr) {g : Graph ε} (hg : g.Tidy) (token : CmdToken)
    (o : Option SimpleToken) (ho : (g.graphNewNode (.token token)).Holds attr g.size o) :
    Grows attr g (g.graphNewNode (.token token)) [o] fun _ _ => False where
  tidy := hg.graphNewNode _
  size := rfl
  old i hi := Function.update_of_ne (by omega) _ _
  edges i b := by rw [hg.mem_toNodes_graphNewNode, or_false]
  tokens k o' hk := by
    cases k with
    | zero => simp_all
    | succ k => simp at hk

theorem Grows.congr {attr : CmdAttr} {g g' : Graph ε} {l : List (Option SimpleToken)}
    {e e' : ℕ → ℕ → Prop} (h : Grows attr g g' l e) (he : ∀ a b, e a b ↔ e' a b) :
    Grows attr g g' l e' :=
  { h with edges := fun i b => by rw [h.edges, he] }

theorem token_updateToken (g : Graph ε) (node i : ℕ) (f : CmdToken → CmdToken) :
    (g.updateToken node f).token i = if i = node then (g.token i).map f else g.token i := by
  unfold token updateToken
  by_cases hi : i = node
  · simp only [hi, if_true]
    cases g.data node with
    | none => rfl
    | some data => cases data <;> rfl
  · simp [hi]

theorem Grows.updateSilent {attr : CmdAttr} {g g' : Graph ε} {l : List (Option SimpleToken)}
    {e : ℕ → ℕ → Prop} (h : Grows attr g g' l e) {k : ℕ} (hk : l[k]? = some none)
    {f : CmdToken → CmdToken}
    (hf : ∀ token, (f token).transparent = token.transparent ∧
      (f token).allowrepeat = token.allowrepeat) :
    Grows attr g (g'.updateToken (g.size + k) f) l e where
  tidy := h.tidy.updateToken _ f
  size := h.size
  old i hi := by
    simp only [Graph.updateToken]
    rw [if_neg (by omega)]
    exact h.old i hi
  edges := h.edges
  tokens j o hj := by
    by_cases hjk : j = k
    · subst hjk
      cases hj.symm.trans hk
      obtain ⟨token, hread, hsilent, hrepeat⟩ := h.tokens j none hk
      refine ⟨f token, ?_, ?_, ?_⟩
      · rw [token_updateToken, if_pos rfl, hread]
        rfl
      · rw [(hf token).1, hsilent]
      · rw [(hf token).2, hrepeat]
    · refine (holds_congr ?_ o).mpr (h.tokens j o hj)
      simp [Graph.updateToken, hjk]

theorem holds_newNode_none (g : Graph ε) (attr : CmdAttr) {token : CmdToken}
    (hsilent : token.transparent = true) (hrepeat : token.allowrepeat = false) :
    (g.graphNewNode (.token token)).Holds attr g.size none :=
  ⟨token, by simp, hsilent, hrepeat⟩

theorem Grows.newForkJoin (attr : CmdAttr) {g : Graph ε} (hg : g.Tidy) {first last : ℕ}
    (hfirst : first < g.size) (hlast : last < g.size) :
    Grows attr g (g.newForkJoin attr first last) [none, none] fun a b =>
      (a = g.size ∧ b = first) ∨ (a = last ∧ b = g.size + 1) := by
  have hfork := Grows.newNode attr hg (cmdTokenNew .forkTkn attr []) none
    (holds_newNode_none g attr rfl rfl)
  have hjoin := Grows.newNode attr hfork.tidy (cmdTokenNew .joinTkn attr []) none
    (holds_newNode_none _ attr rfl rfl)
  have hnodes := hfork.append hjoin
  have hpaired := (hnodes.updateSilent (k := 0) rfl
    (f := fun token => { token with forkjoin := some (g.size + 1) }) fun _ => ⟨rfl, rfl⟩).updateSilent
    (k := 1) rfl (f := fun token => { token with forkjoin := some g.size }) fun _ => ⟨rfl, rfl⟩
  have hsize := hpaired.size
  simp only [List.length_append, List.length_cons, List.length_nil] at hsize
  have hempty : ∀ i b, b ∈ g.toNodes i → b < g.size := fun i b hb => (hg.edges i b hb).2
  have hin := hpaired.addEdge (a := g.size) (b := first) (by omega) (by omega) (by
    rw [hpaired.edges]
    simp [hg.toNodes_of_le (le_refl _)])
  have hout := hin.addEdge (a := last) (b := g.size + 1) (by
    rw [hin.size]
    simp
    omega) (by
    rw [hin.size]
    simp) (by
    rw [hin.edges]
    rintro (h | (h | h) | ⟨-, h⟩)
    · exact absurd (hempty _ _ h) (by omega)
    · exact h
    · exact h
    · omega)
  exact hout.congr fun a b => by simp

end Graph

open Routerd.CommandMatch.Graph

section Build
variable {ε : Type} (attr : CmdAttr)

/-- What was built is the fragment of the tree. -/
structure Builds (g : Graph ε) (sub : Subgraph ε) (layout : List (Option SimpleToken))
    (f : Fragment ℕ) : Prop where
  start : sub.start = f.first
  stop : sub.stop = f.last
  grows : Grows attr g sub.graph layout f.edge

variable {attr}

theorem Builds.start_lt {g : Graph ε} {sub : Subgraph ε}
    {layout : List (Option SimpleToken)} {f : Fragment ℕ} (h : Builds attr g sub layout f)
    (hf : f.nodes ⊆ Set.Ico g.size (g.size + layout.length)) :
    g.size ≤ sub.start ∧ sub.start < sub.graph.size ∧ g.size ≤ sub.stop ∧
      sub.stop < sub.graph.size := by
  have hfirst := hf f.first_mem
  have hlast := hf f.last_mem
  rw [h.grows.size, h.start, h.stop]
  exact ⟨hfirst.1, hfirst.2, hlast.1, hlast.2⟩

theorem Builds.edge_iff {g : Graph ε} (hg : g.Tidy) {sub : Subgraph ε}
    {layout : List (Option SimpleToken)} {f : Fragment ℕ} (h : Builds attr g sub layout f)
    {a b : ℕ} (ha : g.size ≤ a) : b ∈ sub.graph.toNodes a ↔ f.edge a b := by
  rw [h.grows.edges, hg.toNodes_of_le ha]
  simp

theorem exists_marked (lo : ℕ) (layout : List (Option SimpleToken)) :
    ∃ loud, Marked loud lo layout :=
  ⟨fun i => (layout[i - lo]?.getD none).isSome, fun k o hk => by simp [hk]⟩

variable (attr)

mutual

theorem SelectorToken.builds : ∀ (t : SelectorToken) (g : Graph ε), g.Tidy →
    Builds attr g (t.build attr g) t.layout (t.fragment g.size)
  | .simple s, g, hg => ⟨rfl, rfl, Grows.newNode attr hg _ _ (by simp [Holds])⟩
  | .selector kind a varname, g, hg => by
    have ha := a.builds g hg
    obtain ⟨k, hlast, hk⟩ := a.last_layout g.size
    obtain ⟨loud, hmarked⟩ := exists_marked g.size a.layout
    have hs := a.selects g.size hmarked
    obtain ⟨hstart, hstart', hstop, hstop'⟩ := ha.start_lt (a.nodes_subset g.size)
    have hname : ∀ token : CmdToken,
        (cmdTokenVarnameSet token varname).transparent = token.transparent ∧
          (cmdTokenVarnameSet token varname).allowrepeat = token.allowrepeat :=
      fun _ => ⟨rfl, rfl⟩
    have hk' : (a.build attr g).stop = g.size + k := ha.stop.trans hlast
    cases kind with
    | angle =>
      refine ⟨ha.start, ha.stop, ?_⟩
      have := ha.grows.updateSilent hk hname
      rwa [← hk'] at this
    | brace =>
      refine ⟨ha.start, ha.stop, ?_⟩
      have hnew : (a.build attr g).start ∉ (a.build attr g).graph.toNodes (a.build attr g).stop := by
        rw [ha.edge_iff hg hstop, ha.start, ha.stop]
        exact hs.isOpen.no_out _
      have := (ha.grows.addEdge hstop' hstart' hnew).updateSilent hk hname
      rw [← hk'] at this
      exact this.congr fun x y => by rw [ha.start, ha.stop]; rfl
    | bracket =>
      refine ⟨ha.start, ha.stop, ?_⟩
      have hnew : (a.build attr g).stop ∉ (a.build attr g).graph.toNodes (a.build attr g).start := by
        rw [ha.edge_iff hg hstart, ha.start, ha.stop]
        exact hs.no_edge
      have := (ha.grows.addEdge hstart' hstop' hnew).updateSilent hk hname
      rw [← hk'] at this
      exact this.congr fun x y => by rw [ha.start, ha.stop]; rfl

theorem SelectorTokenSeq.builds : ∀ (s : SelectorTokenSeq) (g : Graph ε), g.Tidy →
    Builds attr g (s.build attr g) s.layout (s.fragment g.size)
  | .one t, g, hg => t.builds g hg
  | .more s t, g, hg => by
    have hs := s.builds g hg
    have ht := t.builds _ hs.grows.tidy
    obtain ⟨hs₁, hs₂, hs₃, hs₄⟩ := hs.start_lt (s.nodes_subset g.size)
    obtain ⟨ht₁, ht₂, ht₃, ht₄⟩ := ht.start_lt (t.nodes_subset _)
    have hgrows := hs.grows.append ht.grows
    have hle := ht.grows.size
    have hnew : (t.build attr (s.build attr g).graph).start ∉
        (t.build attr (s.build attr g).graph).graph.toNodes (s.build attr g).stop := by
      rw [ht.grows.edges]
      rintro (h | h)
      · exact absurd (hs.grows.tidy.edges _ _ h).2 (by omega)
      · exact absurd (t.nodes_subset _ (((t.fragment _).confined h).1)).1 (by omega)
    refine ⟨hs.start, ht.stop.trans (by rw [hs.grows.size]; rfl),
      (hgrows.addEdge (by omega) ht₂ hnew).congr fun x y => ?_⟩
    rw [hs.stop, ht.start, hs.grows.size]
    rfl

theorem SelectorSeqSeq.builds : ∀ (a : SelectorSeqSeq) (g : Graph ε), g.Tidy →
    Builds attr g (a.build attr g) a.layout (a.fragment g.size)
  | .one s, g, hg => by
    have hs := s.builds g hg
    obtain ⟨-, hs₂, -, hs₄⟩ := hs.start_lt (s.nodes_subset g.size)
    refine ⟨hs.grows.size, by rw [SelectorSeqSeq.build, hs.grows.size]; rfl,
      (hs.grows.append (Grows.newForkJoin attr hs.grows.tidy hs₂ hs₄)).congr fun x y => ?_⟩
    rw [hs.start, hs.stop, hs.grows.size]
    rfl
  | .more a s, g, hg => by
    have ha := a.builds g hg
    have hs := s.builds _ ha.grows.tidy
    obtain ⟨ha₁, ha₂, ha₃, ha₄⟩ := ha.start_lt (a.nodes_subset g.size)
    obtain ⟨hs₁, hs₂, hs₃, hs₄⟩ := hs.start_lt (s.nodes_subset _)
    have hgrows := ha.grows.append hs.grows
    have hle := hs.grows.size
    have hnew : (s.build attr (a.build attr g).graph).start ∉
        (s.build attr (a.build attr g).graph).graph.toNodes (a.build attr g).start := by
      rw [hs.grows.edges]
      rintro (h | h)
      · exact absurd (ha.grows.tidy.edges _ _ h).2 (by omega)
      · exact absurd (s.nodes_subset _ (((s.fragment _).confined h).1)).1 (by omega)
    have hfork := hgrows.addEdge (by omega) hs₂ hnew
    have hnew' : (a.build attr g).stop ∉ ((s.build attr (a.build attr g).graph).graph.graphAddEdge
        (a.build attr g).start (s.build attr (a.build attr g).graph).start).toNodes
          (s.build attr (a.build attr g).graph).stop := by
      rw [hfork.edges]
      rintro (h | (h | h) | ⟨h, -⟩)
      · exact absurd (hg.edges _ _ h).1 (by omega)
      · exact absurd (a.nodes_subset _ (((a.fragment _).confined h).1)).2
          (by rw [← ha.grows.size]; omega)
      · exact absurd (s.nodes_subset _ (((s.fragment _).confined h).2)).1 (by omega)
      · omega
    refine ⟨ha.start, ha.stop, (hfork.addEdge (by exact hs₄) (by
      rw [hfork.size, ← hgrows.size]
      omega) hnew').congr fun x y => ?_⟩
    rw [ha.start, ha.stop, hs.start, hs.stop, ha.grows.size]
    simp only [SelectorSeqSeq.fragment, Fragment.branch, or_assoc]

end

/-! ### The graph of a command -/

theorem tidy_empty : (Graph.empty : Graph ε).Tidy where
  data _ _ := rfl
  edges i b hb := by simp [Graph.empty] at hb
  nodup i := by simp [Graph.empty]

theorem startGraph_grows :
    Grows attr (Graph.empty : Graph ε) startGraph [none] (Fragment.single 0).edge :=
  Grows.newNode attr tidy_empty _ none (holds_newNode_none _ attr rfl rfl)

theorem parseTokens_grows (ts : List SelectorToken) {g : Graph ε} {l : List (Option SimpleToken)}
    {f : Fragment ℕ} (h : Grows attr Graph.empty g l f.edge)
    (hf : f.nodes ⊆ Set.Ico 0 l.length) :
    Grows attr Graph.empty (parseTokens attr ts g f.last).1
        (l ++ ts.flatMap SelectorToken.layout) (seqTokens ts l.length f).edge ∧
      (parseTokens attr ts g f.last).2 = (seqTokens ts l.length f).last ∧
      ∀ i < g.size, (parseTokens attr ts g f.last).1.data i = g.data i := by
  induction ts generalizing g l f with
  | nil => exact ⟨by simpa [seqTokens, parseTokens] using h, rfl, fun _ _ => rfl⟩
  | cons t ts ih =>
    have hsize : g.size = l.length := by rw [h.size]; exact Nat.zero_add _
    have ht := t.builds attr g h.tidy
    obtain ⟨ht₁, ht₂, -, -⟩ := ht.start_lt (t.nodes_subset g.size)
    have hlast := (hf f.last_mem).2
    have hnew : (t.build attr g).start ∉ (t.build attr g).graph.toNodes f.last := by
      rw [ht.grows.edges]
      rintro (h' | h')
      · exact absurd (h.tidy.edges _ _ h').2 (by omega)
      · exact absurd (t.nodes_subset _ (((t.fragment _).confined h').1)).1 (by omega)
    have hgrows : Grows attr Graph.empty ((t.build attr g).graph.graphAddEdge f.last
        (t.build attr g).start) (l ++ t.layout) (f.seq (t.fragment l.length)).edge :=
      ((h.append ht.grows).addEdge (by rw [ht.grows.size]; omega) ht₂ hnew).congr fun x y => by
        rw [ht.start, hsize]
        rfl
    have hseq : (f.seq (t.fragment l.length)).nodes ⊆ Set.Ico 0 (l ++ t.layout).length := by
      simpa [seqTokens] using seqTokens_nodes [t] hf
    obtain ⟨hrest, hlast', hold⟩ := ih hgrows hseq
    have hstop : (t.build attr g).stop = (f.seq (t.fragment l.length)).last := by
      rw [ht.stop, hsize]
      rfl
    rw [parseTokens, hstop]
    refine ⟨by simpa [seqTokens] using hrest, by simpa [seqTokens] using hlast', fun i hi => ?_⟩
    rw [hold i (by
      rw [hgrows.size]
      exact Nat.lt_of_lt_of_le hi (by rw [hsize]; simp [Graph.empty]))]
    exact ht.grows.old i hi

/-- What the last two actions leave of a graph, and what they add to it. -/
structure Extends (g g' : Graph ε) (added : ℕ) (edge : ℕ → ℕ → Prop) : Prop where
  tidy : g'.Tidy
  size : g'.size = g.size + added
  old : ∀ i < g.size, g'.data i = g.data i
  edges : ∀ i b, b ∈ g'.toNodes i ↔ b ∈ g.toNodes i ∨ edge i b

theorem parseVariadic_extends (t : SimpleToken) {g : Graph ε} (hg : g.Tidy) {currnode : ℕ}
    (hcurr : currnode < g.size) :
    Extends g (parseVariadic attr t g currnode).1 1 (fun i b =>
      (i = currnode ∧ b = g.size) ∨ (i = g.size ∧ b = g.size)) ∧
    (parseVariadic attr t g currnode).1.token g.size =
      some { t.token attr with allowrepeat := true } := by
  have hnode := hg.graphNewNode (.token (t.token attr))
  have hnew : g.size ∉ (g.graphNewNode (.token (t.token attr))).toNodes currnode := fun h =>
    absurd (hg.edges _ _ ((hg.mem_toNodes_graphNewNode _).mp h)).2 (lt_irrefl _)
  have hin := hnode.graphAddEdge (Nat.lt_succ_of_lt hcurr) (Nat.lt_succ_self g.size) hnew
  have hup := hin.updateToken g.size fun token => { token with allowrepeat := true }
  refine ⟨⟨hup.graphAddEdge (Nat.lt_succ_self g.size) (Nat.lt_succ_self g.size) ?_, rfl, ?_, ?_⟩, ?_⟩
  · intro h
    rcases mem_toNodes_graphAddEdge.mp h with h | ⟨h, -⟩
    · exact absurd (hg.edges _ _ ((hg.mem_toNodes_graphNewNode _).mp h)).2 (lt_irrefl _)
    · omega
  · intro i hi
    simp only [parseVariadic, data_graphAddEdge, Graph.updateToken, if_neg hi.ne]
    exact Function.update_of_ne hi.ne _ _
  · intro i b
    simp only [parseVariadic]
    rw [mem_toNodes_graphAddEdge]
    have : b ∈ (((g.graphNewNode (.token (t.token attr))).graphAddEdge currnode g.size).updateToken
        g.size fun token => { token with allowrepeat := true }).toNodes i ↔
        b ∈ g.toNodes i ∨ (i = currnode ∧ b = g.size) := by
      rw [← hg.mem_toNodes_graphNewNode (.token (t.token attr)), ← mem_toNodes_graphAddEdge]
      rfl
    rw [this, or_assoc]
  · simp only [parseVariadic, token_graphAddEdge, token_updateToken, if_true, token_graphNewNode,
      Option.map_some]

theorem terminateGraph_extends {g : Graph ε} (hg : g.Tidy) {finalnode : ℕ}
    (hfinal : finalnode < g.size) (el : ε) :
    Extends g (terminateGraph attr g finalnode el) 2 (fun i b =>
      (i = finalnode ∧ b = g.size) ∨ (i = g.size ∧ b = g.size + 1)) ∧
    (terminateGraph attr g finalnode el).token g.size =
      some (cmdTokenNew .endTkn attr "<cr>".toList) ∧
    (terminateGraph attr g finalnode el).data (g.size + 1) = some (.element el) := by
  have hend := hg.graphNewNode (.token (cmdTokenNew .endTkn attr "<cr>".toList))
  have hel := hend.graphNewNode (.element el)
  have hold : ∀ {i b : ℕ}, b ∈ ((g.graphNewNode
      (.token (cmdTokenNew .endTkn attr "<cr>".toList))).graphNewNode (.element el)).toNodes i ↔
      b ∈ g.toNodes i := by
    intro i b
    rw [hend.mem_toNodes_graphNewNode, hg.mem_toNodes_graphNewNode]
  have hsize : ((g.graphNewNode (.token (cmdTokenNew .endTkn attr "<cr>".toList))).graphNewNode
      (.element el)).size = g.size + 2 := rfl
  have hin := hel.graphAddEdge (a := finalnode) (b := g.size) (by omega) (by omega)
    fun h => absurd (hg.edges _ _ (hold.mp h)).2 (lt_irrefl _)
  refine ⟨⟨hin.graphAddEdge (a := g.size) (b := g.size + 1) ?_ ?_ ?_, rfl, ?_, ?_⟩, ?_, ?_⟩
  · exact Nat.lt_add_of_pos_right (n := g.size) (k := 2) (by omega)
  · exact Nat.lt_succ_self _
  · intro h
    rcases mem_toNodes_graphAddEdge.mp h with h | ⟨h, -⟩
    · exact absurd (hg.edges _ _ (hold.mp h)).2 (by omega)
    · omega
  · intro i hi
    simp only [terminateGraph, data_graphAddEdge, Graph.graphNewNode]
    rw [Function.update_of_ne (show i ≠ g.size + 1 by omega), Function.update_of_ne hi.ne]
  · intro i b
    simp only [terminateGraph]
    rw [mem_toNodes_graphAddEdge, mem_toNodes_graphAddEdge, hold, or_assoc]
  · simp [terminateGraph, token, Graph.graphNewNode]
  · simp [terminateGraph, Graph.graphNewNode]

/-- The graph of a command: the fragment of its string, with the end and the element behind it. -/
structure Parsed (cmd : CommandString) (el : ε) (g : Graph ε) : Prop where
  tidy : g.Tidy
  size : g.size = cmd.endNode + 2
  edges : ∀ i b, b ∈ g.toNodes i ↔ cmd.fragment.edge i b ∨
    (i = cmd.fragment.last ∧ b = cmd.endNode) ∨ (i = cmd.endNode ∧ b = cmd.endNode + 1)
  start : g.token 0 = some (cmdTokenNew .startTkn .normal [])
  tokens : ∀ k o, cmd.layout[k]? = some o → g.Holds attr k o
  variadic : ∀ t, cmd.variadic = some t →
    g.token cmd.layout.length = some { t.1.token attr with allowrepeat := true }
  isEnd : g.token cmd.endNode = some (cmdTokenNew .endTkn attr "<cr>".toList)
  element : g.data (cmd.endNode + 1) = some (.element el)

theorem cmdGraphParse_parsed (cmd : CommandString) (el : ε) :
    Parsed attr cmd el (cmdGraphParse attr cmd el) := by
  obtain ⟨hbody, hlast, hold⟩ := parseTokens_grows attr cmd.tokens
    (startGraph_grows (ε := ε) attr) (by
      rintro i rfl
      simp)
  have hstart : (parseTokens (ε := ε) attr cmd.tokens startGraph 0).1.token 0 =
      some (cmdTokenNew .startTkn .normal []) := by
    unfold token
    rw [show (parseTokens (ε := ε) attr cmd.tokens startGraph 0).1.data 0 = startGraph.data 0 from
      hold 0 (Nat.lt_succ_self 0)]
    rfl
  change Grows attr _ (parseTokens attr cmd.tokens startGraph 0).1 cmd.layout _ at hbody
  change (parseTokens (ε := ε) attr cmd.tokens startGraph 0).2 = _ at hlast
  have hmem := cmd.body_nodes (seqTokens cmd.tokens 1 (.single 0)).last_mem
  unfold cmdGraphParse
  clear hold
  generalize parseTokens (ε := ε) attr cmd.tokens startGraph 0 = parsed at hbody hlast hstart ⊢
  obtain ⟨g, currnode⟩ := parsed
  change currnode = (seqTokens cmd.tokens 1 (.single 0)).last at hlast
  change Grows attr Graph.empty g cmd.layout (seqTokens cmd.tokens 1 (.single 0)).edge at hbody
  have hsize : g.size = cmd.layout.length := hbody.size.trans (Nat.zero_add _)
  have hcurr : currnode < g.size := by rw [hsize, hlast]; exact hmem.2
  have hedges : ∀ i b, b ∈ g.toNodes i ↔ (seqTokens cmd.tokens 1 (.single 0)).edge i b :=
    fun i b => by rw [hbody.edges]; simp [Graph.empty]
  have htokens : ∀ k o, cmd.layout[k]? = some o → k < g.size ∧ g.Holds attr k o := by
    intro k o hk
    refine ⟨by rw [hsize]; exact (List.getElem?_eq_some_iff.mp hk).1, ?_⟩
    have := hbody.tokens k o hk
    rwa [show (Graph.empty : Graph ε).size = 0 from rfl, Nat.zero_add] at this
  cases hv : cmd.variadic with
  | none =>
    have hendNode : cmd.endNode = g.size := by simp [CommandString.endNode, hv, hsize]
    have hfragment : cmd.fragment = seqTokens cmd.tokens 1 (.single 0) := by
      simp [CommandString.fragment, hv]
    obtain ⟨hext, hend, hel⟩ := terminateGraph_extends attr hbody.tidy hcurr el
    refine ⟨hext.tidy, by rw [hendNode]; exact hext.size, ?_, ?_, ?_, by simp [hv], ?_, ?_⟩
    · intro i b
      rw [hext.edges, hedges, hfragment, hendNode, hlast]
    · exact (token_congr (hext.old 0 (by omega))).trans hstart
    · intro k o hk
      exact (holds_congr (hext.old k (htokens k o hk).1) o).mpr (htokens k o hk).2
    · rw [hendNode]
      exact hend
    · rw [hendNode]
      exact hel
  | some t =>
    have hendNode : cmd.endNode = g.size + 1 := by simp [CommandString.endNode, hv, hsize]
    have hfragment : cmd.fragment = (seqTokens cmd.tokens 1 (.single 0)).seq
        (Fragment.single g.size).again := by
      simp [CommandString.fragment, hv, hsize]
    obtain ⟨hvar, htoken⟩ := parseVariadic_extends attr t.1 hbody.tidy hcurr
    have hnode : (parseVariadic attr t.1 g currnode).2 = g.size := rfl
    have hvsize := hvar.size
    obtain ⟨hext, hend, hel⟩ := terminateGraph_extends attr hvar.tidy
      (show g.size < (parseVariadic attr t.1 g currnode).1.size by omega) el
    refine ⟨hext.tidy, by rw [hendNode, ← hvsize]; exact hext.size, ?_, ?_, ?_, ?_, ?_, ?_⟩
    · intro i b
      simp only [hnode]
      rw [hext.edges, hvar.edges, hedges, hvsize, hfragment, hendNode, hlast]
      simp [Fragment.seq, Fragment.again, Fragment.single, or_assoc, or_left_comm]
    · exact (token_congr (hext.old 0 (by omega))).trans
        ((token_congr (hvar.old 0 (by omega))).trans hstart)
    · intro k o hk
      obtain ⟨hlt, hholds⟩ := htokens k o hk
      refine (holds_congr ?_ o).mpr hholds
      rw [← hvar.old k hlt]
      exact hext.old k (by omega)
    · rintro t' ht'
      cases hv.symm.trans ht'
      rw [← hsize, ← htoken]
      exact token_congr (hext.old g.size (by omega))
    · rw [hendNode, ← hvsize]
      exact hend
    · rw [hendNode, ← hvsize]
      exact hel

end Build

end Routerd.CommandMatch
