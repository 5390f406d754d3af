import Routerd.NumeralText
import Routerd.RtattrTable

/-!
# The command nodes of the user interface

Nodes are numbered in the order in which they are installed, and each is installed with the
number of its parent. A parent that is `CONFIG_NODE` or was installed before has a smaller
number than its child, so the way up from an installed node ends, and it ends at `CONFIG_NODE`.
The loop with which a command is tried at the parents of a node takes exactly this way.
-/

namespace Routerd.Vui
open NumeralText

/-! ### The node tables -/

def nodeTypeLimit : ℕ := 256

def AUTH_NODE : ℤ := 0
def VIEW_NODE : ℤ := 1
def AUTH_ENABLE_NODE : ℤ := 2
def ENABLE_NODE : ℤ := 3
def CONFIG_NODE : ℤ := 4

/-- The names of the seven nodes that are there from the start. -/
def builtinNames : List Text :=
  ["auth", "view", "auth enable", "enable", "config+", "debug", "vty"].map String.toList

/-- What `install_node` is given of a `struct cmd_node`. -/
structure CmdNode where
  node : ℤ
  prompt : Text
  vtysh : ℤ

/-- The static tables, of `NODE_TYPE_LIMIT` entries each, with `NODE_TYPE_MAX`, and the vector of
the nodes that are installed. An entry that was never written is null or zero. -/
structure NodeTables where
  nodeTypeMax : ℕ
  nodeNames : ℕ → Option Text
  parents : ℕ → ℤ
  cmdvec : ℕ → Option CmdNode

/-- After `cmd_init` and `vty_init`: there is no node behind the number of the debug node. -/
def NodeTables.init : NodeTables where
  nodeTypeMax := 7
  nodeNames i := builtinNames[i]?
  parents i := [-1, -1, -1, -1, -1, CONFIG_NODE, CONFIG_NODE].getD i 0
  cmdvec i := [some ⟨AUTH_NODE, "Password: ".toList, 0⟩, some ⟨VIEW_NODE, "%s> ".toList, 0⟩,
    some ⟨AUTH_ENABLE_NODE, "Password: ".toList, 0⟩, some ⟨ENABLE_NODE, "%s# ".toList, 0⟩,
    some ⟨CONFIG_NODE, "%s(config)# ".toList, 1⟩, none,
    some ⟨6, "%s(config-line)# ".toList, 1⟩].getD i none

def nodeParent (t : NodeTables) (node : ℤ) : Except Fault ℤ :=
  if 0 ≤ node ∧ node < nodeTypeLimit then .ok (t.parents node.toNat) else .error .overflow

def allocNewNodeId (t : NodeTables) (name : Text) (parent : ℤ) : Except Fault (NodeTables × ℤ) :=
  if t.nodeTypeMax < nodeTypeLimit then
    .ok ({ t with
      nodeTypeMax := t.nodeTypeMax + 1
      nodeNames := Function.update t.nodeNames t.nodeTypeMax (some name)
      parents := Function.update t.parents t.nodeTypeMax parent }, t.nodeTypeMax)
  else .error .assertion

def findNodeIdFrom (t : NodeTables) (name : Text) : ℕ → ℕ → Except Fault ℤ
  | 0, _ => .ok (-1)
  | left + 1, i =>
    match t.nodeNames i with
    | none => .error .segv
    | some s => if s = name then .ok i else findNodeIdFrom t name left (i + 1)

def findNodeIdByName (t : NodeTables) (name : Text) : Except Fault ℤ :=
  findNodeIdFrom t name t.nodeTypeMax 0

/-- What `vui_node_install` reads of a `vui_node_t`. -/
structure VuiNode where
  parent : ℤ
  name : Text
  prompt : Text

def installNode (t : NodeTables) (node : CmdNode) : NodeTables :=
  { t with cmdvec := Function.update t.cmdvec node.node.toNat (some node) }

/-- The tables, and the number that is written to `node->node`. -/
def vuiNodeInstall (t : NodeTables) (node : VuiNode) : Except Fault (NodeTables × ℤ) := do
  let (t, id) ← allocNewNodeId t node.name node.parent
  pure (installNode t ⟨id, node.prompt, 1⟩, id)

def installAll (t : NodeTables) : List VuiNode → Except Fault (NodeTables × List ℤ)
  | [] => .ok (t, [])
  | node :: nodes => do
    let (t, id) ← vuiNodeInstall t node
    let (t, ids) ← installAll t nodes
    pure (t, id :: ids)

/-- Each parent is `CONFIG_NODE` or a number that an earlier call returned. -/
def ParentsKnown (t : NodeTables) (ids : List ℤ) : List VuiNode → Prop
  | [] => True
  | node :: nodes => (node.parent = CONFIG_NODE ∨ node.parent ∈ ids) ∧
      ∀ t' id, vuiNodeInstall t node = .ok (t', id) → ParentsKnown t' (id :: ids) nodes

/-- The parents of a node and of its parents, up to `CONFIG_NODE`; all below it are among
`ids`. -/
inductive LeadsUp (t : NodeTables) (ids : List ℤ) : ℤ → List ℤ → Prop where
  | top : LeadsUp t ids CONFIG_NODE []
  | step {node parent : ℤ} {path : List ℤ} (allocated : node ∈ ids)
      (up : nodeParent t node = .ok parent) (rest : LeadsUp t ids parent path) :
      LeadsUp t ids node (parent :: path)

/-! ### Commands -/

def CMD_SUCCESS : ℤ := 0
def CMD_WARNING : ℤ := 1
def CMD_ERR_NO_MATCH : ℤ := 2
def CMD_ERR_AMBIGUOUS : ℤ := 3
def CMD_ERR_INCOMPLETE : ℤ := 4
def CMD_SUCCESS_DAEMON : ℤ := 10
def CMD_WARNING_CONFIG_FAILED : ℤ := 13
def CMD_NOT_MY_INSTANCE : ℤ := 14

structure Vty where
  node : ℤ
  xpathIndex : ℤ

def Vty.up (vty : Vty) (parent : ℤ) : Vty where
  node := parent
  xpathIndex := if 0 < vty.xpathIndex then vty.xpathIndex - 1 else vty.xpathIndex

/-- The results after which a command is not tried elsewhere. -/
def Settled (ret : ℤ) : Prop :=
  ret = CMD_SUCCESS ∨ ret = CMD_WARNING ∨ ret = CMD_NOT_MY_INSTANCE ∨
    ret = CMD_WARNING_CONFIG_FAILED

instance (ret : ℤ) : Decidable (Settled ret) := inferInstanceAs (Decidable (_ ∨ _))

/-- A command with the words of its line. A handler that moves to another node returns one of
the settled results. -/
structure CmdElement where
  daemon : Bool
  func : Vty → ℤ × Vty
  keeps_node : ∀ vty, ¬ Settled (func vty).1 → (func vty).2.node = vty.node

inductive MatcherError where
  | incomplete | ambiguous | noMatch

def MatcherError.code : MatcherError → ℤ
  | incomplete => CMD_ERR_INCOMPLETE
  | ambiguous => CMD_ERR_AMBIGUOUS
  | noMatch => CMD_ERR_NO_MATCH

/-- What `command_match` finds for a line in the graph of a node. -/
abbrev Graphs := ℤ → List Text → Except MatcherError CmdElement

/-- The node whose graph is searched. -/
def vectorSlot (t : NodeTables) (node : ℤ) : Except Fault CmdNode :=
  match if 0 ≤ node then t.cmdvec node.toNat else none with
  | none => .error .segv
  | some cnode => .ok cnode

def cmdExecuteCommandReal (t : NodeTables) (g : Graphs) (vline : List Text) (vty : Vty) :
    Except Fault (ℤ × Vty) := do
  let _ ← vectorSlot t vty.node
  match g vty.node vline with
  | .error status => pure (status.code, vty)
  | .ok element =>
    if element.daemon then pure (CMD_SUCCESS_DAEMON, vty) else pure (element.func vty)

/-- How the loop over the parents ends. -/
inductive ClimbEnd where
  | running
  | returned (ret : ℤ) (vty : Vty)
  | exhausted (vty : Vty)

/-- The loop of `cmd_execute_command`, for at most this number of rounds. -/
def climb (t : NodeTables) (g : Graphs) (vline : List Text) : ℕ → ℤ → Vty → Except Fault ClimbEnd
  | 0, _, _ => .ok .running
  | rounds + 1, tryNode, vty =>
    if CONFIG_NODE < vty.node then do
      let tryNode ← nodeParent t tryNode
      let (ret, vty) ← cmdExecuteCommandReal t g vline (vty.up tryNode)
      if Settled ret then pure (.returned ret vty) else climb t g vline rounds tryNode vty
    else .ok (.exhausted vty)

def cmdTryDoShortcut (node : ℤ) (firstWord : Option Text) : Bool :=
  node ≠ AUTH_NODE ∧ node ≠ VIEW_NODE ∧ node ≠ AUTH_ENABLE_NODE ∧ firstWord = some "do".toList

def cmdExecuteCommand (t : NodeTables) (g : Graphs) (rounds : ℕ) (vline : List Text) (vty : Vty)
    (vtysh : Bool) : Except Fault (Option (ℤ × Vty)) :=
  if cmdTryDoShortcut vty.node vline.head? then do
    let (ret, _) ← cmdExecuteCommandReal t g vline.tail ⟨ENABLE_NODE, 0⟩
    pure (some (ret, vty))
  else do
    let (ret, tried) ← cmdExecuteCommandReal t g vline vty
    if vtysh ∨ Settled ret then pure (some (ret, tried))
    else
      match ← climb t g vline rounds vty.node tried with
      | .running => pure none
      | .returned ret vty => pure (some (ret, vty))
      | .exhausted _ => pure (some (ret, vty))

/-! ### What the installs leave -/

/-- The tables after these nodes were installed, with their numbers, the last one first. -/
structure Installed (t : NodeTables) (done : List (Text × ℤ)) : Prop where
  seven_le : 7 ≤ t.nodeTypeMax
  named : ∀ i < t.nodeTypeMax, ∃ s, t.nodeNames i = some s ∧
    (s ∈ builtinNames ∨ s ∈ done.map Prod.fst)
  names_injective : ∀ i < t.nodeTypeMax, ∀ j < t.nodeTypeMax,
    t.nodeNames i = t.nodeNames j → i = j
  given : ∀ p ∈ done, ∃ i : ℕ, p.2 = i ∧ 7 ≤ i ∧ i < t.nodeTypeMax ∧ t.nodeNames i = some p.1
  listed : ∀ i, 7 ≤ i → i < t.nodeTypeMax → (i : ℤ) ∈ done.map Prod.snd
  parents : ∀ i, 7 ≤ i → i < t.nodeTypeMax →
    t.parents i = CONFIG_NODE ∨ ∃ j : ℕ, t.parents i = j ∧ 7 ≤ j ∧ j < i
  vty_parent : t.parents 6 = CONFIG_NODE
  builtin_installed : ∀ i < 7, i ≠ 5 → t.cmdvec i ≠ none
  installed : ∀ i, 7 ≤ i → i < t.nodeTypeMax → t.cmdvec i ≠ none

theorem installed_init : Installed .init [] where
  seven_le := le_rfl
  named := by
    intro i hi
    exact ⟨builtinNames.get ⟨i, hi⟩, List.getElem?_eq_getElem hi, Or.inl (List.getElem_mem hi)⟩
  names_injective := by
    intro i hi j hj hij
    have hnodup : builtinNames.Nodup := by decide
    exact (List.getElem?_inj hi hnodup).mp hij
  given p hp := absurd hp List.not_mem_nil
  listed i hi hlt := absurd hlt (not_lt.mpr hi)
  parents i hi hlt := absurd hlt (not_lt.mpr hi)
  vty_parent := rfl
  builtin_installed := by decide
  installed i hi hlt := absurd hlt (not_lt.mpr hi)

section Install

variable {t : NodeTables} {done : List (Text × ℤ)} {node : VuiNode}

/-- The tables after one more install. -/
def NodeTables.extended (t : NodeTables) (node : VuiNode) : NodeTables where
  nodeTypeMax := t.nodeTypeMax + 1
  nodeNames := Function.update t.nodeNames t.nodeTypeMax (some node.name)
  parents := Function.update t.parents t.nodeTypeMax node.parent
  cmdvec := Function.update t.cmdvec t.nodeTypeMax (some ⟨t.nodeTypeMax, node.prompt, 1⟩)

theorem vuiNodeInstall_eq (hroom : t.nodeTypeMax < nodeTypeLimit) :
    vuiNodeInstall t node = .ok (t.extended node, t.nodeTypeMax) := by
  unfold vuiNodeInstall allocNewNodeId
  rw [if_pos hroom]
  rfl

theorem nodeNames_extended_of_lt {i : ℕ} (hi : i < t.nodeTypeMax) :
    (t.extended node).nodeNames i = t.nodeNames i := Function.update_of_ne hi.ne _ _

theorem nodeNames_extended_self : (t.extended node).nodeNames t.nodeTypeMax = some node.name :=
  Function.update_self ..

theorem Installed.ne_of_new (h : Installed t done) (hbuiltin : node.name ∉ builtinNames)
    (hnew : node.name ∉ done.map Prod.fst) {i : ℕ} (hi : i < t.nodeTypeMax) :
    t.nodeNames i ≠ some node.name := by
  obtain ⟨s, hs, hmem⟩ := h.named i hi
  rw [hs]
  rintro hc
  rw [Option.some.inj hc] at hmem
  exact hmem.elim hbuiltin hnew

theorem Installed.names_injective_extended (h : Installed t done)
    (hbuiltin : node.name ∉ builtinNames) (hnew : node.name ∉ done.map Prod.fst) :
    ∀ i < t.nodeTypeMax + 1, ∀ j < t.nodeTypeMax + 1,
      (t.extended node).nodeNames i = (t.extended node).nodeNames j → i = j := by
  intro i hi j hj hij
  rcases Nat.lt_succ_iff_lt_or_eq.mp hi with hi | rfl <;>
    rcases Nat.lt_succ_iff_lt_or_eq.mp hj with hj | rfl
  · rw [nodeNames_extended_of_lt hi, nodeNames_extended_of_lt hj] at hij
    exact h.names_injective i hi j hj hij
  · rw [nodeNames_extended_of_lt hi, nodeNames_extended_self] at hij
    exact absurd hij (h.ne_of_new hbuiltin hnew hi)
  · rw [nodeNames_extended_of_lt hj, nodeNames_extended_self] at hij
    exact absurd hij.symm (h.ne_of_new hbuiltin hnew hj)
  · rfl

theorem Installed.parent_lt (h : Installed t done)
    (hparent : node.parent = CONFIG_NODE ∨ node.parent ∈ done.map Prod.snd) :
    node.parent = CONFIG_NODE ∨ ∃ j : ℕ, node.parent = j ∧ 7 ≤ j ∧ j < t.nodeTypeMax := by
  rcases hparent with hconfig | hmem
  · exact Or.inl hconfig
  · obtain ⟨p, hp, hid⟩ := List.mem_map.mp hmem
    obtain ⟨j, hj, hseven, hlt, -⟩ := h.given p hp
    exact Or.inr ⟨j, hid.symm.trans hj, hseven, hlt⟩

theorem Installed.extended (h : Installed t done) (hbuiltin : node.name ∉ builtinNames)
    (hnew : node.name ∉ done.map Prod.fst)
    (hparent : node.parent = CONFIG_NODE ∨ node.parent ∈ done.map Prod.snd) :
    Installed (t.extended node) ((node.name, (t.nodeTypeMax : ℤ)) :: done) where
  seven_le := h.seven_le.trans (Nat.le_succ _)
  named := by
    intro i hi
    rcases Nat.lt_succ_iff_lt_or_eq.mp hi with hi | rfl
    · obtain ⟨s, hs, hmem⟩ := h.named i hi
      refine ⟨s, (nodeNames_extended_of_lt hi).trans hs, hmem.imp_right fun hmem => ?_⟩
      exact List.mem_cons_of_mem _ hmem
    · exact ⟨node.name, nodeNames_extended_self, Or.inr List.mem_cons_self⟩
  names_injective := h.names_injective_extended hbuiltin hnew
  given := by
    intro p hp
    rcases List.mem_cons.mp hp with rfl | hp
    · exact ⟨t.nodeTypeMax, rfl, h.seven_le, Nat.lt_succ_self _, nodeNames_extended_self⟩
    · obtain ⟨i, hid, hseven, hlt, hname⟩ := h.given p hp
      exact ⟨i, hid, hseven, hlt.trans (Nat.lt_succ_self _),
        (nodeNames_extended_of_lt hlt).trans hname⟩
  listed := by
    intro i hseven hi
    rcases Nat.lt_succ_iff_lt_or_eq.mp hi with hi | rfl
    · exact List.mem_cons_of_mem _ (h.listed i hseven hi)
    · exact List.mem_cons_self
  parents := by
    intro i hseven hi
    rcases Nat.lt_succ_iff_lt_or_eq.mp hi with hi | rfl
    · have hsame : (t.extended node).parents i = t.parents i := Function.update_of_ne hi.ne _ _
      rw [hsame]
      exact h.parents i hseven hi
    · have hself : (t.extended node).parents t.nodeTypeMax = node.parent :=
        Function.update_self ..
      rw [hself]
      exact h.parent_lt hparent
  vty_parent := (Function.update_of_ne (Nat.lt_of_succ_le h.seven_le).ne _ _).trans h.vty_parent
  builtin_installed := by
    intro i hi hfive
    have hne : i ≠ t.nodeTypeMax := (hi.trans_le h.seven_le).ne
    have hsame : (t.extended node).cmdvec i = t.cmdvec i := Function.update_of_ne hne _ _
    rw [hsame]
    exact h.builtin_installed i hi hfive
  installed := by
    intro i hseven hi
    rcases Nat.lt_succ_iff_lt_or_eq.mp hi with hi | rfl
    · have hsame : (t.extended node).cmdvec i = t.cmdvec i := Function.update_of_ne hi.ne _ _
      rw [hsame]
      exact h.installed i hseven hi
    · have hself : (t.extended node).cmdvec t.nodeTypeMax =
          some ⟨t.nodeTypeMax, node.prompt, 1⟩ := Function.update_self ..
      rw [hself]
      exact Option.some_ne_none _

end Install

/-- Calls that keep to the rules of the tables: new names, known parents and room. -/
structure Admissible (nodes : List VuiNode) : Prop where
  names_nodup : (nodes.map VuiNode.name).Nodup
  names_new : ∀ node ∈ nodes, node.name ∉ builtinNames
  parents_known : ParentsKnown .init [] nodes
  room : 7 + nodes.length ≤ nodeTypeLimit

theorem Installed.installAll {nodes : List VuiNode} {t : NodeTables} {done : List (Text × ℤ)}
    (h : Installed t done) (hnodup : (nodes.map VuiNode.name).Nodup)
    (hnew : ∀ node ∈ nodes, node.name ∉ builtinNames ∧ node.name ∉ done.map Prod.fst)
    (hparents : ParentsKnown t (done.map Prod.snd) nodes)
    (hroom : t.nodeTypeMax + nodes.length ≤ nodeTypeLimit) :
    ∃ t' ids, Vui.installAll t nodes = .ok (t', ids) ∧ ids.length = nodes.length ∧
      t'.nodeTypeMax ≤ nodeTypeLimit ∧
      Installed t' (((nodes.map VuiNode.name).zip ids).reverse ++ done) := by
  induction nodes generalizing t done with
  | nil => exact ⟨t, [], rfl, rfl, hroom, h⟩
  | cons node nodes ih =>
    obtain ⟨hfirst, hnodup⟩ := List.nodup_cons.mp hnodup
    obtain ⟨⟨hbuiltin, hdone⟩, hnew⟩ := List.forall_mem_cons.mp hnew
    rw [List.length_cons] at hroom
    have hinstall : vuiNodeInstall t node = .ok (t.extended node, t.nodeTypeMax) :=
      vuiNodeInstall_eq (by omega)
    have hnext := h.extended hbuiltin hdone hparents.1
    have hnew' : ∀ other ∈ nodes, other.name ∉ builtinNames ∧
        other.name ∉ ((node.name, (t.nodeTypeMax : ℤ)) :: done).map Prod.fst := by
      intro other hother
      refine ⟨(hnew other hother).1, fun hmem => ?_⟩
      rcases List.mem_cons.mp hmem with heq | hmem
      · have hother' : other.name ∈ nodes.map VuiNode.name := List.mem_map_of_mem hother
        rw [heq] at hother'
        exact hfirst hother'
      · exact (hnew other hother).2 hmem
    obtain ⟨t', ids, hall, hlength, hlimit, hinstalled⟩ := ih hnext hnodup hnew'
      (hparents.2 _ _ hinstall) (by
        have hmax : (t.extended node).nodeTypeMax = t.nodeTypeMax + 1 := rfl
        omega)
    refine ⟨t', t.nodeTypeMax :: ids, ?_, by simp [hlength], hlimit, ?_⟩
    · rw [Vui.installAll, hinstall, ok_bind]
      dsimp only
      rw [hall]
      rfl
    · rw [List.map_cons, List.zip_cons_cons, List.reverse_cons, List.append_assoc]
      exact hinstalled

theorem Admissible.installed {nodes : List VuiNode} (h : Admissible nodes) :
    ∃ t ids, Vui.installAll .init nodes = .ok (t, ids) ∧ ids.length = nodes.length ∧
      t.nodeTypeMax ≤ nodeTypeLimit ∧
      Installed t ((nodes.map VuiNode.name).zip ids).reverse := by
  have hnew : ∀ node ∈ nodes, node.name ∉ builtinNames ∧
      node.name ∉ ([] : List (Text × ℤ)).map Prod.fst :=
    fun node hmem => ⟨h.names_new node hmem, List.not_mem_nil⟩
  obtain ⟨t, ids, hall, hlength, hlimit, hinstalled⟩ :=
    installed_init.installAll h.names_nodup hnew h.parents_known h.room
  rw [List.append_nil] at hinstalled
  exact ⟨t, ids, hall, hlength, hlimit, hinstalled⟩

/-! ### Finding a node -/

theorem findNodeIdFrom_of_first {t : NodeTables} {name : Text} {k left i : ℕ} (hi : i ≤ k)
    (hk : k < i + left) (hname : t.nodeNames k = some name)
    (hbefore : ∀ j < k, ∃ s, t.nodeNames j = some s ∧ s ≠ name) :
    findNodeIdFrom t name left i = .ok k := by
  induction left generalizing i with
  | zero => exact absurd hk (not_lt.mpr hi)
  | succ left ih =>
    rw [findNodeIdFrom]
    rcases hi.eq_or_lt with rfl | hlt
    · rw [hname]
      exact if_pos rfl
    · obtain ⟨s, hs, hne⟩ := hbefore i hlt
      rw [hs]
      exact (if_neg hne).trans (ih hlt (by omega))

theorem Installed.find {t : NodeTables} {done : List (Text × ℤ)} (h : Installed t done)
    {name : Text} {id : ℤ} (hmem : (name, id) ∈ done) : findNodeIdByName t name = .ok id := by
  obtain ⟨i, hid, -, hlt, hname⟩ := h.given _ hmem
  have hbefore : ∀ j < i, ∃ s, t.nodeNames j = some s ∧ s ≠ name := by
    intro j hj
    obtain ⟨s, hs, -⟩ := h.named j (hj.trans hlt)
    refine ⟨s, hs, ?_⟩
    rintro rfl
    exact hj.ne (h.names_injective j (hj.trans hlt) i hlt (hs.trans hname.symm))
  have hfind : findNodeIdFrom t name t.nodeTypeMax 0 = .ok i :=
    findNodeIdFrom_of_first (Nat.zero_le i) (by omega) hname hbefore
  exact hfind.trans (congrArg Except.ok hid.symm)

/-! ### The way up -/

section Climb

variable {t : NodeTables} {done : List (Text × ℤ)}

theorem Installed.nodeParent_eq (hlimit : t.nodeTypeMax ≤ nodeTypeLimit) {i : ℕ}
    (hi : i < t.nodeTypeMax) : nodeParent t i = .ok (t.parents i) := by
  unfold nodeParent
  rw [if_pos ⟨Int.natCast_nonneg i, Int.ofNat_lt.mpr (hi.trans_le hlimit)⟩]
  rfl

/-- The way up from an installed node has at most as many steps as the node's number. -/
theorem Installed.leadsUp (h : Installed t done) (hlimit : t.nodeTypeMax ≤ nodeTypeLimit) {i : ℕ}
    (hseven : 7 ≤ i) (hi : i < t.nodeTypeMax) :
    ∃ path, path.length ≤ i ∧ LeadsUp t (done.map Prod.snd) i path := by
  -- the parent of an installed node has a smaller number
  induction i using Nat.strongRecOn with
  | _ i ih =>
    have hup := Installed.nodeParent_eq hlimit hi
    rcases h.parents i hseven hi with hconfig | ⟨j, hj, hj7, hlt⟩
    · rw [hconfig] at hup
      exact ⟨[CONFIG_NODE], (by decide : 1 ≤ 7).trans hseven, .step (h.listed i hseven hi) hup .top⟩
    · obtain ⟨path, hpath, hrest⟩ := ih j hlt hj7 (hlt.trans hi)
      rw [hj] at hup
      exact ⟨j :: path, hpath.trans_lt hlt, .step (h.listed i hseven hi) hup hrest⟩

/-- What a try of a command at the node of the terminal gives, and where it leaves the terminal. -/
inductive Tried (g : Graphs) (vline : List Text) (vty : Vty) : ℤ → Vty → Prop where
  | mismatch {status : MatcherError} (missed : g vty.node vline = .error status) :
      Tried g vline vty status.code vty
  | daemon {element : CmdElement} (found : g vty.node vline = .ok element)
      (daemon : element.daemon = true) : Tried g vline vty CMD_SUCCESS_DAEMON vty
  | handled {element : CmdElement} (found : g vty.node vline = .ok element)
      (own : element.daemon = false) : Tried g vline vty (element.func vty).1 (element.func vty).2

/-- The loop has gone up these nodes one by one: it has returned what the command gave at the
first of them where it was settled, or come to an end with the terminal at `CONFIG_NODE`. -/
inductive ClimbEnd.Ended (g : Graphs) (vline : List Text) : List ℤ → Vty → ClimbEnd → Prop where
  | exhausted {vty : Vty} (top : vty.node = CONFIG_NODE) : Ended g vline [] vty (.exhausted vty)
  | returned {node : ℤ} {path : List ℤ} {vty vty' : Vty} {ret : ℤ}
      (tried : Tried g vline (vty.up node) ret vty') (settled : Settled ret) :
      Ended g vline (node :: path) vty (.returned ret vty')
  | next {node : ℤ} {path : List ℤ} {vty vty' : Vty} {ret : ℤ} {r : ClimbEnd}
      (tried : Tried g vline (vty.up node) ret vty') (unsettled : ¬ Settled ret)
      (rest : Ended g vline path vty' r) : Ended g vline (node :: path) vty r

theorem Tried.keeps_node {g : Graphs} {vline : List Text} {vty vty' : Vty} {ret : ℤ}
    (h : Tried g vline vty ret vty') (hopen : ¬ Settled ret) : vty'.node = vty.node := by
  cases h with
  | mismatch => rfl
  | daemon => rfl
  | @handled element => exact element.keeps_node vty hopen

theorem Tried.eq_of_found {g : Graphs} {vline : List Text} {vty vty' : Vty} {ret : ℤ}
    (h : Tried g vline vty ret vty') {element : CmdElement} (hfound : g vty.node vline = .ok element)
    (hown : element.daemon = false) : (ret, vty') = element.func vty := by
  cases h with
  | mismatch missed => cases missed.symm.trans hfound
  | daemon found daemon =>
    cases found.symm.trans hfound
    rw [hown] at daemon
    cases daemon
  | handled found =>
    cases found.symm.trans hfound
    rfl

theorem Tried.unsettled {g : Graphs} {vline : List Text} {vty vty' : Vty} {ret : ℤ}
    (h : Tried g vline vty ret vty') (hno : ∀ element, g vty.node vline ≠ .ok element) :
    ¬ Settled ret := by
  cases h with
  | @mismatch status missed => cases status <;> decide
  | daemon found => exact absurd found (hno _)
  | handled found => exact absurd found (hno _)

theorem ClimbEnd.Ended.ne_running {g : Graphs} {vline : List Text} {path : List ℤ} {vty : Vty}
    {r : ClimbEnd} (h : Ended g vline path vty r) : r ≠ .running := by
  induction h with
  | exhausted => simp
  | returned => simp
  | next _ _ _ ih => exact ih

theorem ClimbEnd.Ended.settled {g : Graphs} {vline : List Text} {path : List ℤ} {vty vty' : Vty}
    {ret : ℤ} (h : Ended g vline path vty (.returned ret vty')) : Settled ret := by
  generalize hr : ClimbEnd.returned ret vty' = r at h
  induction h with
  | exhausted => cases hr
  | returned _ settled =>
    cases hr
    exact settled
  | next _ _ _ ih => exact ih hr

/-- Where the line matches at none of the nodes the loop goes all the way up. -/
theorem ClimbEnd.Ended.exhausted_of_no_match {g : Graphs} {vline : List Text} {path : List ℤ}
    {vty : Vty} {r : ClimbEnd} (h : Ended g vline path vty r)
    (hno : ∀ node ∈ path, ∀ element, g node vline ≠ .ok element) :
    ∃ vty', r = .exhausted vty' ∧ vty'.node = CONFIG_NODE := by
  induction h with
  | @exhausted vty top => exact ⟨vty, rfl, top⟩
  | returned tried settled => exact absurd settled (tried.unsettled (hno _ List.mem_cons_self))
  | next _ _ _ ih => exact ih fun node hmem => hno node (List.mem_cons_of_mem _ hmem)

theorem cmdExecuteCommandReal_tried (g : Graphs) (vline : List Text) {vty : Vty} {i : ℕ}
    (hi : vty.node = i) (hslot : t.cmdvec i ≠ none) :
    ∃ ret vty', cmdExecuteCommandReal t g vline vty = .ok (ret, vty') ∧
      Tried g vline vty ret vty' := by
  obtain ⟨cnode, hcnode⟩ := Option.ne_none_iff_exists'.mp hslot
  have hfound : vectorSlot t vty.node = .ok cnode := by
    unfold vectorSlot
    rw [hi, if_pos (Int.natCast_nonneg i), Int.toNat_natCast, hcnode]
  unfold cmdExecuteCommandReal
  rw [hfound, ok_bind]
  cases hfind : g vty.node vline with
  | error status => exact ⟨_, _, rfl, .mismatch hfind⟩
  | ok element =>
    dsimp only
    split
    · rename_i hdaemon
      exact ⟨_, _, rfl, .daemon hfind hdaemon⟩
    · rename_i hown
      exact ⟨_, _, rfl, .handled hfind (Bool.eq_false_iff.mpr hown)⟩

theorem Installed.of_mem (h : Installed t done) {id : ℤ} (hid : id ∈ done.map Prod.snd) :
    ∃ i : ℕ, id = i ∧ 7 ≤ i ∧ i < t.nodeTypeMax := by
  obtain ⟨p, hp, rfl⟩ := List.mem_map.mp hid
  obtain ⟨i, hi, hseven, hlt, -⟩ := h.given p hp
  exact ⟨i, hi, hseven, hlt⟩

theorem Installed.slot (h : Installed t done) {node : ℤ} {path : List ℤ}
    (hup : LeadsUp t (done.map Prod.snd) node path) : ∃ i : ℕ, node = i ∧ t.cmdvec i ≠ none := by
  cases hup with
  | top => exact ⟨4, rfl, h.builtin_installed 4 (by decide) (by decide)⟩
  | step hmem _ _ =>
    obtain ⟨i, hi, hseven, hlt⟩ := h.of_mem hmem
    exact ⟨i, hi, h.installed i hseven hlt⟩

theorem Installed.climb_ends (h : Installed t done) (g : Graphs) (vline : List Text) {node : ℤ}
    {path : List ℤ} (hup : LeadsUp t (done.map Prod.snd) node path) {rounds : ℕ}
    (hrounds : path.length < rounds) {vty : Vty} (hvty : vty.node = node) :
    ∃ r, climb t g vline rounds node vty = .ok r ∧ r.Ended g vline path vty := by
  -- along the way up, with a round for each of its steps and one to see the end
  induction hup generalizing rounds vty with
  | top =>
    obtain ⟨rounds, rfl⟩ : ∃ m, rounds = m + 1 := ⟨rounds - 1, by omega⟩
    refine ⟨.exhausted vty, ?_, .exhausted hvty⟩
    rw [climb, if_neg (by rw [hvty]; exact lt_irrefl _)]
  | @step node parent path hmem hparent hrest ih =>
    rw [List.length_cons] at hrounds
    obtain ⟨rounds, rfl⟩ : ∃ m, rounds = m + 1 := ⟨rounds - 1, by omega⟩
    obtain ⟨i, hi, hseven, -⟩ := h.of_mem hmem
    have habove : CONFIG_NODE < vty.node := by
      rw [hvty, hi, CONFIG_NODE]
      omega
    obtain ⟨j, hj, hslot⟩ := h.slot hrest
    have hnode : (vty.up parent).node = j := hj
    obtain ⟨ret, tried, hreal, htried⟩ := cmdExecuteCommandReal_tried g vline hnode hslot
    rw [climb, if_pos habove, hparent, ok_bind, hreal, ok_bind]
    dsimp only
    split
    · rename_i hsettled
      exact ⟨_, rfl, .returned htried hsettled⟩
    · rename_i hsettled
      obtain ⟨r, hclimb, hended⟩ := ih (show path.length < rounds by omega)
        (htried.keeps_node hsettled)
      exact ⟨r, hclimb, .next htried hsettled hended⟩

theorem Installed.cmdExecuteCommand_returns (h : Installed t done)
    (hlimit : t.nodeTypeMax ≤ nodeTypeLimit) (g : Graphs) (vline : List Text) {vty : Vty}
    (hvty : vty.node ∈ done.map Prod.snd) (vtysh : Bool) {rounds : ℕ}
    (hrounds : nodeTypeLimit ≤ rounds) :
    ∃ ret vty', cmdExecuteCommand t g rounds vline vty vtysh = .ok (some (ret, vty')) ∧
      (¬ Settled ret → vty'.node = vty.node) := by
  obtain ⟨i, hi, hseven, hlt⟩ := h.of_mem hvty
  unfold cmdExecuteCommand
  split
  · obtain ⟨ret, tried, hreal, -⟩ := cmdExecuteCommandReal_tried g vline.tail
      (rfl : (⟨ENABLE_NODE, 0⟩ : Vty).node = (3 : ℕ)) (h.builtin_installed 3 (by decide) (by decide))
    exact ⟨ret, vty, by rw [hreal]; rfl, fun _ => rfl⟩
  · obtain ⟨ret, tried, hreal, htried⟩ :=
      cmdExecuteCommandReal_tried g vline hi (h.installed i hseven hlt)
    rw [hreal, ok_bind]
    dsimp only
    split
    · exact ⟨ret, tried, rfl, htried.keeps_node⟩
    · rename_i hopen
      obtain ⟨path, hpath, hup⟩ := h.leadsUp hlimit hseven hlt
      have hstays := htried.keeps_node fun hsettled => hopen (Or.inr hsettled)
      rw [hi] at hstays ⊢
      obtain ⟨r, hclimb, hended⟩ := h.climb_ends g vline hup (by omega : path.length < rounds)
        hstays
      rw [hclimb, ok_bind]
      cases r with
      | running => exact absurd rfl hended.ne_running
      | returned ret' vty' => exact ⟨ret', vty', rfl, fun hopen => absurd hended.settled hopen⟩
      | exhausted vty' => exact ⟨ret, vty, rfl, fun _ => hi⟩

theorem LeadsUp.unique {ids ids' : List ℤ} {node : ℤ} {path path' : List ℤ}
    (hconfig : CONFIG_NODE ∉ ids) (hconfig' : CONFIG_NODE ∉ ids') (h : LeadsUp t ids node path)
    (h' : LeadsUp t ids' node path') : path = path' := by
  induction h generalizing path' with
  | top =>
    cases h' with
    | top => rfl
    | step hmem => exact absurd hmem hconfig'
  | step hmem hup _ ih =>
    cases h' with
    | top => exact absurd hmem hconfig
    | step _ hup' rest =>
      cases hup.symm.trans hup'
      rw [ih rest]

theorem LeadsUp.of_subset {ids ids' : List ℤ} (hsub : ∀ id ∈ ids, id ∈ ids') {node : ℤ}
    {path : List ℤ} (h : LeadsUp t ids node path) : LeadsUp t ids' node path := by
  induction h with
  | top => exact .top
  | step hmem hup _ ih => exact .step (hsub _ hmem) hup ih

end Climb

/-- After any admissible sequence of installs every name is found with the number it was given,
from every installed node the parents lead to `CONFIG_NODE` over installed nodes, and the loop that
tries a command at the parents goes this way: it returns what the command gives at the first of
them where it is settled, and ends at `CONFIG_NODE` where the line matches at none of them. -/
theorem installed_nodes_lead_to_config (nodes : List VuiNode) (h : Admissible nodes) :
    ∃ t ids, installAll .init nodes = .ok (t, ids) ∧ ids.length = nodes.length ∧
      (∀ p ∈ nodes.zip ids, findNodeIdByName t p.1.name = .ok p.2) ∧
      ∀ id ∈ ids, ∃ path, path.length < nodeTypeLimit ∧ LeadsUp t ids id path ∧
        ∀ g vline vty, vty.node = id → ∀ rounds, nodeTypeLimit ≤ rounds →
          ∃ r, climb t g vline rounds id vty = .ok r ∧ r.Ended g vline path vty ∧
            ((∀ node ∈ path, ∀ element, g node vline ≠ .ok element) →
              ∃ vty', r = .exhausted vty' ∧ vty'.node = CONFIG_NODE) := by
  obtain ⟨t, ids, hall, hlength, hlimit, hinstalled⟩ := h.installed
  have hids : (((nodes.map VuiNode.name).zip ids).reverse).map Prod.snd = ids.reverse := by
    rw [List.map_reverse, List.map_snd_zip (by rw [List.length_map, hlength])]
  refine ⟨t, ids, hall, hlength, ?_, ?_⟩
  · rintro ⟨node, id⟩ hp
    have hmem : (node.name, id) ∈ ((nodes.map VuiNode.name).zip ids).reverse := by
      rw [List.mem_reverse, List.zip_map_left]
      exact List.mem_map_of_mem hp
    exact hinstalled.find hmem
  · intro id hid
    have hmem : id ∈ (((nodes.map VuiNode.name).zip ids).reverse).map Prod.snd := by
      rw [hids]
      exact List.mem_reverse.mpr hid
    obtain ⟨i, rfl, hseven, hlt⟩ := hinstalled.of_mem hmem
    obtain ⟨path, hpath, hup⟩ := hinstalled.leadsUp hlimit hseven hlt
    have hbound : path.length < nodeTypeLimit := by omega
    refine ⟨path, hbound, ?_, fun g vline vty hvty rounds hrounds => ?_⟩
    · rw [hids] at hup
      exact hup.of_subset fun id hid => List.mem_reverse.mp hid
    · obtain ⟨r, hclimb, hended⟩ :=
        hinstalled.climb_ends g vline hup (hbound.trans_le hrounds) hvty
      exact ⟨r, hclimb, hended, hended.exhausted_of_no_match⟩

def twoNodes : List VuiNode := [⟨CONFIG_NODE, "netlink".toList, "%s(config-netlink)# ".toList⟩,
  ⟨7, "tap".toList, "%s(config-tap)# ".toList⟩]

theorem admissible_two : Admissible twoNodes where
  names_nodup := by decide
  names_new := by decide
  parents_known := by
    refine ⟨Or.inl rfl, fun t id hinstall => ⟨Or.inr ?_, fun _ _ _ => trivial⟩⟩
    rw [vuiNodeInstall_eq (by decide)] at hinstall
    cases hinstall
    exact List.mem_cons_self
  room := by decide

def exitElement : CmdElement where
  daemon := false
  func vty := (CMD_SUCCESS, ⟨CONFIG_NODE, vty.xpathIndex⟩)
  keeps_node _ hopen := absurd (Or.inl rfl) hopen

def stayElement : CmdElement where
  daemon := false
  func vty := (CMD_ERR_INCOMPLETE, vty)
  keeps_node _ _ := rfl

def exitGraphs : Graphs := fun node vline =>
  if vline ≠ ["exit".toList] then .error .noMatch
  else if node = CONFIG_NODE then .ok exitElement
  else if node = 7 then .ok stayElement
  else .error .noMatch

/-- From the second node `exit` is done at `CONFIG_NODE`, and another line nowhere. -/
theorem installed_nodes_lead_to_config_two :
    ∃ t, installAll .init twoNodes = .ok (t, [7, 8]) ∧
      findNodeIdByName t "tap".toList = .ok 8 ∧ LeadsUp t [7, 8] 8 [7, CONFIG_NODE] ∧
      climb t exitGraphs ["exit".toList] 256 8 ⟨8, 1⟩ = .ok (.returned CMD_SUCCESS ⟨CONFIG_NODE, 0⟩) ∧
      ∃ vty, climb t exitGraphs ["quit".toList] 256 8 ⟨8, 1⟩ = .ok (.exhausted vty) ∧
        vty.node = CONFIG_NODE := by
  obtain ⟨t, ids, hall, -, hfind, hup⟩ := installed_nodes_lead_to_config twoNodes admissible_two
  have htables : ∃ t', installAll .init twoNodes = .ok (t', [7, 8]) ∧
      nodeParent t' 8 = .ok 7 ∧ nodeParent t' 7 = .ok CONFIG_NODE := ⟨_, rfl, rfl, rfl⟩
  obtain ⟨t', hall', hparent, hparent'⟩ := htables
  cases hall.symm.trans hall'
  obtain ⟨path, -, hpath, hclimb⟩ := hup 8 (by simp)
  have hleads : LeadsUp t [7, 8] 8 [7, CONFIG_NODE] :=
    .step (by simp) hparent (.step (by simp) hparent' .top)
  cases LeadsUp.unique (by decide) (by decide) hpath hleads
  obtain ⟨r, hr, hended, -⟩ := hclimb exitGraphs ["exit".toList] ⟨8, 1⟩ rfl 256 le_rfl
  obtain ⟨r', hr', -, hexhausted⟩ := hclimb exitGraphs ["quit".toList] ⟨8, 1⟩ rfl 256 le_rfl
  obtain ⟨vty, rfl, hnode⟩ := hexhausted fun node _ element h => by cases h
  refine ⟨t, hall', hfind (⟨7, "tap".toList, "%s(config-tap)# ".toList⟩, 8) (by simp [twoNodes]),
    hleads, ?_, vty, hr', hnode⟩
  have hstay : exitGraphs 7 ["exit".toList] = .ok stayElement := rfl
  have hexit : exitGraphs CONFIG_NODE ["exit".toList] = .ok exitElement := rfl
  have hunsettled : ¬ Settled CMD_ERR_INCOMPLETE := by decide
  rw [hr]
  cases hended with
  | returned tried settled =>
    cases tried.eq_of_found hstay rfl
    exact absurd settled hunsettled
  | next tried _ rest =>
    cases tried.eq_of_found hstay rfl
    cases rest with
    | returned tried _ =>
      cases tried.eq_of_found hexit rfl
      rfl
    | next tried unsettled _ =>
      cases tried.eq_of_found hexit rfl
      exact absurd (Or.inl rfl) unsettled

end Routerd.Vui
