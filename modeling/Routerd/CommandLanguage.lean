import Routerd.CommandParse

/-!
# The lines a command accepts

A line can be derived in the graph of a command exactly when its words fit, one by one, the
occurrences of tokens in a word of the language of the command string, where no occurrence is
used twice but that of a placeholder with dots. So an alternative of a keyword set is taken at most
once, although its language repeats it. Such a line is executed unless its best derivations are tied.
-/

namespace Routerd.CommandMatch
open NumeralText Walks Computability Routerd.CommandMatch.Graph

variable {ε : Type}

/-! ### Routes and walks -/

def Graph.edge (g : Graph ε) (a b : ℕ) : Prop := b ∈ g.toNodes a

/-- The nodes whose tokens take a word or end the command. -/
def Graph.loud (g : Graph ε) (node : ℕ) : Bool :=
  match g.token node with
  | some token => !token.transparent
  | none => true

theorem loud_of_token {g : Graph ε} {node : ℕ} {token : CmdToken} (h : g.token node = some token) :
    g.loud node = !token.transparent := by
  simp [Graph.loud, h]

def trailNodes (trail : List (List ℕ × ℕ)) : List ℕ := trail.flatMap fun way => way.1 ++ [way.2]

def TakesAll (g : Graph ε) : List ℕ → List ℕ → List Text → Prop
  | _, [], [] => True
  | stack, n :: ns, w :: ws =>
    (∃ token, g.token n = some token ∧ Takes stack token n w) ∧ TakesAll g (n :: stack) ns ws
  | _, _, _ => False

theorem takesAll_nil {g : Graph ε} {stack : List ℕ} {words : List Text} :
    TakesAll g stack [] words ↔ words = [] := by
  cases words <;> simp [TakesAll]

theorem takesAll_cons {g : Graph ε} {stack ns : List ℕ} {n : ℕ} {words : List Text} :
    TakesAll g stack (n :: ns) words ↔ ∃ w ws token, words = w :: ws ∧
      g.token n = some token ∧ Takes stack token n w ∧ TakesAll g (n :: stack) ns ws := by
  cases words with
  | nil => simp [TakesAll]
  | cons w ws => simp [TakesAll, ← and_assoc]

theorem way_iff {g : Graph ε} {node last : ℕ} {via : List ℕ} :
    g.Way [] node via last ↔ Walk g.edge node (via ++ [last]) last ∧
      (∀ x ∈ via, g.loud x = false) ∧ ∃ token, g.token last = some token ∧
        token.transparent = false := by
  constructor
  · intro h
    induction h with
    | @stop node child token hedge hread _ hloud =>
      exact ⟨.cons hedge (.nil _), by simp, token, hread, hloud⟩
    | @pass node child last via token hedge hread _ hsilent _ ih =>
      obtain ⟨hwalk, hvia, hlast⟩ := ih
      refine ⟨.cons hedge hwalk, List.forall_mem_cons.mpr ⟨?_, hvia⟩, hlast⟩
      rw [loud_of_token hread, hsilent]
      rfl
  · rintro ⟨hwalk, hvia, token, hread, hloud⟩
    induction via generalizing node with
    | nil =>
      cases hwalk with
      | cons hedge _ => exact .stop hedge hread (.inr List.not_mem_nil) hloud
    | cons x via ih =>
      obtain ⟨hx, hvia⟩ := List.forall_mem_cons.mp hvia
      cases hwalk with
      | cons hedge hrest =>
        cases hread' : g.token x with
        | none => simp [Graph.loud, hread'] at hx
        | some token' =>
          refine .pass hedge hread' (.inr List.not_mem_nil) ?_ (ih hrest hvia)
          simpa [Graph.loud, hread'] using hx

theorem walk_append_cons {E : ℕ → ℕ → Prop} {a b n : ℕ} {xs ys : List ℕ}
    (h : Walk E a (xs ++ n :: ys) b) : Walk E a (xs ++ [n]) n ∧ Walk E n ys b := by
  induction xs generalizing a with
  | nil =>
    cases h with
    | cons edge rest => exact ⟨.cons edge (.nil _), rest⟩
  | cons x xs ih =>
    cases h with
    | cons edge rest => exact ⟨.cons edge (ih rest).1, (ih rest).2⟩

/-- A route is a walk to the end of a command whose loud nodes take the words. -/
theorem walk_of_route {g : Graph ε} {stack : List ℕ} {node : ℕ} {words : List Text}
    {trail : List (List ℕ × ℕ)} {found : ArgList ε} (h : g.Route stack node words trail found) :
    ∃ occ stop token, Walk g.edge node (trailNodes trail) stop ∧
      (trailNodes trail).filter g.loud = occ ++ [stop] ∧ g.token stop = some token ∧
      token.type = .endTkn ∧ TakesAll g stack (node :: occ) words ∧
      found.argv.map Prod.fst = (node :: occ).filterMap (fun n => (g.token n).map cmdTokenDup) ∧
      found.argv.map Prod.snd = words ∧
      ∃ leaf, (g.toNodes stop).head? = some leaf ∧ g.element leaf = some found.element := by
  have hfilter : ∀ {node last : ℕ} {via : List ℕ}, g.Way [] node via last →
      (via ++ [last]).filter g.loud = [last] := by
    intro node last via hway
    obtain ⟨-, hvia, token, hread, hloud⟩ := way_iff.mp hway
    rw [List.filter_append, List.filter_eq_nil_iff.mpr (by simpa using hvia)]
    simp [loud_of_token hread, hloud]
  induction h with
  | @finish stack node last leaf token stop word via el hread htakes hway hstop hend hleaf hel =>
    refine ⟨[], last, stop, ?_, ?_, hstop, hend, ⟨⟨token, hread, htakes⟩, trivial⟩, ?_, rfl, leaf,
      hleaf, hel⟩
    · simpa [trailNodes] using (way_iff.mp hway).1
    · simpa [trailNodes] using hfilter hway
    · simp [hread]
  | @step stack node next token word word' words via trail found hread htakes hway hrest ih =>
    obtain ⟨occ, stop, last, hwalk, hocc, hstop, hend, htake, hargv, hwords, hleaf⟩ := ih
    refine ⟨next :: occ, stop, last, ?_, ?_, hstop, hend, ⟨⟨token, hread, htakes⟩, htake⟩, ?_, ?_,
      hleaf⟩
    · simpa [trailNodes] using (way_iff.mp hway).1.append hwalk
    · rw [trailNodes, List.flatMap_cons, List.filter_append, hfilter hway]
      simpa [trailNodes] using hocc
    · simp only [List.map_cons, hargv, hread, List.filterMap_cons, Option.map_some]
    · simp [hwords]

theorem route_of_walk {g : Graph ε} {stop leaf : ℕ} {token : CmdToken} {el : ε}
    (hstop : g.token stop = some token) (hend : token.type = .endTkn)
    (hleaf : (g.toNodes stop).head? = some leaf) (hel : g.element leaf = some el)
    {stack occ : List ℕ} {node : ℕ} {words : List Text} {xs : List ℕ}
    (hwalk : Walk g.edge node xs stop) (hocc : xs.filter g.loud = occ ++ [stop])
    (htakes : TakesAll g stack (node :: occ) words) :
    ∃ trail found, g.Route stack node words trail found := by
  induction occ generalizing stack node words xs with
  | nil =>
    obtain ⟨via, rest, rfl, hvia, -, hrest⟩ := List.filter_eq_cons_iff.mp hocc
    obtain ⟨hway, -⟩ := walk_append_cons hwalk
    obtain ⟨word, ws, token', rfl, hread, htake, hnil⟩ := takesAll_cons.mp htakes
    obtain rfl := takesAll_nil.mp hnil
    refine ⟨[(via, stop)], _, .finish hread htake (way_iff.mpr ⟨hway, ?_, token, hstop, ?_⟩) hstop
      hend hleaf hel⟩
    · simpa using hvia
    · simp [CmdToken.transparent, hend]
  | cons next occ ih =>
    obtain ⟨via, rest, rfl, hvia, hloud, hrest⟩ := List.filter_eq_cons_iff.mp hocc
    obtain ⟨hway, hwalk⟩ := walk_append_cons hwalk
    obtain ⟨word, ws, token', rfl, hread, htake, htakes⟩ := takesAll_cons.mp htakes
    obtain ⟨trail, found, hroute⟩ := ih hwalk hrest htakes
    obtain ⟨word', ws, token'', rfl, hread', -, -⟩ := takesAll_cons.mp htakes
    refine ⟨(via, next) :: trail, _, .step hread htake (way_iff.mpr ⟨hway, ?_, token'', hread', ?_⟩)
      hroute⟩
    · simpa using hvia
    · simpa [loud_of_token hread'] using hloud

/-! ### The words that nodes take -/

def Graph.repeats (g : Graph ε) (node : ℕ) : Bool := (g.token node).any CmdToken.allowrepeat

def Graph.FitsAt (g : Graph ε) (node : ℕ) (word : Text) : Prop :=
  ∃ token, g.token node = some token ∧ Fits token word

theorem free_iff_of_token {g : Graph ε} {node : ℕ} {token : CmdToken}
    (h : g.token node = some token) (stack : List ℕ) :
    Free stack token node ↔ (g.repeats node = false → node ∉ stack) := by
  cases hrepeat : token.allowrepeat <;> simp [Free, Graph.repeats, h, hrepeat]

/-- The words fit, no node that may not repeat takes two of them, and the stack does not fill up. -/
theorem takesAll_iff {g : Graph ε} {stack occ : List ℕ} {words : List Text}
    (hstack : stack.length ≤ CMD_ARGC_MAX) :
    TakesAll g stack occ words ↔ List.Forall₂ g.FitsAt occ words ∧
      stack.length + occ.length ≤ CMD_ARGC_MAX ∧
      (occ.filter fun n => !g.repeats n).Nodup ∧
      ∀ n ∈ occ, g.repeats n = false → n ∉ stack := by
  induction occ generalizing stack words with
  | nil => simp [takesAll_nil, hstack]
  | cons n occ ih =>
    constructor
    · intro h
      obtain ⟨w, ws, token, rfl, hread, ⟨hfull, hfree, hfits⟩, hrest⟩ := takesAll_cons.mp h
      have hroom : (n :: stack).length ≤ CMD_ARGC_MAX := by
        rw [List.length_cons]
        omega
      obtain ⟨hall, hlen, hnodup, hout⟩ := (ih hroom).mp hrest
      refine ⟨.cons ⟨token, hread, hfits⟩ hall, ?_, ?_, ?_⟩
      · simp only [List.length_cons] at hlen ⊢
        omega
      · cases hrepeats : g.repeats n with
        | true => simpa [hrepeats] using hnodup
        | false =>
          simp only [List.filter_cons, hrepeats, Bool.not_false, if_true, List.nodup_cons]
          refine ⟨fun hmem => ?_, hnodup⟩
          exact hout n (List.mem_of_mem_filter hmem) hrepeats List.mem_cons_self
      · refine List.forall_mem_cons.mpr ⟨(free_iff_of_token hread stack).mp hfree, ?_⟩
        exact fun m hm hrepeats hin => hout m hm hrepeats (List.mem_cons_of_mem n hin)
    · rintro ⟨hall, hlen, hnodup, hout⟩
      cases hall with
      | @cons _ w _ ws hfits hall =>
        obtain ⟨token, hread, hfits⟩ := hfits
        simp only [List.length_cons] at hlen
        have hroom : (n :: stack).length ≤ CMD_ARGC_MAX := by
          rw [List.length_cons]
          omega
        obtain ⟨hn, hout⟩ := List.forall_mem_cons.mp hout
        refine takesAll_cons.mpr ⟨w, ws, token, rfl, hread,
          ⟨by omega, (free_iff_of_token hread stack).mpr hn, hfits⟩, (ih hroom).mpr
            ⟨hall, by rw [List.length_cons]; omega, ?_, ?_⟩⟩
        · exact hnodup.sublist ((List.sublist_cons_self n occ).filter _)
        · intro m hm hrepeats hin
          rcases List.mem_cons.mp hin with rfl | hin
          · have hmem : m ∈ occ.filter fun n => !g.repeats n :=
              List.mem_filter.mpr ⟨hm, by simp [hrepeats]⟩
            rw [List.filter_cons_of_pos (by simp [hrepeats])] at hnodup
            exact (List.nodup_cons.mp hnodup).1 hmem
          · exact hout m hm hrepeats hin

/-! ### The graph of a command -/

/-- The token of a command string that an occurrence stands for. -/
def CommandString.simpleToken (cmd : CommandString) (node : ℕ) : Option SimpleToken :=
  (cmd.layout ++ [cmd.variadic.map Subtype.val])[node]?.join

theorem SimpleToken.transparent_token (s : SimpleToken) (attr : CmdAttr) :
    (s.token attr).transparent = false := by
  simp [CmdToken.transparent, show (s.token attr).type = s.type from rfl, s.plain]

namespace Parsed
variable {attr : CmdAttr} {cmd : CommandString} {el : ε} {g : Graph ε}

theorem marks (h : Parsed attr cmd el g) : cmd.Marks g.loud where
  layout := by
    intro k o hk
    rw [Nat.zero_add]
    have hold := h.tokens k o hk
    cases o with
    | some s => rw [loud_of_token hold, s.transparent_token]; rfl
    | none =>
      obtain ⟨token, hread, hsilent, -⟩ := hold
      rw [loud_of_token hread, hsilent]
      rfl
  variadic := by
    intro hv
    obtain ⟨t, ht⟩ := Option.isSome_iff_exists.mp hv
    rw [loud_of_token (h.variadic t ht)]
    exact (congrArg not (t.1.transparent_token attr)).trans rfl

theorem token_endNode_succ (h : Parsed attr cmd el g) : g.token (cmd.endNode + 1) = none := by
  simp [Graph.token, h.element]

theorem silent_iff (h : Parsed attr cmd el g) {a b : ℕ} :
    g.Silent a b ↔ cmd.fragment.quietEdge g.loud a b := by
  constructor
  · rintro ⟨hedge, token, hread, hsilent⟩
    rcases (h.edges a b).mp hedge with hedge | ⟨-, rfl⟩ | ⟨-, rfl⟩
    · exact ⟨hedge, by rw [loud_of_token hread, hsilent]; rfl⟩
    · cases h.isEnd.symm.trans hread
      cases hsilent
    · cases h.token_endNode_succ.symm.trans hread
  · rintro ⟨hedge, hsilent⟩
    refine ⟨(h.edges a b).mpr (.inl hedge), ?_⟩
    cases hread : g.token b with
    | none => simp [Graph.loud, hread] at hsilent
    | some token => exact ⟨token, rfl, by simpa [Graph.loud, hread] using hsilent⟩

theorem token_of_lt (h : Parsed attr cmd el g) {node : ℕ} (hnode : node < cmd.endNode) :
    (∃ s, cmd.simpleToken node = some s ∧ ∃ allowrepeat, g.token node =
        some { s.token attr with allowrepeat := allowrepeat } ∧
        (allowrepeat = true ↔ cmd.layout.length ≤ node)) ∨
      (cmd.simpleToken node = none ∧ g.loud node = false ∧ (g.token node).isSome) := by
  by_cases hlt : node < cmd.layout.length
  · have hold := h.tokens node _ (List.getElem?_eq_getElem hlt)
    have hs : cmd.simpleToken node = cmd.layout[node] := by
      simp [CommandString.simpleToken, List.getElem?_append_left hlt, List.getElem?_eq_getElem hlt]
    rw [hs]
    cases ho : cmd.layout[node] with
    | some s =>
      rw [ho] at hold
      exact .inl ⟨s, rfl, false, hold, by simp; omega⟩
    | none =>
      rw [ho] at hold
      obtain ⟨token, hread, hsilent, -⟩ := hold
      exact .inr ⟨rfl, by rw [loud_of_token hread, hsilent]; rfl, by simp [hread]⟩
  · unfold CommandString.endNode at hnode
    cases hv : cmd.variadic with
    | none =>
      rw [hv] at hnode
      simp at hnode
      omega
    | some t =>
      rw [hv] at hnode
      simp only [Option.isSome_some, if_true] at hnode
      obtain rfl : node = cmd.layout.length := by omega
      refine .inl ⟨t.1, ?_, true, h.variadic t hv, by simp⟩
      simp [CommandString.simpleToken, hv]

theorem closed (h : Parsed attr cmd el g) : g.Closed where
  bounded := by
    intro i hi
    by_contra hle
    have hdata := h.tidy.data i (not_lt.mp hle)
    simp [Graph.token, hdata] at hi
  tokens := by
    intro i child hedge hnone
    rcases (h.edges i child).mp hedge with hedge | ⟨-, rfl⟩ | ⟨rfl, -⟩
    · have hlt := (cmd.fragment_nodes (cmd.fragment.confined hedge).2).2
      rcases h.token_of_lt hlt with ⟨s, -, _, hread, -⟩ | ⟨-, -, hsome⟩
      · cases hread.symm.trans hnone
      · simp [hnone] at hsome
    · cases h.isEnd.symm.trans hnone
    · exact ⟨_, h.isEnd, rfl⟩

theorem toNodes_endNode (h : Parsed attr cmd el g) : g.toNodes cmd.endNode = [cmd.endNode + 1] := by
  have hmem : ∀ b, b ∈ g.toNodes cmd.endNode ↔ b = cmd.endNode + 1 := by
    intro b
    rw [h.edges]
    have hout : ∀ x, x ∈ cmd.fragment.nodes → x ≠ cmd.endNode := by
      intro x hx
      have := (cmd.fragment_nodes hx).2
      omega
    constructor
    · rintro (hedge | ⟨heq, -⟩ | ⟨-, rfl⟩)
      · exact absurd rfl (hout _ (cmd.fragment.confined hedge).1)
      · exact absurd heq.symm (hout _ cmd.fragment.last_mem)
      · rfl
    · rintro rfl
      exact .inr (.inr ⟨rfl, rfl⟩)
  exact List.perm_singleton.mp ((List.perm_ext_iff_of_nodup (h.tidy.nodup _)
    (List.nodup_singleton _)).mpr fun b => by rw [hmem, List.mem_singleton])

theorem eq_endNode (h : Parsed attr cmd el g) {node : ℕ} {token : CmdToken}
    (hread : g.token node = some token) (hend : token.type = .endTkn) : node = cmd.endNode := by
  have hlt := h.closed.bounded node (by simp [hread])
  rw [h.size] at hlt
  by_contra hne
  have hne' : node ≠ cmd.endNode + 1 := by
    rintro rfl
    cases h.token_endNode_succ.symm.trans hread
  rcases h.token_of_lt (show node < cmd.endNode by omega) with ⟨s, -, _, hread', -⟩ | ⟨-, hloud, -⟩
  · cases hread.symm.trans hread'
    have := s.plain
    rw [show s.type = .endTkn from hend] at this
    cases this
  · rw [loud_of_token hread] at hloud
    simp [CmdToken.transparent, hend] at hloud

/-- The graph of a command can be searched exactly when its keyword sets have no alternative that
may stand for no word. -/
theorem wellFormed (h : Parsed attr cmd el g) (hspeak : cmd.keywordsSpeak = true) :
    g.WellFormed where
  toClosed := h.closed
  start := ⟨_, h.start, rfl⟩
  nodup := h.tidy.nodup
  ends := by
    intro i token hread hend
    cases h.eq_endNode hread hend
    exact ⟨_, el, by rw [h.toNodes_endNode]; rfl, by simp [Graph.element, h.element]⟩
  settles := by
    intro x hx
    exact (CommandString.quiet_iff h.marks).mpr hspeak x
      (Relation.TransGen.mono (fun _ _ => h.silent_iff.mp) x x hx)

theorem walk_fragment (h : Parsed attr cmd el g) {a : ℕ} {xs : List ℕ} (ha : a ∈ cmd.fragment.nodes)
    (hwalk : Walk g.edge a xs cmd.endNode) :
    ∃ ys, xs = ys ++ [cmd.endNode] ∧ Walk cmd.fragment.edge a ys cmd.fragment.last := by
  have hout : ∀ x ∈ cmd.fragment.nodes, x < cmd.endNode := fun x hx => (cmd.fragment_nodes hx).2
  induction xs generalizing a with
  | nil =>
    cases hwalk
    exact absurd (hout _ ha) (lt_irrefl _)
  | cons b xs ih =>
    cases hwalk with
    | cons edge rest =>
      rcases (h.edges a b).mp edge with edge | ⟨rfl, rfl⟩ | ⟨rfl, -⟩
      · obtain ⟨ys, rfl, hys⟩ := ih (cmd.fragment.confined edge).2 rest
        exact ⟨b :: ys, rfl, .cons edge hys⟩
      · -- behind the end there is only the element, and no edge leads on from it
        obtain ⟨rfl, -⟩ | ⟨c, zs, rfl, edge, rest⟩ := rest.cases_first
        · exact ⟨[], rfl, .nil _⟩
        · rw [Graph.edge, h.toNodes_endNode, List.mem_singleton] at edge
          subst edge
          obtain ⟨-, heq⟩ | ⟨d, zs, -, edge, -⟩ := rest.cases_first
          · omega
          · rcases (h.edges _ d).mp edge with edge | ⟨heq, -⟩ | ⟨heq, -⟩
            · have := hout _ (cmd.fragment.confined edge).1
              omega
            · have := hout _ cmd.fragment.last_mem
              omega
            · omega
      · exact absurd (hout _ ha) (lt_irrefl _)

end Parsed

theorem seqTokens_first (ts : List SelectorToken) (lo : ℕ) (f : Fragment ℕ) :
    (seqTokens ts lo f).first = f.first := by
  induction ts generalizing lo f with
  | nil => rfl
  | cons t ts ih => exact ih _ _

theorem CommandString.fragment_first (cmd : CommandString) : cmd.fragment.first = 0 := by
  unfold CommandString.fragment
  cases cmd.variadic with
  | none => exact seqTokens_first _ _ _
  | some t => exact seqTokens_first _ _ _

/-- The words of the line fit the tokens that the occurrences stand for, there are not too many of
them, and only a placeholder with dots is used twice. -/
structure CommandString.Reads (cmd : CommandString) (attr : CmdAttr) (occ : List ℕ)
    (line : List Text) : Prop where
  fits : List.Forall₂
    (fun node word => ∃ s, cmd.simpleToken node = some s ∧ Fits (s.token attr) word) occ line
  few : line.length < CMD_ARGC_MAX
  once : (occ.filter fun node => node < cmd.layout.length).Nodup

namespace Parsed
variable {attr : CmdAttr} {cmd : CommandString} {el : ε} {g : Graph ε}

theorem takesAll_iff_reads (h : Parsed attr cmd el g) {occ : List ℕ} {line : List Text}
    (hocc : ∀ n ∈ occ, n < cmd.endNode ∧ g.loud n = true) :
    TakesAll g [0] occ line ↔ cmd.Reads attr occ line := by
  have htoken : ∀ n ∈ occ, ∃ s, cmd.simpleToken n = some s ∧ ∃ allowrepeat,
      g.token n = some { s.token attr with allowrepeat := allowrepeat } ∧
        (allowrepeat = true ↔ cmd.layout.length ≤ n) := by
    intro n hn
    obtain ⟨hlt, hloud⟩ := hocc n hn
    rcases h.token_of_lt hlt with hs | ⟨-, hsilent, -⟩
    · exact hs
    · cases hsilent.symm.trans hloud
  have hfits : ∀ n ∈ occ, ∀ w, g.FitsAt n w ↔
      ∃ s, cmd.simpleToken n = some s ∧ Fits (s.token attr) w := by
    intro n hn w
    obtain ⟨s, hs, allowrepeat, hread, -⟩ := htoken n hn
    simp only [Graph.FitsAt, hread, hs, Option.some.injEq, exists_eq_left']
    exact Iff.rfl
  have hrepeats : ∀ n ∈ occ, (!g.repeats n) = decide (n < cmd.layout.length) := by
    intro n hn
    obtain ⟨s, -, allowrepeat, hread, hallow⟩ := htoken n hn
    cases allowrepeat <;> simp [Graph.repeats, hread] <;> simpa using hallow
  have hzero : ∀ n ∈ occ, n ∉ [0] := by
    intro n hn hin
    rw [List.mem_singleton] at hin
    have := (hocc n hn).2
    rw [hin, h.marks.start] at this
    cases this
  have hall : List.Forall₂ g.FitsAt occ line ↔ List.Forall₂
      (fun node word => ∃ s, cmd.simpleToken node = some s ∧ Fits (s.token attr) word) occ line := by
    simp only [List.forall₂_iff_zip]
    refine and_congr_right fun _ => ⟨fun hz n w hmem => ?_, fun hz n w hmem => ?_⟩
    · exact (hfits n (List.of_mem_zip hmem).1 w).mp (hz hmem)
    · exact (hfits n (List.of_mem_zip hmem).1 w).mpr (hz hmem)
  rw [takesAll_iff (by decide), hall, List.filter_congr hrepeats]
  constructor
  · rintro ⟨hall, hlen, hnodup, -⟩
    refine ⟨hall, ?_, hnodup⟩
    rw [← hall.length_eq]
    rw [List.length_singleton] at hlen
    omega
  · rintro ⟨hall, hlen, hnodup⟩
    refine ⟨hall, ?_, hnodup, fun n hn _ => hzero n hn⟩
    rw [hall.length_eq, List.length_singleton]
    omega

theorem mem_lang (h : Parsed attr cmd el g) {occ : List ℕ} : occ ∈ cmd.lang ↔
    ∃ ys, Walk cmd.fragment.edge 0 ys cmd.fragment.last ∧ occ = ys.filter g.loud := by
  rw [← CommandString.lang_fragment h.marks, Fragment.mem_lang, cmd.fragment_first]
  simp [h.marks.start]

theorem occurrences (h : Parsed attr cmd el g) {occ : List ℕ} (hocc : occ ∈ cmd.lang) :
    ∀ n ∈ occ, n < cmd.endNode ∧ g.loud n = true := by
  intro n hn
  rw [← CommandString.lang_fragment h.marks] at hocc
  obtain ⟨hnode, hloud⟩ := Fragment.mem_of_mem_lang _ hocc hn
  exact ⟨(cmd.fragment_nodes hnode).2, hloud⟩

theorem reads_of_derives (h : Parsed attr cmd el g) {line : List Text} {trail : List (List ℕ × ℕ)}
    {found : ArgList ε} (hderives : g.Derives line trail found) :
    found.element = el ∧ ∃ occ ∈ cmd.lang, cmd.Reads attr occ line ∧
      found.argv.map Prod.snd = line ∧ found.argv.map Prod.fst =
        occ.filterMap fun n => (cmd.simpleToken n).map fun s => s.token attr := by
  obtain ⟨head, hroute⟩ := hderives
  obtain ⟨occ, stop, token, hwalk, hfilter, hstop, hend, htakes, hargv, hwords, leaf, hleaf, hel⟩ :=
    walk_of_route hroute
  cases h.eq_endNode hstop hend
  have hzero : 0 ∈ cmd.fragment.nodes := cmd.fragment_first ▸ cmd.fragment.first_mem
  obtain ⟨ys, hys, hwalk⟩ := h.walk_fragment hzero hwalk
  have hocc : occ ∈ cmd.lang := by
    refine h.mem_lang.mpr ⟨ys, hwalk, ?_⟩
    rw [hys, List.filter_append, List.filter_singleton,
      show g.loud cmd.endNode = true by rw [loud_of_token h.isEnd]; rfl] at hfilter
    exact (List.append_cancel_right hfilter).symm
  obtain ⟨_, _, _, heq, -, -, htakes⟩ := takesAll_cons.mp htakes
  cases heq
  refine ⟨?_, occ, hocc, (h.takesAll_iff_reads (h.occurrences hocc)).mp htakes, ?_, ?_⟩
  · rw [h.toNodes_endNode] at hleaf
    cases hleaf
    simpa [Graph.element, h.element] using hel.symm
  · exact (List.cons.inj hwords).2
  · rw [List.map_cons, List.filterMap_cons, h.start] at hargv
    rw [(List.cons.inj hargv).2]
    refine List.filterMap_congr fun n hn => ?_
    obtain ⟨hlt, hloud⟩ := h.occurrences hocc n hn
    rcases h.token_of_lt hlt with ⟨s, hs, _, hread, -⟩ | ⟨-, hsilent, -⟩
    · rw [hs, hread]
      rfl
    · cases hsilent.symm.trans hloud

theorem derives_of_reads (h : Parsed attr cmd el g) {line : List Text} {occ : List ℕ}
    (hocc : occ ∈ cmd.lang) (hreads : cmd.Reads attr occ line) :
    ∃ trail found, g.Derives line trail found := by
  obtain ⟨ys, hwalk, hfilter⟩ := h.mem_lang.mp hocc
  have hwalk : Walk g.edge 0 (ys ++ [cmd.endNode]) cmd.endNode :=
    (hwalk.mono fun a b hedge => (h.edges a b).mpr (.inl hedge)).append
      (.cons ((h.edges _ _).mpr (.inr (.inl ⟨rfl, rfl⟩))) (.nil _))
  have hloud : (ys ++ [cmd.endNode]).filter g.loud = occ ++ [cmd.endNode] := by
    rw [List.filter_append, ← hfilter, List.filter_singleton,
      show g.loud cmd.endNode = true by rw [loud_of_token h.isEnd]; rfl]
    rfl
  have htakes : TakesAll g [] (0 :: occ) (dummy :: line) :=
    takesAll_cons.mpr ⟨dummy, line, _, rfl, h.start, ⟨by decide, .inr (by simp),
      Fits.of_startTkn rfl dummy⟩, (h.takesAll_iff_reads (h.occurrences hocc)).mpr hreads⟩
  obtain ⟨trail, ⟨argv, element⟩, hroute⟩ := route_of_walk h.isEnd rfl
    (show _ = some (cmd.endNode + 1) by rw [h.toNodes_endNode]; rfl)
    (show _ = some el by simp [Graph.element, h.element]) hwalk hloud htakes
  obtain ⟨-, -, -, -, -, -, -, -, -, hwords, -⟩ := walk_of_route hroute
  cases argv with
  | nil => cases hwords
  | cons head argv => exact ⟨trail, ⟨argv, element⟩, head, hroute⟩

end Parsed

/-! ### Commands as they are parsed -/

/-- The walk for the next tokens comes back from every node of a command exactly when no keyword
set of the command has an alternative that may stand for no word. -/
theorem addNexthops_cmdGraphParse_returns_iff (attr : CmdAttr) (cmd : CommandString) (el : ε) :
    (∀ node, (cmdGraphParse attr cmd el).Open node →
      ∃ depth, ((cmdGraphParse attr cmd el).addNexthops [] depth node).isSome) ↔
      cmd.keywordsSpeak = true := by
  have h := cmdGraphParse_parsed attr cmd el
  constructor
  · intro hreturns
    refine (CommandString.quiet_iff h.marks).mp fun x hx => ?_
    have hx := Relation.TransGen.mono (fun _ _ => h.silent_iff.mpr) x x hx
    obtain ⟨y, -, hlast⟩ := Relation.TransGen.tail'_iff.mp hx
    exact (addNexthops_returns_iff h.closed hlast.isOpen).mp (hreturns x hlast.isOpen) x .refl hx
  · intro hspeak node hopen
    exact (addNexthops_returns_iff h.closed hopen).mpr
      fun x _ => (h.wellFormed hspeak).settles x

/-- How the search through the graph of a command ends on a line. One derivation is better than all
others: then the line reads occurrences in the language of the command string, and the command gets
their tokens with the words. Or the best derivations are tied: the line reads occurrences as well,
and is refused as ambiguous. Or it reads none. -/
theorem commandMatch_cmdGraphParse (attr : CmdAttr) (cmd : CommandString) (el : ε)
    (hspeak : cmd.keywordsSpeak = true) {depth : ℕ} (hdepth : cmd.endNode + 2 < depth)
    (line : List Text) :
    (∃ trail found, (cmdGraphParse attr cmd el).Best line trail found ∧
      (cmdGraphParse attr cmd el).commandMatch depth line = some (.ok, some found) ∧
      found.element = el ∧ ∃ occ ∈ cmd.lang, cmd.Reads attr occ line ∧
        found.argv.map Prod.snd = line ∧ found.argv.map Prod.fst =
          occ.filterMap fun n => (cmd.simpleToken n).map fun s => s.token attr) ∨
    ((cmdGraphParse attr cmd el).Tied line ∧
      (cmdGraphParse attr cmd el).commandMatch depth line = some (.ambiguous, none) ∧
      ∃ occ ∈ cmd.lang, cmd.Reads attr occ line) ∨
    ((∀ occ ∈ cmd.lang, ¬ cmd.Reads attr occ line) ∧
      ∃ status, (status = .incomplete ∨ status = .noMatch) ∧
        (cmdGraphParse attr cmd el).commandMatch depth line = some (status, none)) := by
  have h := cmdGraphParse_parsed attr cmd el
  rcases (h.wellFormed hspeak).commandMatch_cases (h.size.trans_lt hdepth) line with
    ⟨trail, found, hbest, hmatch⟩ | ⟨htied, hmatch⟩ | ⟨hnone, hmatch⟩
  · exact .inl ⟨trail, found, hbest, hmatch, h.reads_of_derives hbest.1⟩
  · refine .inr (.inl ⟨htied, hmatch, ?_⟩)
    obtain ⟨trail, found, _, _, hderives, -⟩ := htied
    obtain ⟨-, occ, hocc, hreads, -⟩ := h.reads_of_derives hderives
    exact ⟨occ, hocc, hreads⟩
  · refine .inr (.inr ⟨fun occ hocc hreads => ?_, _, ?_, hmatch⟩)
    · obtain ⟨trail, found, hderives⟩ := h.derives_of_reads hocc hreads
      exact hnone trail found hderives
    · split
      · exact .inl rfl
      · exact .inr rfl

def literal (text : Text) : SelectorToken := .simple ⟨.wordTkn, rfl, text, 0, 0, none⟩

/-- `[no] debug <netlink|neighbor|vpp>`, where `ne` is tied between two of the words. -/
def debugCommand : CommandString where
  tokens :=
    [.selector .bracket (.one (.one (literal ['n', 'o']))) none,
      literal ['d', 'e', 'b', 'u', 'g'],
      .selector .angle (.more (.more (.one (.one (literal ['n', 'e', 't', 'l', 'i', 'n', 'k'])))
        (.one (literal ['n', 'e', 'i', 'g', 'h', 'b', 'o', 'r'])))
        (.one (literal ['v', 'p', 'p']))) none]
  variadic := none

theorem debugCommand_reads :
    (∃ occ ∈ debugCommand.lang, debugCommand.Reads .normal occ [['d', 'e', 'b'], ['v', 'p', 'p']]) ∧
      (cmdGraphParse .normal debugCommand ()).Tied [['d', 'e', 'b'], ['n', 'e']] ∧
      ∀ occ ∈ debugCommand.lang, ¬ debugCommand.Reads .normal occ [['d', 'e', 'b']] := by
  have hends := commandMatch_cmdGraphParse .normal debugCommand () rfl
    (show debugCommand.endNode + 2 < 20 by decide)
  have status : ∀ {line status argv}, (cmdGraphParse .normal debugCommand ()).commandMatch 20 line =
      some (status, argv) → ((cmdGraphParse .normal debugCommand ()).commandMatch 20 line).map
        Prod.fst = some status := fun h => congrArg (Option.map Prod.fst) h
  refine ⟨?_, ?_, ?_⟩
  · rcases hends [['d', 'e', 'b'], ['v', 'p', 'p']] with
      ⟨_, _, -, -, -, occ, hocc, hreads, -⟩ | ⟨-, hmatch, -⟩ | ⟨-, _, hstatus, hmatch⟩
    · exact ⟨occ, hocc, hreads⟩
    · cases status hmatch
    · rcases hstatus with rfl | rfl <;> cases status hmatch
  · rcases hends [['d', 'e', 'b'], ['n', 'e']] with
      ⟨_, _, -, hmatch, -⟩ | ⟨htied, -⟩ | ⟨-, _, hstatus, hmatch⟩
    · cases status hmatch
    · exact htied
    · rcases hstatus with rfl | rfl <;> cases status hmatch
  · rcases hends [['d', 'e', 'b']] with ⟨_, _, -, hmatch, -⟩ | ⟨-, hmatch, -⟩ | ⟨hnone, -⟩
    · cases status hmatch
    · cases status hmatch
    · exact hnone

end Routerd.CommandMatch
