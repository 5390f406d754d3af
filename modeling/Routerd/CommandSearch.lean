import Routerd.Contest
import Routerd.CommandGraph

/-!
# The search for the command of a line

`command_match_r` tries every way through the graph that spells the line and keeps one argument
list, the best so far, with a status that says whether another one was as good. Argument lists
are compared word by word through the ranks of their tokens, in the lexicographic order, so what
the search keeps is the leader among all derivations of the line, whatever the order in which
they are met.
-/

namespace Routerd.CommandMatch
open NumeralText Contest

inductive MatcherRv where
  | noMatch | incomplete | ambiguous | ok
  deriving DecidableEq

/-- The place of a result in its enumeration. -/
def MatcherRv.code : MatcherRv → ℕ
  | .noMatch => 0
  | .incomplete => 1
  | .ambiguous => 2
  | .ok => 3

def CMD_ARGC_MAX : ℕ := 256

/-- The word that is put before the line for the start node. -/
def dummy : Text := "dummy".toList

/-- The copy of a token in an argument list; neither the repetition nor the pair is copied. -/
def cmdTokenDup (token : CmdToken) : CmdToken :=
  { token with allowrepeat := false, forkjoin := none }

/-- The tokens with the words they match, and the element of the command. -/
structure ArgList (ε : Type) where
  argv : List (CmdToken × Text)
  element : ε

structure Search (ε : Type) where
  status : MatcherRv
  currbest : Option (ArgList ε)

variable {ε : Type}

/-- The better of the best list so far and the result of one child. -/
def Search.save (words : List Text) (s r : Search ε) : Search ε :=
  match s.currbest, r.currbest with
  | some best, some result =>
    match disambiguate (best.argv.map Prod.fst) (result.argv.map Prod.fst) words with
    | .eq => ⟨.ambiguous, some best⟩
    | .lt => ⟨if s.status = .ambiguous then .ambiguous else .ok, some best⟩
    | .gt => ⟨if r.status = .ambiguous then .ambiguous else .ok, some result⟩
  | none, some result => ⟨r.status, some result⟩
  | none, none => ⟨if s.status.code < r.status.code then r.status else s.status, none⟩
  | some best, none => ⟨s.status, some best⟩

/-- The loop over the nodes that can come next, given the search from one of them. -/
def searchChildren (search : ℕ → Option (Search ε)) (words : List Text) :
    List ℕ → Search ε → Option (Search ε)
  | [], s => some s
  | gn :: next, s => do
    let r ← search gn
    searchChildren search words next (s.save words r)

namespace Graph

/-- The loop at the last word, which looks for an end and stops at a second one. -/
def searchEnd (g : Graph ε) : List ℕ → Search ε → Option (Search ε)
  | [], s => some s
  | gn :: next, s => do
    let token ← g.token gn
    if token.type = .endTkn then
      if s.currbest.isSome then pure { s with status := .ambiguous }
      else do
        let leaf ← (g.toNodes gn).head?
        let el ← g.element leaf
        g.searchEnd next ⟨.ok, some ⟨[], el⟩⟩
    else g.searchEnd next s

/-- The node may take the word at this place of the line. -/
def Takes (stack : List ℕ) (token : CmdToken) (node : ℕ) (word : Text) : Prop :=
  stack.length ≠ CMD_ARGC_MAX ∧ Free stack token node ∧ Fits token word

instance (stack : List ℕ) (token : CmdToken) (node : ℕ) : Decidable (Free stack token node) :=
  inferInstanceAs (Decidable (_ ∨ _))

instance (stack : List ℕ) (token : CmdToken) (node : ℕ) (word : Text) :
    Decidable (Takes stack token node word) :=
  inferInstanceAs (Decidable (_ ∧ _ ∧ _))

/-- The search from a node; the stack has the nodes that took the words before. There is no
result where the recursion does not come back, and none for an empty line. -/
def commandMatchR (g : Graph ε) (depth : ℕ) : List Text → List ℕ → ℕ → Option (Search ε)
  | [], _, _ => none
  | word :: words, stack, start => do
    let token ← g.token start
    if ¬ Takes stack token start word then pure ⟨.noMatch, none⟩
    else do
      let next ← g.addNexthops [] depth start
      let s ← match words with
        | [] => g.searchEnd next ⟨.noMatch, none⟩
        | _ :: _ =>
          searchChildren (g.commandMatchR depth words (start :: stack)) words next ⟨.noMatch, none⟩
      match s.currbest with
      | some best => pure ⟨s.status, some ⟨(cmdTokenDup token, word) :: best.argv, best.element⟩⟩
      | none =>
        if words = [] ∧ s.status = .noMatch then pure ⟨.incomplete, none⟩ else pure s

/-- The search from the start node, which takes the word put before the line. -/
def commandMatch (g : Graph ε) (depth : ℕ) (line : List Text) :
    Option (MatcherRv × Option (ArgList ε)) := do
  let s ← g.commandMatchR depth (dummy :: line) [] 0
  if s.status = .ok then pure (.ok, s.currbest.map fun best => ⟨best.argv.tail, best.element⟩)
  else pure (s.status, none)

/-! ### Derivations -/

/-- The way through the graph that spells the words from a node on: the nodes passed and taken
after it, up to the end of a command, and what the search makes of them. -/
inductive Route (g : Graph ε) : List ℕ → ℕ → List Text → List (List ℕ × ℕ) → ArgList ε → Prop where
  | finish {stack : List ℕ} {node last leaf : ℕ} {token stop : CmdToken} {word : Text}
      {via : List ℕ} {el : ε} (read : g.token node = some token)
      (takes : Takes stack token node word) (way : g.Way [] node via last)
      (readLast : g.token last = some stop) (isEnd : stop.type = .endTkn)
      (child : (g.toNodes last).head? = some leaf) (isElement : g.element leaf = some el) :
      Route g stack node [word] [(via, last)] ⟨[(cmdTokenDup token, word)], el⟩
  | step {stack : List ℕ} {node next : ℕ} {token : CmdToken} {word word' : Text}
      {words : List Text} {via : List ℕ} {trail : List (List ℕ × ℕ)} {found : ArgList ε}
      (read : g.token node = some token) (takes : Takes stack token node word)
      (way : g.Way [] node via next)
      (rest : Route g (node :: stack) next (word' :: words) trail found) :
      Route g stack node (word :: word' :: words) ((via, next) :: trail)
        ⟨(cmdTokenDup token, word) :: found.argv, found.element⟩

/-- The words are spelled by a way through the graph that need not end with them. -/
inductive Spelled (g : Graph ε) : List ℕ → ℕ → List Text → Prop where
  | last {stack : List ℕ} {node : ℕ} {token : CmdToken} {word : Text}
      (read : g.token node = some token) (takes : Takes stack token node word) :
      Spelled g stack node [word]
  | step {stack : List ℕ} {node next : ℕ} {token : CmdToken} {word word' : Text}
      {words : List Text} {via : List ℕ}
      (read : g.token node = some token) (takes : Takes stack token node word)
      (way : g.Way [] node via next) (rest : Spelled g (node :: stack) next (word' :: words)) :
      Spelled g stack node (word :: word' :: words)

/-- A derivation of a line: a route from the start, without the word put before the line. -/
def Derives (g : Graph ε) (line : List Text) (trail : List (List ℕ × ℕ)) (found : ArgList ε) : Prop :=
  ∃ head, g.Route [] 0 (dummy :: line) trail ⟨head :: found.argv, found.element⟩

def Begins (g : Graph ε) (line : List Text) : Prop := g.Spelled [] 0 (dummy :: line)

/-- What the search relies on: it starts at a start token, no edge is there twice, an end has the
element of its command behind it, and no circle is free of words. -/
structure WellFormed (g : Graph ε) : Prop extends g.Closed where
  start : ∃ token, g.token 0 = some token ∧ token.type = .startTkn
  nodup : ∀ i, (g.toNodes i).Nodup
  ends : ∀ i token, g.token i = some token → token.type = .endTkn →
    ∃ leaf el, (g.toNodes i).head? = some leaf ∧ g.element leaf = some el
  settles : ∀ x, ¬ Relation.TransGen g.Silent x x

end Graph

/-! ### The comparison of argument lists -/

def cost (argv : List (CmdToken × Text)) : List ℕ := argv.map fun arg => rank arg.1 arg.2

structure Spells (words : List Text) (argv : List (CmdToken × Text)) : Prop where
  words_eq : argv.map Prod.snd = words
  fits : ∀ arg ∈ argv, Fits arg.1 arg.2

theorem Spells.cons {word : Text} {words : List Text} {token : CmdToken}
    {argv : List (CmdToken × Text)} (hfits : Fits token word) (h : Spells words argv) :
    Spells (word :: words) ((token, word) :: argv) where
  words_eq := by simp [h.words_eq]
  fits := List.forall_mem_cons.mpr ⟨hfits, h.fits⟩

def compareCosts (as bs : List ℕ) : Ordering :=
  if as < bs then .lt else if as = bs then .eq else .gt

theorem compareCosts_cons (a b : ℕ) (as bs : List ℕ) :
    compareCosts (a :: as) (b :: bs) = (compare a b).then (compareCosts as bs) := by
  unfold compareCosts
  rcases lt_trichotomy a b with h | rfl | h
  · rw [compare_lt_iff_lt.mpr h, if_pos (List.cons_lt_cons_iff.mpr (.inl h))]
    rfl
  · simp [Ordering.then]
  · rw [compare_gt_iff_gt.mpr h, if_neg, if_neg]
    · rfl
    · simp [h.ne']
    · simp [List.cons_lt_cons_iff, h.ne', h.le]

/-- The comparison word by word is the lexicographic comparison of the costs. -/
theorem disambiguate_eq {words : List Text} {first second : List (CmdToken × Text)}
    (hfirst : Spells words first) (hsecond : Spells words second) :
    disambiguate (first.map Prod.fst) (second.map Prod.fst) words =
      compareCosts (cost first) (cost second) := by
  induction words generalizing first second with
  | nil =>
    obtain rfl := List.map_eq_nil_iff.mp hfirst.words_eq
    obtain rfl := List.map_eq_nil_iff.mp hsecond.words_eq
    rfl
  | cons word words ih =>
    obtain ⟨f, first, rfl, rfl, hf⟩ := List.map_eq_cons_iff.mp hfirst.words_eq
    obtain ⟨s, second, rfl, hs, hs'⟩ := List.map_eq_cons_iff.mp hsecond.words_eq
    obtain ⟨hffits, hfirst⟩ := List.forall_mem_cons.mp hfirst.fits
    obtain ⟨hsfits, hsecond⟩ := List.forall_mem_cons.mp hsecond.fits
    rw [List.map_cons, List.map_cons, disambiguate, ih ⟨hf, hfirst⟩ ⟨hs', hsecond⟩,
      disambiguateTokens_eq_compare hffits (hs ▸ hsfits)]
    simp only [cost, List.map_cons, compareCosts_cons, hs]

/-! ### What a search keeps -/

/-- A route that was found, with what the search makes of it. -/
structure Candidate (ε : Type) where
  trail : List (List ℕ × ℕ)
  found : ArgList ε

def Candidate.cost (c : Candidate ε) : List ℕ := CommandMatch.cost c.found.argv

/-- The result of a search that met these routes; `spelled` tells whether the words were spelled
by something that does not end with them. -/
def verdict (routes : List (Candidate ε)) (spelled : Bool) : Search ε :=
  match leader Candidate.cost routes with
  | none => ⟨if spelled then .incomplete else .noMatch, none⟩
  | some l => ⟨if l.tied then .ambiguous else .ok, some l.best.found⟩

theorem verdict_of_none {routes : List (Candidate ε)} {spelled : Bool}
    (h : leader Candidate.cost routes = none) :
    verdict routes spelled = ⟨if spelled then .incomplete else .noMatch, none⟩ := by
  rw [verdict, h]

theorem verdict_of_some {routes : List (Candidate ε)} {spelled : Bool}
    {l : Leader (Candidate ε)} (h : leader Candidate.cost routes = some l) :
    verdict routes spelled = ⟨if l.tied then .ambiguous else .ok, some l.best.found⟩ := by
  rw [verdict, h]

/-- Saving the result of one child is adding its routes to those before. -/
theorem save_verdict {words : List Text} {as bs : List (Candidate ε)} {sa sb : Bool}
    (ha : ∀ c ∈ as, Spells words c.found.argv) (hb : ∀ c ∈ bs, Spells words c.found.argv) :
    (verdict as sa).save words (verdict bs sb) = verdict (as ++ bs) (sa || sb) := by
  cases hla : leader Candidate.cost as with
  | none =>
    cases hlb : leader Candidate.cost bs with
    | none =>
      have hl : leader Candidate.cost (as ++ bs) = none := by rw [leader_append, hla, hlb]; rfl
      rw [verdict_of_none hla, verdict_of_none hlb, verdict_of_none hl]
      cases sa <;> cases sb <;> rfl
    | some b =>
      have hl : leader Candidate.cost (as ++ bs) = some b := by rw [leader_append, hla, hlb]; rfl
      rw [verdict_of_none hla, verdict_of_some hlb, verdict_of_some hl]
      rfl
  | some a =>
    cases hlb : leader Candidate.cost bs with
    | none =>
      have hl : leader Candidate.cost (as ++ bs) = some a := by rw [leader_append, hla, hlb]; rfl
      rw [verdict_of_some hla, verdict_of_none hlb, verdict_of_some hl]
      rfl
    | some b =>
      have hl : leader Candidate.cost (as ++ bs) = some (pick Candidate.cost a b) := by
        rw [leader_append, hla, hlb]; rfl
      rw [verdict_of_some hla, verdict_of_some hlb, verdict_of_some hl]
      have hcompare : _ = compareCosts a.best.cost b.best.cost :=
        disambiguate_eq (ha _ (leader_spec _ hla).1) (hb _ (leader_spec _ hlb).1)
      simp only [Search.save, hcompare]
      rcases lt_trichotomy a.best.cost b.best.cost with h | h | h
      · rw [pick_of_lt _ h, compareCosts, if_pos h]
        cases a.tied <;> rfl
      · rw [pick_of_eq _ h, compareCosts, if_neg h.ge.not_gt, if_pos h]
        rfl
      · rw [pick_of_gt _ h, compareCosts, if_neg h.le.not_gt, if_neg h.ne']
        cases b.tied <;> rfl

theorem verdict_map {f : Candidate ε → Candidate ε} (hf : ∀ c, (f c).found = c.found)
    (routes : List (Candidate ε)) (spelled : Bool) :
    verdict (routes.map f) spelled = verdict routes spelled := by
  have hkey : ∀ c, (f c).cost = c.cost := fun c => by rw [Candidate.cost, hf, Candidate.cost]
  unfold verdict
  rw [leader_map Candidate.cost Candidate.cost f (fun a b => by rw [hkey, hkey])]
  cases leader Candidate.cost routes <;> simp [hf]

theorem searchChildren_eq {search : ℕ → Option (Search ε)} {words : List Text}
    {routes : List ℕ × ℕ → List (Candidate ε)} {spelled : List ℕ × ℕ → Bool}
    {ways : List (List ℕ × ℕ)}
    (hsearch : ∀ way ∈ ways, search way.2 = some (verdict (routes way) (spelled way)))
    (hroutes : ∀ way ∈ ways, ∀ c ∈ routes way, Spells words c.found.argv)
    (before : List (Candidate ε)) (hbefore : ∀ c ∈ before, Spells words c.found.argv) (sb : Bool) :
    searchChildren search words (ways.map Prod.snd) (verdict before sb) =
      some (verdict (before ++ ways.flatMap routes) (sb || ways.any spelled)) := by
  induction ways generalizing before sb with
  | nil => simp [searchChildren]
  | cons way ways ih =>
    obtain ⟨hway, hsearch⟩ := List.forall_mem_cons.mp hsearch
    obtain ⟨hway', hroutes⟩ := List.forall_mem_cons.mp hroutes
    have hall : ∀ c ∈ before ++ routes way, Spells words c.found.argv := by
      intro c hc
      rcases List.mem_append.mp hc with hc | hc
      · exact hbefore c hc
      · exact hway' c hc
    rw [List.map_cons, searchChildren, hway]
    simp only [Option.bind_eq_bind, Option.bind_some]
    rw [save_verdict hbefore hway', ih hsearch hroutes _ hall]
    simp [Bool.or_assoc]

/-! ### All routes of a line -/

def Candidate.after (way : List ℕ × ℕ) (c : Candidate ε) : Candidate ε := ⟨way :: c.trail, c.found⟩

def Candidate.argument (arg : CmdToken × Text) (c : Candidate ε) : Candidate ε :=
  ⟨c.trail, ⟨arg :: c.found.argv, c.found.element⟩⟩

theorem Candidate.after_injective (way : List ℕ × ℕ) :
    Function.Injective (Candidate.after (ε := ε) way) := by
  rintro ⟨ta, fa⟩ ⟨tb, fb⟩ h
  cases h
  rfl

theorem Candidate.argument_injective (arg : CmdToken × Text) :
    Function.Injective (Candidate.argument (ε := ε) arg) := by
  rintro ⟨ta, ⟨va, ea⟩⟩ ⟨tb, ⟨vb, eb⟩⟩ h
  cases h
  rfl

namespace Graph

def endRoutes (g : Graph ε) (way : List ℕ × ℕ) : List (Candidate ε) :=
  match g.token way.2 with
  | none => []
  | some token =>
    if token.type = .endTkn then
      match (g.toNodes way.2).head?.bind g.element with
      | none => []
      | some el => [⟨[way], ⟨[], el⟩⟩]
    else []

def routes (g : Graph ε) (depth : ℕ) : List Text → List ℕ → ℕ → List (Candidate ε)
  | [], _, _ => []
  | word :: words, stack, node =>
    match g.token node with
    | none => []
    | some token =>
      if Takes stack token node word then
        (((g.ways [] depth node).getD []).flatMap fun way =>
          if words = [] then g.endRoutes way
          else (g.routes depth words (node :: stack) way.2).map (Candidate.after way)).map
            (Candidate.argument (cmdTokenDup token, word))
      else []

def spelled (g : Graph ε) (depth : ℕ) : List Text → List ℕ → ℕ → Bool
  | [], _, _ => false
  | word :: words, stack, node =>
    match g.token node with
    | none => false
    | some token =>
      decide (Takes stack token node word) &&
        (words.isEmpty || ((g.ways [] depth node).getD []).any fun way =>
          g.spelled depth words (node :: stack) way.2)

theorem mem_endRoutes {g : Graph ε} {way : List ℕ × ℕ} {c : Candidate ε} :
    c ∈ g.endRoutes way ↔ ∃ token leaf el, g.token way.2 = some token ∧ token.type = .endTkn ∧
      (g.toNodes way.2).head? = some leaf ∧ g.element leaf = some el ∧ c = ⟨[way], ⟨[], el⟩⟩ := by
  unfold endRoutes
  cases htoken : g.token way.2 with
  | none => simp
  | some token =>
    by_cases hend : token.type = .endTkn
    · cases hleaf : (g.toNodes way.2).head? with
      | none => simp [hend]
      | some leaf => cases hel : g.element leaf <;> simp [hend, hel]
    · simp [hend]

theorem WellFormed.endRoutes_cases {g : Graph ε} (hg : g.WellFormed) (way : List ℕ × ℕ)
    {token : CmdToken} (hread : g.token way.2 = some token) :
    (token.type ≠ .endTkn ∧ g.endRoutes way = []) ∨
      (token.type = .endTkn ∧ ∃ leaf el, (g.toNodes way.2).head? = some leaf ∧
        g.element leaf = some el ∧ g.endRoutes way = [⟨[way], ⟨[], el⟩⟩]) := by
  by_cases hend : token.type = .endTkn
  · obtain ⟨leaf, el, hleaf, hel⟩ := hg.ends _ token hread hend
    exact .inr ⟨hend, leaf, el, hleaf, hel, by simp [endRoutes, hread, hend, hleaf, hel]⟩
  · exact .inl ⟨hend, by simp [endRoutes, hread, hend]⟩

/-- Once an end is found, another one makes the line ambiguous. -/
theorem WellFormed.searchEnd_found {g : Graph ε} (hg : g.WellFormed) {ways : List (List ℕ × ℕ)}
    (hread : ∀ way ∈ ways, (g.token way.2).isSome) (best : ArgList ε) :
    g.searchEnd (ways.map Prod.snd) ⟨.ok, some best⟩ =
      some ⟨if (ways.flatMap g.endRoutes).isEmpty then .ok else .ambiguous, some best⟩ := by
  induction ways with
  | nil => rfl
  | cons way ways ih =>
    obtain ⟨hway, hread⟩ := List.forall_mem_cons.mp hread
    obtain ⟨token, htoken⟩ := Option.isSome_iff_exists.mp hway
    rw [List.map_cons, searchEnd, htoken]
    rcases hg.endRoutes_cases way htoken with ⟨hend, hnone⟩ | ⟨hend, leaf, el, -, -, hone⟩
    · rw [List.flatMap_cons, hnone, List.nil_append]
      simpa [hend] using ih hread
    · simp [hend, hone, List.flatMap_cons]

theorem WellFormed.searchEnd_eq {g : Graph ε} (hg : g.WellFormed) {ways : List (List ℕ × ℕ)}
    (hread : ∀ way ∈ ways, (g.token way.2).isSome) :
    g.searchEnd (ways.map Prod.snd) ⟨.noMatch, none⟩ =
      some (verdict (ways.flatMap g.endRoutes) false) := by
  induction ways with
  | nil => rfl
  | cons way ways ih =>
    obtain ⟨hway, hread⟩ := List.forall_mem_cons.mp hread
    obtain ⟨token, htoken⟩ := Option.isSome_iff_exists.mp hway
    rw [List.map_cons, searchEnd, htoken]
    rcases hg.endRoutes_cases way htoken with ⟨hend, hnone⟩ | ⟨hend, leaf, el, hleaf, hel, hone⟩
    · rw [List.flatMap_cons, hnone, List.nil_append]
      simpa [hend] using ih hread
    · have hcost : ∀ c ∈ ways.flatMap g.endRoutes, c.cost = Candidate.cost ⟨[way], ⟨[], el⟩⟩ := by
        intro c hc
        obtain ⟨way', -, hc⟩ := List.mem_flatMap.mp hc
        obtain ⟨_, _, el', -, -, -, -, rfl⟩ := mem_endRoutes.mp hc
        rfl
      rw [List.flatMap_cons, hone, List.singleton_append,
        verdict_of_some (leader_of_alike Candidate.cost hcost)]
      simp only [Option.bind_eq_bind, Option.bind_some, hend, if_true, Option.isSome_none,
        Bool.false_eq_true, if_false, hleaf, hel, hg.searchEnd_found hread]
      cases (ways.flatMap g.endRoutes).isEmpty <;> rfl

theorem spells_of_mem_routes {g : Graph ε} {depth : ℕ} {words : List Text} {stack : List ℕ}
    {node : ℕ} {c : Candidate ε} (h : c ∈ g.routes depth words stack node) :
    Spells words c.found.argv := by
  induction words generalizing stack node c with
  | nil => simp [routes] at h
  | cons word words ih =>
    rw [routes] at h
    split at h
    · simp at h
    · split at h
      · rename_i token hread htakes
        obtain ⟨c', hc', rfl⟩ := List.mem_map.mp h
        refine Spells.cons htakes.2.2 ?_
        obtain ⟨way, -, hway⟩ := List.mem_flatMap.mp hc'
        split at hway
        · rename_i hnil
          obtain ⟨-, -, el, -, -, -, -, rfl⟩ := mem_endRoutes.mp hway
          exact ⟨by simp [hnil], by simp⟩
        · obtain ⟨rest, hrest, rfl⟩ := List.mem_map.mp hway
          exact (ih hrest : Spells words rest.found.argv)
      · simp at h

theorem token_of_way {g : Graph ε} {stack : List ℕ} {node last : ℕ} {via : List ℕ}
    (h : g.Way stack node via last) : (g.token last).isSome := by
  induction h with
  | stop _ hread => simp [hread]
  | pass _ _ _ _ _ ih => exact ih

theorem WellFormed.ways_isSome {g : Graph ε} (hg : g.WellFormed) {depth : ℕ}
    (hdepth : g.size < depth) (stack : List ℕ) {node : ℕ} (hnode : g.Open node) :
    ∃ found, g.ways stack depth node = some found :=
  Option.isSome_iff_exists.mp (ways_isSome_of_trail hg.toClosed [] hnode
    (fun x _ => hg.settles x) (by simp) (by simp) (by simp) (by simpa using hdepth))

theorem Takes.isOpen {g : Graph ε} {stack : List ℕ} {token : CmdToken} {node : ℕ} {word : Text}
    (hread : g.token node = some token) (h : Takes stack token node word) : g.Open node := by
  refine ⟨token, hread, fun hend => ?_⟩
  rcases h.2.2.cases with hs | ⟨hs, -⟩ | ⟨-, -, hs, -⟩ <;> rw [hend] at hs <;> cases hs

/-- The word that is put before the arguments does not change how they compare. -/
theorem leader_argument (arg : CmdToken × Text) (cs : List (Candidate ε)) :
    leader Candidate.cost (cs.map (Candidate.argument arg)) =
      (leader Candidate.cost cs).map fun l => ⟨l.best.argument arg, l.tied⟩ := by
  apply leader_map
  intro a b
  simp [Candidate.cost, Candidate.argument, CommandMatch.cost]

/-- The search returns the verdict on all routes. -/
theorem WellFormed.commandMatchR_eq {g : Graph ε} (hg : g.WellFormed) {depth : ℕ}
    (hdepth : g.size < depth) {words : List Text} (hwords : words ≠ []) {stack : List ℕ} {node : ℕ}
    (hnode : (g.token node).isSome) :
    g.commandMatchR depth words stack node =
      some (verdict (g.routes depth words stack node) (g.spelled depth words stack node)) := by
  induction words generalizing stack node with
  | nil => exact absurd rfl hwords
  | cons word words ih =>
    obtain ⟨token, hread⟩ := Option.isSome_iff_exists.mp hnode
    by_cases htakes : Takes stack token node word
    · obtain ⟨found, hfound⟩ := hg.ways_isSome hdepth [] (htakes.isOpen hread)
      have hlast : ∀ way ∈ found, (g.token way.2).isSome := fun way hway =>
        token_of_way ((mem_ways hfound).mp hway)
      rw [commandMatchR, routes, spelled, hread]
      simp only [Option.bind_eq_bind, Option.bind_some, htakes, not_true, if_false, if_true,
        addNexthops_eq_ways, hfound, Option.map_some, Option.getD_some, decide_true, Bool.true_and]
      cases words with
      | nil =>
        simp only [hg.searchEnd_eq hlast, Option.bind_some, if_true, List.isEmpty_nil, Bool.true_or]
        cases hl : leader Candidate.cost (found.flatMap g.endRoutes) with
        | none =>
          rw [verdict_of_none hl, verdict_of_none (by rw [leader_argument, hl]; rfl)]
          rfl
        | some l =>
          rw [verdict_of_some hl, verdict_of_some (by rw [leader_argument, hl]; rfl)]
          rfl
      | cons word' words =>
        have hsearch : ∀ way ∈ found,
            g.commandMatchR depth (word' :: words) (node :: stack) way.2 =
              some (verdict ((g.routes depth (word' :: words) (node :: stack) way.2).map
                (Candidate.after way)) (g.spelled depth (word' :: words) (node :: stack) way.2)) := by
          intro way hway
          rw [ih (by simp) (hlast way hway)]
          exact congrArg some (verdict_map (f := Candidate.after way) (fun _ => rfl) _ _).symm
        have hspells : ∀ way ∈ found, ∀ c ∈ (g.routes depth (word' :: words) (node :: stack)
            way.2).map (Candidate.after way), Spells (word' :: words) c.found.argv := by
          intro way _ c hc
          obtain ⟨c', hc', rfl⟩ := List.mem_map.mp hc
          exact (spells_of_mem_routes hc' : Spells _ c'.found.argv)
        have hloop := searchChildren_eq hsearch hspells [] (by simp) false
        rw [List.nil_append, Bool.false_or] at hloop
        simp only [show (⟨.noMatch, none⟩ : Search ε) = verdict [] false from rfl, hloop,
          Option.bind_some, List.isEmpty_cons, Bool.false_or, reduceCtorEq, false_and, if_false]
        generalize found.flatMap (fun way => _) = cs
        cases hl : leader Candidate.cost cs with
        | none =>
          rw [verdict_of_none hl, verdict_of_none (by rw [leader_argument, hl]; rfl)]
          rfl
        | some l =>
          rw [verdict_of_some hl, verdict_of_some (by rw [leader_argument, hl]; rfl)]
          rfl
    · simp [commandMatchR, routes, spelled, hread, htakes, verdict]

/-! ### Routes and derivations -/

theorem mem_routes_cons {g : Graph ε} {depth : ℕ} {word : Text} {words : List Text}
    {stack : List ℕ} {node : ℕ} {c : Candidate ε} :
    c ∈ g.routes depth (word :: words) stack node ↔ ∃ token found way rest,
      g.token node = some token ∧ Takes stack token node word ∧
      g.ways [] depth node = some found ∧ way ∈ found ∧
      c = Candidate.argument (cmdTokenDup token, word) rest ∧
      ((words = [] ∧ rest ∈ g.endRoutes way) ∨
        (words ≠ [] ∧ ∃ c', c' ∈ g.routes depth words (node :: stack) way.2 ∧
          rest = c'.after way)) := by
  rw [routes]
  constructor
  · intro h
    split at h
    · simp at h
    · rename_i token hread
      split at h
      · rename_i htakes
        obtain ⟨rest, hrest, rfl⟩ := List.mem_map.mp h
        obtain ⟨way, hway, hrest⟩ := List.mem_flatMap.mp hrest
        cases hfound : g.ways [] depth node with
        | none => simp [hfound] at hway
        | some found =>
          rw [hfound, Option.getD_some] at hway
          refine ⟨token, found, way, rest, hread, htakes, rfl, hway, rfl, ?_⟩
          split at hrest
          · rename_i hnil
            exact .inl ⟨hnil, hrest⟩
          · rename_i hne
            obtain ⟨c', hc', rfl⟩ := List.mem_map.mp hrest
            exact .inr ⟨hne, c', hc', rfl⟩
      · simp at h
  · rintro ⟨token, found, way, rest, hread, htakes, hfound, hway, rfl, hrest⟩
    simp only [hread, htakes, if_true, hfound, Option.getD_some]
    refine List.mem_map.mpr ⟨rest, List.mem_flatMap.mpr ⟨way, hway, ?_⟩, rfl⟩
    rcases hrest with ⟨rfl, hrest⟩ | ⟨hne, c', hc', rfl⟩
    · simpa using hrest
    · rw [if_neg hne]
      exact List.mem_map_of_mem hc'

theorem route_of_mem_routes {g : Graph ε} {depth : ℕ} {words : List Text} {stack : List ℕ}
    {node : ℕ} {c : Candidate ε} (h : c ∈ g.routes depth words stack node) :
    g.Route stack node words c.trail c.found := by
  induction words generalizing stack node c with
  | nil => simp [routes] at h
  | cons word words ih =>
    obtain ⟨token, found, ⟨via, last⟩, rest, hread, htakes, hfound, hway, rfl, hrest⟩ :=
      mem_routes_cons.mp h
    have hway := (mem_ways hfound).mp hway
    rcases hrest with ⟨rfl, hrest⟩ | ⟨hne, c', hc', rfl⟩
    · obtain ⟨stop, leaf, el, hstop, hend, hleaf, hel, rfl⟩ := mem_endRoutes.mp hrest
      exact .finish hread htakes hway hstop hend hleaf hel
    · obtain ⟨word', words, rfl⟩ := List.exists_cons_of_ne_nil hne
      exact .step hread htakes hway (ih hc')

theorem WellFormed.mem_routes_of_route {g : Graph ε} (hg : g.WellFormed) {depth : ℕ}
    (hdepth : g.size < depth) {words : List Text} {stack : List ℕ} {node : ℕ}
    {trail : List (List ℕ × ℕ)} {found : ArgList ε} (h : g.Route stack node words trail found) :
    (⟨trail, found⟩ : Candidate ε) ∈ g.routes depth words stack node := by
  induction h with
  | finish hread htakes hway hstop hend hleaf hel =>
    obtain ⟨ways, hways⟩ := hg.ways_isSome hdepth [] (htakes.isOpen hread)
    exact mem_routes_cons.mpr ⟨_, ways, (_, _), ⟨[(_, _)], ⟨[], _⟩⟩, hread, htakes, hways,
      (mem_ways hways).mpr hway, rfl,
      .inl ⟨rfl, mem_endRoutes.mpr ⟨_, _, _, hstop, hend, hleaf, hel, rfl⟩⟩⟩
  | step hread htakes hway _ ih =>
    obtain ⟨ways, hways⟩ := hg.ways_isSome hdepth [] (htakes.isOpen hread)
    exact mem_routes_cons.mpr ⟨_, ways, (_, _), ⟨_ :: _, _⟩, hread, htakes, hways,
      (mem_ways hways).mpr hway, rfl, .inr ⟨by simp, _, ih, rfl⟩⟩

theorem Route.found_unique {g : Graph ε} {words : List Text} {stack : List ℕ} {node : ℕ}
    {trail : List (List ℕ × ℕ)} {found found' : ArgList ε}
    (h : g.Route stack node words trail found) (h' : g.Route stack node words trail found') :
    found = found' := by
  induction h generalizing found' with
  | finish hread _ _ _ _ hleaf hel =>
    cases h' with
    | finish hread' _ _ _ _ hleaf' hel' =>
      cases hread.symm.trans hread'
      cases hleaf.symm.trans hleaf'
      cases hel.symm.trans hel'
      rfl
  | step hread _ _ _ ih =>
    cases h' with
    | step hread' _ _ hrest' =>
      cases hread.symm.trans hread'
      rw [ih hrest']

theorem nodup_endRoutes (g : Graph ε) (way : List ℕ × ℕ) : (g.endRoutes way).Nodup := by
  unfold endRoutes
  split
  · simp
  · split
    · split <;> simp
    · simp

theorem head_trail {g : Graph ε} {way : List ℕ × ℕ} {rest : List (Candidate ε)} {P : Prop}
    [Decidable P] {c : Candidate ε}
    (h : c ∈ if P then g.endRoutes way else rest.map (Candidate.after way)) :
    c.trail.head? = some way := by
  split at h
  · obtain ⟨-, -, -, -, -, -, -, rfl⟩ := mem_endRoutes.mp h
    rfl
  · obtain ⟨c', -, rfl⟩ := List.mem_map.mp h
    rfl

/-- No route is met twice. -/
theorem WellFormed.nodup_routes {g : Graph ε} (hg : g.WellFormed) (depth : ℕ) (words : List Text)
    (stack : List ℕ) (node : ℕ) : (g.routes depth words stack node).Nodup := by
  induction words generalizing stack node with
  | nil => simp [routes]
  | cons word words ih =>
    rw [routes]
    split
    · simp
    · split
      · refine List.Nodup.map (Candidate.argument_injective _) (List.nodup_flatMap.mpr ⟨?_, ?_⟩)
        · intro way _
          split
          · exact nodup_endRoutes g way
          · exact (ih _ _).map (Candidate.after_injective way)
        · cases hfound : g.ways [] depth node with
          | none => simp
          | some found =>
            refine (nodup_ways hg.nodup hfound).imp ?_
            intro way way' hne c hc hc'
            exact hne (Option.some.inj ((head_trail hc).symm.trans (head_trail hc')))
      · simp

theorem WellFormed.spelled_iff {g : Graph ε} (hg : g.WellFormed) {depth : ℕ}
    (hdepth : g.size < depth) {words : List Text} {stack : List ℕ} {node : ℕ} :
    g.spelled depth words stack node = true ↔ g.Spelled stack node words := by
  induction words generalizing stack node with
  | nil =>
    simp only [spelled, Bool.false_eq_true, false_iff]
    rintro ⟨⟩
  | cons word words ih =>
    rw [spelled]
    constructor
    · intro h
      split at h
      · simp at h
      · rename_i token hread
        simp only [Bool.and_eq_true, decide_eq_true_eq, Bool.or_eq_true, List.isEmpty_iff,
          List.any_eq_true] at h
        obtain ⟨htakes, rfl | ⟨⟨via, last⟩, hway, hrest⟩⟩ := h
        · exact .last hread htakes
        · obtain ⟨found, hfound⟩ := hg.ways_isSome hdepth [] (htakes.isOpen hread)
          rw [hfound, Option.getD_some] at hway
          have hspelled := ih.mp hrest
          cases words with
          | nil => cases hspelled
          | cons word' words => exact .step hread htakes ((mem_ways hfound).mp hway) hspelled
    · intro h
      cases h with
      | last hread htakes => simp [hread, htakes]
      | @step _ _ next _ _ word' words via hread htakes hway hrest =>
        obtain ⟨found, hfound⟩ := hg.ways_isSome hdepth [] (htakes.isOpen hread)
        simp only [hread, htakes, decide_true, Bool.true_and, hfound, Option.getD_some,
          Bool.or_eq_true, List.any_eq_true]
        exact .inr ⟨(via, next), (mem_ways hfound).mpr hway, ih.mpr hrest⟩

/-! ### The command of a line -/

def derivations (g : Graph ε) (depth : ℕ) (line : List Text) : List (Candidate ε) :=
  ((g.ways [] depth 0).getD []).flatMap fun way =>
    if line = [] then g.endRoutes way
    else (g.routes depth line [0] way.2).map (Candidate.after way)

theorem Fits.of_startTkn {token : CmdToken} (h : token.type = .startTkn) (word : Text) :
    Fits token word := by
  rw [Fits, matchToken_startTkn h, h]
  decide

theorem WellFormed.routes_start {g : Graph ε} (hg : g.WellFormed) (depth : ℕ) (line : List Text) :
    ∃ head, g.routes depth (dummy :: line) [] 0 =
      (g.derivations depth line).map (Candidate.argument head) := by
  obtain ⟨token, hread, hstart⟩ := hg.start
  have htakes : Takes [] token 0 dummy :=
    ⟨by decide, .inr (by simp), Fits.of_startTkn hstart dummy⟩
  refine ⟨(cmdTokenDup token, dummy), ?_⟩
  rw [routes, hread]
  simp only [htakes, if_true]
  rfl

theorem WellFormed.mem_derivations {g : Graph ε} (hg : g.WellFormed) {depth : ℕ}
    (hdepth : g.size < depth) {line : List Text} {c : Candidate ε} :
    c ∈ g.derivations depth line ↔ g.Derives line c.trail c.found := by
  obtain ⟨head, hroutes⟩ := hg.routes_start depth line
  constructor
  · intro hc
    have hmem : c.argument head ∈ g.routes depth (dummy :: line) [] 0 :=
      hroutes ▸ List.mem_map_of_mem hc
    exact ⟨head, route_of_mem_routes hmem⟩
  · rintro ⟨head', hroute⟩
    have hmem := hg.mem_routes_of_route hdepth hroute
    rw [hroutes] at hmem
    obtain ⟨⟨trail, argv, el⟩, hc, heq⟩ := List.mem_map.mp hmem
    obtain ⟨trail', argv', el'⟩ := c
    cases heq
    exact hc

theorem WellFormed.nodup_derivations {g : Graph ε} (hg : g.WellFormed) (depth : ℕ)
    (line : List Text) : (g.derivations depth line).Nodup := by
  obtain ⟨head, hroutes⟩ := hg.routes_start depth line
  exact List.Nodup.of_map _ (hroutes ▸ hg.nodup_routes depth (dummy :: line) [] 0)

theorem Derives.found_unique {g : Graph ε} {line : List Text} {trail : List (List ℕ × ℕ)}
    {found found' : ArgList ε} (h : g.Derives line trail found)
    (h' : g.Derives line trail found') : found = found' := by
  obtain ⟨head, hroute⟩ := h
  obtain ⟨head', hroute'⟩ := h'
  cases found
  cases found'
  cases hroute.found_unique hroute'
  rfl

/-- The result is the verdict on the derivations. -/
theorem WellFormed.commandMatch_eq {g : Graph ε} (hg : g.WellFormed) {depth : ℕ}
    (hdepth : g.size < depth) (line : List Text) :
    g.commandMatch depth line = some
      ((leader Candidate.cost (g.derivations depth line)).elim
        (if g.spelled depth (dummy :: line) [] 0 then .incomplete else .noMatch, none)
        fun l => if l.tied then (.ambiguous, none) else (.ok, some l.best.found)) := by
  obtain ⟨token, hread, -⟩ := hg.start
  obtain ⟨head, hroutes⟩ := hg.routes_start depth line
  rw [commandMatch, hg.commandMatchR_eq hdepth (by simp) (by simp [hread]), hroutes]
  cases hl : leader Candidate.cost (g.derivations depth line) with
  | none =>
    rw [verdict_of_none (by rw [leader_argument, hl]; rfl)]
    cases g.spelled depth (dummy :: line) [] 0 <;> rfl
  | some l =>
    rw [verdict_of_some (by rw [leader_argument, hl]; rfl)]
    cases htied : l.tied <;> simp [htied, Candidate.argument]

/-- The derivation is strictly better than every other one. -/
def Best (g : Graph ε) (line : List Text) (trail : List (List ℕ × ℕ)) (found : ArgList ε) : Prop :=
  g.Derives line trail found ∧ ∀ trail' found', g.Derives line trail' found' → trail' ≠ trail →
    cost found.argv < cost found'.argv

/-- Two derivations are as good as each other, and none is better. -/
def Tied (g : Graph ε) (line : List Text) : Prop :=
  ∃ trail found trail' found', g.Derives line trail found ∧ g.Derives line trail' found' ∧
    trail' ≠ trail ∧ cost found'.argv = cost found.argv ∧
    ∀ trail'' found'', g.Derives line trail'' found'' → cost found.argv ≤ cost found''.argv

theorem Best.unique {g : Graph ε} {line : List Text} {trail trail' : List (List ℕ × ℕ)}
    {found found' : ArgList ε} (h : g.Best line trail found) (h' : g.Best line trail' found') :
    found = found' := by
  by_cases htrail : trail' = trail
  · subst htrail
    exact h.1.found_unique h'.1
  · exact absurd (h.2 _ _ h'.1 htrail) (h'.2 _ _ h.1 (Ne.symm htrail)).le.not_gt

theorem Best.not_tied {g : Graph ε} {line : List Text} {trail : List (List ℕ × ℕ)}
    {found : ArgList ε} (h : g.Best line trail found) : ¬ g.Tied line := by
  rintro ⟨t₁, f₁, t₂, f₂, h₁, h₂, hne, hcost, hle⟩
  by_cases ht : t₁ = trail
  · subst ht
    cases h.1.found_unique h₁
    exact absurd (h.2 t₂ f₂ h₂ hne) hcost.le.not_gt
  · exact absurd (h.2 t₁ f₁ h₁ ht) (hle trail found h.1).not_gt

theorem WellFormed.commandMatch_cases {g : Graph ε} (hg : g.WellFormed) {depth : ℕ}
    (hdepth : g.size < depth) (line : List Text) :
    (∃ trail found, g.Best line trail found ∧ g.commandMatch depth line = some (.ok, some found)) ∨
    (g.Tied line ∧ g.commandMatch depth line = some (.ambiguous, none)) ∨
    ((∀ trail found, ¬ g.Derives line trail found) ∧
      g.commandMatch depth line =
        some (if g.spelled depth (dummy :: line) [] 0 then .incomplete else .noMatch, none)) := by
  have hresult := hg.commandMatch_eq hdepth line
  cases hl : leader Candidate.cost (g.derivations depth line) with
  | none =>
    refine .inr (.inr ⟨fun trail found hderives => ?_, by rw [hresult, hl]; rfl⟩)
    have hmem := (hg.mem_derivations hdepth (c := ⟨trail, found⟩)).mpr hderives
    rw [(leader_eq_none _).mp hl] at hmem
    cases hmem
  | some l =>
    obtain ⟨hmem, hle⟩ := leader_spec _ hl
    have htied := leader_tied_iff _ (hg.nodup_derivations depth line) hl
    have hbest := (hg.mem_derivations hdepth).mp hmem
    rw [hl] at hresult
    cases ht : l.tied with
    | false =>
      refine .inl ⟨l.best.trail, l.best.found, ⟨hbest, ?_⟩, by rw [hresult]; simp [ht]⟩
      intro trail found hderives hne
      have hin := (hg.mem_derivations hdepth (c := ⟨trail, found⟩)).mpr hderives
      refine lt_of_le_of_ne (hle _ hin) fun hcost => ?_
      have : l.tied = true := htied.mpr ⟨⟨trail, found⟩, hin, fun h => hne (h ▸ rfl), hcost.symm⟩
      simp [ht] at this
    | true =>
      obtain ⟨c, hin, hne, hcost⟩ := htied.mp ht
      refine .inr (.inl ⟨⟨l.best.trail, l.best.found, c.trail, c.found, hbest,
        (hg.mem_derivations hdepth).mp hin, fun htrail => hne ?_, hcost, ?_⟩,
        by rw [hresult]; simp [ht]⟩)
      · have hfound := hbest.found_unique (htrail ▸ (hg.mem_derivations hdepth).mp hin)
        cases c
        obtain ⟨⟨trail, found⟩, tied⟩ := l
        cases htrail
        cases hfound
        rfl
      · intro trail found hderives
        exact hle _ ((hg.mem_derivations hdepth (c := ⟨trail, found⟩)).mpr hderives)

/-- A line is executed with the arguments of a derivation exactly when it is better than every
other derivation, and refused as ambiguous exactly when two are as good and none is better. Of
two derivations the one is better that has the smaller rank at the first word where the ranks
differ. -/
theorem commandMatch_takes_best {g : Graph ε} (hg : g.WellFormed) {depth : ℕ}
    (hdepth : g.size < depth) (line : List Text) :
    (∀ found, g.commandMatch depth line = some (.ok, some found) ↔
      ∃ trail, g.Best line trail found) ∧
    ((∃ argv, g.commandMatch depth line = some (.ambiguous, argv)) ↔ g.Tied line) := by
  rcases hg.commandMatch_cases hdepth line with ⟨trail, found, hbest, h⟩ | ⟨htied, h⟩ | ⟨hnone, h⟩
  · rw [h]
    refine ⟨fun found' => ⟨?_, ?_⟩, by simp [hbest.not_tied]⟩
    · rintro heq
      cases heq
      exact ⟨trail, hbest⟩
    · rintro ⟨trail', hbest'⟩
      rw [hbest.unique hbest']
  · rw [h]
    refine ⟨fun found' => ⟨fun heq => (by cases heq), ?_⟩, by simp [htied]⟩
    rintro ⟨trail', hbest'⟩
    exact absurd htied hbest'.not_tied
  · rw [h]
    refine ⟨fun found' => ⟨fun heq => ?_, ?_⟩, ⟨?_, ?_⟩⟩
    · split at heq <;> cases heq
    · rintro ⟨trail', hbest'⟩
      exact absurd hbest'.1 (hnone _ _)
    · rintro ⟨argv, heq⟩
      split at heq <;> cases heq
    · rintro ⟨trail', found', _, _, hderives, -⟩
      exact absurd hderives (hnone _ _)

/-- The graph of two commands, `exit` and `exitall`. -/
def exitGraph : Graph Bool :=
  let g := empty.graphNewNode (.token (cmdTokenNew .startTkn .normal []))
  let g := g.graphNewNode (.token (cmdTokenNew .wordTkn .normal ['e', 'x', 'i', 't']))
  let g := g.graphNewNode (.token (cmdTokenNew .endTkn .normal ['<', 'c', 'r', '>']))
  let g := g.graphNewNode (.element false)
  let g := g.graphNewNode (.token (cmdTokenNew .wordTkn .normal ['e', 'x', 'i', 't', 'a', 'l', 'l']))
  let g := g.graphNewNode (.token (cmdTokenNew .endTkn .normal ['<', 'c', 'r', '>']))
  let g := g.graphNewNode (.element true)
  [(0, 1), (1, 2), (2, 3), (0, 4), (4, 5), (5, 6)].foldl (fun g e => g.graphAddEdge e.1 e.2) g

theorem exitGraph_beyond {i : ℕ} (h : 7 ≤ i) :
    exitGraph.token i = none ∧ exitGraph.toNodes i = [] := by
  have hne : ∀ k < 7, i ≠ k := fun k hk => by omega
  simp [exitGraph, token, graphNewNode, graphAddEdge, empty, Function.update_of_ne, hne]

theorem exitGraph_edge {i child : ℕ} (h : child ∈ exitGraph.toNodes i) :
    (i, child) ∈ [(0, 1), (1, 2), (2, 3), (0, 4), (4, 5), (5, 6)] := by
  rcases Nat.lt_or_ge i 7 with hi | hi
  · have hall : ∀ i < 7, ∀ child ∈ exitGraph.toNodes i,
        (i, child) ∈ [(0, 1), (1, 2), (2, 3), (0, 4), (4, 5), (5, 6)] := by decide
    exact hall i hi child h
  · rw [(exitGraph_beyond hi).2] at h
    cases h

theorem exitGraph_wellFormed : exitGraph.WellFormed where
  bounded i hi := by
    by_contra h
    rw [(exitGraph_beyond (not_lt.mp h)).1] at hi
    cases hi
  tokens i child hchild hnone := by
    have hedge := exitGraph_edge hchild
    simp only [List.mem_cons, Prod.mk.injEq, List.not_mem_nil, or_false] at hedge
    rcases hedge with ⟨rfl, rfl⟩ | ⟨rfl, rfl⟩ | ⟨rfl, rfl⟩ | ⟨rfl, rfl⟩ | ⟨rfl, rfl⟩ | ⟨rfl, rfl⟩ <;>
      first | exact ⟨_, rfl, rfl⟩ | cases hnone
  start := ⟨_, rfl, rfl⟩
  nodup i := by
    rcases Nat.lt_or_ge i 7 with h | h
    · interval_cases i <;> decide
    · rw [(exitGraph_beyond h).2]
      exact .nil
  ends i token hread hend := by
    rcases Nat.lt_or_ge i 7 with h | h
    · interval_cases i <;> cases hread <;> first | exact ⟨_, _, rfl, rfl⟩ | cases hend
    · rw [(exitGraph_beyond h).1] at hread
      cases hread
  settles x hx := by
    -- only the start takes no word, and no edge leads to it
    obtain ⟨y, -, hchild, token, hread, hsilent⟩ := Relation.TransGen.tail'_iff.mp hx
    have hedge := exitGraph_edge hchild
    simp only [List.mem_cons, Prod.mk.injEq, List.not_mem_nil, or_false] at hedge
    rcases hedge with ⟨-, rfl⟩ | ⟨-, rfl⟩ | ⟨-, rfl⟩ | ⟨-, rfl⟩ | ⟨-, rfl⟩ | ⟨-, rfl⟩ <;>
      cases hread <;> cases hsilent

/-- The exact word is better than the beginning of another one; a beginning of both is ambiguous. -/
theorem exitGraph_takes_best :
    (∃ trail, exitGraph.Best [['e', 'x', 'i', 't']] trail
      ⟨[(cmdTokenNew .wordTkn .normal ['e', 'x', 'i', 't'], ['e', 'x', 'i', 't'])], false⟩) ∧
      exitGraph.Tied [['e', 'x']] :=
  ⟨((commandMatch_takes_best exitGraph_wellFormed (show exitGraph.size < 8 by decide) _).1 _).mp rfl,
    (commandMatch_takes_best exitGraph_wellFormed (show exitGraph.size < 8 by decide) _).2.mp
      ⟨none, rfl⟩⟩

/-- A line that no command derives is reported as incomplete exactly when its words are spelled
by the beginning of some command, and otherwise as not matching; and the search comes back on
every line. -/
theorem commandMatch_refusals {g : Graph ε} (hg : g.WellFormed) {depth : ℕ}
    (hdepth : g.size < depth) (line : List Text) :
    ((∃ argv, g.commandMatch depth line = some (.incomplete, argv)) ↔
      (∀ trail found, ¬ g.Derives line trail found) ∧ g.Begins line) ∧
    ((∃ argv, g.commandMatch depth line = some (.noMatch, argv)) ↔
      (∀ trail found, ¬ g.Derives line trail found) ∧ ¬ g.Begins line) := by
  have hbegins : g.spelled depth (dummy :: line) [] 0 = true ↔ g.Begins line :=
    hg.spelled_iff hdepth
  rcases hg.commandMatch_cases hdepth line with ⟨trail, found, hbest, h⟩ | ⟨htied, h⟩ | ⟨hnone, h⟩
  · have hsome : ¬ ∀ trail found, ¬ g.Derives line trail found := fun hall => hall _ _ hbest.1
    simp [h, hsome]
  · have hsome : ¬ ∀ trail found, ¬ g.Derives line trail found := by
      obtain ⟨trail, found, _, _, hderives, -⟩ := htied
      exact fun hall => hall _ _ hderives
    simp [h, hsome]
  · rw [h]
    by_cases hb : g.Begins line
    · simp [hnone, hb, hbegins.mpr hb]
    · simp [hnone, hb, Bool.eq_false_iff.mpr (mt hbegins.mp hb)]

theorem exitGraph_refusals : exitGraph.Begins [] ∧ ¬ exitGraph.Begins [['e', 'x'], ['n', 'o']] :=
  ⟨((commandMatch_refusals exitGraph_wellFormed (show exitGraph.size < 8 by decide) _).1.mp
      ⟨none, rfl⟩).2,
    ((commandMatch_refusals exitGraph_wellFormed (show exitGraph.size < 8 by decide) _).2.mp
      ⟨none, rfl⟩).2⟩

end Graph
end Routerd.CommandMatch
