import Routerd.WalkLanguages
import Routerd.CommandSearch

/-!
# The syntax of command strings and the language of a command

The grammar of command strings is kept as trees, one constructor for each production. A tree
stands for a language over the occurrences of its tokens. The parser builds each part of a command
as a fragment of a graph, on the numbers that follow those in use, with a fork and a join made
after the first alternative between them; the walks through the fragment spell the language of
the tree.
-/

namespace Routerd.CommandMatch
open NumeralText Walks Computability

/-! ### Syntax -/

/-- A literal or a placeholder, with the name given behind a dollar sign. -/
structure SimpleToken where
  type : TokenType
  plain : type.isSpecial = false
  text : Text
  min : ℤ
  max : ℤ
  varname : Option Text

/-- The brackets of a selector: one of the alternatives, at least one of them, at most one. -/
inductive SelectorKind where
  | angle | brace | bracket

mutual

inductive SelectorToken where
  | simple (token : SimpleToken)
  | selector (kind : SelectorKind) (alts : SelectorSeqSeq) (varname : Option Text)

inductive SelectorTokenSeq where
  | one (token : SelectorToken)
  | more (seq : SelectorTokenSeq) (token : SelectorToken)

inductive SelectorSeqSeq where
  | one (seq : SelectorTokenSeq)
  | more (alts : SelectorSeqSeq) (seq : SelectorTokenSeq)

end

/-- The command string: a sequence of tokens, and a placeholder with three dots at its end. -/
structure CommandString where
  tokens : List SelectorToken
  variadic : Option {token : SimpleToken // token.type ≠ .wordTkn}

/-! ### The language of a command -/

mutual

/-- What the nodes hold, in the order in which they are made: a token, or none for a fork or a
join. -/
def SelectorToken.layout : SelectorToken → List (Option SimpleToken)
  | .simple s => [some s]
  | .selector _ alts _ => alts.layout

def SelectorTokenSeq.layout : SelectorTokenSeq → List (Option SimpleToken)
  | .one token => token.layout
  | .more seq token => seq.layout ++ token.layout

def SelectorSeqSeq.layout : SelectorSeqSeq → List (Option SimpleToken)
  | .one seq => seq.layout ++ [none, none]
  | .more alts seq => alts.layout ++ seq.layout

end

mutual

/-- The fragment of the graph that is built on the numbers from `lo` on. -/
def SelectorToken.fragment : SelectorToken → ℕ → Fragment ℕ
  | .simple _, lo => .single lo
  | .selector .angle alts _, lo => alts.fragment lo
  | .selector .brace alts _, lo => (alts.fragment lo).again
  | .selector .bracket alts _, lo => (alts.fragment lo).skip

def SelectorTokenSeq.fragment : SelectorTokenSeq → ℕ → Fragment ℕ
  | .one token, lo => token.fragment lo
  | .more seq token, lo => (seq.fragment lo).seq (token.fragment (lo + seq.layout.length))

def SelectorSeqSeq.fragment : SelectorSeqSeq → ℕ → Fragment ℕ
  | .one seq, lo =>
    (seq.fragment lo).enclose (lo + seq.layout.length) (lo + seq.layout.length + 1)
  | .more alts seq, lo => (alts.fragment lo).branch (seq.fragment (lo + alts.layout.length))

end

mutual

/-- The lists of occurrences that a part of a command string stands for, the occurrence of a
token being the number of its node. -/
def SelectorToken.lang : SelectorToken → ℕ → Language ℕ
  | .simple _, lo => {[lo]}
  | .selector .angle alts _, lo => alts.lang lo
  | .selector .brace alts _, lo => alts.lang lo * (alts.lang lo)∗
  | .selector .bracket alts _, lo => alts.lang lo + 1

def SelectorTokenSeq.lang : SelectorTokenSeq → ℕ → Language ℕ
  | .one token, lo => token.lang lo
  | .more seq token, lo => seq.lang lo * token.lang (lo + seq.layout.length)

def SelectorSeqSeq.lang : SelectorSeqSeq → ℕ → Language ℕ
  | .one seq, lo => seq.lang lo
  | .more alts seq, lo => alts.lang lo + seq.lang (lo + alts.layout.length)

end

/-! ### What the fragments spell -/

theorem disjoint_of_subset {lo mid hi : ℕ} {s t : Set ℕ} (hs : s ⊆ Set.Ico lo mid)
    (ht : t ⊆ Set.Ico mid hi) : Disjoint s t := by
  rw [Set.disjoint_left]
  intro i hi' hi''
  have := (hs hi').2
  have := (ht hi'').1
  omega

mutual

theorem SelectorToken.nodes_subset : ∀ (t : SelectorToken) (lo : ℕ),
    (t.fragment lo).nodes ⊆ Set.Ico lo (lo + t.layout.length)
  | .simple _, lo => by
    rintro i rfl
    simp [SelectorToken.layout]
  | .selector .angle alts _, lo => alts.nodes_subset lo
  | .selector .brace alts _, lo => alts.nodes_subset lo
  | .selector .bracket alts _, lo => alts.nodes_subset lo

theorem SelectorTokenSeq.nodes_subset : ∀ (s : SelectorTokenSeq) (lo : ℕ),
    (s.fragment lo).nodes ⊆ Set.Ico lo (lo + s.layout.length)
  | .one t, lo => t.nodes_subset lo
  | .more s t, lo => by
    rintro i (hi | hi)
    · have := s.nodes_subset lo hi
      simp only [SelectorTokenSeq.layout, List.length_append, Set.mem_Ico] at this ⊢
      omega
    · have := t.nodes_subset _ hi
      simp only [SelectorTokenSeq.layout, List.length_append, Set.mem_Ico] at this ⊢
      omega

theorem SelectorSeqSeq.nodes_subset : ∀ (a : SelectorSeqSeq) (lo : ℕ),
    (a.fragment lo).nodes ⊆ Set.Ico lo (lo + a.layout.length)
  | .one s, lo => by
    rintro i (hi | rfl | rfl)
    · have := s.nodes_subset lo hi
      simp only [SelectorSeqSeq.layout, List.length_append, Set.mem_Ico] at this ⊢
      omega
    · simp [SelectorSeqSeq.layout]
    · simp only [SelectorSeqSeq.layout, List.length_append, List.length_cons, List.length_nil,
        Set.mem_Ico]
      omega
  | .more a s, lo => by
    rintro i (hi | hi)
    · have := a.nodes_subset lo hi
      simp only [SelectorSeqSeq.layout, List.length_append, Set.mem_Ico] at this ⊢
      omega
    · have := s.nodes_subset _ hi
      simp only [SelectorSeqSeq.layout, List.length_append, Set.mem_Ico] at this ⊢
      omega

end

theorem SelectorSeqSeq.last_layout : ∀ (a : SelectorSeqSeq) (lo : ℕ),
    ∃ k, (a.fragment lo).last = lo + k ∧ a.layout[k]? = some none
  | .one s, lo => ⟨s.layout.length + 1, by simp [SelectorSeqSeq.fragment, Fragment.enclose]; omega,
      by simp [SelectorSeqSeq.layout]⟩
  | .more a s, lo => by
    obtain ⟨k, hlast, hk⟩ := a.last_layout lo
    have hlt := (List.getElem?_eq_some_iff.mp hk).1
    exact ⟨k, hlast, by rw [SelectorSeqSeq.layout, List.getElem?_append_left hlt, hk]⟩

def Marked (loud : ℕ → Bool) (lo : ℕ) (layout : List (Option SimpleToken)) : Prop :=
  ∀ k o, layout[k]? = some o → loud (lo + k) = o.isSome

theorem Marked.left {loud : ℕ → Bool} {lo : ℕ} {l₁ l₂ : List (Option SimpleToken)}
    (h : Marked loud lo (l₁ ++ l₂)) : Marked loud lo l₁ := by
  intro k o hk
  have hlt := (List.getElem?_eq_some_iff.mp hk).1
  exact h k o (by rw [List.getElem?_append_left hlt, hk])

theorem Marked.right {loud : ℕ → Bool} {lo : ℕ} {l₁ l₂ : List (Option SimpleToken)}
    (h : Marked loud lo (l₁ ++ l₂)) : Marked loud (lo + l₁.length) l₂ := by
  intro k o hk
  rw [Nat.add_assoc]
  exact h _ o (by rw [List.getElem?_append_right (by omega), Nat.add_sub_cancel_left, hk])

theorem fork_notMem (s : SelectorTokenSeq) (lo : ℕ) :
    lo + s.layout.length ∉ (s.fragment lo).nodes := by
  intro h
  have := (s.nodes_subset lo h).2
  omega

theorem join_notMem (s : SelectorTokenSeq) (lo : ℕ) :
    lo + s.layout.length + 1 ∉ (s.fragment lo).nodes := by
  intro h
  have := (s.nodes_subset lo h).2
  omega

/-- Alternatives stand between a fork and a join, which are not loud, and which have no edges but
to and from the alternatives. -/
structure Selects (loud : ℕ → Bool) (f : Fragment ℕ) : Prop where
  isOpen : f.Open
  ne : f.first ≠ f.last
  no_edge : ¬ f.edge f.first f.last
  first_silent : loud f.first = false
  last_silent : loud f.last = false

theorem SelectorSeqSeq.selects {loud : ℕ → Bool} : ∀ (a : SelectorSeqSeq) (lo : ℕ),
    Marked loud lo a.layout → Selects loud (a.fragment lo)
  | .one s, lo, h =>
    { isOpen := Fragment.open_enclose (fork_notMem s lo) (join_notMem s lo) (by omega)
      ne := by simp [SelectorSeqSeq.fragment, Fragment.enclose]
      no_edge := by
        rintro (h | ⟨-, h⟩ | ⟨h, -⟩)
        · exact fork_notMem s lo ((s.fragment lo).confined h).1
        · exact join_notMem s lo ((show lo + s.layout.length + 1 = _ from h) ▸
            (s.fragment lo).first_mem)
        · exact fork_notMem s lo ((show lo + s.layout.length = _ from h) ▸
            (s.fragment lo).last_mem)
      first_silent := h.right 0 none rfl
      last_silent := h.right 1 none rfl }
  | .more a s, lo, h => by
    have ha := a.selects lo h.left
    have hdisjoint := disjoint_of_subset (a.nodes_subset lo)
      (s.nodes_subset (lo + a.layout.length))
    refine ⟨ha.isOpen.branch hdisjoint ha.ne, ha.ne, ?_, ha.first_silent, ha.last_silent⟩
    rintro ((h | h) | ⟨-, h⟩ | ⟨h, -⟩)
    · exact ha.no_edge h
    · exact Set.disjoint_left.mp hdisjoint (a.fragment lo).first_mem
        ((s.fragment (lo + a.layout.length)).confined h).1
    · exact Set.disjoint_left.mp hdisjoint (a.fragment lo).last_mem
        ((show (a.fragment lo).last = _ from h) ▸
          (s.fragment (lo + a.layout.length)).first_mem)
    · exact Set.disjoint_left.mp hdisjoint (a.fragment lo).first_mem
        ((show (a.fragment lo).first = _ from h) ▸
          (s.fragment (lo + a.layout.length)).last_mem)

section Lang
variable {loud : ℕ → Bool}

mutual

theorem SelectorToken.lang_fragment : ∀ (t : SelectorToken) (lo : ℕ), Marked loud lo t.layout →
    (t.fragment lo).lang loud = t.lang lo
  | .simple s, lo, h => Fragment.lang_single loud (h 0 (some s) rfl)
  | .selector .angle a _, lo, h => a.lang_fragment lo h
  | .selector .brace a _, lo, h => by
    rw [SelectorToken.fragment, Fragment.lang_again, a.lang_fragment lo h, SelectorToken.lang]
  | .selector .bracket a _, lo, h => by
    have hs := a.selects lo h
    rw [SelectorToken.fragment, Fragment.lang_skip loud hs.isOpen hs.ne hs.first_silent
      hs.last_silent, a.lang_fragment lo h, SelectorToken.lang]

theorem SelectorTokenSeq.lang_fragment : ∀ (s : SelectorTokenSeq) (lo : ℕ),
    Marked loud lo s.layout → (s.fragment lo).lang loud = s.lang lo
  | .one t, lo, h => t.lang_fragment lo h
  | .more s t, lo, h => by
    rw [SelectorTokenSeq.fragment, Fragment.lang_seq loud (disjoint_of_subset
      (s.nodes_subset lo) (t.nodes_subset (lo + s.layout.length))), s.lang_fragment lo h.left,
      t.lang_fragment _ h.right, SelectorTokenSeq.lang]

theorem SelectorSeqSeq.lang_fragment : ∀ (a : SelectorSeqSeq) (lo : ℕ),
    Marked loud lo a.layout → (a.fragment lo).lang loud = a.lang lo
  | .one s, lo, h => by
    rw [SelectorSeqSeq.fragment, Fragment.lang_enclose loud (fork_notMem s lo)
      (join_notMem s lo) (by omega) (h.right 0 none rfl) (h.right 1 none rfl),
      s.lang_fragment lo h.left, SelectorSeqSeq.lang]
  | .more a s, lo, h => by
    have hs := a.selects lo h.left
    rw [SelectorSeqSeq.fragment, Fragment.lang_branch loud hs.isOpen (disjoint_of_subset
      (a.nodes_subset lo) (s.nodes_subset (lo + a.layout.length))) hs.ne hs.first_silent
      hs.last_silent, a.lang_fragment lo h.left, s.lang_fragment _ h.right, SelectorSeqSeq.lang]

end

/-! ### Keyword sets with an empty alternative -/

mutual

/-- The part may stand for no word at all. -/
def SelectorToken.nullable : SelectorToken → Bool
  | .simple _ => false
  | .selector .angle alts _ => alts.nullable
  | .selector .brace alts _ => alts.nullable
  | .selector .bracket _ _ => true

def SelectorTokenSeq.nullable : SelectorTokenSeq → Bool
  | .one token => token.nullable
  | .more seq token => seq.nullable && token.nullable

def SelectorSeqSeq.nullable : SelectorSeqSeq → Bool
  | .one seq => seq.nullable
  | .more alts seq => alts.nullable || seq.nullable

end

mutual

/-- No alternative of a keyword set may stand for no word. -/
def SelectorToken.keywordsSpeak : SelectorToken → Bool
  | .simple _ => true
  | .selector .angle alts _ => alts.keywordsSpeak
  | .selector .brace alts _ => alts.keywordsSpeak && !alts.nullable
  | .selector .bracket alts _ => alts.keywordsSpeak

def SelectorTokenSeq.keywordsSpeak : SelectorTokenSeq → Bool
  | .one token => token.keywordsSpeak
  | .more seq token => seq.keywordsSpeak && token.keywordsSpeak

def SelectorSeqSeq.keywordsSpeak : SelectorSeqSeq → Bool
  | .one seq => seq.keywordsSpeak
  | .more alts seq => alts.keywordsSpeak && seq.keywordsSpeak

end

theorem nil_mem_mul {l m : Language ℕ} : [] ∈ l * m ↔ [] ∈ l ∧ [] ∈ m := by
  rw [Language.mem_mul]
  constructor
  · rintro ⟨u, hu, v, hv, h⟩
    obtain ⟨rfl, rfl⟩ := List.append_eq_nil_iff.mp h
    exact ⟨hu, hv⟩
  · rintro ⟨hl, hm⟩
    exact ⟨[], hl, [], hm, rfl⟩

mutual

theorem SelectorToken.nil_mem_lang : ∀ (t : SelectorToken) (lo : ℕ),
    [] ∈ t.lang lo ↔ t.nullable = true
  | .simple _, lo => by
    simp only [SelectorToken.lang, SelectorToken.nullable, Bool.false_eq_true, iff_false]
    intro h
    cases h
  | .selector .angle a _, lo => a.nil_mem_lang lo
  | .selector .brace a _, lo => by
    rw [SelectorToken.lang, nil_mem_mul, a.nil_mem_lang lo, SelectorToken.nullable]
    simp [Language.nil_mem_kstar]
  | .selector .bracket a _, lo => by
    simp only [SelectorToken.lang, SelectorToken.nullable, iff_true]
    exact .inr Language.nil_mem_one

theorem SelectorTokenSeq.nil_mem_lang : ∀ (s : SelectorTokenSeq) (lo : ℕ),
    [] ∈ s.lang lo ↔ s.nullable = true
  | .one t, lo => t.nil_mem_lang lo
  | .more s t, lo => by
    rw [SelectorTokenSeq.lang, nil_mem_mul, s.nil_mem_lang, t.nil_mem_lang,
      SelectorTokenSeq.nullable, Bool.and_eq_true]

theorem SelectorSeqSeq.nil_mem_lang : ∀ (a : SelectorSeqSeq) (lo : ℕ),
    [] ∈ a.lang lo ↔ a.nullable = true
  | .one s, lo => s.nil_mem_lang lo
  | .more a s, lo => by
    rw [SelectorSeqSeq.lang, Language.mem_add, a.nil_mem_lang, s.nil_mem_lang,
      SelectorSeqSeq.nullable, Bool.or_eq_true]

end

mutual

/-- A part of a command has a circle without words exactly when it has a keyword set with an
alternative that may stand for no word. -/
theorem SelectorToken.quiet_iff : ∀ (t : SelectorToken) (lo : ℕ), Marked loud lo t.layout →
    ((t.fragment lo).Quiet loud ↔ t.keywordsSpeak = true)
  | .simple _, lo, _ => by
    simp only [SelectorToken.keywordsSpeak, iff_true]
    exact Fragment.quiet_single loud lo
  | .selector .angle a _, lo, h => a.quiet_iff lo h
  | .selector .brace a _, lo, h => by
    rw [SelectorToken.fragment, Fragment.quiet_again loud (a.selects lo h).first_silent,
      a.quiet_iff lo h, a.lang_fragment lo h, a.nil_mem_lang, SelectorToken.keywordsSpeak]
    simp
  | .selector .bracket a _, lo, h => by
    rw [SelectorToken.fragment, Fragment.quiet_skip loud (a.selects lo h).isOpen
      (a.selects lo h).ne, a.quiet_iff lo h, SelectorToken.keywordsSpeak]

theorem SelectorTokenSeq.quiet_iff : ∀ (s : SelectorTokenSeq) (lo : ℕ), Marked loud lo s.layout →
    ((s.fragment lo).Quiet loud ↔ s.keywordsSpeak = true)
  | .one t, lo, h => t.quiet_iff lo h
  | .more s t, lo, h => by
    rw [SelectorTokenSeq.fragment, Fragment.quiet_seq loud (disjoint_of_subset
      (s.nodes_subset lo) (t.nodes_subset (lo + s.layout.length))), s.quiet_iff lo h.left,
      t.quiet_iff _ h.right, SelectorTokenSeq.keywordsSpeak, Bool.and_eq_true]

theorem SelectorSeqSeq.quiet_iff : ∀ (a : SelectorSeqSeq) (lo : ℕ), Marked loud lo a.layout →
    ((a.fragment lo).Quiet loud ↔ a.keywordsSpeak = true)
  | .one s, lo, h => by
    rw [SelectorSeqSeq.fragment, Fragment.quiet_enclose loud (fork_notMem s lo)
      (join_notMem s lo) (by omega), s.quiet_iff lo h.left, SelectorSeqSeq.keywordsSpeak]
  | .more a s, lo, h => by
    have hs := a.selects lo h.left
    rw [SelectorSeqSeq.fragment, Fragment.quiet_branch loud hs.isOpen (disjoint_of_subset
      (a.nodes_subset lo) (s.nodes_subset (lo + a.layout.length))) hs.ne,
      a.quiet_iff lo h.left, s.quiet_iff _ h.right, SelectorSeqSeq.keywordsSpeak,
      Bool.and_eq_true]

end

/-! ### Whole commands -/

/-- The tokens of a command one after the other, behind a fragment. -/
def seqTokens : List SelectorToken → ℕ → Fragment ℕ → Fragment ℕ
  | [], _, f => f
  | t :: ts, lo, f => seqTokens ts (lo + t.layout.length) (f.seq (t.fragment lo))

def langTokens : List SelectorToken → ℕ → Language ℕ
  | [], _ => 1
  | t :: ts, lo => t.lang lo * langTokens ts (lo + t.layout.length)

theorem seqTokens_nodes (ts : List SelectorToken) {lo : ℕ} {f : Fragment ℕ}
    (hf : f.nodes ⊆ Set.Ico 0 lo) : (seqTokens ts lo f).nodes ⊆
      Set.Ico 0 (lo + (ts.flatMap SelectorToken.layout).length) := by
  induction ts generalizing lo f with
  | nil => exact hf
  | cons t ts ih =>
    rw [seqTokens, List.flatMap_cons, List.length_append, ← Nat.add_assoc]
    apply ih
    rintro i (hi | hi)
    · have := hf hi
      simp only [Set.mem_Ico] at this ⊢
      omega
    · have := t.nodes_subset lo hi
      simp only [Set.mem_Ico] at this ⊢
      omega

theorem lang_seqTokens (ts : List SelectorToken) {lo : ℕ} {f : Fragment ℕ}
    (hf : f.nodes ⊆ Set.Ico 0 lo) (h : Marked loud lo (ts.flatMap SelectorToken.layout)) :
    (seqTokens ts lo f).lang loud = f.lang loud * langTokens ts lo := by
  induction ts generalizing lo f with
  | nil => rw [seqTokens, langTokens, mul_one]
  | cons t ts ih =>
    have hseq : (f.seq (t.fragment lo)).nodes ⊆ Set.Ico 0 (lo + t.layout.length) := by
      simpa [seqTokens] using seqTokens_nodes [t] hf
    rw [seqTokens, ih hseq h.right, Fragment.lang_seq loud (disjoint_of_subset hf
      (t.nodes_subset lo)), t.lang_fragment lo h.left, langTokens, mul_assoc]

theorem quiet_seqTokens (ts : List SelectorToken) {lo : ℕ} {f : Fragment ℕ}
    (hf : f.nodes ⊆ Set.Ico 0 lo) (h : Marked loud lo (ts.flatMap SelectorToken.layout)) :
    (seqTokens ts lo f).Quiet loud ↔ f.Quiet loud ∧ ts.all SelectorToken.keywordsSpeak = true := by
  induction ts generalizing lo f with
  | nil => simp [seqTokens]
  | cons t ts ih =>
    have hseq : (f.seq (t.fragment lo)).nodes ⊆ Set.Ico 0 (lo + t.layout.length) := by
      simpa [seqTokens] using seqTokens_nodes [t] hf
    rw [seqTokens, ih hseq h.right, Fragment.quiet_seq loud (disjoint_of_subset hf
      (t.nodes_subset lo)), t.quiet_iff lo h.left, List.all_cons, Bool.and_eq_true, and_assoc]

namespace CommandString

def layout (cmd : CommandString) : List (Option SimpleToken) :=
  none :: cmd.tokens.flatMap SelectorToken.layout

/-- The occurrences that a command stands for: those of its tokens, and the node of a repeated
placeholder at least once. -/
def lang (cmd : CommandString) : Language ℕ :=
  match cmd.variadic with
  | none => langTokens cmd.tokens 1
  | some _ => langTokens cmd.tokens 1 * ({[cmd.layout.length]} * {[cmd.layout.length]}∗)

def fragment (cmd : CommandString) : Fragment ℕ :=
  match cmd.variadic with
  | none => seqTokens cmd.tokens 1 (.single 0)
  | some _ => (seqTokens cmd.tokens 1 (.single 0)).seq (Fragment.single cmd.layout.length).again

def endNode (cmd : CommandString) : ℕ :=
  cmd.layout.length + if cmd.variadic.isSome then 1 else 0

def keywordsSpeak (cmd : CommandString) : Bool := cmd.tokens.all SelectorToken.keywordsSpeak

/-- The node of a repeated placeholder is loud, and so is what the layout says. -/
structure Marks (cmd : CommandString) (loud : ℕ → Bool) : Prop where
  layout : Marked loud 0 cmd.layout
  variadic : cmd.variadic.isSome = true → loud cmd.layout.length = true

theorem body_nodes (cmd : CommandString) :
    (seqTokens cmd.tokens 1 (.single 0)).nodes ⊆ Set.Ico 0 cmd.layout.length := by
  have hstart : (Fragment.single 0).nodes ⊆ Set.Ico 0 1 := by
    rintro i rfl
    simp
  have h := seqTokens_nodes cmd.tokens hstart
  rwa [Nat.add_comm, ← List.length_cons (a := none)] at h

theorem fragment_nodes (cmd : CommandString) : cmd.fragment.nodes ⊆ Set.Ico 0 cmd.endNode := by
  unfold fragment endNode
  cases cmd.variadic with
  | none => exact cmd.body_nodes
  | some token =>
    rintro i (hi | rfl)
    · have := cmd.body_nodes hi
      simp only [Set.mem_Ico, Option.isSome_some, if_true] at this ⊢
      omega
    · simp

theorem Marks.start {cmd : CommandString} (h : cmd.Marks loud) : loud 0 = false :=
  h.layout 0 none rfl

theorem Marks.tokens {cmd : CommandString} (h : cmd.Marks loud) :
    Marked loud 1 (cmd.tokens.flatMap SelectorToken.layout) := by
  have := h.layout
  rw [CommandString.layout, ← List.singleton_append] at this
  exact this.right

theorem disjoint_variadic (cmd : CommandString) :
    Disjoint (seqTokens cmd.tokens 1 (.single 0)).nodes
      (Fragment.single cmd.layout.length).again.nodes := by
  have hagain : (Fragment.single cmd.layout.length).again.nodes ⊆
      Set.Ico cmd.layout.length (cmd.layout.length + 1) := by
    rintro i rfl
    simp
  exact disjoint_of_subset cmd.body_nodes hagain

theorem lang_fragment {cmd : CommandString} (h : cmd.Marks loud) :
    cmd.fragment.lang loud = cmd.lang := by
  have hstart : (Fragment.single 0).lang loud = 1 := by
    ext w
    rw [Language.mem_one]
    constructor
    · rintro ⟨xs, hwalk, rfl⟩
      obtain ⟨rfl, -⟩ | ⟨c, ys, -, edge, -⟩ := hwalk.cases_first
      · simp [Fragment.single, h.start]
      · exact edge.elim
    · rintro rfl
      exact ⟨[], .nil _, by simp [Fragment.single, h.start]⟩
  have hbody : (seqTokens cmd.tokens 1 (.single 0)).lang loud = langTokens cmd.tokens 1 := by
    rw [lang_seqTokens cmd.tokens (by rintro i rfl; simp) h.tokens, hstart, one_mul]
  unfold fragment lang
  cases hv : cmd.variadic with
  | none => exact hbody
  | some token =>
    rw [Fragment.lang_seq loud cmd.disjoint_variadic, hbody, Fragment.lang_again,
      Fragment.lang_single loud (h.variadic (by simp [hv]))]

theorem quiet_iff {cmd : CommandString} (h : cmd.Marks loud) :
    cmd.fragment.Quiet loud ↔ cmd.keywordsSpeak = true := by
  have hbody : (seqTokens cmd.tokens 1 (.single 0)).Quiet loud ↔ cmd.keywordsSpeak = true := by
    rw [quiet_seqTokens cmd.tokens (by rintro i rfl; simp) h.tokens]
    simp [Fragment.quiet_single, keywordsSpeak]
  unfold fragment
  cases hv : cmd.variadic with
  | none => exact hbody
  | some token =>
    have hagain : (Fragment.single cmd.layout.length).again.Quiet loud := by
      intro x hx
      obtain ⟨b, -, hedge, hb⟩ := Relation.TransGen.tail'_iff.mp hx
      obtain h' | ⟨-, rfl⟩ := hedge
      · exact h'
      · rw [show (Fragment.single cmd.layout.length).first = cmd.layout.length from rfl,
          h.variadic (by simp [hv])] at hb
        cases hb
    rw [Fragment.quiet_seq loud cmd.disjoint_variadic, hbody]
    simp [hagain]

end CommandString

end Lang

end Routerd.CommandMatch
