import Routerd.CommandMatch

/-!
# The tokens of a command

A command is made of tokens, and each type of token has a matcher that says how well a word of
the line fits it. Of two tokens that both match a word `disambiguate_tokens` takes the one whose
type goes before the other, and of one type the one that the word matches more exactly. On tokens
that match this is the comparison of one number, `rank`.
-/

namespace Routerd.CommandMatch
open NumeralText

inductive TokenType where
  | wordTkn | variableTkn | rangeTkn | ipv4Tkn | ipv4PrefixTkn | ipv6Tkn | ipv6PrefixTkn
  | macTkn | macPrefixTkn
  | forkTkn | joinTkn | startTkn | endTkn
  deriving DecidableEq

/-- `type >= SPECIAL_TKN`. -/
def TokenType.isSpecial : TokenType → Bool
  | .forkTkn | .joinTkn | .startTkn | .endTkn => true
  | _ => false

inductive CmdAttr where
  | normal | deprecated | hidden
  deriving DecidableEq

/-- A token. The plumbing tokens have no text, and the node a fork or a join is paired with is
given by its number. -/
structure CmdToken where
  type : TokenType
  attr : CmdAttr
  text : Text
  allowrepeat : Bool
  min : ℤ
  max : ℤ
  varname : Option Text
  forkjoin : Option ℕ
  deriving DecidableEq

def cmdTokenNew (type : TokenType) (attr : CmdAttr) (text : Text) : CmdToken where
  type := type
  attr := attr
  text := text
  allowrepeat := false
  min := 0
  max := 0
  varname := none
  forkjoin := none

/-! ### The matchers of one word -/

def matchWord (token : CmdToken) (word : Text) : MatchType :=
  if word = [] then .partlyMatch
  else if word.length < token.text.length then
    if token.text.take word.length = word then .partlyMatch else .noMatch
  else if word.length = token.text.length then
    if token.text = word then .exactMatch else .noMatch
  else .noMatch

/-- The loop over the numbers; a dot is looked at together with what follows it. -/
def ipv4Numbers : Text → ℕ → ℕ → Text → MatchType
  | [], _, nums, octet =>
    if BadOctet octet then .noMatch
    else if nums + 1 < 4 then .partlyMatch else .exactMatch
  | c :: cs, dots, nums, octet =>
    if c = '.' then
      if 3 ≤ dots then .noMatch
      else if cs.head? = some '.' then .noMatch
      else if cs = [] then .partlyMatch
      else if BadOctet octet then .noMatch
      else ipv4Numbers cs (dots + 1) (nums + 1) []
    else if c.isDigit then ipv4Numbers cs dots nums (octet ++ [c])
    else .noMatch

def matchIpv4 (str : Text) : MatchType := ipv4Numbers str 0 0 []

def matchRange (token : CmdToken) (str : Text) : MatchType :=
  if strtolEnd str ≠ [] then .noMatch
  else if strtol str 10 < token.min ∨ token.max < strtol str 10 then .noMatch
  else .exactMatch

def macChars : Text :=
  ['A', 'B', 'C', 'D', 'E', 'F', 'a', 'b', 'c', 'd', 'e', 'f',
    '0', '1', '2', '3', '4', '5', '6', '7', '8', '9', ':']

/-- The loop over the seventeen characters of the address, from the `i`-th one on; it leaves what
follows them. -/
def macAddress : Text → ℕ → Except MatchType Text
  | [], i => if i = 17 then .ok [] else .error .partlyMatch
  | c :: cs, i =>
    if i = 17 then .ok (c :: cs)
    else if c ∉ macChars then .error .noMatch
    else if ((i + 1) % 3 = 0) ≠ (c = ':') then .error .noMatch
    else macAddress cs (i + 1)

/-- The mask has at most two characters, so that `strtoul` does not saturate; it is stored in an
`unsigned int`. -/
def matchMac (word : Text) (withMask : Bool) : MatchType :=
  if 17 + (if withMask then 3 else 0) < word.length then .noMatch
  else match macAddress word 0 with
    | .error m => m
    | .ok rest =>
      if withMask then
        match rest with
        | [] => .partlyMatch
        | c :: mask =>
          if c ≠ '/' then .noMatch
          else if mask = [] then .partlyMatch
          else if strtolEnd mask ≠ [] ∨ 48 < strtol mask 10 % 2 ^ 32 then .noMatch
          else .exactMatch
      else .exactMatch

/-- How well an input, which may be null, fits the token. -/
def matchToken (token : CmdToken) (input : Option Text) : MatchType :=
  match input with
  | none => .trivialMatch
  | some word =>
    match token.type with
    | .wordTkn => matchWord token word
    | .ipv4Tkn => matchIpv4 word
    | .ipv4PrefixTkn => matchIpv4Prefix word
    | .ipv6Tkn => matchIpv6Prefix (some word) false
    | .ipv6PrefixTkn => matchIpv6Prefix (some word) true
    | .rangeTkn => matchRange token word
    | .variableTkn => .exactMatch
    | .macTkn => matchMac word false
    | .macPrefixTkn => matchMac word true
    | .forkTkn | .joinTkn | .startTkn | .endTkn => .noMatch

/-! ### The better of two matches -/

def MatchType.level : MatchType → ℕ
  | .trivialMatch => 0
  | .noMatch => 1
  | .partlyMatch => 2
  | .exactMatch => 3

def minMatchLevel : TokenType → MatchType
  | .startTkn => .noMatch
  | .wordTkn => .partlyMatch
  | _ => .exactMatch

def scorePrecedence : TokenType → ℕ
  | .ipv4Tkn | .ipv4PrefixTkn | .ipv6Tkn | .ipv6PrefixTkn | .macTkn | .macPrefixTkn
  | .rangeTkn => 2
  | .wordTkn => 3
  | .variableTkn => 4
  | _ => 10

/-- The word counts as a match of the token. -/
def Fits (token : CmdToken) (word : Text) : Prop :=
  (minMatchLevel token.type).level ≤ (matchToken token (some word)).level

instance (token : CmdToken) (word : Text) : Decidable (Fits token word) :=
  inferInstanceAs (Decidable (_ ≤ _))

/-- Which of two tokens is better: `.lt` for the first, `.gt` for the second, and `.eq` for the
null pointer. -/
def disambiguateTokens (first second : CmdToken) (word : Text) : Ordering :=
  if first.type ≠ second.type then
    compare (scorePrecedence first.type) (scorePrecedence second.type)
  else
    compare (matchToken second (some word)).level (matchToken first (some word)).level

/-- The comparison of two lists of tokens along the words they match. -/
def disambiguate : List CmdToken → List CmdToken → List Text → Ordering
  | f :: fs, s :: ss, w :: ws => (disambiguateTokens f s w).then (disambiguate fs ss ws)
  | _, _, _ => .eq

/-- The number by which tokens that match a word are compared. -/
def rank (token : CmdToken) (word : Text) : ℕ :=
  2 * scorePrecedence token.type + if matchToken token (some word) = .exactMatch then 0 else 1

theorem level_injective : Function.Injective MatchType.level := by
  intro a b h
  cases a <;> cases b <;> first | rfl | cases h

theorem matchToken_le_exact (token : CmdToken) (word : Text) :
    (matchToken token (some word)).level ≤ 3 := by
  cases matchToken token (some word) <;> decide

theorem Fits.cases {token : CmdToken} {word : Text} (h : Fits token word) :
    token.type = .startTkn ∨
      (token.type = .wordTkn ∧ (matchToken token (some word) = .partlyMatch ∨
        matchToken token (some word) = .exactMatch)) ∨
      (token.type ≠ .startTkn ∧ token.type ≠ .wordTkn ∧ token.type.isSpecial = false ∧
        matchToken token (some word) = .exactMatch) := by
  unfold Fits at h
  by_cases hstart : token.type = .startTkn
  · exact Or.inl hstart
  right
  by_cases hword : token.type = .wordTkn
  · left
    refine ⟨hword, ?_⟩
    cases hm : matchToken token (some word) <;> simp_all [minMatchLevel, MatchType.level]
  · right
    have hexact : matchToken token (some word) = .exactMatch := by
      apply level_injective
      have hmin : minMatchLevel token.type = .exactMatch := by
        cases ht : token.type <;> simp_all [minMatchLevel]
      rw [hmin] at h
      exact le_antisymm (matchToken_le_exact token word) h
    refine ⟨hstart, hword, ?_, hexact⟩
    cases ht : token.type <;> simp_all [matchToken, TokenType.isSpecial]

theorem matchToken_startTkn {token : CmdToken} (h : token.type = .startTkn) (word : Text) :
    matchToken token (some word) = .noMatch := by
  simp [matchToken, h]

theorem scorePrecedence_eq_three {type : TokenType} : scorePrecedence type = 3 ↔ type = .wordTkn := by
  cases type <;> simp [scorePrecedence]

theorem scorePrecedence_eq_ten {type : TokenType} :
    scorePrecedence type = 10 ↔ type.isSpecial = true := by
  cases type <;> simp [scorePrecedence, TokenType.isSpecial]

theorem compare_level_eq_compare_rank {first second : CmdToken} {word : Text}
    (htype : first.type = second.type) (hfirst : Fits first word) (hsecond : Fits second word) :
    compare (matchToken second (some word)).level (matchToken first (some word)).level =
      compare (rank first word) (rank second word) := by
  unfold rank
  rcases hfirst.cases with hstart | ⟨hword, hf⟩ | ⟨hstart, hword, -, hf⟩
  · rw [matchToken_startTkn hstart, matchToken_startTkn (htype ▸ hstart), ← htype]
    simp
  · rcases hsecond.cases with hs | ⟨-, hs⟩ | ⟨-, hs, -⟩
    · exact absurd (hword.symm.trans (htype.trans hs)) (by decide)
    · rw [← htype, hword]
      rcases hf with hf | hf <;> rcases hs with hs | hs <;> rw [hf, hs] <;> decide
    · exact absurd (htype ▸ hword) hs
  · rcases hsecond.cases with hs | ⟨hs, -⟩ | ⟨-, -, -, hs⟩
    · exact absurd (htype.trans hs) hstart
    · exact absurd (htype.trans hs) hword
    · rw [hf, hs, ← htype]
      simp

/-- Two types of one precedence, both matched by the word, are matched exactly. -/
theorem Fits.exact_of_ne {first second : CmdToken} {word : Text}
    (htype : first.type ≠ second.type)
    (hscore : scorePrecedence first.type = scorePrecedence second.type)
    (hfirst : Fits first word) (hsecond : Fits second word) :
    matchToken first (some word) = .exactMatch := by
  rcases hfirst.cases with hstart | ⟨hword, -⟩ | ⟨-, -, -, hf⟩
  · have hspecial : second.type.isSpecial = true := by
      rw [← scorePrecedence_eq_ten, ← hscore, hstart]
      rfl
    rcases hsecond.cases with hs | ⟨hs, -⟩ | ⟨-, -, hs, -⟩
    · exact absurd (hstart.trans hs.symm) htype
    · rw [hs] at hspecial
      cases hspecial
    · rw [hs] at hspecial
      cases hspecial
  · rw [scorePrecedence_eq_three.mpr hword] at hscore
    exact absurd (hword.trans (scorePrecedence_eq_three.mp hscore.symm).symm) htype
  · exact hf

/-- On tokens that match the word, the better one is the one of smaller rank. -/
theorem disambiguateTokens_eq_compare {first second : CmdToken} {word : Text}
    (hfirst : Fits first word) (hsecond : Fits second word) :
    disambiguateTokens first second word = compare (rank first word) (rank second word) := by
  unfold disambiguateTokens
  by_cases htype : first.type = second.type
  · rw [if_neg (by simpa using htype)]
    exact compare_level_eq_compare_rank htype hfirst hsecond
  rw [if_pos htype]
  by_cases hscore : scorePrecedence first.type = scorePrecedence second.type
  · rw [rank, rank, hfirst.exact_of_ne htype hscore hsecond,
      hsecond.exact_of_ne (Ne.symm htype) hscore.symm hfirst, hscore]
    simp
  · unfold rank
    rcases Nat.lt_or_gt_of_ne hscore with h | h
    · rw [compare_lt_iff_lt.mpr h, eq_comm, compare_lt_iff_lt]
      split <;> split <;> omega
    · rw [compare_gt_iff_gt.mpr h, eq_comm, compare_gt_iff_gt]
      split <;> split <;> omega

end Routerd.CommandMatch
