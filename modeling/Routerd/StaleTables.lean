import Routerd.EncapRoutes

/-!
# Nested tables that are not cleared

The route hook and the printed command walk over a seg6local encapsulation with a local
table that nothing has set. The walk writes the types it meets; for any other type the table
shows what the stack held. Both are independent of that exactly if every type they look for
occurs in the encapsulation, or if they end before they look.
-/

namespace Routerd
open ByteMemory NumeralText InetText AccessLog

structure Seg6LocalRoute extends EncapRoute lwtunnelEncapSeg6Local where
  family : rtmFamily route.hdr = afInet6

/-- The environment with `stale` in the local table of the hook. -/
def Env.withSub (env : Env) (stale : RtaTable) : Env :=
  { env with frame := fun n => { env.frame n with sub := stale } }

namespace Seg6LocalRoute

/-- The hook ends in the same way, with the same request, whatever the table held. -/
def SameHook (r : Seg6LocalRoute) : Prop :=
  ∀ (env : Env) d isNew stale stale', routeAnalyzeAndHook (env.withSub stale) d r.route isNew =
    routeAnalyzeAndHook (env.withSub stale') d r.route isNew

/-- The command is the same text, whatever the table held. -/
def SameCommand (r : Seg6LocalRoute) : Prop :=
  ∀ names isNew stale stale', (routeToIproute2Cli names stale r.route isNew).outcome =
    (routeToIproute2Cli names stale' r.route isNew).outcome

variable (r : Seg6LocalRoute)

/-- The number of the action, read from the encapsulation alone. -/
def action : Except Fault UInt32 := rtaRead32 (r.sub nullTable seg6LocalAction)

/-- The hook looks for the action and, for `end.dx4`, for the next hop. -/
def HookSettled : Prop :=
  Refuses r.route.rtas rtaOif ∨ ¬ r.TypesFit ∨
    r.Occurs seg6LocalAction ∧
      (r.action = .ok seg6LocalActionEndDx4 → r.Occurs seg6LocalNh4)

/-- The command looks for the action and the attribute of its parameter; for `end.t` it looks
for one attribute and reads another. -/
def CommandSettled : Prop :=
  Refuses r.route.rtas rtaIif ∨ Refuses r.route.rtas rtaOif ∨
    r.route.rtas.get rtaGateway ≠ .null ∨ ¬ r.TypesFit ∨
    r.Occurs seg6LocalAction ∧
      (r.action = .ok seg6LocalActionEndX → r.Occurs seg6LocalNh6) ∧
      (r.action = .ok seg6LocalActionEndDx2 → r.Occurs seg6LocalOif) ∧
      (r.action = .ok seg6LocalActionEndT → r.Occurs seg6LocalTable ∧ r.Occurs seg6LocalOif)

/-! ### The hook -/

theorem routeAnalyzeAndHook_withSub (env : Env) (d : Daemon) (isNew : Bool) (stale : RtaTable) :
    routeAnalyzeAndHook (env.withSub stale) d r.route isNew =
      (do
        let dst ← addrText r.route.rtas rtaDst afInet6
        let oif ← (optional (r.route.rtas.get rtaOif) [] (readIfname env.names)).outcome
        let sub ← (readNested stale (r.route.rtas.get rtaEncap)).outcome
        let texts ← (actionReads sub).outcome
        sendRoute env d r.route isNew (.srv6 dst oif texts.1 texts.2)) := by
  have htexts : (seg6LocalReads stale r.route.rtas).outcome =
      (readNested stale (r.route.rtas.get rtaEncap)).outcome >>= fun sub =>
        (actionReads sub).outcome := by
    rw [seg6LocalReads, optional_of_ne_null r.encapType_ne_null, Logged.outcome_bind,
      outcome_read16, r.encapType]
    exact Logged.outcome_bind _ _
  have hfamily : rtmFamily r.route.hdr ≠ afInet := by
    rw [r.family]
    decide
  rw [routeAnalyzeAndHook_eq, routeReads, if_pos hfamily]
  simp only [Logged.outcome_bind, outcome_optional_readAddr, Logged.outcome_pure, r.family,
    show ((env.withSub stale).frame d.trace.length).sub = stale from rfl, htexts, bind_assoc]
  rfl

theorem outcome_actionReads {m : Mem} {sub : RtaTable} (h : sub seg6LocalAction = .mem m) :
    (actionReads sub).outcome = rtaRead32 (.mem m) >>= fun num =>
      if num = seg6LocalActionEndDx4 ∧ sub seg6LocalNh4 ≠ .null then
        inetpton (rtaReadptr (sub seg6LocalNh4)) afInet >>= fun nh4 =>
          pure (seg6LocalActionToStr2 num, nh4)
      else pure (seg6LocalActionToStr2 num, []) := by
  rw [actionReads, h, optional_of_ne_null (by simp), Logged.outcome_bind, outcome_read32]
  apply bind_congr
  intro num
  split
  · rw [Logged.outcome_bind, outcome_readAddr]
    rfl
  · rfl

theorem actionReads_settled (haction : r.Occurs seg6LocalAction)
    (hnh4 : r.action = .ok seg6LocalActionEndDx4 → r.Occurs seg6LocalNh4)
    (stale stale' : RtaTable) :
    (actionReads (r.sub stale)).outcome = (actionReads (r.sub stale')).outcome := by
  obtain ⟨m, hm⟩ := r.sub_eq_mem haction
  rw [outcome_actionReads (hm stale), outcome_actionReads (hm stale')]
  rw [action, hm] at hnh4
  cases hread : rtaRead32 (.mem m) with
  | error e => rfl
  | ok num =>
    by_cases hnum : num = seg6LocalActionEndDx4
    · rw [r.sub_eq_sub (hnh4 (hnum ▸ hread)) stale stale']
    · have hno : ∀ p : Prop, ¬ (num = seg6LocalActionEndDx4 ∧ p) := fun p h => hnum h.1
      change (if _ then _ else _) = (if _ then _ else _)
      rw [if_neg (hno _), if_neg (hno _)]

def wildTable : RtaTable := fun _ => .wild

/-- A type that is looked for and does not occur decides between a fault and a result. -/
theorem actionReads_unsettled
    (h : ¬ (r.Occurs seg6LocalAction ∧
      (r.action = .ok seg6LocalActionEndDx4 → r.Occurs seg6LocalNh4))) :
    (actionReads (r.sub wildTable)).outcome = .error .segv ∧
      ∃ act, (actionReads (r.sub nullTable)).outcome = .ok (act, []) := by
  by_cases haction : r.Occurs seg6LocalAction
  · obtain ⟨hdx4, hnh4⟩ := Classical.not_imp.mp fun himp => h ⟨haction, himp⟩
    obtain ⟨m, hm⟩ := r.sub_eq_mem haction
    rw [action, hm] at hdx4
    rw [outcome_actionReads (hm wildTable), outcome_actionReads (hm nullTable), hdx4,
      r.sub_of_not_occurs hnh4, r.sub_of_not_occurs hnh4]
    exact ⟨rfl, _, rfl⟩
  · rw [actionReads, actionReads, r.sub_of_not_occurs haction, r.sub_of_not_occurs haction]
    exact ⟨rfl, _, rfl⟩

theorem sameHook_iff : r.SameHook ↔ r.HookSettled := by
  constructor
  · intro hsame
    by_contra hunsettled
    rw [HookSettled, not_or, not_or, not_not] at hunsettled
    obtain ⟨hoif, htypes, hlooked⟩ := hunsettled
    have hrun := hsame (plainEnv .empty) (Daemon.start [] []) true wildTable nullTable
    obtain ⟨dst, hdst, -⟩ := addrText_short r.route.rtas rtaDst afInet6
    obtain ⟨hwild, act, hnull⟩ := r.actionReads_unsettled hlooked
    rcases optional_readIfname_cases .empty r.route.rtas rtaOif with ⟨e, he, -⟩ | ⟨x, oif, -, htext⟩
    · exact hoif ⟨e, he⟩
    · rw [routeAnalyzeAndHook_withSub, routeAnalyzeAndHook_withSub, hdst,
        r.outcome_readNested_ok htypes, r.outcome_readNested_ok htypes,
        show (plainEnv .empty).names = .empty from rfl, htext] at hrun
      change ((actionReads (r.sub wildTable)).outcome >>= _) =
        ((actionReads (r.sub nullTable)).outcome >>= _) at hrun
      rw [hwild, hnull] at hrun
      change _ = (if dst ≠ [] ∧ oif ≠ [] ∧ [] ≠ [] ∧ act ≠ [] then _ else _) at hrun
      rw [if_neg (fun h => h.2.2.1 rfl)] at hrun
      cases hrun
  · rintro (⟨e, he⟩ | htypes | ⟨haction, hnh4⟩) env d isNew stale stale'
    · rw [routeAnalyzeAndHook_withSub, routeAnalyzeAndHook_withSub]
      rcases optional_readIfname_cases env.names r.route.rtas rtaOif with
        ⟨e', -, htext⟩ | ⟨x, oif, hread, -⟩
      · rw [htext]
        rfl
      · rw [he] at hread
        cases hread
    · rw [routeAnalyzeAndHook_withSub, routeAnalyzeAndHook_withSub,
        r.outcome_readNested_refused htypes, r.outcome_readNested_refused htypes]
    · rw [routeAnalyzeAndHook_withSub, routeAnalyzeAndHook_withSub]
      by_cases htypes : r.TypesFit
      · rw [r.outcome_readNested_ok htypes, r.outcome_readNested_ok htypes]
        apply bind_congr
        intro dst
        apply bind_congr
        intro oif
        change ((actionReads (r.sub stale)).outcome >>= _) =
          ((actionReads (r.sub stale')).outcome >>= _)
        rw [r.actionReads_settled haction hnh4 stale stale']
      · rw [r.outcome_readNested_refused htypes, r.outcome_readNested_refused htypes]

/-! ### The command -/

theorem encapCommand_eq (names : IfNames) (stale : RtaTable) (isNew : Bool) (dst oif : Text) :
    (encapCommand names stale r.route isNew dst oif).outcome =
      (seg6LocalCommand names stale r.route isNew dst oif).outcome := by
  rw [r.outcome_encapCommand]
  rfl

def printed (isNew : Bool) (dst oif action : Text) : Except Fault Text :=
  strfmt (routeHead r.route isNew dst ++ " encap seg6local action ".toList ++ action ++
    " dev ".toList ++ oif)

variable (names : IfNames) (isNew : Bool) (dst oif : Text)

theorem seg6LocalCommand_refused (h : ¬ r.TypesFit) (stale : RtaTable) :
    (seg6LocalCommand names stale r.route isNew dst oif).outcome = .error .assertion := by
  unfold seg6LocalCommand
  rw [Logged.outcome_bind, r.outcome_readNested_refused h, error_bind]

theorem seg6LocalCommand_occurs (h : r.TypesFit) (haction : r.Occurs seg6LocalAction)
    (stale : RtaTable) :
    (seg6LocalCommand names stale r.route isNew dst oif).outcome =
      r.action >>= fun num => (actionParameter names (r.sub stale) num).outcome >>= fun parameter =>
        r.printed isNew dst oif (seg6LocalActionToStr2 num ++ parameter) := by
  obtain ⟨m, hm⟩ := r.sub_eq_mem haction
  have hread : r.action = rtaRead32 (.mem m) := by rw [action, hm]
  unfold seg6LocalCommand printed
  rw [Logged.outcome_bind, r.outcome_readNested_ok h, ok_bind, hm,
    optional_of_ne_null (by simp), hread]
  simp only [Logged.outcome_bind, outcome_read32, Logged.outcome_silent, strfmt_action,
    Logged.outcome_pure, bind_assoc, ok_bind]

theorem seg6LocalCommand_absent (h : r.TypesFit) (haction : ¬ r.Occurs seg6LocalAction) :
    (seg6LocalCommand names wildTable r.route isNew dst oif).outcome = .error .segv ∧
      (seg6LocalCommand names nullTable r.route isNew dst oif).outcome =
        r.printed isNew dst oif [] := by
  have hwild : ∀ read : Ptr → Reads Text, (optional (wildTable seg6LocalAction) [] read) =
      read .wild := fun read => rfl
  have hnull : ∀ read : Ptr → Reads Text, (optional (nullTable seg6LocalAction) [] read) =
      pure [] := fun read => rfl
  have hread : (read32 .wild).outcome = .error .segv := rfl
  unfold seg6LocalCommand printed
  constructor
  · rw [Logged.outcome_bind, r.outcome_readNested_ok h, ok_bind, r.sub_of_not_occurs haction,
      hwild, Logged.outcome_bind, Logged.outcome_bind, hread, error_bind, error_bind]
  · rw [Logged.outcome_bind, r.outcome_readNested_ok h, ok_bind, r.sub_of_not_occurs haction,
      hnull, Logged.outcome_bind, Logged.outcome_pure, ok_bind, Logged.outcome_silent]

theorem actionParameter_congr {sub sub' : RtaTable} {num : UInt32}
    (hx : num = seg6LocalActionEndX → sub seg6LocalNh6 = sub' seg6LocalNh6)
    (hdx2 : num = seg6LocalActionEndDx2 → sub seg6LocalOif = sub' seg6LocalOif)
    (ht : num = seg6LocalActionEndT →
      sub seg6LocalTable = sub' seg6LocalTable ∧ sub seg6LocalOif = sub' seg6LocalOif) :
    actionParameter names sub num = actionParameter names sub' num := by
  have hno : ∀ {k : UInt32} (p : Prop), num ≠ k → ¬ (num = k ∧ p) := fun p hne h => hne h.1
  unfold actionParameter
  by_cases hnum : num = seg6LocalActionEndX
  · have hdx2' : num ≠ seg6LocalActionEndDx2 := by rw [hnum]; decide
    have ht' : num ≠ seg6LocalActionEndT := by rw [hnum]; decide
    rw [hx hnum, if_neg (hno _ hdx2'), if_neg (hno _ ht'), if_neg (hno _ hdx2'),
      if_neg (hno _ ht')]
  · rw [if_neg (hno _ hnum), if_neg (hno _ hnum)]
    by_cases hnum' : num = seg6LocalActionEndDx2
    · have ht' : num ≠ seg6LocalActionEndT := by rw [hnum']; decide
      rw [hdx2 hnum', if_neg (hno _ ht'), if_neg (hno _ ht')]
    · rw [if_neg (hno _ hnum'), if_neg (hno _ hnum')]
      by_cases hnum'' : num = seg6LocalActionEndT
      · rw [(ht hnum'').1, (ht hnum'').2]
      · rw [if_neg (hno _ hnum''), if_neg (hno _ hnum'')]

theorem actionParameter_null {sub : RtaTable} {num : UInt32}
    (hx : num = seg6LocalActionEndX → sub seg6LocalNh6 = .null)
    (hdx2 : num = seg6LocalActionEndDx2 → sub seg6LocalOif = .null)
    (ht : num = seg6LocalActionEndT → sub seg6LocalTable = .null) :
    actionParameter names sub num = pure [] := by
  unfold actionParameter
  rw [if_neg fun h => h.2 (hx h.1), if_neg fun h => h.2 (hdx2 h.1), if_neg fun h => h.2 (ht h.1)]

def bareTable : RtaTable := fun _ => .mem [4, 0, 0, 0]

/-- A parameter that is looked for and does not occur decides how the command goes on. -/
theorem actionParameter_unsettled {num : UInt32}
    (h : ¬ ((num = seg6LocalActionEndX → r.Occurs seg6LocalNh6) ∧
      (num = seg6LocalActionEndDx2 → r.Occurs seg6LocalOif) ∧
      (num = seg6LocalActionEndT → r.Occurs seg6LocalTable ∧ r.Occurs seg6LocalOif)))
    {f : Text → Except Fault Text} (hf : ∀ p e, f p = .error e → e = .overflow)
    (hok : ∃ text, f [] = .ok text) (hinj : ∀ p, f p = f [] → p = []) :
    ∃ stale stale', ((actionParameter .empty (r.sub stale) num).outcome >>= f) ≠
      ((actionParameter .empty (r.sub stale') num).outcome >>= f) := by
  have hwild : ∀ {t}, ¬ r.Occurs t → r.sub wildTable t = .wild := fun ht =>
    r.sub_of_not_occurs ht _
  have hnull : ∀ {t}, ¬ r.Occurs t → r.sub nullTable t = .null := fun ht =>
    r.sub_of_not_occurs ht _
  have hsegv : ∀ p, Except.error .segv ≠ f p := fun p heq => by cases hf p _ heq.symm
  by_cases hx : num = seg6LocalActionEndX → r.Occurs seg6LocalNh6
  · by_cases hdx2 : num = seg6LocalActionEndDx2 → r.Occurs seg6LocalOif
    · obtain ⟨rfl, hmissing⟩ := Classical.not_imp.mp fun ht => h ⟨hx, hdx2, ht⟩
      have hends : ∀ {sub : RtaTable}, sub seg6LocalTable ≠ .null →
          actionParameter .empty sub seg6LocalActionEndT =
            (do
              let tableId ← read32 (sub seg6LocalOif)
              .silent (strfmt (" table ".toList ++ signedDecimal tableId))) := by
        intro sub hsub
        unfold actionParameter
        rw [if_neg fun h => absurd h.1 (by decide), if_neg fun h => absurd h.1 (by decide),
          if_pos ⟨rfl, hsub⟩]
      by_cases htable : r.Occurs seg6LocalTable
      · -- The table is there, the interface it is read from is not.
        have hoif : ¬ r.Occurs seg6LocalOif := fun hoif => hmissing ⟨htable, hoif⟩
        obtain ⟨m, hm⟩ := r.sub_eq_mem htable
        refine ⟨wildTable, bareTable, ?_⟩
        rw [hends (by simp [hm]), hends (by simp [hm]), Logged.outcome_bind, Logged.outcome_bind,
          hwild hoif, r.sub_of_not_occurs hoif, outcome_read32, outcome_read32,
          show rtaRead32 .wild = .error .segv from rfl,
          show rtaRead32 (bareTable seg6LocalOif) = .ok 0 by decide, error_bind, error_bind, ok_bind,
          Logged.outcome_silent]
        rcases strfmt_cases (" table ".toList ++ signedDecimal 0) with hfmt | hfmt
        · rw [hfmt, ok_bind]
          exact hsegv _
        · rw [hfmt, error_bind]
          simp
      · refine ⟨wildTable, nullTable, ?_⟩
        rw [actionParameter_null .empty (fun h => absurd h (by decide))
            (fun h => absurd h (by decide)) (fun _ => hnull htable),
          hends (by simp [hwild htable]), Logged.outcome_bind, outcome_read32,
          Logged.outcome_pure, ok_bind]
        obtain ⟨text, htext⟩ := hok
        cases hread : rtaRead32 (r.sub wildTable seg6LocalOif) with
        | error e => rw [error_bind, error_bind, htext]; simp
        | ok tableId =>
          rw [ok_bind, Logged.outcome_silent]
          rcases strfmt_cases (" table ".toList ++ signedDecimal tableId) with hfmt | hfmt
          · rw [hfmt, ok_bind]
            exact fun heq => absurd (hinj _ heq) (by simp)
          · rw [hfmt, error_bind, htext]
            simp
    · obtain ⟨rfl, hoif⟩ := Classical.not_imp.mp hdx2
      refine ⟨wildTable, nullTable, ?_⟩
      rw [actionParameter_null .empty (fun h => absurd h (by decide)) (fun _ => hnull hoif)
          (fun h => absurd h (by decide)), Logged.outcome_pure, ok_bind, actionParameter,
        if_neg fun h => absurd h.1 (by decide), if_pos ⟨rfl, by simp [hwild hoif]⟩, hwild hoif,
        Logged.outcome_bind, show (readIfname .empty .wild).outcome = .error .segv from rfl,
        error_bind, error_bind]
      exact hsegv _
  · obtain ⟨rfl, hnh6⟩ := Classical.not_imp.mp hx
    refine ⟨wildTable, nullTable, ?_⟩
    rw [actionParameter_null .empty (fun _ => hnull hnh6) (fun h => absurd h (by decide))
        (fun h => absurd h (by decide)), Logged.outcome_pure, ok_bind, actionParameter,
      if_pos ⟨rfl, by simp [hwild hnh6]⟩, hwild hnh6, Logged.outcome_bind,
      show (readAddr .wild afInet6).outcome = .error .segv from rfl, error_bind, error_bind]
    exact hsegv _

theorem printed_error {action : Text} {e : Fault}
    (h : r.printed isNew dst oif action = .error e) : e = .overflow := by
  unfold printed at h
  rcases strfmt_cases (routeHead r.route isNew dst ++ " encap seg6local action ".toList ++
    action ++ " dev ".toList ++ oif) with hfmt | hfmt
  · rw [hfmt] at h
    cases h
  · rw [hfmt] at h
    cases h
    rfl

theorem printed_ok {dst oif action : Text} (hdst : dst.length ≤ 57) (hoif : oif.length ≤ 4)
    (haction : action.length ≤ 100) : ∃ text, r.printed isNew dst oif action = .ok text := by
  have hhead := length_routeHead_le r.route isNew dst
  have hencap : " encap seg6local action ".toList.length = 24 := rfl
  have hdev : " dev ".toList.length = 5 := rfl
  have hlen : (routeHead r.route isNew dst ++ " encap seg6local action ".toList ++ action ++
      " dev ".toList ++ oif).length =
        (routeHead r.route isNew dst).length + 24 + action.length + 5 + oif.length := by
    simp only [List.length_append, hencap, hdev]
  exact ⟨_, strfmt_ok (by omega)⟩

theorem printed_inj {action parameter : Text}
    (hok : ∃ text, r.printed isNew dst oif (action ++ []) = .ok text)
    (h : r.printed isNew dst oif (action ++ parameter) = r.printed isNew dst oif (action ++ [])) :
    parameter = [] := by
  obtain ⟨text, htext⟩ := hok
  rw [htext] at h
  have hprinted : ∀ {x}, r.printed isNew dst oif x = .ok text →
      routeHead r.route isNew dst ++ " encap seg6local action ".toList ++ x ++
        " dev ".toList ++ oif = text := by
    intro x hx
    unfold printed at hx
    rcases strfmt_cases (routeHead r.route isNew dst ++ " encap seg6local action ".toList ++
      x ++ " dev ".toList ++ oif) with hfmt | hfmt
    · rw [hfmt] at hx
      exact Except.ok.inj hx
    · rw [hfmt] at hx
      cases hx
  have hsame := (hprinted h).trans (hprinted htext).symm
  have hlen := congrArg List.length hsame
  simp only [List.length_append, List.length_nil] at hlen
  exact List.length_eq_zero_iff.mp (by omega)

theorem length_action_le (num : UInt32) : (seg6LocalActionToStr2 num).length ≤ 25 := by
  unfold seg6LocalActionToStr2
  split <;> decide

theorem readIfname_empty (t : ℕ) (h : ¬ Refuses r.route.rtas t) :
    ∃ text, (optional (r.route.rtas.get t) [] (readIfname .empty)).outcome = .ok text ∧
      text.length ≤ 4 := by
  rcases r.route.rtas.get_cases t with hnull | ⟨m, hm⟩
  · rw [hnull]
    exact ⟨[], rfl, Nat.zero_le _⟩
  · rw [hm, optional_of_ne_null (by simp), readIfname, Logged.outcome_bind, outcome_read32]
    cases hread : rtaRead32 (.mem m) with
    | error e => exact absurd ⟨e, by rw [optionalRead32, hm]; exact hread⟩ h
    | ok x => exact ⟨_, rfl, le_rfl⟩

theorem seg6LocalCommand_settled
    (h : ¬ r.TypesFit ∨ r.Occurs seg6LocalAction ∧
      (r.action = .ok seg6LocalActionEndX → r.Occurs seg6LocalNh6) ∧
      (r.action = .ok seg6LocalActionEndDx2 → r.Occurs seg6LocalOif) ∧
      (r.action = .ok seg6LocalActionEndT → r.Occurs seg6LocalTable ∧ r.Occurs seg6LocalOif))
    (stale stale' : RtaTable) :
    (seg6LocalCommand names stale r.route isNew dst oif).outcome =
      (seg6LocalCommand names stale' r.route isNew dst oif).outcome := by
  by_cases htypes : r.TypesFit
  · obtain ⟨haction, hx, hdx2, ht⟩ := h.resolve_left (not_not.mpr htypes)
    rw [r.seg6LocalCommand_occurs _ _ _ _ htypes haction,
      r.seg6LocalCommand_occurs _ _ _ _ htypes haction]
    cases hnum : r.action with
    | error e => rfl
    | ok num =>
      simp only [hnum, Except.ok.injEq] at hx hdx2 ht
      rw [ok_bind, ok_bind, actionParameter_congr names
        (fun h => r.sub_eq_sub (hx h) stale stale') (fun h => r.sub_eq_sub (hdx2 h) stale stale')
        (fun h => ⟨r.sub_eq_sub (ht h).1 stale stale', r.sub_eq_sub (ht h).2 stale stale'⟩)]
  · rw [r.seg6LocalCommand_refused _ _ _ _ htypes, r.seg6LocalCommand_refused _ _ _ _ htypes]

theorem sameCommand_iff : r.SameCommand ↔ r.CommandSettled := by
  constructor
  · intro hsame
    by_contra hunsettled
    rw [CommandSettled, not_or, not_or, not_or, not_or, not_not, not_not] at hunsettled
    obtain ⟨hiif, hoif, hgateway, htypes, hlooked⟩ := hunsettled
    obtain ⟨src, hsrc, -⟩ := addrText_short r.route.rtas rtaSrc afInet6
    obtain ⟨dst, hdst, hdstlen⟩ := addrText_short r.route.rtas rtaDst afInet6
    obtain ⟨iif, hiif, -⟩ := r.readIfname_empty rtaIif hiif
    obtain ⟨oif, hoif, hoiflen⟩ := r.readIfname_empty rtaOif hoif
    have hrun : ∀ stale stale',
        (seg6LocalCommand .empty stale r.route true dst oif).outcome =
          (seg6LocalCommand .empty stale' r.route true dst oif).outcome := by
      intro stale stale'
      have h := hsame .empty true stale stale'
      rw [outcome_routeToIproute2Cli hgateway, outcome_routeToIproute2Cli hgateway, r.family, hsrc,
        hiif, hdst, hoif] at h
      simpa only [ok_bind, encapCommand_eq] using h
    by_cases haction : r.Occurs seg6LocalAction
    · cases hnum : r.action with
      | error e =>
        apply hlooked
        rw [hnum]
        exact ⟨haction, fun h => (by cases h), fun h => (by cases h), fun h => (by cases h)⟩
      | ok num =>
        simp only [hnum, Except.ok.injEq] at hlooked
        have hok := r.printed_ok true hdstlen hoiflen
          (show (seg6LocalActionToStr2 num ++ []).length ≤ 100 by
            have hle := length_action_le num
            rw [List.append_nil]
            omega)
        obtain ⟨stale, stale', hne⟩ := r.actionParameter_unsettled (fun h => hlooked ⟨haction, h⟩)
          (f := fun parameter => r.printed true dst oif (seg6LocalActionToStr2 num ++ parameter))
          (fun p e => r.printed_error true dst oif) hok (fun p => r.printed_inj true dst oif hok)
        apply hne
        have h := hrun stale stale'
        rwa [r.seg6LocalCommand_occurs _ _ _ _ htypes haction,
          r.seg6LocalCommand_occurs _ _ _ _ htypes haction, hnum, ok_bind, ok_bind] at h
    · obtain ⟨hwild, hnull⟩ := r.seg6LocalCommand_absent .empty true dst oif htypes haction
      have h := hrun nullTable wildTable
      rw [hwild, hnull] at h
      cases r.printed_error true dst oif h
  · intro hsettled names isNew stale stale'
    rcases r.route.rtas.get_cases rtaGateway with hgateway | ⟨m, hgateway⟩
    · rw [outcome_routeToIproute2Cli hgateway, outcome_routeToIproute2Cli hgateway]
      apply bind_congr
      intro _
      rcases optional_readIfname_cases names r.route.rtas rtaIif with
        ⟨e, -, htext⟩ | ⟨_, iif, hiif, htext⟩
      · rw [htext, error_bind, error_bind]
      · rw [htext, ok_bind, ok_bind]
        apply bind_congr
        intro dst
        rcases optional_readIfname_cases names r.route.rtas rtaOif with
          ⟨e, -, htext⟩ | ⟨_, oif, hoif, htext⟩
        · rw [htext, error_bind, error_bind]
        · rw [htext, ok_bind, ok_bind]
          have hiif' : ¬ Refuses r.route.rtas rtaIif := by simp [Refuses, hiif]
          have hoif' : ¬ Refuses r.route.rtas rtaOif := by simp [Refuses, hoif]
          have hlooked := ((hsettled.resolve_left hiif').resolve_left hoif').resolve_left
            (not_not.mpr hgateway)
          rw [r.encapCommand_eq, r.encapCommand_eq]
          exact r.seg6LocalCommand_settled names isNew dst oif hlooked stale stale'
    · rw [routeToIproute2Cli, routeToIproute2Cli, hgateway]

end Seg6LocalRoute

/-- The hook and the command of an IPv6 route with a seg6local encapsulation do not depend on
what the nested table held exactly if every type they look for occurs in the encapsulation,
or if the process ends or the command is printed before they look. -/
theorem staleTable_iff (r : Seg6LocalRoute) :
    (r.SameHook ↔ r.HookSettled) ∧ (r.SameCommand ↔ r.CommandSettled) :=
  ⟨r.sameHook_iff, r.sameCommand_iff⟩

def nestedTableOnly : List Rtattr := [plainRtattr 3 [254, 0, 0, 0]]

def actionlessRoute : Mem :=
  nlmsgBytes 24 (rtmsgBytes afInet6 128 rtTableMain rtnUnicast ++
    layout [plainRtattr 1 [252, 0, 0, 0, 0, 0, 0, 0, 0, 0, 0, 0, 0, 0, 0, 1],
      plainRtattr 4 [5, 0, 0, 0], plainRtattr 21 [7, 0],
      plainRtattr 22 (layout nestedTableOnly)])

def leftoverTable : RtaTable := fun t =>
  if t = seg6LocalAction then .mem (plainRtattr 1 [6, 0, 0, 0]).bytes
  else if t = seg6LocalNh4 then .mem (plainRtattr 4 [10, 1, 1, 1]).bytes
  else .null

def hookRequests (stale : RtaTable) (o : RtObject) : Option ℕ :=
  (routeAnalyzeAndHook ((plainEnv .empty).withSub stale) (Daemon.start [] []) o true).toOption.map
    (·.requests.length)

def routeCommand (stale : RtaTable) (o : RtObject) : Option Text :=
  (routeToIproute2Cli .empty stale o true).outcome.toOption

/-- The leftovers of an earlier call install a local SID that the route does not have, and are
printed as its action. -/
theorem staleTable_leftover :
    ∃ r : Seg6LocalRoute, ofMessage route actionlessRoute = .ok r.route ∧
      hookRequests nullTable r.route = some 0 ∧ hookRequests leftoverTable r.route = some 1 ∧
      routeCommand nullTable r.route =
        some "ip -6 route add fc00::1/128 encap seg6local action  dev none".toList ∧
      routeCommand leftoverTable r.route =
        some "ip -6 route add fc00::1/128 encap seg6local action end.dx4 dev none".toList ∧
      ¬ r.SameHook ∧ ¬ r.SameCommand := by
  have hfields : (ofMessage route actionlessRoute).toOption.map (fun o =>
      (rtmFamily o.hdr, (rtaRead16 (o.rtas.get rtaEncapType)).toOption, o.rtas.get rtaEncap)) =
        some (afInet6, some lwtunnelEncapSeg6Local,
          .mem (plainRtattr 22 (layout nestedTableOnly)).bytes) := by decide +kernel
  have hhook : (ofMessage route actionlessRoute).toOption.map (fun o =>
      (hookRequests nullTable o, hookRequests leftoverTable o)) = some (some 0, some 1) := by
    decide +kernel
  have hcommand : (ofMessage route actionlessRoute).toOption.map (fun o =>
      (routeCommand nullTable o, routeCommand leftoverTable o)) =
        some (some "ip -6 route add fc00::1/128 encap seg6local action  dev none".toList,
          some "ip -6 route add fc00::1/128 encap seg6local action end.dx4 dev none".toList) := by
    decide +kernel
  obtain ⟨o, ho, hread⟩ := ok_of_toOption_map hfields
  rw [ho] at hhook hcommand
  obtain ⟨hfamily, htype, hencap⟩ : rtmFamily o.hdr = afInet6 ∧
      (rtaRead16 (o.rtas.get rtaEncapType)).toOption = some lwtunnelEncapSeg6Local ∧
        o.rtas.get rtaEncap = .mem (plainRtattr 22 (layout nestedTableOnly)).bytes := by
    simpa using hread
  obtain ⟨hnull, hleft⟩ := Prod.mk.inj (Option.some.inj hhook)
  obtain ⟨hnull', hleft'⟩ := Prod.mk.inj (Option.some.inj hcommand)
  refine ⟨⟨⟨o, nestedTableOnly, plainRtattr 22 (layout nestedTableOnly), [],
    ok_of_toOption htype, ?_, ?_⟩, hfamily⟩, ho, hnull, hleft, hnull', hleft', fun hsame => ?_, fun hsame => ?_⟩
  · rw [hencap, List.append_nil]
  · decide
  · have h := hsame (plainEnv .empty) (Daemon.start [] []) true nullTable leftoverTable
    rw [hookRequests] at hnull hleft
    rw [h, hleft] at hnull
    cases hnull
  · have h := hsame .empty true nullTable leftoverTable
    rw [routeCommand] at hnull' hleft'
    rw [h, hleft'] at hnull'
    exact absurd hnull' (by decide)

end Routerd
