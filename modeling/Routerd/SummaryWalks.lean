import Routerd.AttributeWindow

/-!
# The attribute walks of the summaries

The summaries of messages walk the attributes with a count that a length macro gives. Where the
count at the start is the number of bytes left in the message it stays so, since every stride is a
whole number of words. What is printed for an attribute is a parameter here; printing can fail an
assertion, which ends the process at that attribute. The number of attributes the loop is followed
for is bounded by `fuel`.
-/

namespace Routerd
open ByteMemory NumeralText

inductive SummaryEnd where
  | printed (str : Text)
  | aborted (fault : Fault)
  | running
  deriving DecidableEq, Repr

/-- The offsets of the attributes a summary came to, and how it ended. -/
structure SummaryRun where
  visited : List ℕ
  ending : SummaryEnd

def summaryLoop (rtattrSummary : Mem → Except Fault Text) (n : Mem) (fuel h len : ℕ)
    (str : Text) : SummaryRun :=
  if rtaOk (n.drop h) len then
    match fuel with
    | 0 => ⟨[], .running⟩
    | fuel + 1 =>
      match rtattrSummary (n.drop h) with
      | .error fault => ⟨[h], .aborted fault⟩
      | .ok attrStr =>
        let stride := rtaAlign (rtaLen (n.drop h))
        let str := if attrStr = [] then str else str ++ ([' ', ' '] ++ attrStr ++ ['\n'])
        let run := summaryLoop rtattrSummary n fuel (h + stride) (sizeSub len stride) str
        { run with visited := h :: run.visited }
  else ⟨[], .printed str⟩

/-- The attributes of the bytes `d` from the offset `h` on, up to the first that does not
fit. -/
inductive AttributesFrom (d : Mem) : ℕ → List ℕ → Prop where
  | done {h : ℕ} (hno : ¬ rtaOk (d.drop h) (d.length - h)) : AttributesFrom d h []
  | next {h : ℕ} {hs : List ℕ} (hok : rtaOk (d.drop h) (d.length - h))
      (hrest : AttributesFrom d (h + rtaAlign (rtaLen (d.drop h))) hs) :
      AttributesFrom d h (h :: hs)

/-- Where the attributes of a list lie that is laid out from the offset `h` on. -/
def layoutOffsets : ℕ → List Rtattr → List ℕ
  | _, [] => []
  | h, a :: attrs => h :: layoutOffsets (h + a.bytes.length) attrs

/-- A word boundary of the bytes. -/
structure AtWord (d : Mem) (h : ℕ) : Prop where
  whole : d.length % 4 = 0
  word : h % 4 = 0
  le : h ≤ d.length

theorem AtWord.next {d : Mem} {h : ℕ} (hat : AtWord d h)
    (hok : rtaOk (d.drop h) (d.length - h)) : AtWord d (h + rtaAlign (rtaLen (d.drop h))) := by
  obtain ⟨hwhole, hword, hle⟩ := hat
  obtain ⟨-, hmin, hfit⟩ := hok
  refine ⟨hwhole, ?_, ?_⟩ <;> unfold rtaAlign <;> omega

theorem AtWord.lt_next {d : Mem} {h : ℕ} (hok : rtaOk (d.drop h) (d.length - h)) :
    h + 4 ≤ h + rtaAlign (rtaLen (d.drop h)) := by
  have hmin := hok.2.1
  unfold rtaAlign
  omega

theorem exists_attributesFrom {d : Mem} {h : ℕ} (hat : AtWord d h) :
    ∃ hs, AttributesFrom d h hs := by
  induction hn : d.length - h using Nat.strongRecOn generalizing h with
  | _ n ih =>
    by_cases hok : rtaOk (d.drop h) (d.length - h)
    · have hnext := hat.next hok
      have hle := hnext.le
      have hlt := AtWord.lt_next hok
      obtain ⟨hs, hrest⟩ := ih _ (by omega) hnext rfl
      exact ⟨h :: hs, .next hok hrest⟩
    · exact ⟨[], .done hok⟩

namespace AttributesFrom

variable {d : Mem} {h : ℕ} {hs : List ℕ}

theorem inside (hattrs : AttributesFrom d h hs) :
    ∀ k ∈ hs, h ≤ k ∧ 4 ≤ rtaLen (d.drop k) ∧ k + rtaLen (d.drop k) ≤ d.length := by
  induction hattrs with
  | done => simp
  | next hok hrest ih =>
    obtain ⟨hlen, hmin, hfit⟩ := hok
    intro k hk
    rcases List.mem_cons.mp hk with rfl | hk
    · exact ⟨le_rfl, hmin, by omega⟩
    · exact ⟨(Nat.le_add_right _ _).trans (ih k hk).1, (ih k hk).2⟩

theorem length_le (hattrs : AttributesFrom d h hs) (hat : AtWord d h) :
    4 * hs.length ≤ d.length - h := by
  induction hattrs with
  | done => simp
  | next hok hrest ih =>
    have hnext := hat.next hok
    have hle := hnext.le
    have hlt := AtWord.lt_next hok
    have hrest' := ih hnext
    rw [List.length_cons]
    omega

theorem eq_layoutOffsets (hattrs : AttributesFrom d h hs) {attrs : List Rtattr}
    (hlayout : d.drop h = layout attrs) : hs = layoutOffsets h attrs := by
  induction hattrs generalizing attrs with
  | @done h hno =>
    cases attrs with
    | nil => rfl
    | cons a attrs =>
      refine absurd ?_ hno
      rw [← List.length_drop, hlayout]
      exact a.rtaOk_bytes _ (a.len_le_layout attrs)
  | @next h hs hok hrest ih =>
    cases attrs with
    | nil =>
      rw [hlayout] at hok
      exact absurd hok (not_rtaOk_nil _)
    | cons a attrs =>
      rw [layout_cons] at hlayout
      have hstride : rtaAlign (rtaLen (d.drop h)) = a.bytes.length := by
        rw [hlayout, a.rtaLen_bytes, a.length_bytes]
      have hdrop : d.drop (h + a.bytes.length) = layout attrs := by
        rw [← List.drop_drop, hlayout, List.drop_left]
      rw [hstride] at ih
      rw [ih hdrop]
      rfl

end AttributesFrom

/-- The run came to these attributes in order, and returned. -/
structure Completes (offsets : List ℕ) (run : SummaryRun) : Prop where
  visited : run.visited = offsets
  returned : ∃ str, run.ending = .printed str

/-- The run ended and came to none but these attributes, in order. It completes exactly if each of
them prints. -/
structure Follows (offsets : List ℕ) (prints : ℕ → Prop) (run : SummaryRun) : Prop where
  ended : run.ending ≠ .running
  visited : run.visited <+: offsets
  completes_iff : Completes offsets run ↔ ∀ h ∈ offsets, prints h

theorem Follows.cons {hs : List ℕ} {prints : ℕ → Prop} {run : SummaryRun}
    (hrun : Follows hs prints run) {h : ℕ} (hprints : prints h) :
    Follows (h :: hs) prints { run with visited := h :: run.visited } := by
  refine ⟨hrun.ended, (List.prefix_cons_inj h).mpr hrun.visited, ?_⟩
  rw [List.forall_mem_cons, and_iff_right hprints, ← hrun.completes_iff]
  constructor
  · rintro ⟨hvisited, hreturned⟩
    exact ⟨(List.cons.inj hvisited).2, hreturned⟩
  · rintro ⟨hvisited, hreturned⟩
    exact ⟨congrArg (h :: ·) hvisited, hreturned⟩

theorem rtaOk_drop_append {d : Mem} {h : ℕ} (hle : h ≤ d.length) (behind : Mem) :
    rtaOk ((d ++ behind).drop h) (d.length - h) ↔ rtaOk (d.drop h) (d.length - h) := by
  rw [List.drop_append_of_le_length hle]
  by_cases hlen : 4 ≤ (d.drop h).length
  · exact rtaOk_append hlen _ _
  · rw [List.length_drop] at hlen
    exact ⟨fun hok => absurd hok.1 hlen, fun hok => absurd hok.1 hlen⟩

/-- The attribute at an offset prints. -/
def PrintsAt (rtattrSummary : Mem → Except Fault Text) (n : Mem) (h : ℕ) : Prop :=
  ∃ text, rtattrSummary (n.drop h) = .ok text

/-- With the count at the number of bytes left, the loop follows the attributes of the
message, whatever lies behind it. -/
theorem AttributesFrom.follows {d : Mem} {h : ℕ} {hs : List ℕ} (hattrs : AttributesFrom d h hs)
    (hat : AtWord d h) (rtattrSummary : Mem → Except Fault Text) (behind : Mem) {fuel : ℕ}
    (hfuel : hs.length ≤ fuel) (str : Text) :
    Follows hs (PrintsAt rtattrSummary (d ++ behind))
      (summaryLoop rtattrSummary (d ++ behind) fuel h (d.length - h) str) := by
  induction hattrs generalizing fuel str with
  | done hno =>
    unfold summaryLoop
    rw [if_neg (mt (rtaOk_drop_append hat.le behind).mp hno)]
    exact ⟨by simp, List.prefix_rfl, iff_of_true ⟨rfl, str, rfl⟩ (by simp)⟩
  | @next h hs hok hrest ih =>
    have hview : rtaLen ((d ++ behind).drop h) = rtaLen (d.drop h) := by
      rw [List.drop_append_of_le_length hat.le]
      exact rtaLen_append (by rw [List.length_drop]; exact hok.1) behind
    have hnext := hat.next hok
    have hle := hnext.le
    obtain ⟨fuel, rfl⟩ : ∃ k, fuel = k + 1 := ⟨fuel - 1, by
      rw [List.length_cons] at hfuel
      omega⟩
    rw [summaryLoop, if_pos ((rtaOk_drop_append hat.le behind).mpr hok)]
    cases hsummary : rtattrSummary ((d ++ behind).drop h) with
    | error fault =>
      refine ⟨by simp, List.prefix_append [h] hs, iff_of_false ?_ fun hprints => ?_⟩
      · rintro ⟨-, str', hend⟩
        cases hend
      · obtain ⟨text, htext⟩ := hprints h List.mem_cons_self
        rw [hsummary] at htext
        cases htext
    | ok attrStr =>
      simp only [hview]
      rw [sizeSub_of_le (by omega), Nat.sub_sub]
      exact (ih hnext (Nat.le_of_succ_le_succ hfuel) _).cons ⟨attrStr, hsummary⟩

/-- The attributes of a message: they lie inside it and are its list where it has a well-formed
one. -/
structure OwnWalk (own : Mem) (start : ℕ) (offsets : List ℕ) : Prop where
  attributes : AttributesFrom own start offsets
  inside : ∀ h ∈ offsets, start ≤ h ∧ 4 ≤ rtaLen (own.drop h) ∧
    h + rtaLen (own.drop h) ≤ own.length
  list : ∀ attrs, own.drop start = layout attrs → offsets = layoutOffsets start attrs

theorem exists_ownWalk {own : Mem} {start : ℕ} (hat : AtWord own start) :
    ∃ offsets, OwnWalk own start offsets ∧
      ∀ rtattrSummary behind fuel str, own.length / 4 ≤ fuel →
        Follows offsets (PrintsAt rtattrSummary (own ++ behind))
          (summaryLoop rtattrSummary (own ++ behind) fuel start (own.length - start) str) := by
  obtain ⟨offsets, hattrs⟩ := exists_attributesFrom hat
  refine ⟨offsets, ⟨hattrs, hattrs.inside, fun attrs => hattrs.eq_layoutOffsets⟩, ?_⟩
  intro rtattrSummary behind fuel str hfuel
  have hcount := hattrs.length_le hat
  exact hattrs.follows hat rtattrSummary behind (by omega) str

theorem exists_addressWalk (msg : WholeMessage 8) :
    ∃ offsets, OwnWalk msg.own 24 offsets ∧
      ∀ rtattrSummary behind fuel str, msg.own.length / 4 ≤ fuel →
        Follows offsets (PrintsAt rtattrSummary (msg.own ++ behind))
          (summaryLoop rtattrSummary (msg.own ++ behind) fuel 24
            (ifaPayload (msg.own ++ behind)) str) := by
  obtain ⟨offsets, hwalk, hfollows⟩ := exists_ownWalk ⟨msg.aligned, by decide, msg.covers⟩
  refine ⟨offsets, hwalk, fun rtattrSummary behind fuel str hfuel => ?_⟩
  rw [msg.ifaPayload_append le_rfl, msg.length_attrs]
  exact hfollows rtattrSummary behind fuel str hfuel

end Routerd
