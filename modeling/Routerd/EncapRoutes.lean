import Routerd.RouteCommands
import Routerd.RtattrLayout

/-!
# Routes with an encapsulation

The attributes of an encapsulation fill the payload of `RTA_ENCAP`. The nested walk leaves
them in a local table, over whatever that held before. A route without a gateway is printed
with its encapsulation, after the reads that every command makes.
-/

namespace Routerd
open ByteMemory NumeralText InetText KeyedUpdates OverwriteStore AccessLog

/-- A route with an encapsulation of this type that holds a list of attributes. -/
structure EncapRoute (type : ℕ) where
  route : RtObject
  nested : List Rtattr
  encap : Rtattr
  behind : Mem
  encapType : rtaRead16 (route.rtas.get rtaEncapType) = .ok type
  encapAttr : route.rtas.get rtaEncap = .mem (encap.bytes ++ behind)
  payload : encap.payload = layout nested

/-- The process ends at an interface that is too long to be read. -/
def Refuses (rtas : RtaArray) (t : ℕ) : Prop := ∃ e, optionalRead32 rtas t = .error e

theorem exists_read_of_not_refuses (names : IfNames) {rtas : RtaArray} {t : ℕ}
    (h : ¬ Refuses rtas t) :
    ∃ text, (optional (rtas.get t) [] (readIfname names)).outcome = .ok text := by
  rcases optional_readIfname_cases names rtas t with ⟨e, he, -⟩ | ⟨-, text, -, htext⟩
  · exact absurd ⟨e, he⟩ h
  · exact ⟨text, htext⟩

theorem not_refuses_of_read {names : IfNames} {rtas : RtaArray} {t : ℕ} {text : Text}
    (h : (optional (rtas.get t) [] (readIfname names)).outcome = .ok text) : ¬ Refuses rtas t := by
  rintro ⟨e, he⟩
  rcases optional_readIfname_cases names rtas t with ⟨e', -, herror⟩ | ⟨x, -, hok, -⟩
  · rw [herror] at h
    cases h
  · rw [hok] at he
    cases he

namespace EncapRoute

variable {type : ℕ} (r : EncapRoute type)

def Occurs (t : ℕ) : Prop := ∃ a ∈ r.nested, a.type = t

/-- No nested type that `parse_rtattr` refuses. -/
def TypesFit : Prop := ∀ a ∈ r.nested, a.type < maxAttrs

def sub (stale : RtaTable) : RtaTable :=
  applyWrites stale (layoutEntries r.nested (r.encap.padding ++ r.behind))

theorem sub_of_newest {t : ℕ} {a : Rtattr} (h : newest Rtattr.type r.nested t = some a) :
    ∃ rest, ∀ stale, r.sub stale t = .mem (a.bytes ++ rest) := by
  have hrel := rel_lastWrite_layoutEntries r.nested t (r.encap.padding ++ r.behind)
  rw [h] at hrel
  cases hp : lastWrite t (layoutEntries r.nested (r.encap.padding ++ r.behind)) with
  | none =>
    rw [hp] at hrel
    cases hrel
  | some p =>
    rw [hp] at hrel
    cases hrel with
    | some hshows =>
      cases hshows with
      | present _ rest =>
        refine ⟨rest, fun stale => ?_⟩
        rw [sub, applyWrites_eq_lastWrite, hp, Option.getD_some]

theorem sub_eq_mem {t : ℕ} (h : r.Occurs t) : ∃ m, ∀ stale, r.sub stale t = .mem m := by
  have hsome : newest Rtattr.type r.nested t ≠ none := by
    rw [ne_eq, newest_eq_none_iff]
    obtain ⟨a, ha, htype⟩ := h
    exact fun hnone => hnone a ha htype
  obtain ⟨a, ha⟩ := Option.ne_none_iff_exists'.mp hsome
  obtain ⟨rest, hrest⟩ := r.sub_of_newest ha
  exact ⟨_, hrest⟩

theorem sub_of_not_occurs {t : ℕ} (h : ¬ r.Occurs t) (stale : RtaTable) :
    r.sub stale t = stale t := by
  have hnone := (lastWrite_layoutEntries_eq_none (r.encap.padding ++ r.behind)).mpr
    fun a ha htype => h ⟨a, ha, htype⟩
  rw [sub, applyWrites_eq_lastWrite, hnone, Option.getD_none]

theorem sub_eq_sub {t : ℕ} (h : r.Occurs t) (stale stale' : RtaTable) :
    r.sub stale t = r.sub stale' t := by
  obtain ⟨m, hm⟩ := r.sub_eq_mem h
  rw [hm, hm]

theorem outcome_readNested (stale : RtaTable) :
    (readNested stale (r.route.rtas.get rtaEncap)).outcome =
      parseRtattr (layout r.nested ++ (r.encap.padding ++ r.behind)) (layout r.nested).length stale
        maxAttrs := by
  simp only [readNested, Logged.outcome_bind, outcome_payloadOf, Logged.outcome_silent,
    r.encapAttr, r.encap.rtaPayload_bytes, r.encap.rtaReadptr_bytes, deref_mem, r.payload]
  rfl

theorem outcome_readNested_ok (h : r.TypesFit) (stale : RtaTable) :
    (readNested stale (r.route.rtas.get rtaEncap)).outcome = .ok (r.sub stale) := by
  have hparse := parseRtattr_layout h (r.encap.padding ++ r.behind) 0 stale
  rw [Nat.add_zero, parseRtattr_zero] at hparse
  rw [r.outcome_readNested, hparse]
  rfl

theorem outcome_readNested_refused (h : ¬ r.TypesFit) (stale : RtaTable) :
    (readNested stale (r.route.rtas.get rtaEncap)).outcome = .error .assertion := by
  have hparse := parseRtattr_layout_refused h (r.encap.padding ++ r.behind) 0 stale
  rw [Nat.add_zero] at hparse
  rw [r.outcome_readNested, hparse]

theorem encapType_ne_null : r.route.rtas.get rtaEncapType ≠ .null := by
  intro hnull
  have htype := r.encapType
  rw [hnull] at htype
  cases htype

theorem outcome_encapCommand (names : IfNames) (stale : RtaTable) (isNew : Bool)
    (dst oif : Text) :
    (encapCommand names stale r.route isNew dst oif).outcome =
      (if type = lwtunnelEncapSeg6 then seg6Command stale r.route isNew dst oif
        else if type = lwtunnelEncapSeg6Local then
          seg6LocalCommand names stale r.route isNew dst oif
        else unknownCommand r.route isNew dst).outcome := by
  unfold encapCommand
  split
  · rename_i hnull
    exact absurd hnull r.encapType_ne_null
  · rw [Logged.outcome_bind, outcome_read16, r.encapType, ok_bind]

end EncapRoute

/-! ### The reads of every command -/

theorem outcome_routeToIproute2Cli {route : RtObject} (hgateway : route.rtas.get rtaGateway = .null)
    (names : IfNames) (stale : RtaTable) (isNew : Bool) :
    (routeToIproute2Cli names stale route isNew).outcome =
      (do
        let _ ← addrText route.rtas rtaSrc (rtmFamily route.hdr)
        let _ ← (optional (route.rtas.get rtaIif) [] (readIfname names)).outcome
        let dst ← addrText route.rtas rtaDst (rtmFamily route.hdr)
        let oif ← (optional (route.rtas.get rtaOif) [] (readIfname names)).outcome
        (encapCommand names stale route isNew dst oif).outcome) := by
  rw [routeToIproute2Cli, hgateway]
  simp only [Logged.outcome_bind, outcome_optional_readAddr]

end Routerd
