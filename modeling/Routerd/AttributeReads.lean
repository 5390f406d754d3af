import Routerd.RouteCommands
import Routerd.NestedAttributes

/-!
# Which attribute reads stay inside their attribute

A read is inside if it is applied to an attribute of the message and ends within its
payload. The readers check no lower bound of the length and no absence, so a read is inside
exactly if the attribute is there with enough bytes; an attribute that is too long for its
reader ends the process and with it all later reads. From the lemmas for the readers the
conditions of the hooks and of the printed command are put together branch by branch.
-/

namespace Routerd
open ByteMemory NumeralText InetText AccessLog

/-- The pointer leads to one of the attributes `P`, with at least so many bytes. -/
def Covers (P : Mem → Prop) (rta : Ptr) (count : ℕ) : Prop :=
  ∃ m, rta = .mem m ∧ P m ∧ count + 4 ≤ rtaLen m

def Inside (P : Mem → Prop) (r : AttrRead) : Prop := Covers P r.rta r.upto

section Readers

variable {P : Mem → Prop} {rta : Ptr}

theorem Covers.mono {c c' : ℕ} (h : Covers P rta c') (hle : c ≤ c') : Covers P rta c := by
  obtain ⟨m, hrta, hm, hlen⟩ := h
  exact ⟨m, hrta, hm, by omega⟩

theorem all_payloadOf : (payloadOf rta).All (Inside P) ↔ Covers P rta 0 :=
  Logged.all_access _ _ _

theorem all_payloadAt {upto : ℕ} : (payloadAt rta upto).All (Inside P) ↔ Covers P rta upto :=
  Logged.all_access _ _ _

theorem all_then {α β : Type} {x : Reads α} {f : α → Reads β} {C : Prop}
    (h : ∀ a, (f a).All (Inside P) ↔ C) :
    (x >>= f).All (Inside P) ↔ x.All (Inside P) ∧ ((∃ a, x.outcome = .ok a) → C) := by
  rw [Logged.all_bind]
  apply and_congr_right
  intro _
  constructor
  · rintro hall ⟨a, ha⟩
    exact (h a).mp (hall a ha)
  · exact fun hC a ha => (h a).mpr (hC ⟨a, ha⟩)

/-- A reader of `size` bytes refuses a longer payload and trusts a shorter one. -/
private theorem all_sizedRead {α : Type} (size : ℕ) (value : Mem → α) :
    (do
      let payload ← payloadOf rta
      if size < payload then .silent (.error .readMiss)
      else
        let m ← payloadAt rta size
        pure (value m) : Reads α).All (Inside P) ↔ Covers P rta size := by
  rw [Logged.all_bind, all_payloadOf]
  constructor
  · rintro ⟨hcovers, hrest⟩
    obtain ⟨m, rfl, hm, hlen⟩ := hcovers
    have hpayload : sizeSub (rtaLen m) 4 = rtaLen m - 4 := sizeSub_of_le (by omega)
    by_cases hlong : size < rtaLen m - 4
    · exact ⟨m, rfl, hm, by omega⟩
    · have hread := hrest (rtaLen m - 4) (congrArg Except.ok hpayload)
      rw [if_neg hlong, Logged.all_bind, all_payloadAt] at hread
      exact hread.1
  · intro hcovers
    refine ⟨hcovers.mono (Nat.zero_le _), fun payload _ => ?_⟩
    split
    · exact Logged.all_silent _ _
    · rw [Logged.all_bind, all_payloadAt]
      exact ⟨hcovers, fun m _ => Logged.all_pure _ _⟩

theorem all_read16 : (read16 rta).All (Inside P) ↔ Covers P rta 2 :=
  all_sizedRead 2 fun m => le16 m 0

theorem all_read32 : (read32 rta).All (Inside P) ↔ Covers P rta 4 :=
  all_sizedRead 4 fun m => le32 m 0

theorem all_readIfname (names : IfNames) :
    (readIfname names rta).All (Inside P) ↔ Covers P rta 4 := by
  rw [readIfname, Logged.all_bind, all_read32]
  exact and_iff_left fun index _ => Logged.all_pure _ _

theorem all_readAddr (family : UInt8) :
    (readAddr rta family).All (Inside P) ↔
      (family = afInet → Covers P rta 4) ∧ (family = afInet6 → Covers P rta 16) := by
  have hdiff : afInet ≠ afInet6 := by decide
  unfold readAddr
  split
  · rename_i hinet
    rw [hinet, Logged.all_bind, all_payloadAt]
    exact ⟨fun h => ⟨fun _ => h.1, fun h6 => absurd h6 hdiff⟩,
      fun h => ⟨h.1 rfl, fun m _ => Logged.all_pure _ _⟩⟩
  · rename_i hinet
    split
    · rename_i hinet6
      rw [hinet6, Logged.all_bind, all_payloadAt]
      exact ⟨fun h => ⟨fun h4 => absurd h4.symm hdiff, fun _ => h.1⟩,
        fun h => ⟨h.2 rfl, fun m _ => Logged.all_pure _ _⟩⟩
    · rename_i hinet6
      exact ⟨fun _ => ⟨fun h4 => absurd h4 hinet, fun h6 => absurd h6 hinet6⟩,
        fun _ => Logged.all_pure _ _⟩

theorem all_optional {R : AttrRead → Prop} {α : Type} {absent : α} {read : Ptr → Reads α} :
    (optional rta absent read).All R ↔ (rta ≠ .null → (read rta).All R) := by
  by_cases hnull : rta = .null
  · subst hnull
    simp [optional]
  · rw [optional_of_ne_null hnull]
    exact ⟨fun h _ => h, fun h => h hnull⟩

end Readers

/-! ### The attributes a table shows -/

/-- What an object shows for a type: nothing, an attribute of the message in front of some
bytes, or one that was found behind the message. -/
inductive Entry where
  | absent
  | own (a : Rtattr) (rest : Mem)
  | foreign (behind : Mem)

namespace Entry

def ptr : Entry → Ptr
  | absent => .null
  | own a rest => .mem (a.bytes ++ rest)
  | foreign behind => .mem behind

def Holds (count : ℕ) : Entry → Prop
  | own a _ => count ≤ a.payload.length
  | _ => False

def Readable (count : ℕ) (e : Entry) : Prop := e = absent ∨ e.Holds count

/-- Too long for a reader of so many bytes, which ends the process. -/
def Refused (count : ℕ) : Entry → Prop
  | own a _ => count < a.payload.length
  | _ => False

def AddrReadable (family : UInt8) (e : Entry) : Prop :=
  (family = afInet → e.Readable 4) ∧ (family = afInet6 → e.Readable 16)

end Entry

/-- The table shows these entries; the attributes of the message are among `P`, the ones
found behind it are not. -/
structure Sees (P : Mem → Prop) (rtas : RtaArray) (entry : ℕ → Entry) : Prop where
  get : ∀ t, rtas.get t = (entry t).ptr
  own : ∀ t a rest, entry t = .own a rest → P (a.bytes ++ rest)
  foreign : ∀ t behind, entry t = .foreign behind → ¬ P behind

namespace Sees

variable {P : Mem → Prop} {rtas : RtaArray} {entry : ℕ → Entry}

theorem covers_iff (h : Sees P rtas entry) (t count : ℕ) :
    Covers P (rtas.get t) count ↔ (entry t).Holds count := by
  rw [h.get]
  cases hentry : entry t with
  | absent => exact ⟨fun ⟨m, hm, _⟩ => Ptr.noConfusion hm, False.elim⟩
  | own a rest =>
    constructor
    · rintro ⟨m, hm, -, hlen⟩
      cases hm
      rw [a.rtaLen_bytes, Rtattr.len] at hlen
      exact Nat.le_of_add_le_add_right hlen
    · intro hlen
      refine ⟨_, rfl, h.own t a rest hentry, ?_⟩
      rw [a.rtaLen_bytes]
      exact Nat.add_le_add_right hlen 4
  | foreign behind =>
    refine ⟨?_, False.elim⟩
    rintro ⟨m, hm, hP, -⟩
    cases hm
    exact h.foreign t behind hentry hP

theorem get_eq_null_iff (h : Sees P rtas entry) (t : ℕ) :
    rtas.get t = .null ↔ entry t = .absent := by
  rw [h.get]
  cases entry t <;> simp [Entry.ptr]

theorem all_optional_iff (h : Sees P rtas entry) (t count : ℕ) {α : Type} {absent : α}
    {read : Ptr → Reads α}
    (hread : (read (rtas.get t)).All (Inside P) ↔ Covers P (rtas.get t) count) :
    (optional (rtas.get t) absent read).All (Inside P) ↔ (entry t).Readable count := by
  rw [all_optional, hread, h.covers_iff, Entry.Readable, ne_eq, h.get_eq_null_iff]
  exact or_iff_not_imp_left.symm

theorem all_addr_then (h : Sees P rtas entry) (t : ℕ) (family : UInt8) {α : Type}
    {f : Text → Reads α} {C : Prop} (hf : ∀ text, (f text).All (Inside P) ↔ C) :
    (optional (rtas.get t) [] (fun rta => readAddr rta family) >>= f).All (Inside P) ↔
      (entry t).AddrReadable family ∧ C := by
  have hok : ∃ text, (optional (rtas.get t) [] fun rta => readAddr rta family).outcome =
      .ok text := by
    obtain ⟨text, htext, -⟩ := addrText_short rtas t family
    exact ⟨text, by rw [outcome_optional_readAddr, htext]⟩
  rw [all_then hf, all_optional, all_readAddr, h.covers_iff, h.covers_iff, ne_eq,
    h.get_eq_null_iff, Entry.AddrReadable, Entry.Readable, Entry.Readable,
    or_iff_not_imp_left, or_iff_not_imp_left]
  constructor
  · rintro ⟨hread, hC⟩
    exact ⟨⟨fun h4 habsent => (hread habsent).1 h4, fun h6 habsent => (hread habsent).2 h6⟩, hC hok⟩
  · rintro ⟨hread, hC⟩
    exact ⟨fun habsent => ⟨fun h4 => hread.1 h4 habsent, fun h6 => hread.2 h6 habsent⟩, fun _ => hC⟩

theorem all_word_then (h : Sees P rtas entry) (t : ℕ) {α β : Type} {absent : α}
    {read : Ptr → Reads α} (hread : ∀ rta, (read rta).All (Inside P) ↔ Covers P rta 4)
    (hok : ∀ rta, (∃ a, (read rta).outcome = .ok a) ↔ ∃ x, rtaRead32 rta = .ok x)
    {f : α → Reads β} {C : Prop} (hf : ∀ a, (f a).All (Inside P) ↔ C) :
    (optional (rtas.get t) absent read >>= f).All (Inside P) ↔
      (entry t).Readable 4 ∧ ((entry t).Refused 4 ∨ C) := by
  rw [all_then hf, h.all_optional_iff t 4 (hread _)]
  apply and_congr_right
  rintro (habsent | hholds)
  · rw [(h.get_eq_null_iff t).mpr habsent, habsent]
    exact ⟨fun hC => Or.inr (hC ⟨absent, rfl⟩), fun hC _ => hC.resolve_left False.elim⟩
  · cases hentry : entry t with
    | absent => rw [hentry] at hholds; exact hholds.elim
    | foreign behind => rw [hentry] at hholds; exact hholds.elim
    | own a rest =>
      have hptr : rtas.get t = .mem (a.bytes ++ rest) := by rw [h.get, hentry, Entry.ptr]
      have hread32 : (∃ x, rtaRead32 (.mem (a.bytes ++ rest)) = .ok x) ↔ a.payload.length ≤ 4 := by
        simp [a.rtaRead32_eq_ok_iff]
      rw [hptr, optional_of_ne_null (by simp), hok, hread32, ← Nat.not_lt]
      exact or_iff_not_imp_left.symm

theorem all_ifname_then (h : Sees P rtas entry) (t : ℕ) (names : IfNames) {α : Type}
    {f : Text → Reads α} {C : Prop} (hf : ∀ text, (f text).All (Inside P) ↔ C) :
    (optional (rtas.get t) [] (readIfname names) >>= f).All (Inside P) ↔
      (entry t).Readable 4 ∧ ((entry t).Refused 4 ∨ C) := by
  refine h.all_word_then t (fun rta => all_readIfname names) (fun rta => ?_) hf
  rw [readIfname, Logged.outcome_bind, outcome_read32]
  cases rtaRead32 rta with
  | error e =>
    constructor
    · rintro ⟨text, htext⟩
      cases htext
    · rintro ⟨x, hx⟩
      cases hx
  | ok x => exact ⟨fun _ => ⟨x, rfl⟩, fun _ => ⟨_, rfl⟩⟩

theorem get_eq_own (h : Sees P rtas entry) {t : ℕ} {a : Rtattr} {rest : Mem}
    (hentry : entry t = .own a rest) : rtas.get t = .mem (a.bytes ++ rest) := by
  rw [h.get, hentry, Entry.ptr]

end Sees

theorem rtaPayload_mem {m : Mem} (h : 4 ≤ rtaLen m) : rtaPayload (.mem m) = .ok (rtaLen m - 4) :=
  congrArg Except.ok (sizeSub_of_le h)

theorem rtaRead16_mem_eq_ok_iff {m : Mem} (h : 4 ≤ rtaLen m) {x : ℕ} :
    rtaRead16 (.mem m) = .ok x ↔ rtaLen m ≤ 6 ∧ x = le16 m 4 := by
  have hvalue : le16 (m.drop 4) 0 = le16 m 4 := by
    simp [le16, byteAt, List.getD_eq_getElem?_getD]
  rw [rtaRead16, rtaPayload_mem h, ok_bind]
  split
  · exact iff_of_false (fun herror => by cases herror) (by omega)
  · rw [rtaReadptr_mem, deref_mem, ok_bind, hvalue]
    exact ⟨fun hok => ⟨by omega, (Except.ok.inj hok).symm⟩, fun hx => by rw [hx.2]; rfl⟩

theorem rtaRead32_mem_eq_ok_iff {m : Mem} (h : 4 ≤ rtaLen m) {x : UInt32} :
    rtaRead32 (.mem m) = .ok x ↔ rtaLen m ≤ 8 ∧ x = le32 m 4 := by
  have hvalue : le32 (m.drop 4) 0 = le32 m 4 := by
    simp [le32, le16, byteAt, List.getD_eq_getElem?_getD]
  rw [rtaRead32, rtaPayload_mem h, ok_bind]
  split
  · exact iff_of_false (fun herror => by cases herror) (by omega)
  · rw [rtaReadptr_mem, deref_mem, ok_bind, hvalue]
    exact ⟨fun hok => ⟨by omega, (Except.ok.inj hok).symm⟩, fun hx => by rw [hx.2]; rfl⟩

theorem Entry.Readable.rtaLen_foreign {e : Entry} {count : ℕ} (h : e.Readable count) {behind : Mem}
    (hforeign : e = .foreign behind) : rtaLen behind = 4 := by
  subst hforeign
  rcases h with habsent | hholds
  · cases habsent
  · exact hholds.elim

theorem Sees.optionalRead32_error_iff {P : Mem → Prop} {rtas : RtaArray} {entry : ℕ → Entry}
    (h : Sees P rtas entry) {t : ℕ} (hforeign : ∀ {behind}, entry t = .foreign behind →
      rtaLen behind = 4) : (∃ e, optionalRead32 rtas t = .error e) ↔ (entry t).Refused 4 := by
  have hok : ∀ x : UInt32, ¬ ∃ e : Fault, Except.ok x = Except.error e := by
    rintro x ⟨e, he⟩
    cases he
  unfold optionalRead32
  rw [h.get]
  cases hentry : entry t with
  | absent => exact iff_of_false (hok 0) id
  | foreign behind =>
    have hlen := hforeign hentry
    have hread := (@rtaRead32_mem_eq_ok_iff behind (by omega) _).mpr ⟨by omega, rfl⟩
    refine iff_of_false ?_ id
    change ¬ ∃ e, rtaRead32 (.mem behind) = .error e
    rw [hread]
    exact hok _
  | own a rest =>
    change (∃ e, rtaRead32 (.mem (a.bytes ++ rest)) = .error e) ↔ 4 < a.payload.length
    by_cases hle : a.payload.length ≤ 4
    · rw [a.rtaRead32_bytes rest hle]
      exact iff_of_false (hok _) (by omega)
    · refine iff_of_true ?_ (by omega)
      rw [rtaRead32, a.rtaPayload_bytes]
      exact ⟨.readMiss, if_pos (Nat.lt_of_not_le hle)⟩

/-! ### The conditions -/

/-- The encapsulation type is absent, or it has at least two bytes and, unless it has more
and is refused, `K` holds of its value. -/
def EncapReadable (entry : ℕ → Entry) (K : ℕ → Prop) : Prop :=
  match entry rtaEncapType with
  | .absent => True
  | .own a _ => 2 ≤ a.payload.length ∧ (a.payload.length = 2 → K (le16 a.payload 0))
  | .foreign _ => False

/-- The encapsulation is there, and unless a type among its nested attributes is refused, `K`
holds of what they show over `stale`. -/
def NestedReadable (stale : RtaTable) (entry : ℕ → Entry) (K : RtaTable → Prop) : Prop :=
  match entry rtaEncap with
  | .own a rest => ∀ found, Nested a rest found → (∀ m ∈ found, rtaType m < maxAttrs) →
      K (shown stale found)
  | _ => False

section Conditions

variable (P : Mem → Prop)

/-- The action among nested attributes is absent, or it has at least four bytes and, unless it
has more and is refused, `K` holds of its value. -/
def ActionReadable (sub : RtaTable) (K : UInt32 → Prop) : Prop :=
  sub seg6LocalAction ≠ .null → Covers P (sub seg6LocalAction) 4 ∧
    ∀ m, sub seg6LocalAction = .mem m → rtaLen m = 8 → K (le32 m 4)

def HookReadable (stale : RtaTable) (family : UInt8) (entry : ℕ → Entry) : Prop :=
  (entry rtaDst).AddrReadable family ∧ (entry rtaOif).Readable 4 ∧ ((entry rtaOif).Refused 4 ∨
    if family ≠ afInet then
      EncapReadable entry fun encapType => encapType = lwtunnelEncapSeg6Local →
        NestedReadable stale entry fun sub => ActionReadable P sub fun num =>
          num = seg6LocalActionEndDx4 → sub seg6LocalNh4 ≠ .null → Covers P (sub seg6LocalNh4) 4
    else (entry rtaGateway).AddrReadable family)

/-- The number of segments that a routing header claims. -/
def srhSegments (rta : Mem) : ℕ := (byteAt rta 9).toNat / 2

def SrhReadable (sub : RtaTable) : Prop :=
  sub seg6IptunnelSrh ≠ .null → Covers P (sub seg6IptunnelSrh) 6 ∧
    ∀ m, sub seg6IptunnelSrh = .mem m → 0 < srhSegments m →
      Covers P (sub seg6IptunnelSrh) (12 + 16 * srhSegments m)

/-- The parameter of `end.t` is looked for in one attribute and read from another. -/
def ParameterReadable (sub : RtaTable) (num : UInt32) : Prop :=
  (num = seg6LocalActionEndX → sub seg6LocalNh6 ≠ .null → Covers P (sub seg6LocalNh6) 16) ∧
    (num = seg6LocalActionEndDx2 → sub seg6LocalOif ≠ .null → Covers P (sub seg6LocalOif) 4) ∧
    (num = seg6LocalActionEndT → sub seg6LocalTable ≠ .null → Covers P (sub seg6LocalOif) 4)

/-- What the printed command needs of a route with this encapsulation. -/
def EncapCommandReadable (stale : RtaTable) (entry : ℕ → Entry) (encapType : ℕ) : Prop :=
  (encapType = lwtunnelEncapSeg6 → NestedReadable stale entry (SrhReadable P)) ∧
    (encapType = lwtunnelEncapSeg6Local → NestedReadable stale entry fun sub =>
      ActionReadable P sub (ParameterReadable P sub))

def CommandReadable (stale : RtaTable) (family : UInt8) (entry : ℕ → Entry) : Prop :=
  (entry rtaSrc).AddrReadable family ∧ (entry rtaIif).Readable 4 ∧ ((entry rtaIif).Refused 4 ∨
    ((entry rtaDst).AddrReadable family ∧ (entry rtaOif).Readable 4 ∧ ((entry rtaOif).Refused 4 ∨
      ((entry rtaGateway).AddrReadable family ∧ (entry rtaGateway = .absent →
        EncapReadable entry (EncapCommandReadable P stale entry))))))

end Conditions

/-! ### The hooks and the command -/

section Functions

variable {P : Mem → Prop} {rtas : RtaArray} {entry : ℕ → Entry}

theorem all_encap_then (h : Sees P rtas entry) {α : Type} {f : ℕ → Reads α} {K : ℕ → Prop}
    (hf : ∀ n, (f n).All (Inside P) ↔ K n) :
    (rtas.get rtaEncapType ≠ .null → (read16 (rtas.get rtaEncapType) >>= f).All (Inside P)) ↔
      EncapReadable entry K := by
  have hcovers := h.covers_iff rtaEncapType 2
  rw [Logged.all_bind, all_read16, hcovers, outcome_read16, EncapReadable]
  cases hentry : entry rtaEncapType with
  | absent => simp [(h.get_eq_null_iff _).mpr hentry]
  | foreign behind => simp [h.get, hentry, Entry.ptr, Entry.Holds]
  | own a rest =>
    have hvalue : a.payload.length = 2 →
        le16 (a.payload ++ (a.padding ++ rest)) 0 = le16 a.payload 0 := by
      intro hlen
      exact le16_append (by omega) _
    rw [h.get_eq_own hentry]
    simp only [ne_eq, reduceCtorEq, not_false_eq_true, forall_true_left, Entry.Holds,
      a.rtaRead16_eq_ok_iff, hf]
    apply and_congr_right
    intro hlen
    constructor
    · intro hall hexact
      rw [← hvalue hexact]
      exact hall _ ⟨hexact.le, rfl⟩
    · rintro hK n ⟨hle, rfl⟩
      have hexact := Nat.le_antisymm hle hlen
      rw [hvalue hexact]
      exact hK hexact

/-- What is read of an encapsulation are its nested attributes. -/
theorem Sees.outcome_readNested (h : Sees P rtas entry) (stale : RtaTable) {a : Rtattr} {rest : Mem}
    (hentry : entry rtaEncap = .own a rest) {found : List Mem} (hfound : Nested a rest found) :
    (readNested stale (rtas.get rtaEncap)).outcome =
      if ∀ m ∈ found, rtaType m < maxAttrs then .ok (shown stale found) else .error .assertion := by
  rw [← hfound.runsOn.parseRtattr_eq, h.get_eq_own hentry]
  simp only [readNested, Logged.outcome_bind, outcome_payloadOf, Logged.outcome_silent,
    a.rtaPayload_bytes, a.rtaReadptr_bytes, deref_mem]
  rfl

theorem all_nested_then (h : Sees P rtas entry) (stale : RtaTable) {α : Type}
    {f : RtaTable → Reads α} {K : RtaTable → Prop} (hf : ∀ sub, (f sub).All (Inside P) ↔ K sub) :
    (readNested stale (rtas.get rtaEncap) >>= f).All (Inside P) ↔ NestedReadable stale entry K := by
  have hcovers := h.covers_iff rtaEncap 0
  have hnested : (readNested stale (rtas.get rtaEncap)).All (Inside P) ↔
      (entry rtaEncap).Holds 0 := by
    rw [readNested, Logged.all_bind, all_payloadOf, hcovers]
    apply and_iff_left
    intro l _
    rw [Logged.all_bind]
    exact ⟨Logged.all_silent _ _, fun d _ => Logged.all_silent _ _⟩
  rw [Logged.all_bind, hnested, NestedReadable]
  cases hentry : entry rtaEncap with
  | absent => simp [Entry.Holds]
  | foreign behind => simp [Entry.Holds]
  | own a rest =>
    rw [and_iff_right (show (Entry.own a rest).Holds 0 from Nat.zero_le _)]
    constructor
    · intro hall found hfound htypes
      have houtcome := h.outcome_readNested stale hentry hfound
      rw [if_pos htypes] at houtcome
      exact (hf _).mp (hall _ houtcome)
    · intro hK sub houtcome
      obtain ⟨found, hfound⟩ := exists_nested a rest
      rw [h.outcome_readNested stale hentry hfound] at houtcome
      split at houtcome
      · rename_i htypes
        cases houtcome
        exact (hf _).mpr (hK found hfound htypes)
      · cases houtcome

theorem all_action_then (sub : RtaTable) {α : Type} {absent : α} {f : UInt32 → Reads α}
    {K : UInt32 → Prop} (hf : ∀ num, (f num).All (Inside P) ↔ K num) :
    (optional (sub seg6LocalAction) absent fun rta => read32 rta >>= f).All (Inside P) ↔
      ActionReadable P sub K := by
  rw [all_optional, ActionReadable, Logged.all_bind, all_read32, outcome_read32]
  refine imp_congr_right fun _ => and_congr_right fun hcovers => ?_
  obtain ⟨m, hm, -, hlen⟩ := hcovers
  rw [hm]
  simp only [rtaRead32_mem_eq_ok_iff (show 4 ≤ rtaLen m by omega), hf]
  constructor
  · rintro hall m' ⟨⟩ hexact
    exact hall _ ⟨hexact.le, rfl⟩
  · rintro hK num ⟨hle, rfl⟩
    exact hK m rfl (by omega)

theorem all_actionReads (sub : RtaTable) :
    (actionReads sub).All (Inside P) ↔ ActionReadable P sub fun num =>
      num = seg6LocalActionEndDx4 → sub seg6LocalNh4 ≠ .null →
        Covers P (sub seg6LocalNh4) 4 := by
  apply all_action_then
  intro num
  split
  · rename_i hcond
    rw [Logged.all_bind, all_readAddr]
    constructor
    · exact fun hall _ _ => hall.1.1 rfl
    · intro hcovers
      refine ⟨⟨fun _ => hcovers hcond.1 hcond.2, fun h6 => absurd h6 (by decide)⟩, ?_⟩
      exact fun nh4 _ => Logged.all_pure _ _
  · rename_i hcond
    exact ⟨fun _ hnum hnh4 => absurd ⟨hnum, hnh4⟩ hcond, fun _ => Logged.all_pure _ _⟩

theorem all_routeReads {route : RtObject} (h : Sees P route.rtas entry) (names : IfNames)
    (stale : RtaTable) :
    (routeReads names stale route).All (Inside P) ↔
      HookReadable P stale (rtmFamily route.hdr) entry := by
  rw [routeReads, HookReadable]
  split
  · apply h.all_addr_then rtaDst
    intro dst
    apply h.all_ifname_then rtaOif names
    intro oif
    rw [Logged.all_bind, and_iff_left fun texts _ => Logged.all_pure _ _, seg6LocalReads,
      all_optional]
    apply all_encap_then h
    intro encapType
    split
    · rename_i htype
      rw [all_nested_then h stale all_actionReads]
      exact ⟨fun hnested _ => hnested, fun hnested => hnested htype⟩
    · rename_i htype
      exact ⟨fun _ heq => absurd heq htype, fun _ => Logged.all_pure _ _⟩
  · -- The interface is read once more behind the gateway, with the condition it has met.
    have hagain : ∀ dst gw, (optional (route.rtas.get rtaOif) 0 read32 >>= fun kIndex =>
        (pure (RouteInputs.inet4 dst kIndex gw) : Reads RouteInputs)).All (Inside P) ↔
          (entry rtaOif).Readable 4 ∧ ((entry rtaOif).Refused 4 ∨ True) := by
      intro dst gw
      apply h.all_word_then rtaOif (fun rta => all_read32) (fun rta => by rw [outcome_read32])
      exact fun kIndex => iff_true_intro (Logged.all_pure _ _)
    rw [h.all_addr_then rtaDst _ fun dst => h.all_ifname_then rtaOif names fun _ =>
      h.all_addr_then rtaGateway _ fun gw => hagain dst gw]
    apply and_congr_right
    intro _
    apply and_congr_right
    intro hoif
    exact or_congr_right (and_iff_left ⟨hoif, Or.inr trivial⟩)

theorem all_segsLoop (rta : Ptr) {n left : ℕ} (hle : left ≤ n) (segs : Text) :
    (segsLoop rta n left segs).All (Inside P) ↔ (0 < left → Covers P rta (12 + 16 * n)) := by
  induction left generalizing segs with
  | zero => simp [segsLoop]
  | succ left ih =>
    rw [segsLoop, Logged.all_bind, all_payloadAt]
    constructor
    · rintro ⟨hcovers, hrest⟩ -
      obtain ⟨m, hm, hP, hlen⟩ := hcovers
      have hloop := hrest (m.drop 4) (by rw [hm]; rfl)
      rw [Logged.all_bind, Logged.outcome_silent, strfmt_segment] at hloop
      have hnext := (ih (Nat.le_of_succ_le hle) _).mp (hloop.2 _ rfl)
      by_cases hpos : 0 < left
      · exact hnext hpos
      · exact ⟨m, hm, hP, by omega⟩
    · intro hcovers
      have hwhole := hcovers (Nat.succ_pos left)
      have hfront : 12 + 16 * (n - (left + 1) + 1) ≤ 12 + 16 * n := by omega
      refine ⟨hwhole.mono hfront, fun m _ => ?_⟩
      rw [Logged.all_bind]
      refine ⟨Logged.all_silent _ _, fun item _ => ?_⟩
      exact (ih (Nat.le_of_succ_le hle) _).mpr fun _ => hwhole

theorem all_srhReads (rta : Ptr) :
    (srhReads rta).All (Inside P) ↔ Covers P rta 6 ∧
      ∀ m, rta = .mem m → 0 < srhSegments m → Covers P rta (12 + 16 * srhSegments m) := by
  have hloop : ∀ m, (segsLoop rta (srhSegments m) (srhSegments m) []).All (Inside P) ↔
      (0 < srhSegments m → Covers P rta (12 + 16 * srhSegments m)) :=
    fun m => all_segsLoop rta (Nat.le_refl _) []
  have hsegments : ∀ m : Mem, (byteAt (m.drop 4) 5).toNat / 2 = srhSegments m := by
    intro m
    simp [srhSegments, byteAt, List.getD_eq_getElem?_getD]
  rw [srhReads, Logged.all_bind, all_payloadAt]
  constructor
  · rintro ⟨hcovers, hrest⟩
    obtain ⟨m, rfl, hP, hlen⟩ := hcovers
    have hmode := hrest (m.drop 4) rfl
    rw [Logged.all_bind, all_payloadAt] at hmode
    have hsegs := hmode.2 (m.drop 4) rfl
    rw [hsegments, Logged.all_bind, hloop] at hsegs
    refine ⟨hmode.1, fun m' hm' => ?_⟩
    cases hm'
    exact hsegs.1
  · rintro ⟨hcovers, hsegs⟩
    obtain ⟨m, rfl, hP, hlen⟩ := hcovers
    refine ⟨⟨m, rfl, hP, by omega⟩, fun m' hm' => ?_⟩
    rw [Logged.all_bind, all_payloadAt]
    refine ⟨⟨m, rfl, hP, hlen⟩, fun m'' hm'' => ?_⟩
    cases hm''
    rw [hsegments, Logged.all_bind, hloop]
    exact ⟨hsegs m rfl, fun segs _ => Logged.all_pure _ _⟩

theorem all_actionParameter (names : IfNames) (sub : RtaTable) (num : UInt32) :
    (actionParameter names sub num).All (Inside P) ↔ ParameterReadable P sub num := by
  have hx2 : seg6LocalActionEndX ≠ seg6LocalActionEndDx2 := by decide
  have hxt : seg6LocalActionEndX ≠ seg6LocalActionEndT := by decide
  have h2t : seg6LocalActionEndDx2 ≠ seg6LocalActionEndT := by decide
  rw [actionParameter, ParameterReadable]
  split
  · rename_i hcond
    obtain ⟨rfl, hnh6⟩ := hcond
    rw [Logged.all_bind, all_readAddr]
    constructor
    · exact fun h => ⟨fun _ _ => h.1.2 rfl, fun heq => absurd heq hx2, fun heq => absurd heq hxt⟩
    · exact fun h => ⟨⟨fun h4 => absurd h4 (by decide), fun _ => h.1 rfl hnh6⟩,
        fun nh6 _ => Logged.all_silent _ _⟩
  · rename_i hnotX
    split
    · rename_i hcond
      obtain ⟨rfl, hoif⟩ := hcond
      rw [Logged.all_bind, all_readIfname]
      constructor
      · exact fun h => ⟨fun heq => absurd heq.symm hx2, fun _ _ => h.1, fun heq => absurd heq h2t⟩
      · exact fun h => ⟨h.2.1 rfl hoif, fun oif _ => Logged.all_silent _ _⟩
    · rename_i hnotDx2
      split
      · rename_i hcond
        obtain ⟨rfl, htable⟩ := hcond
        rw [Logged.all_bind, all_read32]
        constructor
        · exact fun h => ⟨fun heq => absurd heq.symm hxt, fun heq => absurd heq.symm h2t,
            fun _ _ => h.1⟩
        · exact fun h => ⟨h.2.2 rfl htable, fun tableId _ => Logged.all_silent _ _⟩
      · rename_i hnotT
        exact ⟨fun _ => ⟨fun heq hne => absurd ⟨heq, hne⟩ hnotX,
          fun heq hne => absurd ⟨heq, hne⟩ hnotDx2, fun heq hne => absurd ⟨heq, hne⟩ hnotT⟩,
          fun _ => Logged.all_pure _ _⟩

theorem all_addrReads {addr : RtObject} (h : Sees P addr.rtas entry) (d : Daemon) :
    (addrReads d addr).All (Inside P) ↔ (ifaFamily addr.hdr = afInet →
      ifindexKernel2vpp d.interfaces (ifaIndex addr.hdr) ≠ 0 → (entry iflaAddress).Holds 4) := by
  rw [addrReads]
  by_cases hfamily : ifaFamily addr.hdr = afInet
  · rw [if_neg (not_not.mpr hfamily)]
    by_cases hvpp : ifindexKernel2vpp d.interfaces (ifaIndex addr.hdr) = 0
    · rw [if_pos hvpp]
      exact ⟨fun _ _ hne => absurd hvpp hne, fun _ => Logged.all_pure _ _⟩
    · rw [if_neg hvpp, Logged.all_bind, and_iff_left fun m _ => Logged.all_pure _ _,
        all_payloadAt, h.covers_iff]
      exact ⟨fun hholds _ _ => hholds, fun hholds => hholds hfamily hvpp⟩
  · rw [if_pos hfamily]
    exact ⟨fun _ heq => absurd heq hfamily, fun _ => Logged.all_pure _ _⟩

section Command

variable {route : RtObject} (h : Sees P route.rtas entry) (names : IfNames) (stale : RtaTable)
  (isNew : Bool) (dst oif : Text)

include h

theorem all_seg6Command : (seg6Command stale route isNew dst oif).All (Inside P) ↔
    NestedReadable stale entry (SrhReadable P) := by
  apply all_nested_then h
  intro sub
  rw [Logged.all_bind, and_iff_left fun srh _ => Logged.all_silent _ _, all_optional,
    all_srhReads, SrhReadable]

theorem all_seg6LocalCommand :
    (seg6LocalCommand names stale route isNew dst oif).All (Inside P) ↔
      NestedReadable stale entry fun sub => ActionReadable P sub (ParameterReadable P sub) := by
  apply all_nested_then h
  intro sub
  rw [Logged.all_bind, and_iff_left fun action _ => Logged.all_silent _ _]
  apply all_action_then
  intro num
  rw [Logged.all_bind_of_ok _ (strfmt_action num), and_iff_right (Logged.all_silent _ _),
    Logged.all_bind, and_iff_left fun parameter _ => Logged.all_pure _ _, all_actionParameter]

theorem all_encapType (encapType : ℕ) :
    (if encapType = lwtunnelEncapSeg6 then seg6Command stale route isNew dst oif
      else if encapType = lwtunnelEncapSeg6Local then
        seg6LocalCommand names stale route isNew dst oif
      else unknownCommand route isNew dst).All (Inside P) ↔
      EncapCommandReadable P stale entry encapType := by
  have hdiff : lwtunnelEncapSeg6 ≠ lwtunnelEncapSeg6Local := by decide
  rw [EncapCommandReadable]
  split
  · rename_i htype
    subst htype
    rw [all_seg6Command h]
    exact ⟨fun hread => ⟨fun _ => hread, fun heq => absurd heq hdiff⟩, fun hread => hread.1 rfl⟩
  · rename_i hnot6
    split
    · rename_i htype
      subst htype
      rw [all_seg6LocalCommand h]
      exact ⟨fun hread => ⟨fun heq => absurd heq hnot6, fun _ => hread⟩, fun hread => hread.2 rfl⟩
    · rename_i hnotLocal
      exact ⟨fun _ => ⟨fun heq => absurd heq hnot6, fun heq => absurd heq hnotLocal⟩,
        fun _ => Logged.all_silent _ _⟩

theorem all_encapCommand :
    (encapCommand names stale route isNew dst oif).All (Inside P) ↔
      EncapReadable entry (EncapCommandReadable P stale entry) := by
  rw [← all_encap_then h (all_encapType h names stale isNew dst oif), encapCommand]
  split
  · rename_i hnull
    exact ⟨fun _ hne => absurd hnull hne, fun _ => Logged.all_silent _ _⟩
  · rename_i hne
    exact ⟨fun hall _ => hall, fun hall => hall hne⟩

theorem all_routeToIproute2Cli :
    (routeToIproute2Cli names stale route isNew).All (Inside P) ↔
      CommandReadable P stale (rtmFamily route.hdr) entry := by
  rw [routeToIproute2Cli, CommandReadable]
  apply h.all_addr_then rtaSrc
  intro _
  apply h.all_ifname_then rtaIif names
  intro _
  apply h.all_addr_then rtaDst
  intro dst
  apply h.all_ifname_then rtaOif names
  intro oif
  have habsent := h.get_eq_null_iff rtaGateway
  split
  · rename_i hnull
    rw [all_encapCommand h, habsent.mp hnull]
    refine ⟨fun hread => ⟨⟨fun _ => Or.inl rfl, fun _ => Or.inl rfl⟩, fun _ => hread⟩,
      fun hread => hread.2 rfl⟩
  · rename_i hne
    have hpresent : entry rtaGateway ≠ .absent := fun heq => hne (habsent.mpr heq)
    rw [Logged.all_bind, and_iff_left fun gw _ => Logged.all_silent _ _, all_readAddr,
      h.covers_iff, h.covers_iff, Entry.AddrReadable, Entry.Readable, Entry.Readable,
      or_iff_right hpresent, or_iff_right hpresent]
    exact (and_iff_left fun heq => absurd heq hpresent).symm

end Command

end Functions

end Routerd
