import Routerd.RtattrLayout

/-!
# Attributes outside the message

The length that every handler computes is that of an address message. It leaves the walk a
window of eight bytes behind a link message and of four bytes behind a route or neighbour
message. A walk that comes to the end of the message therefore goes on in whatever lies
behind it, and an attribute that overlaps the end is taken. The array depends on the
message alone exactly if a header inside the message ends the walk before that.
-/

namespace Routerd
open ByteMemory

/-- The bytes of a message with a fixed header of `size` bytes behind the `nlmsghdr`. -/
structure WholeMessage (size : ℕ) where
  own : Mem
  length : own.length = nlmsgLen own
  aligned : own.length % 4 = 0
  covers : 16 + size ≤ own.length

def WholeMessage.attrs {size : ℕ} (msg : WholeMessage size) : Mem := msg.own.drop (16 + size)

def entryOffset (buf : Mem) : Ptr → Option ℕ
  | .mem m => some (buf.length - m.length)
  | _ => none

/-- The attributes of the object built from the message at the front of the buffer: for each
type the offset of its attribute, if there is one. -/
def attrOffsets (make : Mem → ℕ → Except Fault RtObject) (buf : Mem) :
    Except Fault (ℕ → Option ℕ) :=
  (ofMessage make buf).map fun o t => entryOffset buf (o.rtas.get t)

/-- The attributes found do not depend on what lies behind the message, and end inside it. -/
structure OwnAttributes (make : Mem → ℕ → Except Fault RtObject) (own : Mem) : Prop where
  same : ∀ behind behind', attrOffsets make (own ++ behind) = attrOffsets make (own ++ behind')
  inside : ∀ behind offsets t h, attrOffsets make (own ++ behind) = .ok offsets →
    offsets t = some h → h + rtaLen ((own ++ behind).drop h) ≤ own.length

/-- The walk over the attribute bytes `a`, in a window that reaches `excess` bytes beyond
them, is ended by a header among them. -/
inductive StopsInside (excess : ℕ) : Mem → Prop where
  | rejected {a : Mem} (hlen : 4 ≤ a.length)
      (hbad : ¬ (4 ≤ rtaLen a ∧ rtaLen a ≤ a.length + excess)) : StopsInside excess a
  | aborted {a : Mem} (hlen : 4 ≤ a.length) (hok : rtaOk a (a.length + excess))
      (htype : maxAttrs ≤ rtaType a) : StopsInside excess a
  | next {a : Mem} (hmin : 4 ≤ rtaLen a) (hfit : rtaLen a ≤ a.length)
      (htype : rtaType a < maxAttrs) (hrest : StopsInside excess (rtaNext a)) :
      StopsInside excess a

theorem rtaLen_append {a : Mem} (h : 4 ≤ a.length) (behind : Mem) :
    rtaLen (a ++ behind) = rtaLen a := le16_append (by omega) behind

theorem rtaType_append {a : Mem} (h : 4 ≤ a.length) (behind : Mem) :
    rtaType (a ++ behind) = rtaType a := le16_append (by omega) behind

theorem rtaOk_append {a : Mem} (h : 4 ≤ a.length) (behind : Mem) (len : ℕ) :
    rtaOk (a ++ behind) len ↔ rtaOk a len := by
  rw [rtaOk, rtaOk, rtaLen_append h]

theorem rtaAlign_le {a : Mem} (halign : a.length % 4 = 0) (hfit : rtaLen a ≤ a.length) :
    rtaAlign (rtaLen a) ≤ a.length := by
  unfold rtaAlign
  omega

theorem length_rtaNext (a : Mem) : (rtaNext a).length = a.length - rtaAlign (rtaLen a) :=
  List.length_drop

theorem rtaNext_append {a : Mem} (h : 4 ≤ a.length) (hpad : rtaAlign (rtaLen a) ≤ a.length)
    (behind : Mem) : rtaNext (a ++ behind) = rtaNext a ++ behind := by
  rw [rtaNext, rtaLen_append h, List.drop_append_of_le_length hpad]
  rfl

theorem length_rtaNext_mod {a : Mem} (halign : a.length % 4 = 0) :
    (rtaNext a).length % 4 = 0 := by
  rw [length_rtaNext]
  unfold rtaAlign
  omega

theorem not_rtaOk_nil (len : ℕ) : ¬ rtaOk [] len := by
  intro hok
  exact absurd hok.2.1 (by decide)

theorem rtaLen_le_rtaAlign (rta : Mem) : rtaLen rta ≤ rtaAlign (rtaLen rta) := by
  unfold rtaAlign
  omega

theorem parseRtattr_own {a : Mem} (hmin : 4 ≤ rtaLen a) (hpad : rtaAlign (rtaLen a) ≤ a.length)
    {max : ℕ} (htype : rtaType a < max) (excess : ℕ) (behind : Mem) (table : RtaTable) :
    parseRtattr (a ++ behind) (a.length + excess) table max =
      parseRtattr (rtaNext a ++ behind) ((rtaNext a).length + excess)
        (Function.update table (rtaType a) (.mem (a ++ behind))) max := by
  have hfit := (rtaLen_le_rtaAlign a).trans hpad
  have hlen : 4 ≤ a.length := hmin.trans hfit
  have hok : rtaOk (a ++ behind) (a.length + excess) :=
    (rtaOk_append hlen _ _).mpr ⟨by omega, hmin, by omega⟩
  rw [parseRtattr_unfold, if_pos hok, rtaType_append hlen, if_pos htype, rtaLen_append hlen,
    rtaNext_append hlen hpad, sizeSub_of_le (by omega), length_rtaNext]
  congr 1
  omega

/-! ### A walk that is ended inside -/

/-- A table of attributes of the message, each with what lies behind the message. -/
def ownTable (found : ℕ → Option Mem) (behind : Mem) : RtaTable := fun t =>
  match found t with
  | none => .null
  | some m => .mem (m ++ behind)

theorem ownTable_update (found : ℕ → Option Mem) (t : ℕ) (m behind : Mem) :
    ownTable (Function.update found t (some m)) behind =
      Function.update (ownTable found behind) t (.mem (m ++ behind)) := by
  funext u
  by_cases hu : u = t
  · subst hu
    simp [ownTable]
  · simp [ownTable, Function.update_of_ne hu]

/-- Every entry is an attribute that ends inside the bytes `d`. -/
def EntriesInside (d : Mem) (found : ℕ → Option Mem) : Prop :=
  ∀ t m, found t = some m → m <:+ d ∧ 4 ≤ m.length ∧ rtaLen m ≤ m.length

theorem EntriesInside.update {d : Mem} {found : ℕ → Option Mem} (h : EntriesInside d found)
    {a : Mem} (ha : a <:+ d) (hmin : 4 ≤ rtaLen a) (hfit : rtaLen a ≤ a.length) (t : ℕ) :
    EntriesInside d (Function.update found t (some a)) := by
  intro u m hm
  by_cases hu : u = t
  · subst hu
    rw [Function.update_self] at hm
    cases hm
    exact ⟨ha, hmin.trans hfit, hfit⟩
  · rw [Function.update_of_ne hu] at hm
    exact h u m hm

/-- What the walk finds is then decided by the message. -/
theorem StopsInside.parseRtattr_eq {excess : ℕ} {d a : Mem} (hstop : StopsInside excess a)
    (halign : a.length % 4 = 0) (hsuffix : a <:+ d) (found : ℕ → Option Mem)
    (hfound : EntriesInside d found) :
    ∃ outcome : Except Fault (ℕ → Option Mem),
      (∀ found', outcome = .ok found' → EntriesInside d found') ∧
      ∀ behind, parseRtattr (a ++ behind) (a.length + excess) (ownTable found behind) maxAttrs =
        outcome.map (ownTable · behind) := by
  induction hstop generalizing found with
  | rejected hlen hbad =>
    refine ⟨.ok found, fun found' h => ?_, fun behind => ?_⟩
    · cases h
      exact hfound
    · rw [parseRtattr_unfold, if_neg]
      · rfl
      · rw [rtaOk_append hlen]
        exact fun hok => hbad hok.2
  | aborted hlen hok htype =>
    refine ⟨.error .assertion, fun found' h => (by cases h), fun behind => ?_⟩
    rw [parseRtattr_unfold, if_pos ((rtaOk_append hlen _ _).mpr hok), rtaType_append hlen,
      if_neg (Nat.not_lt.mpr htype)]
    rfl
  | @next a hmin hfit htype hrest ih =>
    obtain ⟨outcome, hinside, hparse⟩ := ih (length_rtaNext_mod halign)
      ((List.drop_suffix _ _).trans hsuffix) _ (hfound.update hsuffix hmin hfit (rtaType a))
    refine ⟨outcome, hinside, fun behind => ?_⟩
    rw [parseRtattr_own hmin (rtaAlign_le halign hfit) htype, ← ownTable_update]
    exact hparse behind

/-! ### A walk that leaves the message -/

/-- Some bytes behind the message make the walk take an attribute that ends outside. -/
theorem exists_outside {excess : ℕ} (hexcess : 4 ≤ excess) {d a : Mem} (hstop : ¬ StopsInside excess a)
    (halign : a.length % 4 = 0) (hsuffix : a <:+ d) :
    ∃ behind, ∀ table, ∃ table' t m,
      parseRtattr (a ++ behind) (a.length + excess) table maxAttrs = .ok table' ∧
      table' t = .mem (m ++ behind) ∧ m <:+ d ∧ m.length < rtaLen (m ++ behind) := by
  induction hn : a.length using Nat.strongRecOn generalizing a with
  | _ n ih =>
    subst hn
    by_cases hlen : 4 ≤ a.length
    · have hgood : 4 ≤ rtaLen a ∧ rtaLen a ≤ a.length + excess := by
        by_contra hbad
        exact hstop (.rejected hlen hbad)
      have hok : rtaOk a (a.length + excess) := ⟨by omega, hgood⟩
      have htype : rtaType a < maxAttrs := by
        by_contra htype
        exact hstop (.aborted hlen hok (Nat.le_of_not_lt htype))
      by_cases hfit : rtaLen a ≤ a.length
      · have hlt : (rtaNext a).length < a.length := rtaNext_length_lt hok
        obtain ⟨behind, hbehind⟩ := ih _ hlt (fun hrest => hstop (.next hgood.1 hfit htype hrest))
          (length_rtaNext_mod halign) ((List.drop_suffix _ _).trans hsuffix) rfl
        refine ⟨behind, fun table => ?_⟩
        rw [parseRtattr_own hgood.1 (rtaAlign_le halign hfit) htype]
        exact hbehind _
      · -- The attribute overlaps the end; nothing lies behind it.
        refine ⟨[], fun table => ⟨Function.update table (rtaType a) (.mem a), rtaType a, a, ?_⟩⟩
        have hnext : rtaNext a = [] := by
          apply List.drop_eq_nil_of_le
          unfold rtaAlign
          omega
        rw [List.append_nil, parseRtattr_unfold, if_pos hok, if_pos htype, hnext,
          parseRtattr_unfold, if_neg (not_rtaOk_nil _)]
        exact ⟨rfl, Function.update_self .., hsuffix, by omega⟩
    · -- The walk has come to the end of the message and finds an attribute behind it.
      have hnil : a = [] := List.eq_nil_of_length_eq_zero (by omega)
      subst hnil
      refine ⟨[4, 0, 1, 0], fun table =>
        ⟨Function.update table 1 (.mem [4, 0, 1, 0]), 1, [], ?_⟩⟩
      have hok : rtaOk [4, 0, 1, 0] excess := ⟨hexcess, by decide, hexcess⟩
      rw [List.nil_append, List.length_nil, Nat.zero_add, parseRtattr_unfold, if_pos hok]
      rw [show rtaNext [4, 0, 1, 0] = [] by decide, parseRtattr_unfold [],
        if_neg (not_rtaOk_nil _)]
      exact ⟨rfl, Function.update_self .., List.nil_suffix, by decide⟩

/-! ### The objects of the handlers -/

theorem attrOffsets_rtObject (size : ℕ) (buf : Mem) :
    attrOffsets (rtObject size) buf =
      (parseRtattr (buf.drop (16 + size)) (ifaPayload buf) nullTable maxAttrs).map
        fun table t => entryOffset buf (table t) := by
  have hbody : (nlmsgBody buf).drop size = buf.drop (16 + size) := List.drop_drop
  cases hparse : parseRtattr (buf.drop (16 + size)) (ifaPayload buf) nullTable maxAttrs with
  | ok table =>
    obtain ⟨rtas, hrtas, rfl⟩ := rtaArray_eq_ok hparse
    rw [attrOffsets, ofMessage, rtObject, hbody, hrtas]
    rfl
  | error e =>
    rw [attrOffsets, ofMessage, rtObject, hbody, rtaArray_eq_error hparse]
    rfl

namespace WholeMessage

variable {size : ℕ} (msg : WholeMessage size)

theorem length_attrs : msg.attrs.length = msg.own.length - (16 + size) := List.length_drop

theorem length_attrs_mod (hsize : size % 4 = 0) : msg.attrs.length % 4 = 0 := by
  have haligned := msg.aligned
  have hcovers := msg.covers
  rw [msg.length_attrs]
  omega

theorem drop_append (behind : Mem) :
    (msg.own ++ behind).drop (16 + size) = msg.attrs ++ behind :=
  List.drop_append_of_le_length msg.covers

theorem drop_body_append (behind : Mem) :
    (nlmsgBody (msg.own ++ behind)).drop size = msg.attrs ++ behind := by
  rw [nlmsgBody, List.drop_drop, msg.drop_append]

theorem byteAt_body_append {i : ℕ} (hi : i < size) (behind : Mem) :
    byteAt (nlmsgBody (msg.own ++ behind)) i = byteAt (nlmsgBody msg.own) i := by
  have hcovers := msg.covers
  rw [nlmsgBody_append (by omega)]
  apply byteAt_append
  rw [nlmsgBody, List.length_drop]
  omega

theorem le32_body_append {i : ℕ} (hi : i + 3 < size) (behind : Mem) :
    le32 (nlmsgBody (msg.own ++ behind)) i = le32 (nlmsgBody msg.own) i := by
  have hcovers := msg.covers
  rw [nlmsgBody_append (by omega)]
  apply le32_append
  rw [nlmsgBody, List.length_drop]
  omega

/-- The window of the walk reaches `size - 8` bytes beyond the message. -/
theorem ifaPayload_append (hsize : 8 ≤ size) (behind : Mem) :
    ifaPayload (msg.own ++ behind) = msg.attrs.length + (size - 8) := by
  have hcovers := msg.covers
  rw [ifaPayload, nlmsgLen_append (by omega), ← msg.length, sizeSub_of_le (by omega),
    msg.length_attrs]
  omega

theorem attrOffsets_append (hsize : 8 ≤ size) (behind : Mem) :
    attrOffsets (rtObject size) (msg.own ++ behind) =
      (parseRtattr (msg.attrs ++ behind) (msg.attrs.length + (size - 8)) nullTable maxAttrs).map
        fun table t => entryOffset (msg.own ++ behind) (table t) := by
  rw [attrOffsets_rtObject, msg.drop_append, msg.ifaPayload_append hsize]

theorem attrs_suffix : msg.attrs <:+ msg.own := List.drop_suffix _ _

end WholeMessage

theorem entryOffset_append {m d : Mem} (behind : Mem) :
    entryOffset (d ++ behind) (.mem (m ++ behind)) = some (d.length - m.length) := by
  rw [entryOffset, List.length_append, List.length_append, Nat.add_sub_add_right]

theorem drop_of_suffix {m d : Mem} (h : m <:+ d) (behind : Mem) :
    (d ++ behind).drop (d.length - m.length) = m ++ behind := by
  obtain ⟨front, rfl⟩ := h
  rw [List.length_append, Nat.add_sub_cancel, List.append_assoc, List.drop_left]

theorem ownAttributes_rtObject_iff {size : ℕ} (hsize : 12 ≤ size) (hmod : size % 4 = 0)
    (msg : WholeMessage size) :
    OwnAttributes (rtObject size) msg.own ↔ StopsInside (size - 8) msg.attrs := by
  constructor
  · intro hown
    by_contra hstop
    obtain ⟨behind, hbehind⟩ := exists_outside (by omega) hstop (msg.length_attrs_mod hmod)
      msg.attrs_suffix
    obtain ⟨table, t, m, hparse, hentry, hsuffix, hout⟩ := hbehind nullTable
    have hoffset := hown.inside behind (fun t => entryOffset (msg.own ++ behind) (table t)) t
      (msg.own.length - m.length)
    rw [msg.attrOffsets_append (by omega), hparse, hentry, entryOffset_append,
      drop_of_suffix hsuffix] at hoffset
    have hle := hoffset rfl rfl
    have hm := hsuffix.length_le
    omega
  · intro hstop
    have hempty : EntriesInside msg.own fun _ => none := fun t m h => (by cases h)
    obtain ⟨outcome, hinside, hparse⟩ := hstop.parseRtattr_eq (msg.length_attrs_mod hmod)
      msg.attrs_suffix _ hempty
    have hoffsets : ∀ behind, attrOffsets (rtObject size) (msg.own ++ behind) =
        outcome.map fun found t => (found t).map fun m => msg.own.length - m.length := by
      intro behind
      rw [msg.attrOffsets_append (by omega)]
      have hrun := hparse behind
      rw [show ownTable (fun _ => none) behind = nullTable from rfl] at hrun
      rw [hrun]
      cases outcome with
      | error e => rfl
      | ok found =>
        apply congrArg Except.ok
        funext t
        cases hfound : found t with
        | none => simp [ownTable, hfound, entryOffset]
        | some m => simpa [ownTable, hfound] using entryOffset_append behind
    refine ⟨fun behind behind' => by rw [hoffsets, hoffsets], ?_⟩
    intro behind offsets t h hok hh
    rw [hoffsets] at hok
    cases outcome with
    | error e => cases hok
    | ok found =>
      cases hok
      obtain ⟨m, hm, rfl⟩ := Option.map_eq_some_iff.mp hh
      obtain ⟨hsuffix, hlen, hfit⟩ := hinside found rfl t m hm
      have hle := hsuffix.length_le
      rw [drop_of_suffix hsuffix, rtaLen_append hlen]
      omega

/-- The attributes of a link, route or neighbour message are those of the message itself,
whatever lies behind it, exactly if a header inside the message ends the walk: one with a
length below four or beyond the window, or one whose type ends the process. -/
theorem ownAttributes_iff (linkMsg : WholeMessage 16) (routeMsg neighMsg : WholeMessage 12) :
    (OwnAttributes link linkMsg.own ↔ StopsInside 8 linkMsg.attrs) ∧
      (OwnAttributes route routeMsg.own ↔ StopsInside 4 routeMsg.attrs) ∧
      (OwnAttributes neigh neighMsg.own ↔ StopsInside 4 neighMsg.attrs) := by
  refine ⟨?_, ?_, ?_⟩
  · exact ownAttributes_rtObject_iff (by decide) rfl linkMsg
  · exact ownAttributes_rtObject_iff le_rfl rfl routeMsg
  · exact ownAttributes_rtObject_iff le_rfl rfl neighMsg

def routeThroughGateway : WholeMessage 12 where
  own := nlmsgBytes 24 (rtmsgBytes afInet 24 rtTableMain rtnUnicast ++
    rtattrBytes rtaDst [10, 0, 0, 0] ++ rtattrBytes rtaGateway [192, 168, 0, 1])
  length := by decide +kernel
  aligned := by decide +kernel
  covers := by decide +kernel

def bareLink : WholeMessage 16 where
  own := nlmsgBytes 16 (ifinfomsgBytes 5 1 0)
  length := by decide +kernel
  aligned := by decide +kernel
  covers := by decide +kernel

def bareNeigh : WholeMessage 12 where
  own := nlmsgBytes 28 (List.replicate 12 0)
  length := by decide +kernel
  aligned := by decide +kernel
  covers := by decide +kernel

/-- Four bytes behind the route replace its gateway, and the bytes after them are the new
one; link and neighbour messages take attributes from behind them in the same way. -/
theorem foreignAttributes :
    (attrOffsets route routeThroughGateway.own).toOption.map (· rtaGateway) = some (some 36) ∧
      (attrOffsets route (routeThroughGateway.own ++ [4, 0, 5, 0, 10, 9, 9, 9])).toOption.map
        (· rtaGateway) = some (some 44) ∧
      ¬ OwnAttributes route routeThroughGateway.own ∧
      ¬ OwnAttributes link bareLink.own ∧ ¬ OwnAttributes neigh bareNeigh.own := by
  have hroute : (attrOffsets route (routeThroughGateway.own ++ [4, 0, 5, 0, 10, 9, 9, 9])).toOption.map
      (· rtaGateway) = some (some 44) := by decide +kernel
  have hlink : (attrOffsets link (bareLink.own ++ [8, 0, 4, 0, 9, 9, 9, 9])).toOption.map (· 4) =
      some (some 32) := by decide +kernel
  have hneigh : (attrOffsets neigh (bareNeigh.own ++ [4, 0, 1, 0])).toOption.map (· 1) =
      some (some 28) := by decide +kernel
  refine ⟨by decide +kernel, hroute, fun h => ?_, fun h => ?_, fun h => ?_⟩
  · obtain ⟨offsets, hok, hat⟩ := ok_of_toOption_map hroute
    exact absurd (h.inside _ _ _ _ hok hat) (by decide +kernel)
  · obtain ⟨offsets, hok, hat⟩ := ok_of_toOption_map hlink
    exact absurd (h.inside _ _ _ _ hok hat) (by decide +kernel)
  · obtain ⟨offsets, hok, hat⟩ := ok_of_toOption_map hneigh
    exact absurd (h.inside _ _ _ _ hok hat) (by decide +kernel)

end Routerd
