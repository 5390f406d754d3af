import Routerd.ReadSafety
import Routerd.SegmentLists
import Routerd.StaleTables

/-!
# The lengths of printed route commands

Every text of `to_iproute2_cli` is formatted into the thousand characters of `strfmt`. What
goes into it is short, an address, a name or a number, except for one text: the list of
segments, which is put together item by item and then formatted once more as a whole.
-/

namespace Routerd
open ByteMemory NumeralText InetText AccessLog

structure KernelNames extends IfNames where
  short : ShortNames toIfNames

/-- No call of `strfmt` has written behind its array. -/
def Fits {α : Type} (x : Reads α) : Prop := x.outcome ≠ .error .overflow

/-- The texts with which a route is printed that has a `seg6` encapsulation. -/
structure Seg6Texts (names : IfNames) (stale : RtaTable) (route : RtObject) (dst oif : Text)
    (srh : Text × Text) : Prop where
  gateway : route.rtas.get rtaGateway = .null
  iif : ¬ Refuses route.rtas rtaIif
  dst_eq : addrText route.rtas rtaDst (rtmFamily route.hdr) = .ok dst
  oif_eq : (optional (route.rtas.get rtaOif) [] (readIfname names)).outcome = .ok oif
  type : rtaRead16 (route.rtas.get rtaEncapType) = .ok lwtunnelEncapSeg6
  srh_eq : ∃ sub, (readNested stale (route.rtas.get rtaEncap)).outcome = .ok sub ∧
    (optional (sub seg6IptunnelSrh) ([], []) srhReads).outcome = .ok srh

/-! ### Lengths by the attributes -/

/-- The length of what is printed of the bytes at a pointer, nothing where there are none. -/
def printedLength (text : Mem → Text) : Ptr → ℕ
  | .mem rta => (text rta).length
  | _ => 0

/-- An address attribute as it is printed; behind a short payload come the bytes that follow. -/
def printedAddr (family : UInt8) (rta : Mem) : Text :=
  if family = afInet then inetNtop4 (bytes 4 (rta.drop 4))
  else if family = afInet6 then inetNtop6 (bytes 16 (rta.drop 4))
  else []

/-- The addresses behind the routing header of an attribute, as many as it announces. -/
def announced (rta : Mem) : List In6Addr :=
  (List.range (srhSegments rta)).map fun i => bytes 16 (rta.drop (16 + 16 * i))

/-- The characters of these addresses, with a comma between any two. -/
def segmentsLength (rta : Mem) : ℕ :=
  ((announced rta).map fun a => (inetNtop6 a).length).sum + (srhSegments rta - 1)

def srhLength : Ptr → ℕ
  | .mem rta => (iptunMode (le32 rta 4)).length + segmentsLength rta
  | _ => 0

/-- The encapsulation of a message holds these attributes; one without payload that is found behind
the message holds none. -/
def Entry.Nests : Entry → List Mem → Prop
  | absent, _ => False
  | own a rest, found => Nested a rest found
  | foreign _, found => found = []

/-- A route that is printed with a `seg6` encapsulation, with its routing header at `srh`. -/
structure PrintsSeg6 (stale : RtaTable) (entry : ℕ → Entry) (srh : Ptr) : Prop where
  gateway : entry rtaGateway = .absent
  iif : ¬ (entry rtaIif).Refused 4
  oif : ¬ (entry rtaOif).Refused 4
  type : ∃ m, (entry rtaEncapType).ptr = .mem m ∧ rtaLen m ≤ 6 ∧ le16 m 4 = lwtunnelEncapSeg6
  encap : ∃ found, (entry rtaEncap).Nests found ∧ (∀ m ∈ found, rtaType m < maxAttrs) ∧
    srh = shown stale found seg6IptunnelSrh
  known : srh ≠ .wild

/-- The characters of the command: the words, the prefix, the mode and the segments, and the
interface. -/
def seg6CommandLength (names : IfNames) (family dstLen : UInt8) (entry : ℕ → Entry)
    (srh : Ptr) : ℕ :=
  45 + printedLength (printedAddr family) (entry rtaDst).ptr + (decimal dstLen.toNat).length +
    srhLength srh + printedLength (fun rta => ifindex2str names (le32 rta 4)) (entry rtaOif).ptr

/-! ### What fits -/

theorem fits_bind {α β : Type} {x : Reads α} {f : α → Reads β} :
    Fits (x >>= f) ↔ Fits x ∧ ∀ a, x.outcome = .ok a → Fits (f a) := by
  unfold Fits
  rw [Logged.outcome_bind]
  cases x.outcome with
  | error e => simp [error_bind]
  | ok a => simp [ok_bind]

theorem fits_pure {α : Type} (a : α) : Fits (pure a : Reads α) := by
  intro h
  cases h

theorem fits_strfmt_iff {text : Text} : Fits (.silent (strfmt text)) ↔ text.length < 1000 := by
  unfold Fits
  rw [Logged.outcome_silent, strfmt]
  split
  · simp [*]
  · simp [*]

theorem fits_payloadAt (rta : Ptr) (upto : ℕ) : Fits (payloadAt rta upto) := by
  unfold Fits
  rw [outcome_payloadAt]
  cases rta <;> exact fun h => by cases h

theorem fits_payloadOf (rta : Ptr) : Fits (payloadOf rta) := by
  unfold Fits
  rw [outcome_payloadOf]
  cases rta <;> exact fun h => by cases h

theorem fits_sizedRead {α : Type} (rta : Ptr) (size : ℕ) (value : Mem → α) :
    Fits (do
      let payload ← payloadOf rta
      if size < payload then .silent (.error .readMiss)
      else
        let m ← payloadAt rta size
        pure (value m)) := by
  refine fits_bind.mpr ⟨fits_payloadOf rta, fun payload _ => ?_⟩
  split
  · exact fun h => by cases h
  · exact fits_bind.mpr ⟨fits_payloadAt rta size, fun m _ => fits_pure _⟩

theorem fits_read16 (rta : Ptr) : Fits (read16 rta) := fits_sizedRead rta 2 fun m => le16 m 0

theorem fits_read32 (rta : Ptr) : Fits (read32 rta) := fits_sizedRead rta 4 fun m => le32 m 0

theorem fits_readAddr (rta : Ptr) (family : UInt8) : Fits (readAddr rta family) := by
  unfold readAddr
  split
  · exact fits_bind.mpr ⟨fits_payloadAt rta 4, fun m _ => fits_pure _⟩
  · split
    · exact fits_bind.mpr ⟨fits_payloadAt rta 16, fun m _ => fits_pure _⟩
    · exact fits_pure _

theorem fits_readIfname (names : IfNames) (rta : Ptr) : Fits (readIfname names rta) :=
  fits_bind.mpr ⟨fits_read32 rta, fun _ _ => fits_pure _⟩

theorem fits_optional {α : Type} {rta : Ptr} {absent : α} {read : Ptr → Reads α}
    (h : Fits (read rta)) : Fits (optional rta absent read) := by
  by_cases hnull : rta = .null
  · rw [hnull]
    exact fits_pure absent
  · rw [optional_of_ne_null hnull]
    exact h

theorem parseRtattr_ne_overflow (buf : Mem) (len : ℕ) (attrs : RtaTable) (max : ℕ) :
    parseRtattr buf len attrs max ≠ .error .overflow := by
  unfold parseRtattr
  generalize buf.length = fuel
  induction fuel generalizing buf len attrs with
  | zero => exact fun h => by cases h
  | succ fuel ih =>
    rw [parseRtattrLoop]
    split
    · split
      · exact ih _ _ _
      · exact fun h => by cases h
    · exact fun h => by cases h

theorem fits_readNested (stale : RtaTable) (rta : Ptr) : Fits (readNested stale rta) := by
  rw [readNested, fits_bind]
  refine ⟨fits_payloadOf rta, fun l _ => fits_bind.mpr ⟨?_, fun d _ => ?_⟩⟩
  · cases rta <;> exact fun h => by cases h
  · exact parseRtattr_ne_overflow d l stale maxAttrs

theorem fits_segsLoop (rta : Ptr) (n left : ℕ) (segs : Text) : Fits (segsLoop rta n left segs) := by
  induction left generalizing segs with
  | zero => exact fits_pure segs
  | succ left ih =>
    rw [segsLoop, fits_bind]
    refine ⟨fits_payloadAt rta _, fun m _ => fits_bind.mpr ⟨?_, fun item _ => ih _⟩⟩
    unfold Fits
    rw [Logged.outcome_silent, strfmt_segment]
    exact fun h => by cases h

theorem fits_srhReads (rta : Ptr) : Fits (srhReads rta) := by
  rw [srhReads, fits_bind]
  refine ⟨fits_payloadAt rta 4, fun m _ => fits_bind.mpr ⟨fits_payloadAt rta 6, fun m' _ => ?_⟩⟩
  exact fits_bind.mpr ⟨fits_segsLoop rta _ _ [], fun segs _ => fits_pure _⟩

/-! ### The texts that are short -/

theorem length_readAddr {rta : Ptr} {family : UInt8} {text : Text}
    (h : (readAddr rta family).outcome = .ok text) : text.length ≤ 57 := by
  unfold readAddr at h
  split at h
  · rw [Logged.outcome_bind] at h
    obtain ⟨m, -, h⟩ := bind_eq_ok h
    cases h
    exact (inetNtop4_length_le _).trans (by decide)
  · split at h
    · rw [Logged.outcome_bind] at h
      obtain ⟨m, -, h⟩ := bind_eq_ok h
      cases h
      exact inetNtop6_length_le _
    · cases h
      exact Nat.zero_le _

theorem KernelNames.length_readIfname (names : KernelNames) {rta : Ptr} {text : Text}
    (h : (readIfname names.toIfNames rta).outcome = .ok text) : text.length ≤ 15 := by
  rw [readIfname, Logged.outcome_bind] at h
  obtain ⟨index, -, h⟩ := bind_eq_ok h
  cases h
  exact Nat.le_of_lt_succ (length_ifindex2str_lt names.short index)

theorem length_optional {rta : Ptr} {read : Ptr → Reads Text} {text : Text} {n : ℕ}
    (hread : (read rta).outcome = .ok text → text.length ≤ n)
    (h : (optional rta [] read).outcome = .ok text) : text.length ≤ n := by
  by_cases hnull : rta = .null
  · rw [hnull] at h
    cases h
    exact Nat.zero_le n
  · rw [optional_of_ne_null hnull] at h
    exact hread h

theorem length_signedDecimal_le (x : UInt32) : (signedDecimal x).length ≤ 11 := by
  unfold signedDecimal
  split
  · exact (length_decimal_le x).trans (by decide)
  · have hlt : 2 ^ 32 - x.toNat < 10 ^ 10 := lt_of_le_of_lt (Nat.sub_le _ _) (by decide)
    have hlen : (decimal (2 ^ 32 - x.toNat)).length ≤ 10 :=
      Nat.toDigits_length 10 _ 10 (by decide) hlt
    rw [List.length_cons]
    omega

section Commands

variable {route : RtObject} {isNew : Bool} {dst oif : Text}

theorem length_command (front middle back : Text) :
    (routeHead route isNew dst ++ front ++ middle ++ back ++ oif).length =
      (routeHead route isNew dst).length + front.length + middle.length + back.length +
        oif.length := by
  simp only [List.length_append]

theorem fits_gatewayCommand (hdst : dst.length ≤ 57) {gw : Text} (hgw : gw.length ≤ 57)
    (hoif : oif.length ≤ 15) :
    Fits (.silent (strfmt (routeHead route isNew dst ++ " via ".toList ++ gw ++ " dev ".toList ++
      oif))) := by
  have hhead := length_routeHead_le route isNew dst
  have hvia : " via ".toList.length = 5 := rfl
  have hdev : " dev ".toList.length = 5 := rfl
  rw [fits_strfmt_iff, length_command]
  omega

theorem fits_unknownCommand (hdst : dst.length ≤ 57) : Fits (unknownCommand route isNew dst) := by
  have hhead := length_routeHead_le route isNew dst
  have htype : " unknown-type".toList.length = 13 := rfl
  rw [unknownCommand, fits_strfmt_iff, List.length_append]
  omega

theorem formatted_short {α : Type} {x : Reads α} {front : Text} {render : α → Text} {n : ℕ}
    (hfits : Fits x) (hlen : ∀ v, x.outcome = .ok v → (render v).length ≤ n)
    (hn : front.length + n ≤ 62) :
    Fits (do let v ← x; .silent (strfmt (front ++ render v))) ∧
      ∀ text, (do let v ← x; .silent (strfmt (front ++ render v))).outcome = .ok text →
        text.length ≤ 62 := by
  constructor
  · refine fits_bind.mpr ⟨hfits, fun v hv => ?_⟩
    have hle := hlen v hv
    rw [fits_strfmt_iff, List.length_append]
    omega
  · intro text htext
    rw [Logged.outcome_bind] at htext
    obtain ⟨v, hv, htext⟩ := bind_eq_ok htext
    have hle := hlen v hv
    obtain ⟨-, rfl⟩ := strfmt_eq_ok htext
    rw [List.length_append]
    omega

theorem actionParameter_short (names : KernelNames) (sub : RtaTable) (num : UInt32) :
    Fits (actionParameter names.toIfNames sub num) ∧
      ∀ text, (actionParameter names.toIfNames sub num).outcome = .ok text → text.length ≤ 62 := by
  unfold actionParameter
  split
  · exact formatted_short (fits_readAddr _ _) (fun text => length_readAddr) (by decide)
  · split
    · exact formatted_short (fits_readIfname _ _) (fun text => names.length_readIfname) (by decide)
    · split
      · exact formatted_short (fits_read32 _) (fun v _ => length_signedDecimal_le v) (by decide)
      · refine ⟨fits_pure [], fun text htext => ?_⟩
        cases htext
        exact Nat.zero_le _

theorem fits_seg6LocalCommand (names : KernelNames) (stale : RtaTable) (hdst : dst.length ≤ 57)
    (hoif : oif.length ≤ 15) :
    Fits (seg6LocalCommand names.toIfNames stale route isNew dst oif) := by
  have hhead := length_routeHead_le route isNew dst
  have hfront : " encap seg6local action ".toList.length = 24 := rfl
  have hdev : " dev ".toList.length = 5 := rfl
  rw [seg6LocalCommand, fits_bind]
  refine ⟨fits_readNested stale _, fun sub _ => fits_bind.mpr ⟨fits_optional ?_, ?_⟩⟩
  · refine fits_bind.mpr ⟨fits_read32 _, fun num _ => fits_bind.mpr ⟨?_, fun action _ => ?_⟩⟩
    · rw [fits_strfmt_iff]
      exact lt_of_le_of_lt (Seg6LocalRoute.length_action_le num) (by decide)
    · exact fits_bind.mpr ⟨(actionParameter_short names sub num).1, fun _ _ => fits_pure _⟩
  · intro action haction
    have hlen : action.length ≤ 87 := by
      refine length_optional (fun hread => ?_) haction
      rw [Logged.outcome_bind] at hread
      obtain ⟨num, -, hread⟩ := bind_eq_ok hread
      rw [Logged.outcome_bind, Logged.outcome_silent, strfmt_action, ok_bind,
        Logged.outcome_bind] at hread
      obtain ⟨parameter, hparameter, hread⟩ := bind_eq_ok hread
      cases hread
      have hname := Seg6LocalRoute.length_action_le num
      have hle := (actionParameter_short names sub num).2 parameter hparameter
      rw [List.length_append]
      omega
    rw [fits_strfmt_iff, length_command]
    omega

theorem fits_seg6Command_iff (stale : RtaTable) :
    Fits (seg6Command stale route isNew dst oif) ↔
      ∀ sub, (readNested stale (route.rtas.get rtaEncap)).outcome = .ok sub →
        ∀ srh, (optional (sub seg6IptunnelSrh) ([], []) srhReads).outcome = .ok srh →
          (routeHead route isNew dst).length + srh.1.length + srh.2.length + oif.length + 28 <
            1000 := by
  have hmode : " encap seg6 mode ".toList.length = 17 := rfl
  have hsegs : " segs ".toList.length = 6 := rfl
  have hdev : " dev ".toList.length = 5 := rfl
  have hlength : ∀ srh : Text × Text, (routeHead route isNew dst ++ " encap seg6 mode ".toList ++
      srh.1 ++ " segs ".toList ++ srh.2 ++ " dev ".toList ++ oif).length =
      (routeHead route isNew dst).length + srh.1.length + srh.2.length + oif.length + 28 := by
    intro srh
    simp only [List.length_append, hmode, hsegs, hdev]
    omega
  rw [seg6Command, fits_bind]
  constructor
  · rintro ⟨-, hfits⟩ sub hsub srh hsrh
    have hlast := (fits_bind.mp (hfits sub hsub)).2 srh hsrh
    rwa [fits_strfmt_iff, hlength] at hlast
  · intro hfits
    refine ⟨fits_readNested stale _, fun sub hsub => fits_bind.mpr ⟨?_, fun srh hsrh => ?_⟩⟩
    · exact fits_optional (fits_srhReads _)
    · rw [fits_strfmt_iff, hlength]
      exact hfits sub hsub srh hsrh

/-- Of the commands of an encapsulation only that of `seg6` can be too long. -/
theorem fits_encapCommand_iff (names : KernelNames) (stale : RtaTable) (hdst : dst.length ≤ 57)
    (hoif : oif.length ≤ 15) :
    Fits (encapCommand names.toIfNames stale route isNew dst oif) ↔
      (rtaRead16 (route.rtas.get rtaEncapType) = .ok lwtunnelEncapSeg6 →
        Fits (seg6Command stale route isNew dst oif)) := by
  unfold encapCommand
  rcases route.rtas.get_cases rtaEncapType with hnull | ⟨m, hm⟩
  · rw [hnull]
    exact ⟨fun _ htype => absurd htype (by decide), fun _ => fits_unknownCommand hdst⟩
  · rw [hm]
    change Fits (read16 (.mem m) >>= _) ↔ _
    rw [fits_bind, outcome_read16]
    constructor
    · rintro ⟨-, hfits⟩ htype
      exact hfits _ htype
    · intro hseg6
      refine ⟨fits_read16 _, fun encapType htype => ?_⟩
      split
      · rename_i heq
        exact hseg6 (heq ▸ htype)
      · split
        · exact fits_seg6LocalCommand names stale hdst hoif
        · exact fits_unknownCommand hdst

theorem fits_afterReads_iff (names : IfNames) {command : Text → Text → Reads Text} :
    Fits (do
        let _src ← optional (route.rtas.get rtaSrc) [] fun rta => readAddr rta (rtmFamily route.hdr)
        let _iif ← optional (route.rtas.get rtaIif) [] (readIfname names)
        let dst ← optional (route.rtas.get rtaDst) [] fun rta => readAddr rta (rtmFamily route.hdr)
        let oif ← optional (route.rtas.get rtaOif) [] (readIfname names)
        command dst oif) ↔
      ∀ dst oif, ¬ Refuses route.rtas rtaIif →
        addrText route.rtas rtaDst (rtmFamily route.hdr) = .ok dst →
        (optional (route.rtas.get rtaOif) [] (readIfname names)).outcome = .ok oif →
        Fits (command dst oif) := by
  have haddr : ∀ t, Fits (optional (route.rtas.get t) [] fun rta =>
      readAddr rta (rtmFamily route.hdr)) := fun t => fits_optional (fits_readAddr _ _)
  have hname : ∀ t, Fits (optional (route.rtas.get t) [] (readIfname names)) := fun t =>
    fits_optional (fits_readIfname names _)
  constructor
  · intro hfits dst oif hiif hdst hoif
    obtain ⟨src, hsrc, -⟩ := addrText_short route.rtas rtaSrc (rtmFamily route.hdr)
    rw [← outcome_optional_readAddr] at hsrc hdst
    obtain ⟨iif, hiif'⟩ := exists_read_of_not_refuses names hiif
    have h := (fits_bind.mp ((fits_bind.mp hfits).2 src hsrc)).2 iif hiif'
    exact (fits_bind.mp ((fits_bind.mp h).2 dst hdst)).2 oif hoif
  · intro hfits
    refine fits_bind.mpr ⟨haddr rtaSrc, fun src _ => fits_bind.mpr ⟨hname rtaIif, ?_⟩⟩
    intro iif hiif
    refine fits_bind.mpr ⟨haddr rtaDst, fun dst hdst => fits_bind.mpr ⟨hname rtaOif, ?_⟩⟩
    rw [outcome_optional_readAddr] at hdst
    exact fun oif hoif => hfits dst oif (not_refuses_of_read hiif) hdst hoif

end Commands

section Route

variable (names : KernelNames) {stale : RtaTable} {route : RtObject} {isNew : Bool}

theorem length_dst_oif {dst oif : Text}
    (hdst : addrText route.rtas rtaDst (rtmFamily route.hdr) = .ok dst)
    (hoif : (optional (route.rtas.get rtaOif) [] (readIfname names.toIfNames)).outcome = .ok oif) :
    dst.length ≤ 57 ∧ oif.length ≤ 15 := by
  rw [← outcome_optional_readAddr] at hdst
  exact ⟨length_optional length_readAddr hdst, length_optional names.length_readIfname hoif⟩

theorem short_of_fits (hfits : Fits (routeToIproute2Cli names.toIfNames stale route isNew))
    {dst oif : Text} {srh : Text × Text} (h : Seg6Texts names.toIfNames stale route dst oif srh) :
    (routeHead route isNew dst).length + srh.1.length + srh.2.length + oif.length + 28 < 1000 := by
  unfold routeToIproute2Cli at hfits
  rw [fits_afterReads_iff, h.gateway] at hfits
  obtain ⟨sub, hsub, hsrh⟩ := h.srh_eq
  obtain ⟨hdst, hoif⟩ := length_dst_oif names h.dst_eq h.oif_eq
  have hencap := (fits_encapCommand_iff names stale hdst hoif).mp
    (hfits dst oif h.iif h.dst_eq h.oif_eq) h.type
  exact (fits_seg6Command_iff stale).mp hencap sub hsub srh hsrh

theorem fits_of_short (hshort : ∀ dst oif srh, Seg6Texts names.toIfNames stale route dst oif srh →
      (routeHead route isNew dst).length + srh.1.length + srh.2.length + oif.length + 28 < 1000) :
    Fits (routeToIproute2Cli names.toIfNames stale route isNew) := by
  unfold routeToIproute2Cli
  rw [fits_afterReads_iff]
  intro dst oif hiif hdst hoif
  obtain ⟨hdst', hoif'⟩ := length_dst_oif names hdst hoif
  rcases route.rtas.get_cases rtaGateway with hnull | ⟨m, hm⟩
  · rw [hnull]
    refine (fits_encapCommand_iff names stale hdst' hoif').mpr fun htype => ?_
    refine (fits_seg6Command_iff stale).mpr fun sub hsub srh hsrh => ?_
    exact hshort dst oif srh ⟨hnull, hiif, hdst, hoif, htype, sub, hsub, hsrh⟩
  · rw [hm]
    refine fits_bind.mpr ⟨fits_readAddr _ _, fun gw hgw => ?_⟩
    exact fits_gatewayCommand hdst' (length_readAddr hgw) hoif'

end Route

/-! ### The texts of a message -/

theorem length_segsText (segs : List In6Addr) :
    (segsText segs).length =
      (segs.map fun a => (inetNtop6 a).length).sum + (segs.length - 1) := by
  induction segs with
  | nil => rfl
  | cons a segs ih =>
    have hcomma : (if 0 < segs.length then [','] else []).length = min segs.length 1 := by
      split
      · rw [List.length_singleton]
        omega
      · rw [List.length_nil]
        omega
    rw [segsText_cons, List.length_append, List.length_append, ih, hcomma, List.map_cons,
      List.sum_cons, List.length_cons]
    omega

theorem outcome_srhReads_mem (rta : Mem) :
    (srhReads (.mem rta)).outcome = .ok (iptunMode (le32 rta 4), segsText (announced rta)) := by
  have hm : deref (rtaReadptr (.mem rta)) = .ok (rta.drop 4) := rfl
  have hmode : le32 (rta.drop 4) 0 = le32 rta 4 := by
    simp [le32, le16, byteAt, List.getD_eq_getElem?_getD]
  have hcount : (byteAt (rta.drop 4) 5).toNat / 2 = srhSegments rta := by
    simp [srhSegments, byteAt, List.getD_eq_getElem?_getD]
  have hsegment : ∀ i, (rta.drop 4).drop (12 + 16 * i) = rta.drop (16 + 16 * i) := by
    intro i
    rw [List.drop_drop]
    congr 1
    omega
  rw [srhReads, Logged.outcome_bind, outcome_payloadAt, hm, ok_bind, Logged.outcome_bind,
    outcome_payloadAt, hm, ok_bind, Logged.outcome_bind, outcome_segsLoop hm (Nat.le_refl _), ok_bind,
    hmode, hcount, Nat.sub_self, ← List.range_eq_range', List.nil_append]
  simp only [hsegment]
  rfl

section Message

variable {P : Mem → Prop} {route : RtObject} {entry : ℕ → Entry}

theorem Sees.length_addrText (h : Sees P route.rtas entry) {t : ℕ} {family : UInt8} {text : Text}
    (htext : addrText route.rtas t family = .ok text) :
    text.length = printedLength (printedAddr family) (entry t).ptr := by
  rw [← h.get]
  rcases route.rtas.get_cases t with hnull | ⟨m, hm⟩
  · rw [addrText_null hnull] at htext
    cases htext
    rw [hnull]
    rfl
  · rw [hm, printedLength, printedAddr]
    by_cases h4 : family = afInet
    · rw [h4, addrText_inet hm] at htext
      cases htext
      rw [if_pos h4]
    · by_cases h6 : family = afInet6
      · rw [h6, addrText_inet6 hm] at htext
        cases htext
        rw [if_neg h4, if_pos h6]
      · rw [addrText_other h4 h6] at htext
        cases htext
        rw [if_neg h4, if_neg h6]

theorem four_le_of_ptr {e : Entry} {m : Mem}
    (hforeign : ∀ {behind}, e = .foreign behind → rtaLen behind = 4) (hptr : e.ptr = .mem m) :
    4 ≤ rtaLen m := by
  cases e with
  | absent => cases hptr
  | own a rest =>
    cases hptr
    rw [a.rtaLen_bytes]
    exact Nat.le_add_left 4 _
  | foreign behind =>
    cases hptr
    exact (hforeign rfl).ge

theorem Sees.length_ifname (h : Sees P route.rtas entry) {t : ℕ} (names : IfNames)
    (hforeign : ∀ {behind}, entry t = .foreign behind → rtaLen behind = 4) {text : Text}
    (htext : (optional (route.rtas.get t) [] (readIfname names)).outcome = .ok text) :
    text.length = printedLength (fun rta => ifindex2str names (le32 rta 4)) (entry t).ptr := by
  rw [h.get] at htext
  rcases route.rtas.get_cases t with hnull | ⟨m, hm⟩
  · rw [h.get] at hnull
    rw [hnull] at htext ⊢
    cases htext
    rfl
  · rw [h.get] at hm
    have hlen := four_le_of_ptr hforeign hm
    rw [hm, optional_of_ne_null (by simp), readIfname, Logged.outcome_bind, outcome_read32] at htext
    obtain ⟨index, hread, htext⟩ := bind_eq_ok htext
    obtain ⟨-, rfl⟩ := (rtaRead32_mem_eq_ok_iff hlen).mp hread
    cases htext
    rw [hm, printedLength]

theorem Sees.encapType_iff (h : Sees P route.rtas entry)
    (hforeign : ∀ {behind}, entry rtaEncapType = .foreign behind → rtaLen behind = 4) (n : ℕ) :
    rtaRead16 (route.rtas.get rtaEncapType) = .ok n ↔
      ∃ m, (entry rtaEncapType).ptr = .mem m ∧ rtaLen m ≤ 6 ∧ le16 m 4 = n := by
  rcases route.rtas.get_cases rtaEncapType with hnull | ⟨m, hm⟩
  · rw [← h.get, hnull]
    refine iff_of_false (fun hread => by cases hread) ?_
    rintro ⟨m, hm, -⟩
    cases hm
  · have hlen := four_le_of_ptr hforeign (by rw [← h.get, hm])
    rw [← h.get, hm, rtaRead16_mem_eq_ok_iff hlen]
    constructor
    · exact fun hread => ⟨m, rfl, hread.1, hread.2.symm⟩
    · rintro ⟨m', hm', hle, rfl⟩
      cases hm'
      exact ⟨hle, rfl⟩

theorem Sees.readNested_iff (h : Sees P route.rtas entry)
    (hforeign : ∀ {behind}, entry rtaEncap = .foreign behind → rtaLen behind = 4)
    (stale sub : RtaTable) :
    (readNested stale (route.rtas.get rtaEncap)).outcome = .ok sub ↔
      ∃ found, (entry rtaEncap).Nests found ∧ (∀ m ∈ found, rtaType m < maxAttrs) ∧
        sub = shown stale found := by
  cases hentry : entry rtaEncap with
  | absent =>
    rw [(h.get_eq_null_iff _).mpr hentry]
    refine iff_of_false (fun hread => by cases hread) ?_
    rintro ⟨found, hnests, -⟩
    exact hnests
  | foreign behind =>
    -- the walk over no bytes leaves the table as it was
    have hread : (readNested stale (.mem behind)).outcome = .ok stale := by
      simp only [readNested, Logged.outcome_bind, outcome_payloadOf, Logged.outcome_silent,
        rtaPayload_mem (hforeign hentry).ge, hforeign hentry, rtaReadptr_mem, deref_mem]
      exact parseRtattr_zero _ _ _
    rw [h.get, hentry, Entry.ptr, hread]
    constructor
    · rintro ⟨⟩
      exact ⟨[], rfl, List.forall_mem_nil _, rfl⟩
    · rintro ⟨found, rfl, -, rfl⟩
      rfl
  | own a rest =>
    constructor
    · intro hread
      obtain ⟨found, hfound⟩ := exists_nested a rest
      rw [h.outcome_readNested stale hentry hfound] at hread
      split at hread
      · rename_i htypes
        cases hread
        exact ⟨found, hfound, htypes, rfl⟩
      · cases hread
    · rintro ⟨found, hfound, htypes, rfl⟩
      rw [h.outcome_readNested stale hentry hfound, if_pos htypes]

theorem exists_srhTexts {srh : Ptr} (h : srh ≠ .wild) :
    ∃ texts, (optional srh ([], []) srhReads).outcome = .ok texts := by
  cases srh with
  | null => exact ⟨([], []), rfl⟩
  | wild => exact absurd rfl h
  | mem rta => exact ⟨_, outcome_srhReads_mem rta⟩

theorem length_srh {srh : Ptr} {texts : Text × Text}
    (h : (optional srh ([], []) srhReads).outcome = .ok texts) :
    srh ≠ .wild ∧ texts.1.length + texts.2.length = srhLength srh := by
  cases srh with
  | null =>
    cases h
    exact ⟨by simp, rfl⟩
  | wild => cases h
  | mem rta =>
    rw [optional_of_ne_null (by simp), outcome_srhReads_mem] at h
    cases h
    refine ⟨by simp, ?_⟩
    rw [srhLength, segmentsLength, length_segsText, announced, List.length_map, List.length_range]

theorem Sees.seg6Texts_iff (h : Sees P route.rtas entry)
    (hforeign : ∀ {t behind}, entry t = .foreign behind → rtaLen behind = 4) (names : IfNames)
    (stale : RtaTable) (isNew : Bool) (n : ℕ) :
    (∀ dst oif srh, Seg6Texts names stale route dst oif srh →
        (routeHead route isNew dst).length + srh.1.length + srh.2.length + oif.length + 28 < n) ↔
      ∀ srh, PrintsSeg6 stale entry srh →
        seg6CommandLength names (rtmFamily route.hdr) (rtmDstLen route.hdr) entry srh < n := by
  have hlength : ∀ {dst oif texts srh},
      addrText route.rtas rtaDst (rtmFamily route.hdr) = .ok dst →
      (optional (route.rtas.get rtaOif) [] (readIfname names)).outcome = .ok oif →
      (optional srh ([], []) srhReads).outcome = .ok texts →
      (routeHead route isNew dst).length + texts.1.length + texts.2.length + oif.length + 28 =
        seg6CommandLength names (rtmFamily route.hdr) (rtmDstLen route.hdr) entry srh := by
    intro dst oif texts srh hdst hoif htexts
    have hdst' := h.length_addrText hdst
    have hoif' := h.length_ifname names hforeign hoif
    have hsrh := (length_srh htexts).2
    rw [length_routeHead, seg6CommandLength]
    omega
  constructor
  · intro hall srh hprints
    obtain ⟨found, hnests, htypes, hsrh⟩ := hprints.encap
    obtain ⟨dst, hdst, -⟩ := addrText_short route.rtas rtaDst (rtmFamily route.hdr)
    obtain ⟨oif, hoif⟩ := exists_read_of_not_refuses names
      (mt (h.optionalRead32_error_iff hforeign).mp hprints.oif)
    obtain ⟨texts, htexts⟩ := exists_srhTexts hprints.known
    rw [← hlength hdst hoif htexts]
    refine hall dst oif texts ⟨(h.get_eq_null_iff _).mpr hprints.gateway,
      mt (h.optionalRead32_error_iff hforeign).mp hprints.iif, hdst, hoif,
      (h.encapType_iff hforeign _).mpr hprints.type, shown stale found,
      (h.readNested_iff hforeign stale _).mpr ⟨found, hnests, htypes, rfl⟩, ?_⟩
    rw [← hsrh]
    exact htexts
  · intro hall dst oif texts hprints
    obtain ⟨sub, hsub, htexts⟩ := hprints.srh_eq
    obtain ⟨found, hnests, htypes, rfl⟩ := (h.readNested_iff hforeign stale sub).mp hsub
    rw [hlength hprints.dst_eq hprints.oif_eq htexts]
    exact hall _ ⟨(h.get_eq_null_iff _).mp hprints.gateway,
      mt (h.optionalRead32_error_iff hforeign).mpr hprints.iif,
      mt (h.optionalRead32_error_iff hforeign).mpr (not_refuses_of_read hprints.oif_eq),
      (h.encapType_iff hforeign _).mp hprints.type, ⟨found, hnests, htypes, rfl⟩,
      (length_srh htexts).1⟩

end Message

theorem rtaLen_of_messageEntry {list : List Rtattr} {behind behind' : Mem} {window t : ℕ}
    (h : messageEntry list behind window t = .foreign behind') : rtaLen behind' = 4 := by
  rw [messageEntry] at h
  split at h
  · rename_i hforeign
    cases h
    rw [foreignType] at hforeign
    split at hforeign
    · rename_i hwindow
      exact hwindow.2
    · cases hforeign
  · split at h <;> cases h

/-- For every message, whatever lies behind it and whatever the nested table held: every text of
its command fits into its array exactly if the message is refused because of a type, or is not
printed with a `seg6` encapsulation, or the command has fewer than a thousand characters with all
the segments that are announced. -/
theorem routeCommand_fits_iff (names : KernelNames) (stale : RtaTable) (isNew : Bool)
    (msg : ListedMessage 12) (behind : Mem) :
    (∀ obj, ofMessage route (msg.own ++ behind) = .ok obj →
        Fits (routeToIproute2Cli names.toIfNames stale obj isNew)) ↔
      (Accepted msg.list behind 4 → ∀ srh, PrintsSeg6 stale (messageEntry msg.list behind 4) srh →
        seg6CommandLength names.toIfNames (rtmFamily (nlmsgBody msg.own))
          (rtmDstLen (nlmsgBody msg.own)) (messageEntry msg.list behind 4) srh < 1000) := by
  apply msg.forall_rtObject_iff behind (by decide) (by decide)
  intro obj hhdr hsees
  rw [← msg.rtmFamily_eq behind hhdr, ← msg.rtmDstLen_eq behind hhdr,
    ← hsees.seg6Texts_iff rtaLen_of_messageEntry names.toIfNames stale isNew]
  exact ⟨fun hfits _ _ _ h => short_of_fits names hfits h, fits_of_short names⟩

def KernelNames.empty : KernelNames := ⟨.empty, fun _ _ h => by cases h⟩

def manySegments : Seg6Srh where
  mode := 1
  nexthdr := 41
  hdrlen := 52
  type := 4
  segmentsLeft := 25
  firstSegment := 25
  flags := 0
  tag := 0
  segments := List.replicate 26 fun _ => 255
  tlvs := []
  first := rfl
  covers := rfl

def manySegmentsRoute : ListedMessage 12 where
  own := nlmsgBytes 24 (rtmsgBytes afInet6 16 rtTableMain rtnUnicast ++
    layout [plainRtattr 21 [5, 0], plainRtattr 22 (layout [plainRtattr 1 manySegments.bytes])])
  length := by decide +kernel
  aligned := by decide +kernel
  covers := by decide +kernel
  list := [plainRtattr 21 [5, 0], plainRtattr 22 (layout [plainRtattr 1 manySegments.bytes])]
  wellFormed := by decide +kernel

/-- The message is far smaller than the receive buffer, and its command overruns the array. -/
theorem manySegments_overflow :
    manySegmentsRoute.own.length ≤ 16384 ∧
      ∃ o, ofMessage route manySegmentsRoute.own = .ok o ∧
        (routeToIproute2Cli KernelNames.empty.toIfNames nullTable o true).outcome =
          .error .overflow ∧
        ¬ Fits (routeToIproute2Cli KernelNames.empty.toIfNames nullTable o true) := by
  have hrun : (ofMessage route manySegmentsRoute.own).toOption.map (fun o =>
      (routeToIproute2Cli KernelNames.empty.toIfNames nullTable o true).outcome) =
        some (.error .overflow) := by
    decide +kernel
  obtain ⟨o, ho, hoverflow⟩ := ok_of_toOption_map hrun
  exact ⟨by decide +kernel, o, ho, hoverflow, fun h => h hoverflow⟩

end Routerd
