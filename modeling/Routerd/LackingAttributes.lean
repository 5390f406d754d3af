import Routerd.ReadSafety
import Routerd.HookEffects
import Routerd.Inet6RoundTrip

/-!
# Messages that lack an attribute

A message without an attribute that its hook needs, or with too short a one, should be ignored,
or the process should end. The hook of local segments compares its texts with the empty one and
so ignores what is absent, as long as nothing is left over in the table of nested attributes. The
IPv4 hook makes a request of every route: a prefix without its address, a route that leads
nowhere.
-/

namespace Routerd
open ByteMemory NumeralText InetText KeyedUpdates OverwriteStore AccessLog

/-- Nothing was done for the message, or the process has ended. -/
def Dismissed (d : Daemon) (run : Except Fault Daemon) : Prop :=
  run = .ok d ∨ ∃ e, run = .error e

/-- The last nested attribute of a type is one of the message, with at least so many bytes. -/
def NestedHolds (P : Mem → Prop) (found : List Mem) (t count : ℕ) : Prop :=
  ∃ m, newest rtaType found t = some m ∧ P m ∧ count + 4 ≤ rtaLen m

/-- An IPv4 route lacks the address of its prefix, or both gateway and interface, or has one of
them too short. -/
def Inet4Lacks (dstLen : UInt8) (entry : ℕ → Entry) : Prop :=
  ¬ ((entry rtaDst).Readable 4 ∧ (entry rtaOif).Readable 4 ∧ (entry rtaGateway).Readable 4 ∧
    (dstLen ≠ 0 → entry rtaDst ≠ .absent) ∧
    (entry rtaOif ≠ .absent ∨ entry rtaGateway ≠ .absent))

/-- A route of another family lacks what makes up a local segment, or has it too short. -/
def SidLacks (P : Mem → Prop) (entry : ℕ → Entry) : Prop :=
  ¬ ((entry rtaDst).Holds 16 ∧ (entry rtaOif).Holds 4 ∧ (entry rtaEncapType).Holds 2 ∧
    ∃ a rest found, entry rtaEncap = .own a rest ∧ Nested a rest found ∧
      NestedHolds P found seg6LocalAction 4 ∧ NestedHolds P found seg6LocalNh4 4)

def RouteLacks (P : Mem → Prop) (family dstLen : UInt8) (entry : ℕ → Entry) : Prop :=
  if family = afInet then Inet4Lacks dstLen entry else SidLacks P entry

def AddrIgnores (env : Env) (d : Daemon) (isNew : Bool) (msg : ListedMessage 8)
    (behind : Mem) : Prop :=
  ∀ addr, ofMessage ifaddr (msg.own ++ behind) = .ok addr →
    ¬ (messageEntry msg.list behind 0 iflaAddress).Holds 4 →
    Dismissed d (addrAnalyzeAndHook env d addr isNew)

def RouteIgnores (env : Env) (d : Daemon) (isNew : Bool) (msg : ListedMessage 12)
    (behind : Mem) : Prop :=
  ∀ obj, ofMessage route (msg.own ++ behind) = .ok obj →
    RouteLacks (Present msg.list behind) (rtmFamily (nlmsgBody msg.own))
      (rtmDstLen (nlmsgBody msg.own)) (messageEntry msg.list behind 4) →
    Dismissed d (routeAnalyzeAndHook env d obj isNew)

/-- A route that the hook takes for a local segment, with these nested attributes. -/
structure SidRequest (stale : RtaTable) (family : UInt8) (entry : ℕ → Entry)
    (found : List Mem) : Prop where
  family : family = afInet6
  dst : entry rtaDst ≠ .absent
  oif : entry rtaOif ≠ .absent
  word : ¬ (entry rtaOif).Refused 4
  type : ∃ a rest, entry rtaEncapType = .own a rest ∧ a.payload.length = 2 ∧
    le16 a.payload 0 = lwtunnelEncapSeg6Local
  encap : ∃ a rest, entry rtaEncap = .own a rest ∧ Nested a rest found
  types : ∀ m ∈ found, rtaType m < maxAttrs
  action : ∃ m, shown stale found seg6LocalAction = .mem m ∧ rtaLen m = 8 ∧
    le32 m 4 = seg6LocalActionEndDx4
  nh4 : shown stale found seg6LocalNh4 ≠ .null

/-- What else the route hook needs of the message: that it makes a request only of what is
there. -/
def HookComplete (stale : RtaTable) (family dstLen : UInt8) (entry : ℕ → Entry) : Prop :=
  if family = afInet then
    (entry rtaOif).Refused 4 ∨ ((dstLen ≠ 0 → entry rtaDst ≠ .absent) ∧
      (entry rtaOif ≠ .absent ∨ entry rtaGateway ≠ .absent))
  else ∀ found, SidRequest stale family entry found →
    (∃ m ∈ found, rtaType m = seg6LocalAction) ∧ ∃ m ∈ found, rtaType m = seg6LocalNh4

/-! ### Requests of IPv4 routes -/

theorem Emits.ne_of_call {d d' : Daemon} {c : SetCall} {rs : List Request}
    (h : Emits d d' [c] rs) : d' ≠ d := by
  rintro rfl
  have hlength := congrArg List.length h.calls
  rw [List.length_append, List.length_singleton] at hlength
  omega

theorem plainText_addrText {rtas : RtaArray} {t : ℕ} {text : Text}
    (h : addrText rtas t afInet = .ok text) : PlainText text := by
  rcases rtas.get_cases t with hnull | ⟨m, hm⟩
  · rw [addrText_null hnull] at h
    cases h
    exact plainText_nil
  · rw [addrText_inet hm] at h
    cases h
    exact plainText_inetNtop4 _

theorem dismissed_inet4RouteHook_iff (env : Env) (d : Daemon) {route : RtObject}
    (hfamily : rtmFamily route.hdr = afInet) (isNew : Bool) :
    Dismissed d (inet4RouteHook env d route isNew) ↔
      ∃ e, optionalRead32 route.rtas rtaOif = .error e := by
  obtain ⟨dst, hdst, -⟩ := addrText_short route.rtas rtaDst afInet
  obtain ⟨gw, hgw, -⟩ := addrText_short route.rtas rtaGateway afInet
  rw [inet4RouteHook, hfamily, hdst, ok_bind]
  cases hindex : optionalRead32 route.rtas rtaOif with
  | error e => exact iff_of_true (Or.inr ⟨e, rfl⟩) ⟨e, rfl⟩
  | ok index =>
    rw [ok_bind, hgw, ok_bind]
    obtain ⟨d', c, m, hrun, hemits⟩ := setRoute_emits env d (plainText_addrText hdst)
      (plainText_addrText hgw) (rtmDstLen route.hdr) (ifindexKernel2vpp d.interfaces index) isNew
    refine iff_of_false ?_ (by rintro ⟨e, he⟩; cases he)
    rintro (hsame | ⟨e, herror⟩)
    · rw [hrun] at hsame
      exact hemits.ne_of_call (Except.ok.inj hsame)
    · rw [hrun] at herror
      cases herror

/-! ### Requests of local segments -/

theorem transact_ne (env : Env) (d : Daemon) {build : Daemon → Except Fault Request}
    (hbuild : ∀ d', ∃ r, build d' = .ok r) : ∃ d', transact env d build = .ok d' ∧ d' ≠ d := by
  have hne : ∀ d' : Daemon, d.trace.length < d'.trace.length → d' ≠ d := by
    rintro d' hlt rfl
    exact Nat.lt_irrefl _ hlt
  unfold transact connectToVpp
  by_cases hconnects : env.connects d.trace.length = true
  · obtain ⟨r, hr⟩ := hbuild
      { d.log (.connect true) with myClientIndex := env.clientIndex d.trace.length }
    simp only [if_pos hconnects, hr, ok_bind]
    refine ⟨_, rfl, hne _ ?_⟩
    simp [disconnectFromVpp, vppWaitmsgRetval, Daemon.log]
  · simp only [if_neg hconnects]
    refine ⟨_, rfl, hne _ ?_⟩
    simp [Daemon.log]

/-- The texts of a route are there from which a segment is requested. -/
def SidTexts (env : Env) (d : Daemon) (route : RtObject) : Prop :=
  ∃ dst oif act nh4, addrText route.rtas rtaDst (rtmFamily route.hdr) = .ok dst ∧
    oifText env.names route.rtas = .ok oif ∧
    seg6LocalTexts (env.frame d.trace.length) route.rtas = .ok (act, nh4) ∧
    dst ≠ [] ∧ oif ≠ [] ∧ nh4 ≠ [] ∧ act ≠ []

theorem dismissed_srv6RouteHook_iff (env : Env) (d : Daemon) (route : RtObject) :
    Dismissed d (srv6RouteHook env d route) ↔ ¬ SidTexts env d route := by
  rw [srv6RouteHook, SidTexts]
  cases hdst : addrText route.rtas rtaDst (rtmFamily route.hdr) with
  | error e =>
    exact iff_of_true (Or.inr ⟨e, rfl⟩) (by rintro ⟨dst, oif, act, nh4, h, -⟩; cases h)
  | ok dst =>
    cases hoif : oifText env.names route.rtas with
    | error e =>
      exact iff_of_true (Or.inr ⟨e, rfl⟩) (by rintro ⟨dst, oif, act, nh4, -, h, -⟩; cases h)
    | ok oif =>
      cases htexts : seg6LocalTexts (env.frame d.trace.length) route.rtas with
      | error e =>
        exact iff_of_true (Or.inr ⟨e, rfl⟩) (by rintro ⟨dst, oif, act, nh4, -, -, h, -⟩; cases h)
      | ok texts =>
        rw [ok_bind, ok_bind, ok_bind]
        split
        · rename_i hall
          obtain ⟨d', hrun, hne⟩ := transact_ne env d fun d' => ⟨_, rfl⟩
          refine iff_of_false ?_ (not_not.mpr ⟨dst, oif, texts.1, texts.2, rfl, rfl, rfl, hall⟩)
          rw [hrun]
          rintro (hsame | ⟨e, herror⟩)
          · exact hne (Except.ok.inj hsame)
          · cases herror
        · rename_i hnot
          refine iff_of_true (Or.inl rfl) ?_
          rintro ⟨dst', oif', act, nh4, hdst', hoif', htexts', hall⟩
          cases hdst'
          cases hoif'
          cases htexts'
          exact hnot hall

section Texts

variable {P : Mem → Prop} {rtas : RtaArray} {entry : ℕ → Entry}

theorem Sees.exists_dst (h : Sees P rtas entry) {family : UInt8} (hfamily : family ≠ afInet) :
    (∃ text, addrText rtas rtaDst family = .ok text ∧ text ≠ []) ↔
      family = afInet6 ∧ entry rtaDst ≠ .absent := by
  rw [← (h.get_eq_null_iff rtaDst).ne]
  by_cases hsix : family = afInet6
  · subst hsix
    rcases rtas.get_cases rtaDst with hnull | ⟨m, hm⟩
    · rw [addrText_null hnull]
      simp [hnull]
    · rw [addrText_inet6 hm]
      simp [hm, inetNtop6_ne_nil]
  · rw [addrText_other hfamily hsix]
    simp [hsix]

theorem Sees.exists_oif (h : Sees P rtas entry) (hreadable : (entry rtaOif).Readable 4)
    (names : IfNames) :
    (∃ text, oifText names rtas = .ok text ∧ text ≠ []) ↔
      entry rtaOif ≠ .absent ∧ ¬ (entry rtaOif).Refused 4 := by
  rw [← h.optionalRead32_error_iff hreadable.rtaLen_foreign, ← (h.get_eq_null_iff rtaOif).ne]
  unfold oifText optionalRead32
  rcases rtas.get_cases rtaOif with hnull | ⟨m, hm⟩
  · rw [hnull]
    simp [pure, Except.pure]
  · rw [hm]
    dsimp only
    cases rtaRead32 (.mem m) with
    | error e => simp
    | ok index => simp [ok_bind, pure, Except.pure, ifindex2str_ne_nil]

theorem exists_actionTexts_iff {sub : RtaTable}
    (hreadable : ActionReadable P sub fun num => num = seg6LocalActionEndDx4 →
      sub seg6LocalNh4 ≠ .null → Covers P (sub seg6LocalNh4) 4) :
    (∃ act nh4, (actionReads sub).outcome = .ok (act, nh4) ∧ nh4 ≠ [] ∧ act ≠ []) ↔
      (∃ m, sub seg6LocalAction = .mem m ∧ rtaLen m = 8 ∧ le32 m 4 = seg6LocalActionEndDx4) ∧
        sub seg6LocalNh4 ≠ .null := by
  rw [actionReads]
  by_cases hnull : sub seg6LocalAction = .null
  · rw [hnull]
    refine iff_of_false ?_ ?_
    · rintro ⟨act, nh4, houtcome, hne, -⟩
      cases houtcome
      exact hne rfl
    · rintro ⟨⟨m, hm, -⟩, -⟩
      cases hm
  · obtain ⟨⟨m, hm, -, hlen⟩, hvalue⟩ := hreadable hnull
    have hread := @rtaRead32_mem_eq_ok_iff m (by omega)
    rw [optional_of_ne_null hnull, Logged.outcome_bind, outcome_read32, hm]
    constructor
    · rintro ⟨act, nh4, houtcome, hne, -⟩
      obtain ⟨num, hnum, houtcome⟩ := bind_eq_ok houtcome
      obtain ⟨hle, rfl⟩ := hread.mp hnum
      by_cases hdx4 : le32 m 4 = seg6LocalActionEndDx4 ∧ sub seg6LocalNh4 ≠ .null
      · exact ⟨⟨m, rfl, by omega, hdx4.1⟩, hdx4.2⟩
      · rw [if_neg hdx4] at houtcome
        cases houtcome
        exact absurd rfl hne
    · rintro ⟨⟨m', hm', hexact, hdx4⟩, hnh4⟩
      cases hm'
      obtain ⟨m', hm', -⟩ := hvalue m hm hexact hdx4 hnh4
      rw [hread.mpr ⟨hexact.le, rfl⟩, ok_bind, if_pos ⟨hdx4, hnh4⟩, Logged.outcome_bind,
        outcome_readAddr, hm', hdx4]
      exact ⟨_, _, rfl, inetNtop4_ne_nil _, by decide⟩

theorem exists_own_of_nestedReadable {stale : RtaTable} {K : RtaTable → Prop}
    (h : NestedReadable stale entry K) :
    ∃ a rest, entry rtaEncap = .own a rest ∧ ∀ found, Nested a rest found →
      (∀ m ∈ found, rtaType m < maxAttrs) → K (shown stale found) := by
  rw [NestedReadable] at h
  cases hentry : entry rtaEncap with
  | absent => rw [hentry] at h; exact h.elim
  | foreign behind => rw [hentry] at h; exact h.elim
  | own a rest =>
    rw [hentry] at h
    exact ⟨a, rest, rfl, h⟩

/-- The texts of an encapsulation, in terms of the attributes of the message. -/
theorem Sees.exists_texts_iff (h : Sees P rtas entry) (frame : Frame)
    (hreadable : EncapReadable entry fun encapType => encapType = lwtunnelEncapSeg6Local →
      NestedReadable frame.sub entry fun sub => ActionReadable P sub fun num =>
        num = seg6LocalActionEndDx4 → sub seg6LocalNh4 ≠ .null → Covers P (sub seg6LocalNh4) 4) :
    (∃ act nh4, seg6LocalTexts frame rtas = .ok (act, nh4) ∧ nh4 ≠ [] ∧ act ≠ []) ↔
      ∃ found, (∃ a rest, entry rtaEncapType = .own a rest ∧ a.payload.length = 2 ∧
          le16 a.payload 0 = lwtunnelEncapSeg6Local) ∧
        (∃ a rest, entry rtaEncap = .own a rest ∧ Nested a rest found) ∧
        (∀ m ∈ found, rtaType m < maxAttrs) ∧
        (∃ m, shown frame.sub found seg6LocalAction = .mem m ∧ rtaLen m = 8 ∧
          le32 m 4 = seg6LocalActionEndDx4) ∧ shown frame.sub found seg6LocalNh4 ≠ .null := by
  rw [← outcome_seg6LocalReads, seg6LocalReads]
  cases htype : entry rtaEncapType with
  | foreign behind => simp [EncapReadable, htype] at hreadable
  | absent =>
    rw [(h.get_eq_null_iff _).mpr htype]
    refine iff_of_false ?_ ?_
    · rintro ⟨act, nh4, houtcome, hne, -⟩
      cases houtcome
      exact hne rfl
    · rintro ⟨found, ⟨a, rest, hown, -⟩, -⟩
      cases hown
  | own a rest =>
    simp only [EncapReadable, htype] at hreadable
    obtain ⟨hmin, hnested⟩ := hreadable
    have hvalue : a.payload.length = 2 →
        le16 (a.payload ++ (a.padding ++ rest)) 0 = le16 a.payload 0 := by
      intro hexact
      exact le16_append (by omega) _
    rw [h.get_eq_own htype, optional_of_ne_null (by simp), Logged.outcome_bind, outcome_read16]
    constructor
    · rintro ⟨act, nh4, houtcome, hne, hact⟩
      obtain ⟨encapType, hread, houtcome⟩ := bind_eq_ok houtcome
      obtain ⟨hle, rfl⟩ := (a.rtaRead16_eq_ok_iff rest).mp hread
      have hexact := Nat.le_antisymm hle hmin
      rw [hvalue hexact] at houtcome
      by_cases hlocal : le16 a.payload 0 = lwtunnelEncapSeg6Local
      · obtain ⟨b, behind, hencap, hall⟩ := exists_own_of_nestedReadable (hnested hexact hlocal)
        obtain ⟨found, hfound⟩ := exists_nested b behind
        rw [if_pos hlocal, Logged.outcome_bind, h.outcome_readNested _ hencap hfound] at houtcome
        split at houtcome
        · rename_i htypes
          have haction := hall found hfound htypes
          obtain ⟨hmem, hnh4⟩ := (exists_actionTexts_iff haction).mp ⟨act, nh4, houtcome, hne, hact⟩
          exact ⟨found, ⟨a, rest, rfl, hexact, hlocal⟩, ⟨b, behind, hencap, hfound⟩, htypes,
            hmem, hnh4⟩
        · cases houtcome
      · rw [if_neg hlocal] at houtcome
        cases houtcome
        exact absurd rfl hne
    · rintro ⟨found, ⟨a', rest', hown, hexact, hlocal⟩, ⟨b, behind, hencap, hfound⟩, htypes,
        haction, hnh4⟩
      cases hown
      obtain ⟨b', behind', hencap', hall⟩ := exists_own_of_nestedReadable (hnested hexact hlocal)
      rw [hencap] at hencap'
      cases hencap'
      have htexts := (exists_actionTexts_iff (hall found hfound htypes)).mpr ⟨haction, hnh4⟩
      rw [(a.rtaRead16_eq_ok_iff rest).mpr ⟨hexact.le, rfl⟩, ok_bind, hvalue hexact, if_pos hlocal,
        Logged.outcome_bind, h.outcome_readNested _ hencap hfound, if_pos htypes, ok_bind]
      exact htexts

end Texts

/-! ### The hooks -/

theorem dismissed_of_short (env : Env) (d : Daemon) (isNew : Bool) {addr : RtObject} {e : Entry}
    (hread : ifaFamily addr.hdr = afInet →
      ifindexKernel2vpp d.interfaces (ifaIndex addr.hdr) ≠ 0 → e.Holds 4) (hshort : ¬ e.Holds 4) :
    Dismissed d (addrAnalyzeAndHook env d addr isNew) := by
  refine Or.inl ?_
  rw [addrAnalyzeAndHook_eq, addrReads]
  by_cases hfamily : ifaFamily addr.hdr = afInet
  · have hunpaired : ifindexKernel2vpp d.interfaces (ifaIndex addr.hdr) = 0 := by
      by_contra hpaired
      exact hshort (hread hfamily hpaired)
    rw [if_neg (not_not.mpr hfamily), if_pos hunpaired]
    rfl
  · rw [if_pos hfamily]
    rfl

section Hooks

variable {P : Mem → Prop} {route : RtObject} {entry : ℕ → Entry} (env : Env) (d : Daemon)

theorem sidTexts_iff (h : Sees P route.rtas entry) (hfamily : rtmFamily route.hdr ≠ afInet)
    (hreadable : HookReadable P (env.frame d.trace.length).sub (rtmFamily route.hdr) entry) :
    SidTexts env d route ↔
      ∃ found, SidRequest (env.frame d.trace.length).sub (rtmFamily route.hdr) entry found := by
  obtain ⟨-, hoif, hrest⟩ := hreadable
  rw [if_pos hfamily] at hrest
  have hdst := h.exists_dst hfamily
  have hname := h.exists_oif hoif env.names
  constructor
  · rintro ⟨dst, oif, act, nh4, hdst', hoif', htexts', hne, hne', hne'', hact⟩
    obtain ⟨hsix, hpresent⟩ := hdst.mp ⟨dst, hdst', hne⟩
    obtain ⟨hout, hword⟩ := hname.mp ⟨oif, hoif', hne'⟩
    have htexts := h.exists_texts_iff (env.frame d.trace.length) (hrest.resolve_left hword)
    obtain ⟨found, htype, hencap, htypes, haction, hnh4⟩ :=
      htexts.mp ⟨act, nh4, htexts', hne'', hact⟩
    exact ⟨found, hsix, hpresent, hout, hword, htype, hencap, htypes, haction, hnh4⟩
  · rintro ⟨found, hrequest⟩
    have htexts := h.exists_texts_iff (env.frame d.trace.length)
      (hrest.resolve_left hrequest.word)
    obtain ⟨dst, hdst', hne⟩ := hdst.mpr ⟨hrequest.family, hrequest.dst⟩
    obtain ⟨oif, hoif', hne'⟩ := hname.mpr ⟨hrequest.oif, hrequest.word⟩
    obtain ⟨act, nh4, htexts', hne'', hact⟩ := htexts.mpr ⟨found, hrequest.type, hrequest.encap,
      hrequest.types, hrequest.action, hrequest.nh4⟩
    exact ⟨dst, oif, act, nh4, hdst', hoif', htexts', hne, hne', hne'', hact⟩

theorem nestedHolds_of_covers {stale : RtaTable} {found : List Mem} {t count : ℕ}
    (hcovers : Covers P (shown stale found t) count) (hfound : ∃ m ∈ found, rtaType m = t) :
    NestedHolds P found t count := by
  obtain ⟨m, hm, hP, hlen⟩ := hcovers
  cases hnewest : newest rtaType found t with
  | none =>
    obtain ⟨m', hmem, htype⟩ := hfound
    exact absurd htype ((newest_eq_none_iff rtaType).mp hnewest m' hmem)
  | some m' =>
    rw [shown, hnewest] at hm
    cases hm
    exact ⟨m, hnewest, hP, hlen⟩

theorem SidRequest.not_lacks {stale : RtaTable} {family : UInt8} {found : List Mem}
    (hrequest : SidRequest stale family entry found) (hfamily : family ≠ afInet)
    (hreadable : HookReadable P stale family entry)
    (haction : ∃ m ∈ found, rtaType m = seg6LocalAction)
    (hnh4 : ∃ m ∈ found, rtaType m = seg6LocalNh4) : ¬ SidLacks P entry := by
  obtain ⟨hdst, hoif, hrest⟩ := hreadable
  rw [if_pos hfamily] at hrest
  obtain ⟨a, rest, htype, hexact, hlocal⟩ := hrequest.type
  have hencap := hrest.resolve_left hrequest.word
  simp only [EncapReadable, htype] at hencap
  obtain ⟨b, behind, hown, hall⟩ := exists_own_of_nestedReadable (hencap.2 hexact hlocal)
  obtain ⟨b', behind', hown', hfound⟩ := hrequest.encap
  rw [hown] at hown'
  cases hown'
  obtain ⟨m, hm, hlen, hdx4⟩ := hrequest.action
  obtain ⟨hcovers, hvalue⟩ := hall found hfound hrequest.types (by simp [hm])
  have hcovers' := hvalue m hm hlen hdx4 hrequest.nh4
  refine not_not.mpr ⟨(hdst.2 hrequest.family).resolve_left hrequest.dst,
    hoif.resolve_left hrequest.oif, ?_, b, behind, found, hown, hfound,
    nestedHolds_of_covers hcovers haction, nestedHolds_of_covers hcovers' hnh4⟩
  rw [htype]
  exact hexact.ge

theorem lacks_dismissed_iff (h : Sees P route.rtas entry) (isNew : Bool)
    (hreadable : HookReadable P (env.frame d.trace.length).sub (rtmFamily route.hdr) entry) :
    (RouteLacks P (rtmFamily route.hdr) (rtmDstLen route.hdr) entry →
        Dismissed d (routeAnalyzeAndHook env d route isNew)) ↔
      HookComplete (env.frame d.trace.length).sub (rtmFamily route.hdr) (rtmDstLen route.hdr)
        entry := by
  rw [routeAnalyzeAndHook, RouteLacks, HookComplete]
  by_cases hfamily : rtmFamily route.hdr = afInet
  · obtain ⟨hdst, hoif, hgateway⟩ := hreadable
    rw [if_pos hfamily, if_pos hfamily, if_neg (not_not.mpr hfamily),
      dismissed_inet4RouteHook_iff env d hfamily, h.optionalRead32_error_iff hoif.rtaLen_foreign,
      Inet4Lacks]
    rw [if_neg (not_not.mpr hfamily)] at hgateway
    constructor
    · intro hlacks
      by_cases hrefused : (entry rtaOif).Refused 4
      · exact Or.inl hrefused
      · have hhas := not_not.mp (mt hlacks hrefused)
        exact Or.inr hhas.2.2.2
    · rintro (hrefused | hhas) hlacks
      · exact hrefused
      · rcases hgateway with hrefused | hgateway
        · exact hrefused
        · exact absurd ⟨hdst.1 hfamily, hoif, hgateway.1 hfamily, hhas⟩ hlacks
  · rw [if_neg hfamily, if_neg hfamily, if_pos hfamily, dismissed_srv6RouteHook_iff,
      sidTexts_iff env d h hfamily hreadable]
    constructor
    · intro hlacks found hrequest
      have hhas := not_not.mp fun hnot => hlacks hnot ⟨found, hrequest⟩
      obtain ⟨-, -, -, a, rest, found', hencap', hfound', haction, hnh4⟩ := hhas
      obtain ⟨b, rest', hencap, hfound⟩ := hrequest.encap
      rw [hencap] at hencap'
      cases hencap'
      cases hfound.unique hfound'
      obtain ⟨m, hm, -⟩ := haction
      obtain ⟨m', hm', -⟩ := hnh4
      exact ⟨⟨m, key_of_newest _ hm⟩, ⟨m', key_of_newest _ hm'⟩⟩
    · rintro hall hlacks ⟨found, hrequest⟩
      obtain ⟨haction, hnh4⟩ := hall found hrequest
      exact hrequest.not_lacks hfamily hreadable haction hnh4 hlacks

end Hooks

/-- For every message, whatever lies behind it and whatever the nested table held: the hooks
read inside the attributes of the message and ignore a message that lacks one they need, and the
printed command reads inside them, exactly if the message is refused because of a type, or every
attribute that comes to be read or requested is there with enough bytes. -/
theorem attributeReads_inside_iff (env : Env) (d : Daemon) (isNew : Bool)
    (addrMsg : ListedMessage 8) (routeMsg : ListedMessage 12) (behind : Mem) :
    (AddrReadsInside d addrMsg behind ∧ AddrIgnores env d isNew addrMsg behind ↔
      (Accepted addrMsg.list behind 0 → ifaFamily (nlmsgBody addrMsg.own) = afInet →
        ifindexKernel2vpp d.interfaces (ifaIndex (nlmsgBody addrMsg.own)) ≠ 0 →
        (messageEntry addrMsg.list behind 0 iflaAddress).Holds 4)) ∧
    (RouteReadsInside env.names (env.frame d.trace.length).sub routeMsg behind ∧
        RouteIgnores env d isNew routeMsg behind ↔
      (Accepted routeMsg.list behind 4 →
        HookReadable (Present routeMsg.list behind) (env.frame d.trace.length).sub
            (rtmFamily (nlmsgBody routeMsg.own)) (messageEntry routeMsg.list behind 4) ∧
          HookComplete (env.frame d.trace.length).sub (rtmFamily (nlmsgBody routeMsg.own))
            (rtmDstLen (nlmsgBody routeMsg.own)) (messageEntry routeMsg.list behind 4))) ∧
    (CommandReadsInside env.names (env.frame d.trace.length).sub isNew routeMsg behind ↔
      (Accepted routeMsg.list behind 4 →
        CommandReadable (Present routeMsg.list behind) (env.frame d.trace.length).sub
          (rtmFamily (nlmsgBody routeMsg.own)) (messageEntry routeMsg.list behind 4))) := by
  refine ⟨?_, ?_, ?_⟩
  · rw [AddrReadsInside, AddrIgnores, ← forall₂_and]
    apply addrMsg.forall_rtObject_iff behind (by decide) (by decide)
    intro addr hhdr hsees
    rw [all_addrReads hsees, ← addrMsg.ifaFamily_eq behind hhdr, ← addrMsg.ifaIndex_eq behind hhdr]
    exact and_iff_left_of_imp (dismissed_of_short env d isNew)
  · rw [RouteReadsInside, RouteIgnores, ← forall₂_and]
    apply routeMsg.forall_rtObject_iff behind (by decide) (by decide)
    intro obj hhdr hsees
    rw [all_routeReads hsees, ← routeMsg.rtmFamily_eq behind hhdr,
      ← routeMsg.rtmDstLen_eq behind hhdr]
    exact and_congr_right (lacks_dismissed_iff env d hsees isNew)
  · apply routeMsg.forall_rtObject_iff behind (by decide) (by decide)
    intro obj hhdr hsees
    rw [all_routeToIproute2Cli hsees, routeMsg.rtmFamily_eq behind hhdr]

def bareAddr : ListedMessage 8 where
  own := nlmsgBytes 20 (ifaddrmsgBytes 2 24 3)
  length := by decide +kernel
  aligned := by decide +kernel
  covers := by decide +kernel
  list := []
  wellFormed := by decide +kernel

def shortDst : ListedMessage 12 where
  own := nlmsgBytes 24 (rtmsgBytes 2 24 254 1 ++ layout [plainRtattr 1 [10]])
  length := by decide +kernel
  aligned := by decide +kernel
  covers := by decide +kernel
  list := [plainRtattr 1 [10]]
  wellFormed := by decide +kernel

theorem not_inside_null (P : Mem → Prop) (upto : ℕ) : ¬ Inside P ⟨.null, upto⟩ := by
  rintro ⟨m, hm, -⟩
  cases hm

theorem not_inside_short (P : Mem → Prop) {m : Mem} {upto : ℕ} (h : rtaLen m < upto + 4) :
    ¬ Inside P ⟨.mem m, upto⟩ := by
  rintro ⟨m', hm', -, hlen⟩
  cases hm'
  exact absurd h (Nat.not_lt.mpr hlen)

def bareRoute : ListedMessage 12 where
  own := nlmsgBytes 24 (rtmsgBytes 2 24 254 1)
  length := by decide +kernel
  aligned := by decide +kernel
  covers := by decide +kernel
  list := []
  wellFormed := by decide +kernel

/-- Four bytes read at the null pointer for an address that is missing, four of a
destination that has one, and the interface of `end.t`, which is missing, for its table; and a
route without a destination that is requested. -/
theorem attributeReads_outside :
    (∃ addr, ofMessage ifaddr bareAddr.own = .ok addr ∧
      (addrReads (Daemon.start [⟨3, 1, [], []⟩] []) addr).log = [⟨.null, 4⟩]) ∧
    ¬ AddrReadsInside (Daemon.start [⟨3, 1, [], []⟩] []) bareAddr [] ∧
    ¬ RouteReadsInside .empty nullTable shortDst [] ∧
    ¬ CommandReadsInside .empty nullTable true endTable [] ∧
    ¬ RouteIgnores (plainEnv .empty) (Daemon.start [] []) true bareRoute [] := by
  have haddr : (ofMessage ifaddr bareAddr.own).toOption.map (fun addr =>
      (addrReads (Daemon.start [⟨3, 1, [], []⟩] []) addr).log) = some [⟨.null, 4⟩] := by
    decide +kernel
  have hroute : (ofMessage route (shortDst.own ++ [])).toOption.map (fun obj =>
      (routeReads .empty nullTable obj).log) = some [⟨.mem [5, 0, 1, 0, 10, 0, 0, 0], 4⟩] := by
    decide +kernel
  have hcommand : (ofMessage route (endTable.own ++ [])).toOption.map (fun obj =>
      (routeToIproute2Cli .empty nullTable obj true).log.getLast?) = some (some ⟨.null, 0⟩) := by
    decide +kernel
  have hbare : (ofMessage route (bareRoute.own ++ [])).toOption.map (fun obj =>
      (rtmFamily obj.hdr, optionalRead32 obj.rtas rtaOif)) = some (afInet, .ok 0) := by
    decide +kernel
  obtain ⟨addr, haddr, hlog⟩ := ok_of_toOption_map haddr
  obtain ⟨dstRoute, hdst, hdstLog⟩ := ok_of_toOption_map hroute
  obtain ⟨tableRoute, htable, htableLog⟩ := ok_of_toOption_map hcommand
  obtain ⟨bare, hbare, hindex⟩ := ok_of_toOption_map hbare
  refine ⟨⟨addr, haddr, hlog⟩, fun hall => ?_, fun hall => ?_, fun hall => ?_, fun hall => ?_⟩
  · have hread := hall addr (by rw [List.append_nil]; exact haddr) ⟨.null, 4⟩ (by simp [hlog])
    exact not_inside_null _ _ hread
  · have hread := hall dstRoute hdst ⟨.mem [5, 0, 1, 0, 10, 0, 0, 0], 4⟩ (by simp [hdstLog])
    exact not_inside_short _ (by decide) hread
  · exact not_inside_null _ _ (hall tableRoute htable _ (List.mem_of_getLast? htableLog))
  · have hfamily : rtmFamily bare.hdr = afInet := congrArg Prod.fst hindex
    have hword : optionalRead32 bare.rtas rtaOif = .ok 0 := congrArg Prod.snd hindex
    have hlacks : Inet4Lacks (rtmDstLen (nlmsgBody bareRoute.own)) (messageEntry [] [] 4) :=
      fun hhas => hhas.2.2.2.1 (by decide +kernel) rfl
    have hdismissed := hall bare hbare (by
      rw [RouteLacks, if_pos (by decide +kernel)]
      exact hlacks)
    rw [routeAnalyzeAndHook, if_neg (not_not.mpr hfamily), dismissed_inet4RouteHook_iff _ _ hfamily,
      hword] at hdismissed
    obtain ⟨e, he⟩ := hdismissed
    cases he

end Routerd
