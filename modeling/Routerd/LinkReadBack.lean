import Routerd.LinkCache
import Routerd.AttributeWindow

/-!
# Reading a link back from the cache

The cache stores `IFA_PAYLOAD` bytes of a link message counted from its `ifinfomsg` on, so
the last eight bytes of the attributes are not stored. Reading back takes the size of the
entry for the length of its attributes, which is sixteen bytes more than the entry has
behind the `ifinfomsg`. Whatever the message, the walk then tests a header in the memory
behind the entry.
-/

namespace Routerd
open ByteMemory OverwriteStore

def iflaMtu : ℕ := 4

/-- A link message with a well-formed attribute list. -/
structure NewlinkMessage extends WholeMessage 16 where
  newlink : nlmsgType own = .newlink
  list : List Rtattr
  wellFormed : toWholeMessage.attrs = layout list

def NewlinkMessage.index (msg : NewlinkMessage) : UInt32 := ifiIndex (nlmsgBody msg.own)

def NewlinkMessage.stored (msg : NewlinkMessage) : Mem :=
  (nlmsgBody msg.own).take (msg.own.length - 24)

def cachedRtas (ifi heap : Mem) (cacheLen : ℕ) : Except Fault RtaArray :=
  rtaArray ((ifi ++ heap).drop 16) cacheLen

def entryPayload : Ptr → Option Mem
  | .mem m => some ((m.drop 4).take (rtaLen m - 4))
  | _ => none

/-- The walk over bytes that begin with `a`, with this count, tests no header and takes no
attribute that is not inside `a`. -/
inductive StaysInside : Mem → ℕ → Prop where
  | short {a : Mem} {len : ℕ} (hlen : len < 4) : StaysInside a len
  | rejected {a : Mem} {len : ℕ} (hheader : 4 ≤ a.length) (hno : ¬ rtaOk a len) :
      StaysInside a len
  | next {a : Mem} {len : ℕ} (hok : rtaOk a len) (hfit : rtaLen a ≤ a.length)
      (hrest : StaysInside (rtaNext a) (sizeSub len (rtaAlign (rtaLen a)))) : StaysInside a len

/-- Reading back finds the entry of the message, uses no byte outside it and gives the
attributes of the message with their payloads. -/
structure ReadsBack (msg : NewlinkMessage) (links : List Mem) (ifi heap : Mem) : Prop where
  found : netlinkCacheGetLink links msg.index.toUInt16 = some ifi
  own : ifiIndex ifi = msg.index
  inside : StaysInside (ifi.drop 16) (netlinkCachelenGetLink links msg.index.toUInt16)
  same : ∃ rtas, cachedRtas ifi heap (netlinkCachelenGetLink links msg.index.toUInt16) = .ok rtas ∧
    ∀ t < maxAttrs, entryPayload (rtas.get t) =
      (newest Rtattr.type msg.list t).map Rtattr.payload

/-- Short of its last eight bytes, with a count that is eight bytes too long, an attribute
list leads the walk outside. -/
theorem not_staysInside_layout (attrs : List Rtattr) :
    ¬ StaysInside ((layout attrs).take ((layout attrs).length - 8))
      ((layout attrs).length + 8) := by
  induction attrs with
  | nil =>
    intro hinside
    cases hinside with
    | short hlen => exact absurd hlen (by decide)
    | rejected hheader => exact absurd hheader (by decide)
    | next hok => exact not_rtaOk_nil _ hok
  | cons a attrs ih =>
    have hlen : (layout (a :: attrs)).length = rtaAlign a.len + (layout attrs).length := by
      rw [layout_cons, List.length_append, a.length_bytes]
    have hpad := a.len_le_length
    rw [a.length_bytes] at hpad
    have hview : 4 ≤ ((layout (a :: attrs)).take ((layout (a :: attrs)).length - 8)).length →
        rtaLen ((layout (a :: attrs)).take ((layout (a :: attrs)).length - 8)) = a.len := by
      intro hheader
      have hwhole : rtaLen (layout (a :: attrs)) = a.len := a.rtaLen_bytes _
      rw [← hwhole, ← rtaLen_append hheader ((layout (a :: attrs)).drop _), List.take_append_drop]
    intro hinside
    cases hinside with
    | short hlen => omega
    | rejected hheader hno =>
      refine hno ⟨by omega, ?_, ?_⟩
      · rw [hview hheader]
        exact Nat.le_add_left 4 _
      · rw [hview hheader]
        omega
    | next hok hfit hrest =>
      have hheader := hok.2.1.trans hfit
      rw [rtaNext, hview hheader, List.drop_take, sizeSub_of_le (by omega)] at hrest
      have hdrop : (layout (a :: attrs)).drop (rtaAlign a.len) = layout attrs := by
        rw [layout_cons, ← a.length_bytes, List.drop_left]
      rw [hdrop] at hrest
      refine ih ?_
      rw [show (layout (a :: attrs)).length - 8 - rtaAlign a.len = (layout attrs).length - 8 by omega,
        show (layout (a :: attrs)).length + 8 - rtaAlign a.len = (layout attrs).length + 8 by omega]
        at hrest
      exact hrest

namespace NewlinkMessage

variable (msg : NewlinkMessage)

theorem length_own : msg.own.length = (layout msg.list).length + 32 := by
  have hcovers := msg.covers
  have hlen := msg.length_attrs
  rw [msg.wellFormed] at hlen
  omega

theorem length_stored : msg.stored.length = (layout msg.list).length + 8 := by
  have hlen := msg.length_own
  rw [stored, nlmsgBody, List.length_take, List.length_drop]
  omega

@[simp] theorem ifiIndex_stored : ifiIndex msg.stored = msg.index := by
  have hlen := msg.length_own
  exact ifiIndex_take (by omega)

theorem drop_stored : msg.stored.drop 16 =
    (layout msg.list).take ((layout msg.list).length - 8) := by
  have hlen := msg.length_own
  rw [stored, nlmsgBody, List.drop_take, List.drop_drop, ← msg.wellFormed]
  congr 1
  rw [msg.wellFormed]
  omega

theorem updateLink_eq (links : List Mem) (behind : Mem) :
    netlinkCacheUpdateLink links (nlmsgBody (msg.own ++ behind)) (msg.own.length - 24) =
      put ifiIndex links msg.stored := by
  have hlen := msg.length_own
  have hstored : (nlmsgBody (msg.own ++ behind)).take (msg.own.length - 24) = msg.stored := by
    rw [nlmsgBody_append (by omega), stored, List.take_append_of_le_length]
    rw [nlmsgBody, List.length_drop]
    omega
  rw [netlinkCacheUpdateLink_eq_put links (by omega), hstored]

theorem ifaPayload_eq (behind : Mem) : ifaPayload (msg.own ++ behind) = msg.own.length - 24 := by
  have hlen := msg.length_own
  rw [msg.ifaPayload_append (by decide), msg.length_attrs]
  omega

theorem cacheCallback_eq (links : List Mem) (behind : Mem) :
    (cacheCallback links (msg.own ++ behind)).2 = put ifiIndex links msg.stored := by
  have hlen := msg.length_own
  rw [cacheCallback, nlmsgType_append (by omega), msg.newlink]
  change netlinkCacheUpdateLink links _ _ = _
  rw [msg.ifaPayload_eq, msg.updateLink_eq]

end NewlinkMessage

/-- No link message is read back from the cache as it was: the walk over its entry always
leaves the entry, whatever was cached before and whatever lies behind. -/
theorem linkReadBack_never (msg : NewlinkMessage) (links : List Mem) (behind ifi heap : Mem) :
    ¬ ReadsBack msg (cacheCallback links (msg.own ++ behind)).2 ifi heap := by
  intro hreads
  have hfound := hreads.found
  have hinside := hreads.inside
  rw [netlinkCachelenGetLink_eq, hfound] at hinside
  rw [netlinkCacheGetLink_eq_find?] at hfound
  have hkey : msg.index = msg.index.toUInt16.toUInt32 := by
    have hhit := List.find?_some hfound
    rw [decide_eq_true_eq, hreads.own] at hhit
    exact hhit
  rw [msg.cacheCallback_eq, find?_put, msg.ifiIndex_stored, if_pos hkey] at hfound
  cases hfound
  rw [Option.map_some, Option.getD_some, msg.length_stored, msg.drop_stored] at hinside
  exact not_staysInside_layout msg.list hinside

def mtuLastLink : NewlinkMessage where
  own := nlmsgBytes 16 (ifinfomsgBytes 5 1 0 ++
    rtattrBytes iflaAddress [2, 0, 0, 0, 0, 1] ++ rtattrBytes iflaMtu (bytes32 1500))
  length := by decide +kernel
  aligned := by decide +kernel
  covers := by decide +kernel
  newlink := by decide +kernel
  list := [plainRtattr 1 [2, 0, 0, 0, 0, 1], plainRtattr 4 (bytes32 1500)]
  wellFormed := by decide +kernel

/-- The MTU is lost, or found in the memory behind the entry. -/
theorem linkReadBack_mtu_lost :
    (cacheCallback [] mtuLastLink.own).2 = [mtuLastLink.stored] ∧
      (newest Rtattr.type mtuLastLink.list iflaMtu).map Rtattr.payload = some [220, 5, 0, 0] ∧
      (cachedRtas mtuLastLink.stored [] 28).toOption.map (fun rtas => entryPayload (rtas.get iflaMtu)) =
        some none ∧
      (cachedRtas mtuLastLink.stored [8, 0, 4, 0, 9, 9, 9, 9] 28).toOption.map
        (fun rtas => entryPayload (rtas.get iflaMtu)) = some (some [9, 9, 9, 9]) ∧
      ¬ ReadsBack mtuLastLink (cacheCallback [] mtuLastLink.own).2 mtuLastLink.stored [] := by
  have hmtu : (newest Rtattr.type mtuLastLink.list iflaMtu).map Rtattr.payload =
      some [220, 5, 0, 0] := by decide +kernel
  have hlost : (cachedRtas mtuLastLink.stored []
      (netlinkCachelenGetLink (cacheCallback [] mtuLastLink.own).2
        mtuLastLink.index.toUInt16)).toOption.map
      (fun rtas => entryPayload (rtas.get iflaMtu)) = some none := by decide +kernel
  refine ⟨by decide +kernel, hmtu, hlost, by decide +kernel, fun hreads => ?_⟩
  obtain ⟨rtas, hok, hsame⟩ := hreads.same
  obtain ⟨rtas', hok', hnone⟩ := ok_of_toOption_map hlost
  rw [hok] at hok'
  cases hok'
  rw [hsame iflaMtu (by decide), hmtu] at hnone
  cases hnone

end Routerd
