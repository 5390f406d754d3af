import Routerd.NetlinkHooks

/-!
# What each setter and each hook sends

One lemma a function: a setter never faults on the texts it is given here, enters
one call into the record and delivers one request when VPP accepts the connection.
Later modules use these lemmas and do not look into the functions again.
-/

namespace Routerd
open ByteMemory NumeralText InetText

/-- What VPP receives of a request: nothing when it refuses the connection. -/
def delivered (env : Env) (d : Daemon) (r : Request) : List Request :=
  if env.connects d.trace.length then [r] else []

def Connects (env : Env) : Prop := ∀ i, env.connects i = true

theorem delivered_of_connects {env : Env} (h : Connects env) (d : Daemon) (r : Request) :
    delivered env d r = [r] := by
  rw [delivered, if_pos (h _)]

theorem transact_emits (env : Env) (d : Daemon) {build : Daemon → Except Fault Request}
    {req : UInt32 → UInt32 → Request} (hb : ∀ d₁, ∃ c m, build d₁ = .ok (req c m)) :
    ∃ d' c m, transact env d build = .ok d' ∧ Emits d d' [] (delivered env d (req c m)) := by
  obtain ⟨c, m, hreq⟩ := hb (connectToVpp env d).2
  cases hc : env.connects d.trace.length with
  | true =>
    obtain ⟨d', hrun, hemits⟩ := transact_of_connects hc hreq
    exact ⟨d', c, m, hrun, by simpa [delivered, hc] using hemits⟩
  | false =>
    obtain ⟨d', hrun, hemits⟩ := transact_of_refused hc build
    exact ⟨d', c, m, hrun, by simpa [delivered, hc] using hemits⟩

private theorem Emits.call (d : Daemon) (c : SetCall) :
    Emits d { d with calls := d.calls ++ [c] } [c] [] := ⟨rfl, rfl, rfl, by simp [Daemon.requests]⟩

theorem setLink_emits (env : Env) (d : Daemon) (v : UInt32) (up : Bool) :
    ∃ d' c m, setLink env d v up = .ok d' ∧
      Emits d d' [.setLink v up] (delivered env d (setInterfaceFlag c m v up)) := by
  have hb : ∀ d₁ : Daemon, ∃ c m,
      (.ok (setInterfaceFlag d₁.myClientIndex (randomMsgId env d₁) v up) : Except Fault Request) =
        .ok (setInterfaceFlag c m v up) := fun d₁ => ⟨_, _, rfl⟩
  obtain ⟨d', c, m, hrun, hemits⟩ := transact_emits env
    { d with calls := d.calls ++ [.setLink v up] } hb
  exact ⟨d', c, m, hrun, (Emits.call d _).trans hemits⟩

theorem setAddr_emits (env : Env) (d : Daemon) (v : UInt32) (addr : InAddr) (len : UInt8)
    (isAdd : Bool) :
    ∃ d' c m, setAddr env d v addr len isAdd = .ok d' ∧
      Emits d d' [.setAddr v addr len isAdd] (delivered env d (setInterfaceAddr c m v isAdd false
        (addrBuffer (env.frame d.trace.length) addr) len)) := by
  have hb : ∀ d₁ : Daemon, ∃ c m,
      (.ok (setInterfaceAddr d₁.myClientIndex (randomMsgId env d₁) v isAdd false
        (addrBuffer (env.frame d.trace.length) addr) len) : Except Fault Request) =
      .ok (setInterfaceAddr c m v isAdd false (addrBuffer (env.frame d.trace.length) addr) len) :=
    fun d₁ => ⟨_, _, rfl⟩
  obtain ⟨d', c, m, hrun, hemits⟩ := transact_emits env
    { d with calls := d.calls ++ [.setAddr v addr len isAdd] } hb
  exact ⟨d', c, m, hrun, (Emits.call d _).trans hemits⟩

/-- The texts the IPv4 branch hands to `set_route`: printed addresses or nothing. -/
structure PlainText (s : Text) : Prop where
  noSlash : '/' ∉ s
  short : s.length ≤ 100

theorem plainText_nil : PlainText [] := ⟨by simp, by simp⟩

theorem plainText_inetNtop4 (a : InAddr) : PlainText (inetNtop4 a) :=
  ⟨slash_notMem_inetNtop4 a, (inetNtop4_length_le a).trans (by omega)⟩

theorem setRoute_emits (env : Env) (d : Daemon) {dst gw : Text} (hdst : PlainText dst)
    (hgw : PlainText gw) (len : UInt8) (oif : UInt32) (isNew : Bool) :
    ∃ d' c m, setRoute env d (dst ++ '/' :: decimal len.toNat) gw oif isNew = .ok d' ∧
      Emits d d' [.setRoute (dst ++ '/' :: decimal len.toNat) gw oif isNew]
        (delivered env d (.routeAddDel (ipRouteMessage c m isNew
          ⟨afInet, len.toNat, inetPtonInto afInet dst (env.frame d.trace.length).routePref.u⟩
          ⟨afInet, 32, inetPtonInto afInet gw (env.frame d.trace.length).nexthopPref.u⟩ oif))) := by
  have hb : ∀ d₁ : Daemon, ∃ c m, (do
      let routePref ← parsePrefixStr (dst ++ '/' :: decimal len.toNat) afInet
        (env.frame d.trace.length).routePref
      let nexthopPref ← parsePrefixStr gw afInet (env.frame d.trace.length).nexthopPref
      ipRouteAddDel d₁.myClientIndex 10 isNew routePref nexthopPref oif) =
      Except.ok (Request.routeAddDel (ipRouteMessage c m isNew
        ⟨afInet, len.toNat, inetPtonInto afInet dst (env.frame d.trace.length).routePref.u⟩
        ⟨afInet, 32, inetPtonInto afInet gw (env.frame d.trace.length).nexthopPref.u⟩ oif)) := by
    intro d₁
    refine ⟨d₁.myClientIndex, 10, ?_⟩
    rw [parsePrefixStr_slash hdst.noSlash hdst.short len.toNat_lt,
      parsePrefixStr_noSlash hgw.noSlash]
    rfl
  obtain ⟨d', c, m, hrun, hemits⟩ := transact_emits env
    { d with calls := d.calls ++ [.setRoute (dst ++ '/' :: decimal len.toNat) gw oif isNew] } hb
  exact ⟨d', c, m, hrun, (Emits.call d _).trans hemits⟩

end Routerd
