import Routerd.HookEffects

/-!
# The two branches of the route hook

The IPv4 branch always reaches `set_route`; its request is stated over the bytes
the two prefixes held before. The SRv6 branch sends a request exactly for the
routes described by `EndDx4Route`, where the nested table starts from whatever
the local array held.
-/

namespace Routerd
open ByteMemory NumeralText InetText

/-- The union of a prefix after an optional address was parsed into it. -/
def loadIn4 (u : In6Addr) (a : Option InAddr) : In6Addr := (a.map (storeIn4 u)).getD u

private theorem addrText_optional (rtas : RtaArray) (t : ℕ) :
    ∃ s, addrText rtas t afInet = .ok s ∧ PlainText s ∧
      ∀ u, inetPtonInto afInet s u = loadIn4 u (optionalAddr rtas t) := by
  rcases rtas.get_cases t with h | ⟨m, h⟩
  · refine ⟨[], addrText_null h _, plainText_nil, ?_⟩
    intro u
    simp [optionalAddr, h, loadIn4]
  · refine ⟨_, addrText_inet h, plainText_inetNtop4 _, ?_⟩
    intro u
    simp [optionalAddr, h, loadIn4]

theorem inet4RouteHook_emits (env : Env) (d : Daemon) {r : RtObject} (isNew : Bool)
    (hfam : rtmFamily r.hdr = afInet) {k : UInt32} (hk : optionalRead32 r.rtas rtaOif = .ok k) :
    ∃ d' cs c m, inet4RouteHook env d r isNew = .ok d' ∧
      Emits d d' cs (delivered env d (.routeAddDel (ipRouteMessage c m isNew
        ⟨afInet, (rtmDstLen r.hdr).toNat,
          loadIn4 (env.frame d.trace.length).routePref.u (optionalAddr r.rtas rtaDst)⟩
        ⟨afInet, 32,
          loadIn4 (env.frame d.trace.length).nexthopPref.u (optionalAddr r.rtas rtaGateway)⟩
        (ifindexKernel2vpp d.interfaces k)))) := by
  obtain ⟨dst, hdst, hdstPlain, hdstInto⟩ := addrText_optional r.rtas rtaDst
  obtain ⟨gw, hgw, hgwPlain, hgwInto⟩ := addrText_optional r.rtas rtaGateway
  obtain ⟨d', c, m, hrun, hemits⟩ := setRoute_emits env d hdstPlain hgwPlain (rtmDstLen r.hdr)
    (ifindexKernel2vpp d.interfaces k) isNew
  rw [hdstInto, hgwInto] at hemits
  refine ⟨d', _, c, m, ?_, hemits⟩
  simp only [inet4RouteHook, hfam, hdst, hk, hgw]
  exact hrun

/-- A seg6local encapsulation with action End.DX4 and an IPv4 next hop, as the hook
sees it when the local array held `sub₀`. -/
structure EndDx4Encap (sub₀ : RtaTable) (rtas : RtaArray) (nh4 : InAddr) : Prop where
  encapType : rtaRead16 (rtas.get rtaEncapType) = .ok lwtunnelEncapSeg6Local
  nested : ∃ e sub a h, rtas.get rtaEncap = .mem e ∧
    parseRtattr (e.drop 4) (sizeSub (rtaLen e) 4) sub₀ maxAttrs = .ok sub ∧
    sub seg6LocalAction = .mem a ∧ rtaRead32 (.mem a) = .ok seg6LocalActionEndDx4 ∧
    sub seg6LocalNh4 = .mem h ∧ nh4 = bytes 4 (h.drop 4)

private theorem seg6LocalTexts_of_encap {frame : Frame} {rtas : RtaArray} {nh4 : InAddr}
    (h : EndDx4Encap frame.sub rtas nh4) :
    seg6LocalTexts frame rtas =
      .ok (seg6LocalActionToStr2 seg6LocalActionEndDx4, inetNtop4 nh4) := by
  obtain ⟨htype, e, sub, a, m, henc, hparse, hact, hread, hnh, rfl⟩ := h
  have hsub : seg6LocalSub frame rtas = .ok sub := by
    simp only [seg6LocalSub, henc]
    exact hparse
  unfold seg6LocalTexts
  cases ht : rtas.get rtaEncapType with
  | null =>
    rw [ht] at htype
    cases htype
  | wild => exact absurd ht (rtas.ne_wild _)
  | mem t =>
    rw [ht] at htype
    simp [htype, hsub, hact, hread, hnh, inetpton, bind, Except.bind, pure, Except.pure]

private theorem inetpton_inet_eq_ok {p : Ptr} {s : Text} (h : inetpton p afInet = .ok s) :
    ∃ m, p = .mem m ∧ s = inetNtop4 (bytes 4 m) := by
  cases p with
  | null => cases h
  | wild => cases h
  | mem m =>
    cases h
    exact ⟨m, rfl, rfl⟩

private theorem rtaReadptr_eq_mem {p : Ptr} {m : Mem} (h : rtaReadptr p = .mem m) :
    ∃ m', p = .mem m' ∧ m = m'.drop 4 := by
  cases p with
  | null => cases h
  | wild => cases h
  | mem m' =>
    cases h
    exact ⟨m', rfl, rfl⟩

private theorem seg6LocalSub_eq_ok {frame : Frame} {rtas : RtaArray} {sub : RtaTable}
    (h : seg6LocalSub frame rtas = .ok sub) :
    ∃ e, rtas.get rtaEncap = .mem e ∧
      parseRtattr (e.drop 4) (sizeSub (rtaLen e) 4) frame.sub maxAttrs = .ok sub := by
  unfold seg6LocalSub at h
  cases he : rtas.get rtaEncap with
  | null =>
    rw [he] at h
    cases h
  | wild => exact absurd he (rtas.ne_wild _)
  | mem e =>
    rw [he] at h
    exact ⟨e, rfl, h⟩

theorem mem_of_rtaRead32 {p : Ptr} {v : UInt32} (h : rtaRead32 p = .ok v) :
    ∃ m, p = .mem m := by
  cases p with
  | null => cases h
  | wild => cases h
  | mem m => exact ⟨m, rfl⟩

theorem optionalRead32_of_rtaRead32 {rtas : RtaArray} {t : ℕ} {v : UInt32}
    (h : rtaRead32 (rtas.get t) = .ok v) : optionalRead32 rtas t = .ok v := by
  obtain ⟨m, hm⟩ := mem_of_rtaRead32 h
  rw [hm] at h
  simp only [optionalRead32, hm, h]

/-- Only an End.DX4 encapsulation yields a next-hop text. -/
private theorem encap_of_seg6LocalTexts {frame : Frame} {rtas : RtaArray} {act nh : Text}
    (h : seg6LocalTexts frame rtas = .ok (act, nh)) (hnh : nh ≠ []) :
    ∃ nh4, EndDx4Encap frame.sub rtas nh4 := by
  have hempty : ∀ {x : Text × Text}, x.2 = [] → (pure x : Except Fault _) ≠ .ok (act, nh) := by
    rintro ⟨x, y⟩ rfl heq
    cases heq
    exact hnh rfl
  unfold seg6LocalTexts at h
  split at h
  · exact absurd h (hempty rfl)
  · obtain ⟨encapType, htype, h⟩ := bind_eq_ok h
    split at h
    · rename_i hseg
      obtain ⟨sub, hsub, h⟩ := bind_eq_ok h
      obtain ⟨e, henc, hparse⟩ := seg6LocalSub_eq_ok hsub
      split at h
      · exact absurd h (hempty rfl)
      · obtain ⟨num, hnum, h⟩ := bind_eq_ok h
        obtain ⟨a, ha⟩ := mem_of_rtaRead32 hnum
        split at h
        · rename_i hdx4
          obtain ⟨s, hs, -⟩ := bind_eq_ok h
          obtain ⟨m, hm, -⟩ := inetpton_inet_eq_ok hs
          obtain ⟨m', hm', -⟩ := rtaReadptr_eq_mem hm
          rw [hseg] at htype
          rw [ha, hdx4.1] at hnum
          exact ⟨_, htype, e, sub, a, m', henc, hparse, ha, hnum, hm', rfl⟩
        · exact absurd h (hempty rfl)
    · exact absurd h (hempty rfl)

/-- A route object the SRv6 branch turns into a local SID. -/
structure EndDx4Route (sub₀ : RtaTable) (r : RtObject) (sid : In6Addr) (oif : UInt32)
    (nh4 : InAddr) : Prop where
  family : rtmFamily r.hdr = afInet6
  dst : ∃ m, r.rtas.get rtaDst = .mem m ∧ sid = bytes 16 (m.drop 4)
  oif : rtaRead32 (r.rtas.get rtaOif) = .ok oif
  encap : EndDx4Encap sub₀ r.rtas nh4

theorem srv6RouteHook_emits (env : Env) (d : Daemon) {r : RtObject} {sid : In6Addr}
    {oif : UInt32} {nh4 : InAddr}
    (h : EndDx4Route (env.frame d.trace.length).sub r sid oif nh4) :
    ∃ d' c m, srv6RouteHook env d r = .ok d' ∧
      Emits d d' [] (delivered env d (ip6RouteSrv6EndDx4Add c m sid nh4
        (ifindexKernel2vpp d.interfaces (atoi (ifindex2str env.names oif))))) := by
  obtain ⟨hfam, ⟨m, hdst, rfl⟩, hoif, hencap⟩ := h
  have hdstText : addrText r.rtas rtaDst (rtmFamily r.hdr) =
      .ok (inetNtop6 (bytes 16 (m.drop 4))) := by
    rw [hfam]
    exact addrText_inet6 hdst
  have hoifText : oifText env.names r.rtas = .ok (ifindex2str env.names oif) := by
    obtain ⟨o, ho⟩ := mem_of_rtaRead32 hoif
    rw [ho] at hoif
    simp only [oifText, ho, hoif]
    rfl
  have hact : seg6LocalActionToStr2 seg6LocalActionEndDx4 ≠ [] := by decide
  have hb : ∀ d₁ : Daemon, ∃ c k,
      (.ok (ip6RouteSrv6EndDx4Add d₁.myClientIndex 13 (bytes 16 (m.drop 4)) nh4
        (ifindexKernel2vpp d.interfaces (atoi (ifindex2str env.names oif)))) :
        Except Fault Request) =
      .ok (ip6RouteSrv6EndDx4Add c k (bytes 16 (m.drop 4)) nh4
        (ifindexKernel2vpp d.interfaces (atoi (ifindex2str env.names oif)))) :=
    fun d₁ => ⟨_, _, rfl⟩
  obtain ⟨d', c, k, hrun, hemits⟩ := transact_emits env d hb
  refine ⟨d', c, k, ?_, hemits⟩
  simp only [srv6RouteHook, hdstText, hoifText, seg6LocalTexts_of_encap hencap, bind, Except.bind,
    ne_eq, inetNtop6_ne_nil, inetNtop4_ne_nil, ifindex2str_ne_nil, hact, not_false_eq_true,
    and_self, if_true, inetPton6_inetNtop6, inetPton4_inetNtop4, Option.getD_some]
  exact hrun

theorem srv6RouteHook_silent {env : Env} {d d' : Daemon} {r : RtObject}
    (hfam : rtmFamily r.hdr ≠ afInet)
    (h : ∀ sid oif nh4, ¬ EndDx4Route (env.frame d.trace.length).sub r sid oif nh4)
    (hrun : srv6RouteHook env d r = .ok d') : d' = d := by
  unfold srv6RouteHook at hrun
  obtain ⟨dst, hdst, hrun⟩ := bind_eq_ok hrun
  obtain ⟨oif, hoif, hrun⟩ := bind_eq_ok hrun
  obtain ⟨⟨act, nh⟩, htexts, hrun⟩ := bind_eq_ok hrun
  split at hrun
  · rename_i hall
    obtain ⟨hdstNe, hoifNe, hnhNe, -⟩ := hall
    obtain ⟨nh4, hencap⟩ := encap_of_seg6LocalTexts htexts hnhNe
    exfalso
    have hfam6 : rtmFamily r.hdr = afInet6 := by
      by_contra h6
      rw [addrText_other hfam h6] at hdst
      cases hdst
      exact hdstNe rfl
    have hdstMem : ∃ m, r.rtas.get rtaDst = .mem m := by
      rcases r.rtas.get_cases rtaDst with hn | hm
      · rw [addrText_null hn] at hdst
        cases hdst
        exact absurd rfl hdstNe
      · exact hm
    have hoifVal : ∃ v, rtaRead32 (r.rtas.get rtaOif) = .ok v := by
      unfold oifText at hoif
      split at hoif
      · cases hoif
        exact absurd rfl hoifNe
      · obtain ⟨v, hv, -⟩ := bind_eq_ok hoif
        exact ⟨v, hv⟩
    obtain ⟨m, hm⟩ := hdstMem
    obtain ⟨v, hv⟩ := hoifVal
    exact h _ v nh4 ⟨hfam6, ⟨m, hm, rfl⟩, hv, hencap⟩
  · cases hrun
    rfl

theorem monitor_route (env : Env) (d : Daemon) {n : Mem} {r : RtObject}
    (htype : nlmsgType n = .newroute ∨ nlmsgType n = .delroute)
    (hr : ofMessage route n = .ok r) :
    monitor env d n = routeAnalyzeAndHook env (countRoute d (decide (nlmsgType n = .newroute))) r
      (decide (nlmsgType n = .newroute)) := by
  rcases htype with ht | ht
  · simp only [monitor, ht, monitorNewroute, monitorRoute, hr]
    rfl
  · simp only [monitor, ht, monitorDelroute, monitorRoute, hr]
    rfl

theorem monitor_inet4Route_emits (env : Env) (d : Daemon) {n : Mem} {r : RtObject}
    (htype : nlmsgType n = .newroute ∨ nlmsgType n = .delroute)
    (hr : ofMessage route n = .ok r) (hfam : rtmFamily r.hdr = afInet) {k : UInt32}
    (hk : optionalRead32 r.rtas rtaOif = .ok k) :
    ∃ d' cs c m, monitor env d n = .ok d' ∧
      Emits d d' cs (delivered env d (.routeAddDel
        (ipRouteMessage c m (decide (nlmsgType n = .newroute))
          ⟨afInet, (rtmDstLen r.hdr).toNat,
            loadIn4 (env.frame d.trace.length).routePref.u (optionalAddr r.rtas rtaDst)⟩
          ⟨afInet, 32,
            loadIn4 (env.frame d.trace.length).nexthopPref.u (optionalAddr r.rtas rtaGateway)⟩
          (ifindexKernel2vpp d.interfaces k)))) := by
  obtain ⟨d', cs, c, m, hrun, hemits⟩ := inet4RouteHook_emits env
    (countRoute d (decide (nlmsgType n = .newroute))) (decide (nlmsgType n = .newroute)) hfam hk
  refine ⟨d', cs, c, m, ?_, (Emits.counter d _).trans hemits⟩
  rw [monitor_route env d htype hr]
  simpa [routeAnalyzeAndHook, hfam] using hrun

theorem monitor_endDx4_emits (env : Env) (d : Daemon) {n : Mem} {r : RtObject}
    (htype : nlmsgType n = .newroute ∨ nlmsgType n = .delroute)
    (hr : ofMessage route n = .ok r) {sid : In6Addr} {oif : UInt32} {nh4 : InAddr}
    (h : EndDx4Route (env.frame d.trace.length).sub r sid oif nh4) :
    ∃ d' c m, monitor env d n = .ok d' ∧
      Emits d d' [] (delivered env d (ip6RouteSrv6EndDx4Add c m sid nh4
        (ifindexKernel2vpp d.interfaces (atoi (ifindex2str env.names oif))))) := by
  have hfam : rtmFamily r.hdr ≠ afInet := by
    rw [h.family]
    decide
  obtain ⟨d', c, m, hrun, hemits⟩ := srv6RouteHook_emits env
    (countRoute d (decide (nlmsgType n = .newroute))) h
  refine ⟨d', c, m, ?_, (Emits.counter d _).trans hemits⟩
  rw [monitor_route env d htype hr]
  simpa [routeAnalyzeAndHook, hfam] using hrun

end Routerd
