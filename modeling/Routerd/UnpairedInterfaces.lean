import Routerd.RouteHookEffects

/-!
# Messages about interfaces without a pair

A link or address message of an interface that VPP does not know is dropped: the
hook tests the index it looked up against 0. The two branches of the route hook
make no such test, so a route out of an unpaired interface is sent to VPP with
the interface index 0.
-/

namespace Routerd
open ByteMemory NumeralText InetText

/-- The message is one the hooks act on, and this is the interface it is about. -/
inductive NamesInterface (n : Mem) : UInt32 → Prop where
  | link (h : nlmsgType n = .newlink) : NamesInterface n (ifiIndex (nlmsgBody n))
  | addr (h : nlmsgType n = .newaddr ∨ nlmsgType n = .deladdr) :
      NamesInterface n (ifaIndex (nlmsgBody n))
  | route (h : nlmsgType n = .newroute ∨ nlmsgType n = .delroute) {r : RtObject} {oif : UInt32}
      (hr : ofMessage route n = .ok r) (hoif : rtaRead32 (r.rtas.get rtaOif) = .ok oif) :
      NamesInterface n oif

/-- Handling the message sends no request. -/
def SendsNothing (env : Env) (d : Daemon) (n : Mem) : Prop :=
  ∀ d', monitor env d n = .ok d' → d'.requests = d.requests

/-- A route the hook forwards: every IPv4 route, and the End.DX4 routes. -/
def ForwardedRoute (env : Env) (d : Daemon) (n : Mem) : Prop :=
  (nlmsgType n = .newroute ∨ nlmsgType n = .delroute) ∧ ∃ r, ofMessage route n = .ok r ∧
    (rtmFamily r.hdr = afInet ∨
      ∃ sid oif nh4, EndDx4Route (env.frame d.trace.length).sub r sid oif nh4)

theorem linkAnalyzeAndHook_unpaired (env : Env) {d : Daemon} {l : RtObject}
    (h : ifindexKernel2vpp d.interfaces (ifiIndex l.hdr) = 0) :
    linkAnalyzeAndHook env d l = .ok d := by
  simp [linkAnalyzeAndHook, h]

theorem addrAnalyzeAndHook_unpaired (env : Env) {d : Daemon} {a : RtObject} (isNew : Bool)
    (h : ifindexKernel2vpp d.interfaces (ifaIndex a.hdr) = 0) :
    addrAnalyzeAndHook env d a isNew = .ok d := by
  simp [addrAnalyzeAndHook, h]

theorem monitorNewlink_unpaired {env : Env} {d d' : Daemon} {n : Mem}
    (h : ifindexKernel2vpp d.interfaces (ifiIndex (nlmsgBody n)) = 0)
    (hrun : monitorNewlink env d n = .ok d') : d'.requests = d.requests := by
  obtain ⟨l, hl, hrun⟩ := bind_eq_ok hrun
  rw [← rtObject_hdr hl] at h
  rw [linkAnalyzeAndHook_unpaired env (d := countLink d true) h] at hrun
  cases hrun
  rfl

theorem monitorAddr_unpaired {env : Env} {d d' : Daemon} {n : Mem} {isNew : Bool}
    (h : ifindexKernel2vpp d.interfaces (ifaIndex (nlmsgBody n)) = 0)
    (hrun : monitorAddr env d n isNew = .ok d') : d'.requests = d.requests := by
  obtain ⟨a, ha, hrun⟩ := bind_eq_ok hrun
  rw [← rtObject_hdr ha] at h
  rw [addrAnalyzeAndHook_unpaired env (d := countAddr d isNew) isNew h] at hrun
  cases hrun
  rfl

private theorem requests_unchanged_iff {env : Env} {d d₀ d' : Daemon} {cs : List SetCall}
    {r : Request} {x : Except Fault Daemon} (hx : x = .ok d')
    (hemits : Emits d₀ d' cs (delivered env d r)) (hreq : d₀.requests = d.requests) :
    (∀ d'', x = .ok d'' → d''.requests = d.requests) ↔
      env.connects d.trace.length = false := by
  subst hx
  constructor
  · intro h
    have heq := h d' rfl
    rw [hemits.requests, hreq, List.append_right_eq_self, delivered] at heq
    by_contra hc
    simp [Bool.not_eq_false] at hc
    simp [hc] at heq
  · rintro hc d'' h
    cases h
    rw [hemits.requests, hreq, delivered, hc]
    simp

theorem monitorRoute_silent_iff (env : Env) (d : Daemon) {n : Mem} (isNew : Bool) {r : RtObject}
    {k : UInt32} (hr : ofMessage route n = .ok r) (hk : rtaRead32 (r.rtas.get rtaOif) = .ok k) :
    (∀ d', monitorRoute env d n isNew = .ok d' → d'.requests = d.requests) ↔
      env.connects d.trace.length = false ∨ ¬ (rtmFamily r.hdr = afInet ∨
        ∃ sid oif nh4, EndDx4Route (env.frame d.trace.length).sub r sid oif nh4) := by
  have hstep : monitorRoute env d n isNew =
      routeAnalyzeAndHook env (countRoute d isNew) r isNew := by
    rw [monitorRoute, hr]
    rfl
  rw [hstep]
  by_cases hfam : rtmFamily r.hdr = afInet
  · obtain ⟨d', cs, c, m, hrun, hemits⟩ := inet4RouteHook_emits env (countRoute d isNew) isNew hfam
      (optionalRead32_of_rtaRead32 hk)
    rw [← show routeAnalyzeAndHook env (countRoute d isNew) r isNew =
      inet4RouteHook env (countRoute d isNew) r isNew by simp [routeAnalyzeAndHook, hfam]] at hrun
    simpa [hfam] using requests_unchanged_iff (d := d) hrun hemits rfl
  · have hbranch : routeAnalyzeAndHook env (countRoute d isNew) r isNew =
        srv6RouteHook env (countRoute d isNew) r := by simp [routeAnalyzeAndHook, hfam]
    rw [hbranch]
    by_cases hdx4 : ∃ sid oif nh4, EndDx4Route (env.frame d.trace.length).sub r sid oif nh4
    · obtain ⟨sid, oif, nh4, hroute⟩ := hdx4
      obtain ⟨d', c, m, hrun, hemits⟩ := srv6RouteHook_emits env (countRoute d isNew) hroute
      have hiff := requests_unchanged_iff (d := d) hrun hemits rfl
      have hex : ∃ sid oif nh4, EndDx4Route (env.frame d.trace.length).sub r sid oif nh4 :=
        ⟨sid, oif, nh4, hroute⟩
      simpa [hex] using hiff
    · refine ⟨fun _ => Or.inr ?_, fun _ d' hrun => ?_⟩
      · rintro (h | h)
        · exact hfam h
        · exact hdx4 h
      · have hsame := srv6RouteHook_silent (d := countRoute d isNew) hfam
          (fun sid oif nh4 h => hdx4 ⟨sid, oif, nh4, h⟩) hrun
        rw [hsame]
        rfl

/-- Nothing is sent for an interface without a pair, except for the routes that
are forwarded without a look at the pair table. -/
theorem unpaired_sendsNothing_iff (env : Env) (d : Daemon) (n : Mem) (k : UInt32)
    (hn : NamesInterface n k) (hk : ¬ Paired d.interfaces k) :
    SendsNothing env d n ↔
      env.connects d.trace.length = false ∨ ¬ ForwardedRoute env d n := by
  have hzero := ifindexKernel2vpp_of_not_paired hk
  cases hn with
  | link htype =>
    have hnot : ¬ ForwardedRoute env d n := by
      rintro ⟨h | h, -⟩ <;> rw [htype] at h <;> cases h
    refine ⟨fun _ => Or.inr hnot, fun _ d' hrun => ?_⟩
    rw [monitor, htype] at hrun
    exact monitorNewlink_unpaired hzero hrun
  | addr htype =>
    have hnot : ¬ ForwardedRoute env d n := by
      rintro ⟨h | h, -⟩ <;> rcases htype with ht | ht <;> rw [ht] at h <;> cases h
    refine ⟨fun _ => Or.inr hnot, fun _ d' hrun => ?_⟩
    rcases htype with ht | ht
    · rw [monitor, ht] at hrun
      exact monitorAddr_unpaired hzero hrun
    · rw [monitor, ht] at hrun
      exact monitorAddr_unpaired hzero hrun
  | @route htype r oif hr hoif =>
    have hfwd : ForwardedRoute env d n ↔ (rtmFamily r.hdr = afInet ∨
        ∃ sid oif nh4, EndDx4Route (env.frame d.trace.length).sub r sid oif nh4) := by
      simp [ForwardedRoute, htype, hr]
    rw [hfwd]
    rcases htype with ht | ht
    · rw [SendsNothing, monitor, ht]
      exact monitorRoute_silent_iff env d true hr hoif
    · rw [SendsNothing, monitor, ht]
      exact monitorRoute_silent_iff env d false hr hoif

def ipv4RouteOverThree : Mem :=
  nlmsgBytes 24 (rtmsgBytes afInet 24 rtTableMain rtnUnicast ++ rtattrBytes rtaDst [10, 1, 0, 0] ++
    rtattrBytes rtaGateway [192, 168, 0, 1] ++ rtattrBytes rtaOif (bytes32 3))

theorem ipv4RouteOverThree_names : NamesInterface ipv4RouteOverThree 3 := by
  have hoif : ((ofMessage route ipv4RouteOverThree).toOption.map
      fun r => rtaRead32 (r.rtas.get rtaOif)) = some (.ok 3) := by rfl
  obtain ⟨r, hr, hread⟩ := ok_of_toOption_map hoif
  exact .route (Or.inl rfl) hr hread

theorem unpaired_sendsNothing_iff_ipv4Route :
    NamesInterface ipv4RouteOverThree 3 ∧ ¬ Paired [] 3 ∧
      (SendsNothing (plainEnv .empty) (Daemon.start [] []) ipv4RouteOverThree ↔
        (plainEnv .empty).connects 0 = false ∨
          ¬ ForwardedRoute (plainEnv .empty) (Daemon.start [] []) ipv4RouteOverThree) :=
  ⟨ipv4RouteOverThree_names, by simp [Paired],
    unpaired_sendsNothing_iff _ (Daemon.start [] []) _ 3 ipv4RouteOverThree_names
      (by simp [Paired, Daemon.start])⟩

/-- With an empty pair table the route is added in VPP over interface index 0. -/
theorem unpaired_ipv4Route_sent :
    NamesInterface ipv4RouteOverThree 3 ∧ ¬ Paired [] 3 ∧
      ¬ SendsNothing (plainEnv .empty) (Daemon.start [] []) ipv4RouteOverThree := by
  refine ⟨ipv4RouteOverThree_names, by simp [Paired], ?_⟩
  have hsent : ((monitor (plainEnv .empty) (Daemon.start [] []) ipv4RouteOverThree).toOption.map
      fun d => d.requests.length) = some 1 := by decide +kernel
  obtain ⟨d', hrun, hreq⟩ := ok_of_toOption_map hsent
  intro hnone
  rw [hnone d' hrun] at hreq
  cases hreq

end Routerd
