import Routerd.TapInvariant

/-!
# Requests that switch the plugin on and off

The plugin takes over ARP and four IPv4 protocols while it is enabled. An API message
or a CLI command switches it, and both undo a failed enabling by a disable. The flag
agrees with VPP's dispatch tables after every request. A disable does not put back
what was in the tables, but what VPP has there by default.
-/

namespace Routerd

def TAP_INJECT_F_CONFIG_ENABLE : UInt32 := 1

def TAP_INJECT_F_CONFIG_DISABLE : UInt32 := 2

def tapInjectIsConfigDisabled (v : CplaneNetdev) : Bool :=
  v.flags &&& TAP_INJECT_F_CONFIG_DISABLE ≠ 0

/-- The second component is the return value in the reply. -/
def vlApiTapInjectEnableDisableHandler (kernel : Kernel) (pool : HwPool) (v : CplaneNetdev)
    (isEnable : UInt8) : CplaneNetdev × Int :=
  match tapInjectEnableDisableAllInterfaces kernel pool v (isEnable ≠ 0) with
  | (v, some _) => ((tapInjectEnableDisableAllInterfaces kernel pool v false).1, -1)
  | (v, none) => (v, 0)

/-- `functionArg` is set for `enable tap-inject` and clear for `disable tap-inject`. -/
def enableDisableTapInjectCmdFn (kernel : Kernel) (pool : HwPool) (v : CplaneNetdev)
    (functionArg : Bool) : CplaneNetdev × Option String :=
  if functionArg then
    if tapInjectIsConfigDisabled v then
      (v, some "tap-inject is disabled in config, thus cannot be enabled.")
    else
      match tapInjectEnableDisableAllInterfaces kernel pool v true with
      | (v, some err) => ((tapInjectEnableDisableAllInterfaces kernel pool v false).1, some err)
      | (v, none) => ({ v with flags := v.flags ||| TAP_INJECT_F_CONFIG_ENABLE }, none)
  else
    let v := (tapInjectEnableDisableAllInterfaces kernel pool v false).1
    ({ v with flags := v.flags &&& ~~~TAP_INJECT_F_CONFIG_ENABLE }, none)

inductive TapRequest where
  | api (isEnable : UInt8)
  | cli (functionArg : Bool)

/-- A request, with the interfaces VPP has and the answers of the kernel while it runs. -/
structure RequestStep where
  request : TapRequest
  pool : HwPool
  kernel : Kernel

def requestStep (v : CplaneNetdev) (s : RequestStep) : CplaneNetdev :=
  match s.request with
  | .api isEnable => (vlApiTapInjectEnableDisableHandler s.kernel s.pool v isEnable).1
  | .cli functionArg => (enableDisableTapInjectCmdFn s.kernel s.pool v functionArg).1

def requestRun (v : CplaneNetdev) (steps : List RequestStep) : CplaneNetdev :=
  steps.foldl requestStep v

/-! ### What connecting and disconnecting leave alone -/

/-- The part of the state that no connect and no disconnect writes. -/
structure TapControl where
  flags : UInt32
  nodes : GraphNodes
  dispatch : Dispatch
  interfacesToEnable : List UInt32
  interfacesToDisable : List UInt32

def CplaneNetdev.control (v : CplaneNetdev) : TapControl :=
  ⟨v.flags, v.nodes, v.dispatch, v.interfacesToEnable, v.interfacesToDisable⟩

theorem tapInjectTapConnect_control (kernel : Kernel) (v : CplaneNetdev) (hw : HwInterface) :
    (tapInjectTapConnect kernel v hw).1.control = v.control := by
  rcases tapInjectTapConnect_cases kernel v hw with
    ⟨-, names, err, heq⟩ | ⟨f, k, name, names, -, heq⟩ <;> rw [heq] <;> rfl

theorem connectInterfaces_control (kernel : Kernel) (pool : HwPool) (v : CplaneNetdev)
    (indices : List UInt32) : (connectInterfaces kernel pool v indices).1.control = v.control := by
  induction indices generalizing v with
  | nil => rfl
  | cons i rest ih =>
    unfold connectInterfaces
    cases vnetGetHwInterface pool i with
    | none => exact ih v
    | some hw =>
      have hconn := tapInjectTapConnect_control kernel v hw
      by_cases heth : hw.ethernet = true
      · simp only [heth, if_true]
        rcases hres : tapInjectTapConnect kernel v hw with ⟨v', _ | err⟩ <;> rw [hres] at hconn
        · exact (ih v').trans hconn
        · exact hconn
      · simp only [heth]
        exact ih v

theorem tapInjectTapDisconnect_control (v : CplaneNetdev) (s : UInt32) :
    (tapInjectTapDisconnect v s).1.control = v.control := by
  obtain ⟨t, -, ⟨-, heq⟩ | ⟨f, -, heq⟩⟩ := tapInjectTapDisconnect_cases v s <;> rw [heq] <;> rfl

theorem disconnectInterfaces_control (v : CplaneNetdev) (indices : List UInt32) :
    (disconnectInterfaces v indices).control = v.control := by
  induction indices generalizing v with
  | nil => rfl
  | cons i rest ih => exact (ih _).trans (tapInjectTapDisconnect_control v i)

theorem tapInjectIfaceIsr_control (kernel : Kernel) (pool : HwPool) (v : CplaneNetdev) :
    (tapInjectIfaceIsr kernel pool v).1.control =
      { v.control with interfacesToEnable := [], interfacesToDisable := [] } := by
  have hconn := connectInterfaces_control kernel pool v v.interfacesToEnable
  have hdis := disconnectInterfaces_control
    (connectInterfaces kernel pool v v.interfacesToEnable).1
    (connectInterfaces kernel pool v v.interfacesToEnable).1.interfacesToDisable
  rw [← hconn, ← hdis]
  rfl

/-- What switching the flag and the dispatch tables alone would give. -/
def switched (v : CplaneNetdev) (enable : Bool) : CplaneNetdev :=
  if enable then tapInjectEnable v else tapInjectDisable v

theorem tapInjectEnableDisableAllInterfaces_control (kernel : Kernel) (pool : HwPool)
    (v : CplaneNetdev) (enable : Bool) :
    (tapInjectEnableDisableAllInterfaces kernel pool v enable).1.control =
      { (switched v enable).control with interfacesToEnable := [], interfacesToDisable := [] } := by
  rw [tapInjectEnableDisableAllInterfaces_state, tapInjectIfaceIsr_control]
  cases enable <;> rfl

/-! ### The flag and the dispatch tables -/

private theorem or_and_distrib (x y z : UInt32) : (x ||| y) &&& z = (x &&& z) ||| (y &&& z) := by
  apply UInt32.toBitVec_inj.mp
  simp only [UInt32.toBitVec_and, UInt32.toBitVec_or]
  exact BitVec.and_or_distrib_right

theorem tapInjectIsEnabled_congr {v w : CplaneNetdev} (h : w.flags = v.flags) :
    tapInjectIsEnabled w = tapInjectIsEnabled v := by
  rw [tapInjectIsEnabled, h, tapInjectIsEnabled]

theorem tapInjectEnable_nodes (v : CplaneNetdev) : (tapInjectEnable v).nodes = v.nodes := by
  unfold tapInjectEnable
  split <;> rfl

theorem tapInjectDisable_nodes (v : CplaneNetdev) : (tapInjectDisable v).nodes = v.nodes := by
  unfold tapInjectDisable
  split <;> rfl

theorem tapInjectIsEnabled_enable (v : CplaneNetdev) :
    tapInjectIsEnabled (tapInjectEnable v) = true := by
  by_cases h : tapInjectIsEnabled v = true
  · rw [tapInjectEnable, if_pos h]
    exact h
  · have hflag : (v.flags ||| TAP_INJECT_F_ENABLED) &&& TAP_INJECT_F_ENABLED ≠ 0 := by
      rw [or_and_distrib, ne_eq, UInt32.or_eq_zero_iff]
      exact fun hzero => absurd hzero.2 (by decide)
    rw [tapInjectEnable, if_neg h]
    exact decide_eq_true hflag

theorem tapInjectIsEnabled_disable (v : CplaneNetdev) :
    tapInjectIsEnabled (tapInjectDisable v) = false := by
  by_cases h : tapInjectIsEnabled v = true
  · have hflag : v.flags &&& ~~~TAP_INJECT_F_ENABLED &&& TAP_INJECT_F_ENABLED = 0 := by
      rw [UInt32.and_assoc]
      exact UInt32.and_zero
    rw [tapInjectDisable, if_neg (not_not.mpr h)]
    exact decide_eq_false (not_not.mpr hflag)
  · rw [tapInjectDisable, if_pos h]
    exact Bool.not_eq_true _ ▸ h

def tapProtocols : List UInt8 :=
  [IP_PROTOCOL_ICMP, IP_PROTOCOL_OSPF, IP_PROTOCOL_TCP, IP_PROTOCOL_UDP]

/-- The five entries all point to the plugin's nodes. -/
structure BoundToPlugin (n : GraphNodes) (d : Dispatch) : Prop where
  arp : d.ethernetType ETHERNET_TYPE_ARP = n.neighborNodeIndex
  ip4 : ∀ p ∈ tapProtocols, d.ip4Protocol p = n.txNodeIndex

/-- None of the five entries points to the plugin's node. -/
structure UnboundFromPlugin (n : GraphNodes) (d : Dispatch) : Prop where
  arp : d.ethernetType ETHERNET_TYPE_ARP ≠ n.neighborNodeIndex
  ip4 : ∀ p ∈ tapProtocols, d.ip4Protocol p ≠ n.txNodeIndex

/-- The plugin's nodes are not the ones a disable binds. -/
structure GraphNodes.Distinct (n : GraphNodes) : Prop where
  arpInput : n.arpInput ≠ n.neighborNodeIndex
  ip4IcmpInput : n.ip4IcmpInput ≠ n.txNodeIndex
  unregistered : n.unregistered ≠ n.txNodeIndex

theorem tapInjectEnable_bound {v : CplaneNetdev} (h : tapInjectIsEnabled v = false) :
    BoundToPlugin v.nodes (tapInjectEnable v).dispatch := by
  rw [tapInjectEnable, if_neg (Bool.eq_false_iff.mp h)]
  constructor
  · rfl
  · intro p hp
    simp only [tapProtocols, List.mem_cons, List.not_mem_nil, or_false] at hp
    rcases hp with rfl | rfl | rfl | rfl <;> rfl

theorem tapInjectDisable_unbound {v : CplaneNetdev} (hn : v.nodes.Distinct)
    (h : tapInjectIsEnabled v = true) :
    UnboundFromPlugin v.nodes (tapInjectDisable v).dispatch := by
  rw [tapInjectDisable, if_neg (not_not.mpr h)]
  constructor
  · exact hn.arpInput
  · intro p hp
    simp only [tapProtocols, List.mem_cons, List.not_mem_nil, or_false] at hp
    rcases hp with rfl | rfl | rfl | rfl
    · exact hn.ip4IcmpInput
    all_goals exact hn.unregistered

/-- The flag says which of the two the entries are. -/
structure DispatchInvariant (v : CplaneNetdev) : Prop where
  distinct : v.nodes.Distinct
  enabled : tapInjectIsEnabled v = true → BoundToPlugin v.nodes v.dispatch
  disabled : tapInjectIsEnabled v = false → UnboundFromPlugin v.nodes v.dispatch

namespace DispatchInvariant

variable {v w : CplaneNetdev}

theorem congr (h : DispatchInvariant v) (hflag : tapInjectIsEnabled w = tapInjectIsEnabled v)
    (hnodes : w.nodes = v.nodes) (hdispatch : w.dispatch = v.dispatch) : DispatchInvariant w := by
  constructor
  · rw [hnodes]
    exact h.distinct
  · rw [hflag, hnodes, hdispatch]
    exact h.enabled
  · rw [hflag, hnodes, hdispatch]
    exact h.disabled

theorem enable (h : DispatchInvariant v) : DispatchInvariant (tapInjectEnable v) := by
  cases hflag : tapInjectIsEnabled v with
  | true =>
    rw [tapInjectEnable, if_pos hflag]
    exact h
  | false =>
    have hon := tapInjectIsEnabled_enable v
    constructor
    · rw [tapInjectEnable_nodes]
      exact h.distinct
    · intro _
      rw [tapInjectEnable_nodes]
      exact tapInjectEnable_bound hflag
    · intro hoff
      rw [hon] at hoff
      cases hoff

theorem disable (h : DispatchInvariant v) : DispatchInvariant (tapInjectDisable v) := by
  cases hflag : tapInjectIsEnabled v with
  | false =>
    rw [tapInjectDisable, if_pos (Bool.eq_false_iff.mp hflag)]
    exact h
  | true =>
    have hoff := tapInjectIsEnabled_disable v
    constructor
    · rw [tapInjectDisable_nodes]
      exact h.distinct
    · intro hon
      rw [hoff] at hon
      cases hon
    · intro _
      rw [tapInjectDisable_nodes]
      exact tapInjectDisable_unbound h.distinct hflag

theorem enableDisableAllInterfaces (kernel : Kernel) (pool : HwPool) (enable : Bool)
    (h : DispatchInvariant v) :
    DispatchInvariant (tapInjectEnableDisableAllInterfaces kernel pool v enable).1 := by
  have hswitch : DispatchInvariant (switched v enable) := by
    cases enable
    · exact h.disable
    · exact h.enable
  have hcontrol := tapInjectEnableDisableAllInterfaces_control kernel pool v enable
  have hflags : (tapInjectEnableDisableAllInterfaces kernel pool v enable).1.flags =
      (switched v enable).flags := congrArg TapControl.flags hcontrol
  exact hswitch.congr (tapInjectIsEnabled_congr hflags) (congrArg TapControl.nodes hcontrol)
    (congrArg TapControl.dispatch hcontrol)

theorem configFlag (h : DispatchInvariant v) :
    DispatchInvariant { v with flags := v.flags ||| TAP_INJECT_F_CONFIG_ENABLE } ∧
      DispatchInvariant { v with flags := v.flags &&& ~~~TAP_INJECT_F_CONFIG_ENABLE } := by
  have hset : (v.flags ||| TAP_INJECT_F_CONFIG_ENABLE) &&& TAP_INJECT_F_ENABLED =
      v.flags &&& TAP_INJECT_F_ENABLED := by
    rw [or_and_distrib]
    exact UInt32.or_zero
  have hclear : v.flags &&& ~~~TAP_INJECT_F_CONFIG_ENABLE &&& TAP_INJECT_F_ENABLED =
      v.flags &&& TAP_INJECT_F_ENABLED := by
    rw [UInt32.and_assoc]
    rfl
  constructor
  · refine h.congr ?_ rfl rfl
    simp only [tapInjectIsEnabled, hset]
  · refine h.congr ?_ rfl rfl
    simp only [tapInjectIsEnabled, hclear]

theorem handler (kernel : Kernel) (pool : HwPool) (isEnable : UInt8) (h : DispatchInvariant v) :
    DispatchInvariant (vlApiTapInjectEnableDisableHandler kernel pool v isEnable).1 := by
  have hall := h.enableDisableAllInterfaces kernel pool (decide (isEnable ≠ 0))
  unfold vlApiTapInjectEnableDisableHandler
  rcases hres : tapInjectEnableDisableAllInterfaces kernel pool v (decide (isEnable ≠ 0))
    with ⟨w, _ | err⟩ <;> rw [hres] at hall
  · exact hall
  · exact hall.enableDisableAllInterfaces kernel pool false

theorem command (kernel : Kernel) (pool : HwPool) (functionArg : Bool)
    (h : DispatchInvariant v) :
    DispatchInvariant (enableDisableTapInjectCmdFn kernel pool v functionArg).1 := by
  unfold enableDisableTapInjectCmdFn
  cases functionArg with
  | false => exact (h.enableDisableAllInterfaces kernel pool false).configFlag.2
  | true =>
    cases tapInjectIsConfigDisabled v with
    | true => exact h
    | false =>
      have hall := h.enableDisableAllInterfaces kernel pool true
      rcases hres : tapInjectEnableDisableAllInterfaces kernel pool v true
        with ⟨w, _ | err⟩ <;> rw [hres] at hall
      · exact hall.configFlag.1
      · exact hall.enableDisableAllInterfaces kernel pool false

theorem step (s : RequestStep) (h : DispatchInvariant v) : DispatchInvariant (requestStep v s) := by
  unfold requestStep
  cases s.request with
  | api isEnable => exact h.handler s.kernel s.pool isEnable
  | cli functionArg => exact h.command s.kernel s.pool functionArg

theorem run (steps : List RequestStep) (h : DispatchInvariant v) :
    DispatchInvariant (requestRun v steps) := by
  induction steps generalizing v with
  | nil => exact h
  | cons s rest ih => exact ih (h.step s)

/-- The entries cannot be both, so the flag is set exactly if they are bound. -/
theorem enabled_iff (h : DispatchInvariant v) :
    tapInjectIsEnabled v = true ↔ BoundToPlugin v.nodes v.dispatch := by
  refine ⟨h.enabled, fun hbound => ?_⟩
  by_contra hoff
  exact (h.disabled (Bool.eq_false_iff.mpr hoff)).arp hbound.arp

end DispatchInvariant

/-- In every state that requests reach from the initialised plugin, the flag is set
exactly if ARP and the four protocols are bound to the plugin's nodes, and none of them
is while it is clear. -/
theorem tapInject_flag_iff_bound (nodes : GraphNodes) (dispatch : Dispatch)
    (hnodes : nodes.Distinct) (hfree : UnboundFromPlugin nodes dispatch)
    (steps : List RequestStep) :
    let v := requestRun (CplaneNetdev.init nodes dispatch) steps
    (tapInjectIsEnabled v = true ↔ BoundToPlugin v.nodes v.dispatch) ∧
      (tapInjectIsEnabled v = false → UnboundFromPlugin v.nodes v.dispatch) := by
  have hflag : (0 : UInt32) &&& TAP_INJECT_F_ENABLED = 0 := by decide
  have hoff : tapInjectIsEnabled (CplaneNetdev.init nodes dispatch) = false :=
    decide_eq_false (not_not.mpr hflag)
  have hinit : DispatchInvariant (CplaneNetdev.init nodes dispatch) :=
    ⟨hnodes, fun hon => absurd (hoff.symm.trans hon) Bool.false_ne_true, fun _ => hfree⟩
  have hrun := hinit.run steps
  exact ⟨hrun.enabled_iff, hrun.disabled⟩

def requestOne (isEnable : UInt8) (fd : UInt32) (fionbio : Bool) : RequestStep where
  request := .api isEnable
  pool := oneInterfacePool
  kernel := Kernel.ofCalls ⟨some fd, some 3, fionbio, some 20, true, true⟩

/-- Enabled, then enabled again with a failing kernel, the plugin is switched off. -/
theorem tapInject_flag_iff_bound_failed :
    let v := requestRun freshPlugin [requestOne 1 10 true, requestOne 1 11 false]
    tapInjectIsEnabled v = false ∧ UnboundFromPlugin v.nodes v.dispatch := by
  have hoff : tapInjectIsEnabled
      (requestRun freshPlugin [requestOne 1 10 true, requestOne 1 11 false]) = false := by
    decide
  have hfree : UnboundFromPlugin freshPlugin.nodes freshPlugin.dispatch := by
    refine ⟨by decide, fun p hp => ?_⟩
    simp only [tapProtocols, List.mem_cons, List.not_mem_nil, or_false] at hp
    rcases hp with rfl | rfl | rfl | rfl <;> decide
  exact ⟨hoff, (tapInject_flag_iff_bound _ _ ⟨by decide, by decide, by decide⟩ hfree _).2 hoff⟩

/-! ### What a disable leaves in the tables -/

theorem ethernetType_enable_disable (v : CplaneNetdev) (type : UInt16) :
    (tapInjectDisable (tapInjectEnable v)).dispatch.ethernetType type =
      if type = ETHERNET_TYPE_ARP then v.nodes.arpInput else v.dispatch.ethernetType type := by
  rw [tapInjectDisable, if_neg (not_not.mpr (tapInjectIsEnabled_enable v)),
    tapInjectEnable_nodes]
  by_cases ht : type = ETHERNET_TYPE_ARP
  · subst ht
    rw [if_pos rfl]
    rfl
  · rw [if_neg ht]
    unfold tapInjectEnable
    split <;>
      simp only [ip4RegisterProtocol, ethernetRegisterInputType, Function.update_of_ne ht]

/-- The protocols a disable unregisters. -/
def unregisteredProtocols : List UInt8 := [IP_PROTOCOL_OSPF, IP_PROTOCOL_TCP, IP_PROTOCOL_UDP]

theorem ip4Protocol_enable_disable (v : CplaneNetdev) (p : UInt8) :
    (tapInjectDisable (tapInjectEnable v)).dispatch.ip4Protocol p =
      if p = IP_PROTOCOL_ICMP then v.nodes.ip4IcmpInput
      else if p ∈ unregisteredProtocols then v.nodes.unregistered
      else v.dispatch.ip4Protocol p := by
  rw [tapInjectDisable, if_neg (not_not.mpr (tapInjectIsEnabled_enable v)),
    tapInjectEnable_nodes]
  by_cases hicmp : p = IP_PROTOCOL_ICMP
  · subst hicmp
    rw [if_pos rfl]
    rfl
  · rw [if_neg hicmp]
    by_cases hmem : p ∈ unregisteredProtocols
    · rw [if_pos hmem]
      simp only [unregisteredProtocols, List.mem_cons, List.not_mem_nil, or_false] at hmem
      rcases hmem with rfl | rfl | rfl <;> rfl
    · rw [if_neg hmem]
      simp only [unregisteredProtocols, List.mem_cons, List.not_mem_nil, or_false, not_or] at hmem
      obtain ⟨hospf, htcp, hudp⟩ := hmem
      unfold tapInjectEnable
      split <;>
        simp only [ip4RegisterProtocol, ethernetRegisterInputType, Function.update_of_ne hicmp,
          Function.update_of_ne hospf, Function.update_of_ne htcp, Function.update_of_ne hudp]

/-- With ARP and ICMP bound to VPP's own nodes, enabling and disabling gives both tables
back exactly if OSPF, TCP and UDP were not registered. -/
theorem tapInject_enable_disable_iff (v : CplaneNetdev)
    (harp : v.dispatch.ethernetType ETHERNET_TYPE_ARP = v.nodes.arpInput)
    (hicmp : v.dispatch.ip4Protocol IP_PROTOCOL_ICMP = v.nodes.ip4IcmpInput) :
    ((tapInjectDisable (tapInjectEnable v)).dispatch.ethernetType = v.dispatch.ethernetType ∧
        (tapInjectDisable (tapInjectEnable v)).dispatch.ip4Protocol = v.dispatch.ip4Protocol) ↔
      ∀ p ∈ unregisteredProtocols, v.dispatch.ip4Protocol p = v.nodes.unregistered := by
  constructor
  · rintro ⟨-, hip4⟩ p hp
    have hne : p ≠ IP_PROTOCOL_ICMP := by
      rintro rfl
      exact absurd hp (by decide)
    have hreset := ip4Protocol_enable_disable v p
    rw [hip4, if_neg hne, if_pos hp] at hreset
    exact hreset
  · intro hunreg
    constructor
    · funext type
      rw [ethernetType_enable_disable]
      split
      · rename_i ht
        rw [ht, harp]
      · rfl
    · funext p
      rw [ip4Protocol_enable_disable]
      split
      · rename_i hp
        rw [hp, hicmp]
      · split
        · rename_i hp
          exact (hunreg p hp).symm
        · rfl

def udpPlugin (udp : UInt32) : CplaneNetdev :=
  CplaneNetdev.init ⟨1, 2, 3, 4, 0⟩
    ⟨fun _ => 3, fun p => if p = IP_PROTOCOL_ICMP then 4 else if p = IP_PROTOCOL_UDP then udp else 0⟩

theorem tapInject_enable_disable_unregistered :
    (tapInjectDisable (tapInjectEnable (udpPlugin 0))).dispatch.ip4Protocol =
      (udpPlugin 0).dispatch.ip4Protocol := by
  refine ((tapInject_enable_disable_iff (udpPlugin 0) rfl rfl).mpr fun p hp => ?_).2
  simp only [unregisteredProtocols, List.mem_cons, List.not_mem_nil, or_false] at hp
  rcases hp with rfl | rfl | rfl <;> rfl

/-- UDP was bound to node 5, and enabling and disabling leaves it unregistered. -/
theorem tapInject_enable_disable_loses_udp :
    (udpPlugin 5).dispatch.ethernetType ETHERNET_TYPE_ARP = (udpPlugin 5).nodes.arpInput ∧
      (udpPlugin 5).dispatch.ip4Protocol IP_PROTOCOL_ICMP = (udpPlugin 5).nodes.ip4IcmpInput ∧
      (udpPlugin 5).dispatch.ip4Protocol IP_PROTOCOL_UDP = 5 ∧
      (tapInjectDisable (tapInjectEnable (udpPlugin 5))).dispatch.ip4Protocol IP_PROTOCOL_UDP = 0 :=
  ⟨rfl, rfl, rfl, rfl⟩

end Routerd
