import Routerd.LinkCacheSync

/-!
# The administrative state of paired interfaces in VPP

The start-up path masks the flags with `IFF_UP`; the hook of later link messages
masks them with the whole change mask. The two agree unless a message that takes
the interface down also changes another flag that is set afterwards: then the hook
reads a non-zero mask and sets the interface up.
-/

namespace Routerd
open ByteMemory NumeralText InetText KeyedUpdates

/-- The message says that `IFF_UP` may have changed. -/
def ChangesUp (ifi : Mem) : Prop := ifiChange ifi &&& iffUp ≠ 0

instance (ifi : Mem) : Decidable (ChangesUp ifi) := by
  unfold ChangesUp
  infer_instance

/-- The state the hook derives from a message. -/
def hookUp (ifi : Mem) : Bool := decide (ifiFlags ifi &&& ifiChange ifi ≠ 0)

/-- The interface goes down while another changed flag is set. -/
def MisreadsDown (ifi : Mem) : Prop :=
  ChangesUp ifi ∧ ifiFlags ifi &&& iffUp = 0 ∧ ifiFlags ifi &&& ifiChange ifi ≠ 0

private theorem and_iffUp_ne_zero (x : UInt32) : x &&& iffUp ≠ 0 ↔ x.toNat % 2 = 1 := by
  have hval : (x &&& iffUp).toNat = x.toNat % 2 := by
    rw [UInt32.toNat_and]
    exact Nat.and_one_is_mod _
  rw [ne_eq, ← UInt32.toNat_inj, hval]
  change ¬ x.toNat % 2 = 0 ↔ _
  omega

private theorem and_ne_zero_of_up {x y : UInt32} (hx : x &&& iffUp ≠ 0) (hy : y &&& iffUp ≠ 0) :
    x &&& y ≠ 0 := by
  rw [and_iffUp_ne_zero] at hx hy
  intro h
  have hand : x.toNat &&& y.toNat = 0 := by
    rw [← UInt32.toNat_and, h]
    rfl
  have hbit := congrArg (fun n => n.testBit 0) hand
  simp [Nat.testBit_zero, hx, hy] at hbit

/-- When `IFF_UP` changes, the hook sees the bit exactly if it does not misread it. -/
theorem hookUp_eq_adminUp_iff {ifi : Mem} (h : ChangesUp ifi) :
    hookUp ifi = adminUp ifi ↔ ¬ MisreadsDown ifi := by
  by_cases hup : ifiFlags ifi &&& iffUp = 0
  · by_cases hmask : ifiFlags ifi &&& ifiChange ifi = 0
    · simp [hookUp, adminUp, MisreadsDown, hup, hmask]
    · simp [hookUp, adminUp, MisreadsDown, hup, hmask, h]
  · have hmask := and_ne_zero_of_up hup h
    simp [hookUp, adminUp, MisreadsDown, hup, hmask]

theorem linkAnalyzeAndHook_eq (env : Env) (d : Daemon) (link : RtObject) :
    linkAnalyzeAndHook env d link =
      if ChangesUp link.hdr ∧ ifindexKernel2vpp d.interfaces (ifiIndex link.hdr) ≠ 0 then
        setLink env d (ifindexKernel2vpp d.interfaces (ifiIndex link.hdr)) (hookUp link.hdr)
      else .ok d := by
  have hall : ∀ x : UInt32, 0xffffffff &&& x = x := fun x => by
    apply UInt32.toBitVec_inj.mp
    rw [UInt32.toBitVec_and]
    exact BitVec.allOnes_and
  have hself : ∀ x y : UInt32, (x &&& y) &&& y = x &&& y := fun x y => by
    rw [UInt32.and_assoc, UInt32.and_self]
  unfold linkAnalyzeAndHook
  simp only [hall, hself]
  by_cases hc : ChangesUp link.hdr
  · by_cases hv : ifindexKernel2vpp d.interfaces (ifiIndex link.hdr) = 0
    · simp [hv]
    · have hc' : ifiChange link.hdr &&& iffUp ≠ 0 := hc
      simp [hc, hc', hv, hookUp]
  · have hc' : ifiChange link.hdr &&& iffUp = 0 := not_not.mp hc
    simp [hc, hc']

/-- A link notification whose attributes the parser accepts. -/
structure LinkMessage where
  mem : Mem
  type : nlmsgType mem = .newlink
  object : RtObject
  parsed : ofMessage link mem = .ok object

def LinkMessage.body (m : LinkMessage) : Mem := nlmsgBody m.mem

/-- What the hook asks of VPP for one message. -/
def hookWrites (table : List RouterdInterface) (ifi : Mem) : List (UInt32 × Bool) :=
  if ChangesUp ifi ∧ ifindexKernel2vpp table (ifiIndex ifi) ≠ 0 then
    [(ifindexKernel2vpp table (ifiIndex ifi), hookUp ifi)]
  else []

theorem LinkMessage.linkStep (m : LinkMessage) (env : Env) {d : Daemon}
    {table : List RouterdInterface} (hd : d.interfaces = table) :
    ∃ d' cs rs, monitor env d m.mem = .ok d' ∧ Emits d d' cs rs ∧
      LinkStep env (hookWrites table m.body) cs rs := by
  subst hd
  have hmonitor : monitor env d m.mem = linkAnalyzeAndHook env (countLink d true) m.object := by
    simp only [monitor, m.type, monitorNewlink, m.parsed]
    rfl
  have hhdr : m.object.hdr = m.body := rtObject_hdr m.parsed
  rw [hmonitor, linkAnalyzeAndHook_eq, hhdr]
  by_cases hsend : ChangesUp m.body ∧ ifindexKernel2vpp d.interfaces (ifiIndex m.body) ≠ 0
  · obtain ⟨d', cs, rs, hrun, hemits, hstep⟩ := setLink_linkStep env (countLink d true)
      (ifindexKernel2vpp d.interfaces (ifiIndex m.body)) (hookUp m.body)
    refine ⟨d', cs, rs, ?_, (Emits.counter d _).trans hemits, ?_⟩
    · rw [← hrun]
      exact if_pos hsend
    · rw [hookWrites, if_pos hsend]
      exact hstep
  · refine ⟨countLink d true, [], [], if_neg hsend, Emits.counter d _, ?_⟩
    rw [hookWrites, if_neg hsend]
    exact LinkStep.nil env

theorem replay_linkStep (env : Env) (d : Daemon) (ms : List LinkMessage) :
    ∃ d' cs rs, replay env d (ms.map (·.mem)) = .ok d' ∧ Emits d d' cs rs ∧
      LinkStep env (ms.flatMap fun m => hookWrites d.interfaces m.body) cs rs := by
  rw [replay, List.foldlM_map]
  exact foldlM_linkStep env (fun m _ _ hd => m.linkStep env hd) rfl

/-- The `IFF_UP` bit of the last of these link messages that is about `k`. -/
def lastBit (history : List Mem) (k : UInt32) : Option Bool :=
  lastWrite k (history.map fun ifi => (ifiIndex ifi, adminUp ifi))

/-- The last state set for a paired interface is the one of its last link message. -/
def MirrorsAdminState (table : List RouterdInterface) (history : List Mem)
    (writes : List (UInt32 × Bool)) : Prop :=
  ∀ k, Paired table k → ∀ up, lastWrite (ifindexKernel2vpp table k) writes = some up →
    lastBit history k = some up

/-- A message whose `IFF_UP` bit differs from the one before it for its interface
says so in its change mask. -/
def ChangesMarked (links bodies : List Mem) : Prop :=
  ∀ pre ifi post, bodies = pre ++ ifi :: post → ∀ up,
    lastBit (links ++ pre) (ifiIndex ifi) = some up → up ≠ adminUp ifi → ChangesUp ifi

/-- The writes of the synchronisation and of the hook, by kernel interface. -/
def kernelWrites (table : List RouterdInterface) (links bodies : List Mem) :
    List (UInt32 × Bool) :=
  (links.filter fun ifi => ifindexKernel2vpp table (ifiIndex ifi) ≠ 0).map
      (fun ifi => (ifiIndex ifi, adminUp ifi)) ++
    (bodies.filter fun ifi => ChangesUp ifi ∧ ifindexKernel2vpp table (ifiIndex ifi) ≠ 0).map
      (fun ifi => (ifiIndex ifi, hookUp ifi))

private theorem flatMap_ite {α β : Type} (p : α → Prop) [DecidablePred p] (f : α → β)
    (as : List α) : (as.flatMap fun a => if p a then [f a] else []) = (as.filter p).map f := by
  induction as with
  | nil => rfl
  | cons a as ih => by_cases hp : p a <;> simp [hp, ih]

theorem writes_eq_kernelWrites (table : List RouterdInterface) (links bodies : List Mem) :
    links.flatMap (syncWrites table) ++ bodies.flatMap (hookWrites table) =
      (kernelWrites table links bodies).map fun u => (ifindexKernel2vpp table u.1, u.2) := by
  have hsync : syncWrites table = fun ifi =>
      if ifindexKernel2vpp table (ifiIndex ifi) ≠ 0 then
        [(ifindexKernel2vpp table (ifiIndex ifi), adminUp ifi)] else [] := by
    funext ifi
    rw [syncWrites, ite_not]
  have hhook : hookWrites table = fun ifi =>
      if ChangesUp ifi ∧ ifindexKernel2vpp table (ifiIndex ifi) ≠ 0 then
        [(ifindexKernel2vpp table (ifiIndex ifi), hookUp ifi)] else [] := rfl
  rw [hsync, hhook, flatMap_ite, flatMap_ite, kernelWrites, List.map_append, List.map_map,
    List.map_map]
  rfl

theorem lastWrite_eq_kernelWrites {table : List RouterdInterface} (htable : InjectivePairs table)
    (links bodies : List Mem) {k : UInt32} (hk : Paired table k) :
    lastWrite (ifindexKernel2vpp table k)
        (links.flatMap (syncWrites table) ++ bodies.flatMap (hookWrites table)) =
      lastWrite k (kernelWrites table links bodies) := by
  rw [writes_eq_kernelWrites]
  apply lastWrite_map_key
  intro u _ hu
  exact (htable.eq_of_eq hk hu.symm).symm

theorem lastBit_concat (history : List Mem) (ifi : Mem) (k : UInt32) :
    lastBit (history ++ [ifi]) k = if ifiIndex ifi = k then some (adminUp ifi)
      else lastBit history k := by
  rw [lastBit, List.map_append]
  exact lastWrite_concat k _ _

theorem lastWrite_kernelWrites_nil {table : List RouterdInterface}
    (htable : InjectivePairs table) (links : List Mem) {k : UInt32} (hk : Paired table k) :
    lastWrite k (kernelWrites table links []) = lastBit links k := by
  rw [kernelWrites, List.filter_nil, List.map_nil, List.append_nil]
  apply lastWrite_filter
  intro ifi _ hidx
  obtain rfl : ifiIndex ifi = k := hidx
  exact decide_eq_true (htable.ne_zero hk)

theorem lastWrite_kernelWrites_concat (table : List RouterdInterface) (links pre : List Mem)
    (ifi : Mem) (k : UInt32) :
    lastWrite k (kernelWrites table links (pre ++ [ifi])) =
      if (ChangesUp ifi ∧ ifindexKernel2vpp table (ifiIndex ifi) ≠ 0) ∧ ifiIndex ifi = k then
        some (hookUp ifi)
      else lastWrite k (kernelWrites table links pre) := by
  by_cases hsend : ChangesUp ifi ∧ ifindexKernel2vpp table (ifiIndex ifi) ≠ 0
  · have hsplit : kernelWrites table links (pre ++ [ifi]) =
        kernelWrites table links pre ++ [(ifiIndex ifi, hookUp ifi)] := by
      simp [kernelWrites, hsend]
    rw [hsplit, lastWrite_concat]
    simp [hsend]
  · have hsame : kernelWrites table links (pre ++ [ifi]) = kernelWrites table links pre := by
      simp [kernelWrites, hsend]
    rw [hsame, if_neg fun h => hsend h.1]

private theorem mirrors_step {table : List RouterdInterface} (htable : InjectivePairs table)
    {links pre : List Mem} {ifi : Mem} {k : UInt32} (hk : Paired table k)
    (hprev : ∀ up, lastWrite k (kernelWrites table links pre) = some up →
      lastBit (links ++ pre) k = some up)
    (hmarked : ∀ up, lastBit (links ++ pre) (ifiIndex ifi) = some up → up ≠ adminUp ifi →
      ChangesUp ifi)
    (hread : Paired table (ifiIndex ifi) → ¬ MisreadsDown ifi) (up : Bool)
    (h : lastWrite k (kernelWrites table links (pre ++ [ifi])) = some up) :
    lastBit (links ++ (pre ++ [ifi])) k = some up := by
  rw [lastWrite_kernelWrites_concat] at h
  rw [← List.append_assoc, lastBit_concat]
  by_cases hidx : ifiIndex ifi = k
  · subst hidx
    rw [if_pos rfl]
    by_cases hc : ChangesUp ifi
    · rw [if_pos ⟨⟨hc, htable.ne_zero hk⟩, rfl⟩, (hookUp_eq_adminUp_iff hc).mpr (hread hk)] at h
      exact h
    · rw [if_neg fun h' => hc h'.1.1] at h
      by_contra hne
      exact hc (hmarked up (hprev up h) fun heq => hne (by rw [heq]))
  · rw [if_neg fun h' => hidx h'.2] at h
    rw [if_neg hidx]
    exact hprev up h

/-- The mirror holds after every prefix exactly if no message is misread. -/
theorem mirrors_prefixes_iff {table : List RouterdInterface} (htable : InjectivePairs table)
    {links bodies : List Mem} (hmarked : ChangesMarked links bodies) :
    (∀ pre, pre <+: bodies → MirrorsAdminState table (links ++ pre)
      (links.flatMap (syncWrites table) ++ pre.flatMap (hookWrites table))) ↔
      ∀ ifi ∈ bodies, Paired table (ifiIndex ifi) → ¬ MisreadsDown ifi := by
  constructor
  · intro h ifi hifi hpaired hmis
    obtain ⟨pre, post, rfl⟩ := List.append_of_mem hifi
    have hlast := h (pre ++ [ifi]) ⟨post, by simp⟩ (ifiIndex ifi) hpaired (hookUp ifi)
    rw [lastWrite_eq_kernelWrites htable _ _ hpaired, lastWrite_kernelWrites_concat,
      if_pos ⟨⟨hmis.1, htable.ne_zero hpaired⟩, rfl⟩, ← List.append_assoc, lastBit_concat,
      if_pos rfl] at hlast
    exact (hookUp_eq_adminUp_iff hmis.1).mp (Option.some.inj (hlast rfl)).symm hmis
  · intro hread pre hpre k hk up h
    rw [lastWrite_eq_kernelWrites htable _ _ hk] at h
    induction pre using List.reverseRecOn generalizing up with
    | nil =>
      rw [lastWrite_kernelWrites_nil htable _ hk] at h
      rwa [List.append_nil]
    | append_singleton pre ifi ih =>
      obtain ⟨post, hpost⟩ := hpre
      have hsplit : bodies = pre ++ ifi :: post := by simp [← hpost]
      refine mirrors_step htable hk (fun up hup => ih ⟨ifi :: post, hsplit.symm⟩ up hup)
        (hmarked pre ifi post hsplit) (hread ifi ?_) up h
      rw [hsplit]
      simp

private theorem run_flagWrites {env : Env} (hconn : Connects env) (d : Daemon)
    (ms : List LinkMessage) :
    ∃ d₁ d₂ rs, vppSyncWithNlc env d = .ok d₁ ∧ replay env d₁ (ms.map (·.mem)) = .ok d₂ ∧
      d₂.requests = d.requests ++ rs ∧ rs.flatMap flagWrites =
        d.links.flatMap (syncWrites d.interfaces) ++
          (ms.map (·.body)).flatMap (hookWrites d.interfaces) := by
  obtain ⟨d₁, cs, rs, hsync, hemits, hstep⟩ := vppSyncWithNlc_linkStep env d
  obtain ⟨d₂, cs', rs', hrun, hemits', hstep'⟩ := replay_linkStep env d₁ ms
  refine ⟨d₁, d₂, rs ++ rs', hsync, hrun, (hemits.trans hemits').requests, ?_⟩
  rw [List.flatMap_append, hstep.connected hconn, hstep'.connected hconn, hemits.interfaces,
    List.flatMap_map]

/-- In every state of a run, start-up synchronisation included, the last state set
for each paired interface is that of its last link message, exactly if no message
that takes a paired interface down has another changed flag set. -/
theorem linkAdminState_iff (env : Env) (hconn : Connects env) (d : Daemon)
    (htable : InjectivePairs d.interfaces) (ms : List LinkMessage)
    (hmarked : ChangesMarked d.links (ms.map (·.body))) :
    (∀ pre, pre <+: ms → ∃ d₁ d₂ rs, vppSyncWithNlc env d = .ok d₁ ∧
      replay env d₁ (pre.map (·.mem)) = .ok d₂ ∧ d₂.requests = d.requests ++ rs ∧
      MirrorsAdminState d.interfaces (d.links ++ pre.map (·.body)) (rs.flatMap flagWrites)) ↔
      ∀ m ∈ ms, Paired d.interfaces (ifiIndex m.body) → ¬ MisreadsDown m.body := by
  have hbodies : (∀ m ∈ ms, Paired d.interfaces (ifiIndex m.body) → ¬ MisreadsDown m.body) ↔
      ∀ ifi ∈ ms.map (·.body), Paired d.interfaces (ifiIndex ifi) → ¬ MisreadsDown ifi := by
    simp
  rw [hbodies, ← mirrors_prefixes_iff htable hmarked]
  constructor
  · intro h pre hpre
    obtain ⟨ms', hms', rfl⟩ : ∃ ms', ms' <+: ms ∧ ms'.map (·.body) = pre := by
      refine ⟨ms.take pre.length, List.take_prefix _ _, ?_⟩
      rw [List.map_take]
      exact (List.prefix_iff_eq_take.mp hpre).symm
    obtain ⟨d₁, d₂, rs, hsync, hrun, hreq, hmirror⟩ := h ms' hms'
    obtain ⟨e₁, e₂, rs', hsync', hrun', hreq', hwrites⟩ := run_flagWrites hconn d ms'
    rw [hsync] at hsync'
    cases hsync'
    rw [hrun] at hrun'
    cases hrun'
    rw [hreq, List.append_cancel_left_eq] at hreq'
    subst hreq'
    rwa [hwrites] at hmirror
  · intro h pre hpre
    obtain ⟨d₁, d₂, rs, hsync, hrun, hreq, hwrites⟩ := run_flagWrites hconn d pre
    refine ⟨d₁, d₂, rs, hsync, hrun, hreq, ?_⟩
    rw [hwrites]
    exact h _ (hpre.map _)

def newLinkFive (flags : ℕ) : Mem :=
  nlmsgBytes 16 (ifinfomsgBytes 5 flags 0xffffffff ++ rtattrBytes 4 (bytes32 1500))

theorem newLinkFive_message {flags : ℕ} (h : (ofMessage link (newLinkFive flags)).isOk = true) :
    ∃ m : LinkMessage, m.mem = newLinkFive flags := by
  cases hobj : ofMessage link (newLinkFive flags) with
  | error e =>
    rw [hobj] at h
    cases h
  | ok object => exact ⟨⟨newLinkFive flags, rfl, object, hobj⟩, rfl⟩

theorem changesMarked_newLinkFive {ms : List LinkMessage}
    (h : ∀ m ∈ ms, ∃ flags, m.mem = newLinkFive flags) : ChangesMarked [] (ms.map (·.body)) := by
  intro pre ifi post hsplit up _ _
  obtain ⟨m, hm, rfl⟩ : ∃ m ∈ ms, m.body = ifi := by
    rw [← List.mem_map, hsplit]
    exact List.mem_append_right _ List.mem_cons_self
  obtain ⟨flags, hflags⟩ := h m hm
  have hchange : ifiChange (nlmsgBody (newLinkFive flags)) = ifiChange (nlmsgBody (newLinkFive 0)) :=
    rfl
  rw [ChangesUp, LinkMessage.body, hflags, hchange]
  decide

/-- The interface goes up, down and up again. -/
theorem linkAdminState_iff_up :
    ∃ up down : LinkMessage, up.mem = newLinkFive 1 ∧ down.mem = newLinkFive 0 ∧
      InjectivePairs pairFiveSeven ∧ ChangesMarked [] ([up, down, up].map (·.body)) ∧
      ∀ pre, pre <+: [up, down, up] → ∃ d₁ d₂ rs,
        vppSyncWithNlc (plainEnv .empty) (Daemon.start pairFiveSeven []) = .ok d₁ ∧
        replay (plainEnv .empty) d₁ (pre.map (·.mem)) = .ok d₂ ∧ d₂.requests = rs ∧
        MirrorsAdminState pairFiveSeven (pre.map (·.body)) (rs.flatMap flagWrites) := by
  obtain ⟨up, hup⟩ :=
    newLinkFive_message (show (ofMessage link (newLinkFive 1)).isOk = true from rfl)
  obtain ⟨down, hdown⟩ :=
    newLinkFive_message (show (ofMessage link (newLinkFive 0)).isOk = true from rfl)
  have hmarked : ChangesMarked [] ([up, down, up].map (·.body)) :=
    changesMarked_newLinkFive (by simp [hup, hdown])
  have hiff := linkAdminState_iff (plainEnv .empty) (fun _ => rfl) (Daemon.start pairFiveSeven [])
    pairFiveSeven_injective [up, down, up] hmarked
  refine ⟨up, down, hup, hdown, pairFiveSeven_injective, hmarked, hiff.mpr ?_⟩
  have hread : ∀ m ∈ [up, down, up], ¬ MisreadsDown m.body := by
    have hup' : ¬ MisreadsDown up.body := by
      rw [LinkMessage.body, hup]
      exact fun hmis => absurd hmis.2.1 (by decide)
    have hdown' : ¬ MisreadsDown down.body := by
      rw [LinkMessage.body, hdown]
      exact fun hmis => absurd hmis.2.2 (by decide)
    simp [hup', hdown']
  exact fun m hm _ => hread m hm

/-- A link that appears down, with broadcast and multicast set, is set up in VPP. -/
theorem linkAdminState_down_misread :
    ∃ m : LinkMessage, InjectivePairs pairFiveSeven ∧ ChangesMarked [] [m.body] ∧ ∃ d₁ d₂,
      vppSyncWithNlc (plainEnv .empty) (Daemon.start pairFiveSeven []) = .ok d₁ ∧
      replay (plainEnv .empty) d₁ [m.mem] = .ok d₂ ∧
      lastWrite 7 (d₂.requests.flatMap flagWrites) = some true ∧
      lastBit [m.body] 5 = some false ∧
      ¬ MirrorsAdminState pairFiveSeven [m.body] (d₂.requests.flatMap flagWrites) := by
  obtain ⟨m, hm⟩ := newLinkFive_message
    (show (ofMessage link (newLinkFive 0x1002)).isOk = true from rfl)
  have hsent : ((replay (plainEnv .empty) (Daemon.start pairFiveSeven [])
      [newLinkFive 0x1002]).toOption.map fun d => lastWrite 7 (d.requests.flatMap flagWrites)) =
      some (some true) := by decide +kernel
  obtain ⟨d₂, hrun, hlast⟩ := ok_of_toOption_map hsent
  have hbit : lastBit [m.body] 5 = some false := by
    rw [LinkMessage.body, hm]
    decide +kernel
  have hmarked : ChangesMarked [] ([m].map (·.body)) := changesMarked_newLinkFive (by simp [hm])
  refine ⟨m, pairFiveSeven_injective, hmarked, _, d₂, rfl, ?_, hlast, hbit, ?_⟩
  · rw [hm]
    exact hrun
  · intro hmirror
    have hfive := hmirror 5 ⟨_, List.mem_cons_self, rfl⟩ true hlast
    rw [hbit] at hfive
    cases hfive

end Routerd
