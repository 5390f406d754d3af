import Routerd.FifoPeer
import Routerd.VppCommands

/-!
# What `show vpp interface` collects

The command dumps the interfaces and asks for the addresses of each one while it still reads
the dump. VPP answers in the order of the requests, so the answer to the first ping comes
behind all interfaces and before the first address, and the answer to the second ping behind
the last address. However VPP and the command are scheduled, each loop reads its own details
and no others, and the table ends with every interface once, with exactly its addresses.
-/

namespace Routerd
open ByteMemory NumeralText Dialogue

namespace VppCli

/-- A message: its number, the context of its request and the rest. -/
def message (id : UInt16) (context : UInt32) (body : Mem) : Mem :=
  [UInt8.ofNat (id.toNat / 256), UInt8.ofNat id.toNat] ++ (bytes32 context.toNat ++ body)

def body (msg : Mem) : Mem := msg.drop 6

def indexed (index : UInt32) (rest : Mem) : Mem := bytes32 (swap32 index).toNat ++ rest

/-- An interface of VPP: the rest of its details, and of the details of its addresses. -/
structure VppInterface where
  index : UInt32
  details : Mem
  addrs4 : List Mem
  addrs6 : List Mem

/-- VPP's interfaces and the numbers of its messages. -/
structure VppConfig where
  interfaces : List VppInterface
  distinct : (interfaces.map VppInterface.index).Nodup
  small : ∀ v ∈ interfaces, v.index.toNat < 256
  few : ∀ v ∈ interfaces, v.addrs4.length + v.addrs6.length ≤ 256
  pongId : UInt16
  pongBody : Mem
  detailsId : UInt16
  addressId : UInt16
  details_ne : detailsId ≠ pongId
  address_ne : addressId ≠ pongId

namespace VppConfig

variable (cfg : VppConfig)

def addrs (index : UInt32) (isIpv6 : Bool) : List Mem :=
  match cfg.interfaces.find? (·.index == index) with
  | none => []
  | some v => if isIpv6 then v.addrs6 else v.addrs4

/-- What VPP answers to a request, in order. -/
def replies : CliRequest → List Mem
  | .swInterfaceDump _ context =>
    cfg.interfaces.map fun v => message cfg.detailsId context (indexed v.index v.details)
  | .controlPing _ context => [message cfg.pongId context cfg.pongBody]
  | .ipAddressDump _ context swIfIndex isIpv6 =>
    (cfg.addrs (swap32 swIfIndex) isIpv6).map fun a =>
      message cfg.addressId context (indexed (swap32 swIfIndex) a)
  | _ => []

/-- VPP accepts the connection, and a message is waited for as long as it takes. -/
def port : (i : VppOp) → Port CliRequest Mem (VppOp.Answer i)
  | .connect _ => .plain fun client : Option UInt32 => client ≠ none
  | .send r => .send r ()
  | .svmQueueSub _ => .take fun msg => (some msg : Option Mem)
  | .disconnect => .plain fun _ => True
  | .random => .plain fun _ => True
  | .ifIndextoname _ => .plain fun _ => True

/-- The table holds each interface with its details and its addresses, and nothing else. -/
structure Listed (table : Interfaces) : Prop where
  present : ∀ v ∈ cfg.interfaces, (table v.index.toNat).enable = true ∧
    body (table v.index.toNat).link = indexed v.index v.details ∧
    (table v.index.toNat).addrs.map body = (v.addrs4 ++ v.addrs6).map (indexed v.index)
  absent : ∀ i, (∀ v ∈ cfg.interfaces, v.index.toNat ≠ i) → table i = ⟨false, [], []⟩

end VppConfig

/-- What a history shows of the pings and the messages. -/
inductive Mark where
  | ping
  | received (id : ℕ) (body : Mem)
  deriving DecidableEq

def mark : Event VppOp.Answer → Option Mark
  | ⟨.send (.controlPing _ _), _⟩ => some .ping
  | ⟨.svmQueueSub _, msg⟩ => Option.map (fun m : Mem => .received (msgId m) (body m)) msg
  | _ => none

namespace VppConfig

variable (cfg : VppConfig)

def pongMark : Mark := .received cfg.pongId.toNat cfg.pongBody

def detailsMark (v : VppInterface) : Mark :=
  .received cfg.detailsId.toNat (indexed v.index v.details)

def addrMarks (v : VppInterface) : List Mark :=
  (v.addrs4 ++ v.addrs6).map fun a => .received cfg.addressId.toNat (indexed v.index a)

/-- Between the pings exactly the interfaces and the first answer, behind them exactly the
addresses and the second answer. -/
def expectedMarks : List Mark :=
  .ping :: (cfg.interfaces.map cfg.detailsMark ++ cfg.pongMark :: .ping ::
    (cfg.interfaces.flatMap cfg.addrMarks ++ [cfg.pongMark]))

def rounds : ℕ := cfg.interfaces.length + (cfg.interfaces.flatMap cfg.addrMarks).length + 1

end VppConfig

/-! ### Messages -/

theorem msgId_message (id : UInt16) (context : UInt32) (rest : Mem) :
    msgId (message id context rest) = id.toNat := by
  have hid := id.toNat_lt
  change 256 * (UInt8.ofNat (id.toNat / 256)).toNat + (UInt8.ofNat id.toNat).toNat = id.toNat
  rw [UInt8.toNat_ofNat', UInt8.toNat_ofNat']
  omega

theorem body_message (id : UInt16) (context : UInt32) (rest : Mem) :
    body (message id context rest) = rest := rfl

theorem word_eq (msg : Mem) : word msg = swap32 (le32 (body msg) 0) := by
  simp [word, body, le32, le16, byteAt, List.getElem?_drop]

theorem word_indexed (index : UInt32) (rest : Mem) :
    swap32 (le32 (indexed index rest) 0) = index := by
  have hread : le32 (indexed index rest) 0 = swap32 index :=
    UInt32.toNat_inj.mp (le32_bytes32 (swap32 index).toNat_lt rest)
  rw [hread, swap32_swap32]

theorem word_message (id : UInt16) (context index : UInt32) (rest : Mem) :
    word (message id context (indexed index rest)) = index := by
  rw [word_eq, body_message, word_indexed]

/-! ### Following the command -/

section Following

variable (cfg : VppConfig) {α : Type} {post : α → List Mem × List (Event VppOp.Answer) → Prop}
  {ms : List Mem} {h : List (Event VppOp.Answer)}

/-- The session holds on its own, with VPP's answers. -/
def VppConfig.Follows (p : Session α) (post : α → List Mem × List (Event VppOp.Answer) → Prop)
    (t : List Mem × List (Event VppOp.Answer)) : Prop :=
  p.wp (Exchange.spec VppConfig.port cfg.replies) False post t

theorem follows_bind {β : Type} {p : Session α} {f : α → Session β}
    {post : β → List Mem × List (Event VppOp.Answer) → Prop}
    {t : List Mem × List (Event VppOp.Answer)}
    (hp : cfg.Follows p (fun a => cfg.Follows (f a) post) t) : cfg.Follows (p >>= f) post t := by
  rw [VppConfig.Follows, Prog.wp_bind]
  exact hp

theorem follows_mono {p : Session α} {post post' : α → List Mem × List (Event VppOp.Answer) → Prop}
    {t : List Mem × List (Event VppOp.Answer)} (himp : ∀ a t', post a t' → post' a t')
    (hp : cfg.Follows p post t) : cfg.Follows p post' t :=
  Prog.wp_mono Exchange.spec_mono himp hp

theorem follows_connect {f : Option UInt32 → Session α} {noRx : Bool}
    (hf : ∀ client, cfg.Follows (f (some client)) post
      (ms, h ++ [⟨.connect noRx, some (client : UInt32)⟩])) :
    cfg.Follows (connectToVpp noRx >>= f) post (ms, h) := by
  refine ⟨⟨some (0 : UInt32), Option.some_ne_none _⟩, fun client hclient => ?_⟩
  cases client with
  | none => exact absurd rfl hclient
  | some client => exact hf client

theorem follows_random {f : ℕ → Session α}
    (hf : ∀ x, cfg.Follows (f x) post (ms, h ++ [⟨.random, (x : ℕ)⟩])) :
    cfg.Follows (random >>= f) post (ms, h) :=
  ⟨⟨(0 : ℕ), trivial⟩, fun x _ => hf x⟩

theorem follows_disconnect {f : Unit → Session α}
    (hf : cfg.Follows (f ()) post (ms, h ++ [⟨.disconnect, ()⟩])) :
    cfg.Follows (disconnectFromVpp >>= f) post (ms, h) :=
  ⟨⟨(), trivial⟩, fun _ _ => hf⟩

theorem follows_send {r : CliRequest} {f : Unit → Session α}
    (hf : cfg.Follows (f ()) post (ms ++ cfg.replies r, h ++ [⟨.send r, ()⟩])) :
    cfg.Follows (send r >>= f) post (ms, h) := hf

theorem follows_svmQueueSub {seconds : ℕ} {m : Mem} {f : Option Mem → Session α}
    (hf : cfg.Follows (f (some m)) post (ms, h ++ [⟨.svmQueueSub seconds, some (m : Mem)⟩])) :
    cfg.Follows (svmQueueSub seconds >>= f) post (m :: ms, h) :=
  ⟨m, ms, rfl, hf⟩

/-- A receive loop over messages that are no pong, with a pong behind them. Each round may add
to what lies behind the pong. -/
theorem follows_untilPong {σ : Type} {pong seconds : ℕ} {round : σ → Mem → Session σ} {pongMsg : Mem}
    (inv : List Mem → σ → List Mem → List (Event VppOp.Answer) → Prop)
    (hpong : msgId pongMsg = pong)
    (hround : ∀ m ms s rest h, inv (m :: ms) s rest h → msgId m ≠ pong ∧
      cfg.Follows (round s m) (fun s' t => ∃ rest', t.1 = ms ++ pongMsg :: rest' ∧
          inv ms s' rest' t.2)
        (ms ++ pongMsg :: rest, h ++ [⟨.svmQueueSub seconds, some (m : Mem)⟩]))
    {fuel : ℕ} {ms rest : List Mem} {s : σ} {h : List (Event VppOp.Answer)} (hfuel : ms.length < fuel)
    (hinv : inv ms s rest h) :
    cfg.Follows (untilPong pong fuel seconds round s)
      (fun s' t => ∃ h', inv [] s' t.1 h' ∧
        t.2 = h' ++ [⟨.svmQueueSub seconds, some (pongMsg : Mem)⟩])
      (ms ++ pongMsg :: rest, h) := by
  induction ms generalizing fuel rest s h with
  | nil =>
    obtain ⟨fuel, rfl⟩ := Nat.exists_eq_succ_of_ne_zero (Nat.ne_of_gt hfuel)
    refine follows_bind cfg (follows_svmQueueSub cfg ?_)
    simp only [if_pos hpong]
    exact ⟨h, hinv, rfl⟩
  | cons m ms ih =>
    obtain ⟨fuel, rfl⟩ := Nat.exists_eq_succ_of_ne_zero (Nat.ne_of_gt (Nat.zero_lt_of_lt hfuel))
    obtain ⟨hne, hm⟩ := hround m ms s rest h hinv
    refine follows_bind cfg (follows_svmQueueSub cfg ?_)
    simp only [if_neg hne]
    refine follows_bind cfg (follows_mono cfg ?_ hm)
    rintro s' ⟨pend, h'⟩ ⟨rest', rfl, hinv'⟩
    exact ih (Nat.lt_of_succ_lt_succ hfuel) hinv'

end Following

/-! ### The loops -/

def received (msg : Mem) : Mark := .received (msgId msg) (body msg)

def addrTable (table : Interfaces) (msgs : List Mem) : Interfaces :=
  msgs.foldl (fun t m => Function.update t (word m).toNat
    { t (word m).toNat with addrs := (t (word m).toNat).addrs ++ [m] }) table

theorem addrTable_concat (table : Interfaces) (msgs : List Mem) (m : Mem) :
    addrTable table (msgs ++ [m]) = Function.update (addrTable table msgs) (word m).toNat
      { addrTable table msgs (word m).toNat with
        addrs := (addrTable table msgs (word m).toNat).addrs ++ [m] } := by
  simp [addrTable]

theorem addrTable_apply (table : Interfaces) (msgs : List Mem) (i : ℕ) :
    addrTable table msgs i =
      { table i with addrs := (table i).addrs ++ msgs.filter fun m => (word m).toNat = i } := by
  induction msgs using List.reverseRecOn with
  | nil => simp [addrTable]
  | append_singleton msgs m ih =>
    rw [addrTable_concat]
    by_cases hi : i = (word m).toNat
    · subst hi
      rw [Function.update_self, ih]
      simp
    · rw [Function.update_of_ne hi, ih]
      simp [Ne.symm hi]

namespace VppConfig

variable (cfg : VppConfig)

def detailsMsg (context : UInt32) (v : VppInterface) : Mem :=
  message cfg.detailsId context (indexed v.index v.details)

def pongMsg (context : UInt32) : Mem := message cfg.pongId context cfg.pongBody

def linkTable (context : UInt32) (vs : List VppInterface) : Interfaces :=
  vs.foldl (fun t v => Function.update t v.index.toNat
    { t v.index.toNat with link := cfg.detailsMsg context v, enable := true }) Interfaces.cleared

theorem linkTable_concat (context : UInt32) (vs : List VppInterface) (v : VppInterface) :
    cfg.linkTable context (vs ++ [v]) = Function.update (cfg.linkTable context vs) v.index.toNat
      { cfg.linkTable context vs v.index.toNat with
        link := cfg.detailsMsg context v, enable := true } := by
  simp [linkTable]

theorem find?_index {us : List VppInterface} (hdistinct : (us.map VppInterface.index).Nodup)
    {v : VppInterface} (hv : v ∈ us) : us.find? (·.index == v.index) = some v := by
  induction us with
  | nil => cases hv
  | cons u us ih =>
    rw [List.map_cons, List.nodup_cons] at hdistinct
    rcases List.mem_cons.mp hv with rfl | hv
    · simp
    · have hne : u.index ≠ v.index := fun heq =>
        hdistinct.1 (heq ▸ List.mem_map_of_mem hv)
      rw [List.find?_cons_of_neg (by simpa using hne)]
      exact ih hdistinct.2 hv

theorem addrs_of_mem {v : VppInterface} (hv : v ∈ cfg.interfaces) (isIpv6 : Bool) :
    cfg.addrs v.index isIpv6 = if isIpv6 then v.addrs6 else v.addrs4 := by
  rw [addrs, find?_index cfg.distinct hv]

theorem received_addrs {v : VppInterface} (hv : v ∈ cfg.interfaces) (client : UInt32) (x y : UInt32) :
    (cfg.replies (.ipAddressDump client x (swap32 v.index) false) ++
      cfg.replies (.ipAddressDump client y (swap32 v.index) true)).map received =
        cfg.addrMarks v := by
  simp only [replies, swap32_swap32, cfg.addrs_of_mem hv, if_true, if_false, Bool.false_eq_true,
    List.map_append, List.map_map, addrMarks]
  simp only [Function.comp_def, received, msgId_message, body_message]

def LinksRead (context : UInt32) (ms : List Mem) (table : Interfaces) (rest : List Mem)
    (h : List (Event VppOp.Answer)) : Prop :=
  ∃ done left, cfg.interfaces = done ++ left ∧ ms = left.map (cfg.detailsMsg context) ∧
    table = cfg.linkTable context done ∧ rest.map received = done.flatMap cfg.addrMarks ∧
    h.filterMap mark = .ping :: done.map cfg.detailsMark

theorem follows_links {client : UInt32} (context₁ context₂ : UInt32) {fuel : ℕ}
    (hfuel : cfg.interfaces.length < fuel) {h : List (Event VppOp.Answer)}
    (hh : h.filterMap mark = [.ping]) :
    cfg.Follows (untilPong cfg.pongId.toNat fuel 3 (storeLink client) Interfaces.cleared)
      (fun table t => table = cfg.linkTable context₁ cfg.interfaces ∧
        t.1.map received = cfg.interfaces.flatMap cfg.addrMarks ∧
        t.2.filterMap mark = .ping :: (cfg.interfaces.map cfg.detailsMark ++ [cfg.pongMark]))
      (cfg.interfaces.map (cfg.detailsMsg context₁) ++ [cfg.pongMsg context₂], h) := by
  refine follows_mono cfg ?_ (follows_untilPong cfg (cfg.LinksRead context₁)
    (msgId_message _ _ _) ?_ (by simpa using hfuel) ⟨[], cfg.interfaces, rfl, rfl, rfl, rfl, hh⟩)
  · rintro table ⟨rest, h'⟩ ⟨h'', ⟨done, left, hall, hleft, htable, hrest, hmarks⟩, rfl⟩
    obtain rfl : left = [] := List.map_eq_nil_iff.mp hleft.symm
    rw [List.append_nil] at hall
    subst hall
    refine ⟨htable, hrest, ?_⟩
    rw [List.filterMap_append, hmarks]
    simp [mark, pongMark, msgId_message, body_message]
  · rintro m ms table rest h' ⟨done, left, hall, hleft, rfl, hrest, hmarks⟩
    cases left with
    | nil => cases hleft
    | cons v left =>
      obtain ⟨rfl, rfl⟩ := List.cons.inj hleft
      have hv : v ∈ cfg.interfaces := by rw [hall]; simp
      have hword : word (cfg.detailsMsg context₁ v) = v.index := word_message _ _ _ _
      have hid : msgId (cfg.detailsMsg context₁ v) = cfg.detailsId.toNat := msgId_message _ _ _
      refine ⟨?_, ?_⟩
      · rw [hid]
        exact fun heq => cfg.details_ne (UInt16.toNat_inj.mp heq)
      · unfold storeLink
        simp only [hword, if_pos (cfg.small v hv)]
        refine follows_random cfg fun x => follows_send cfg ?_
        refine follows_random cfg fun y => follows_send cfg ?_
        refine ⟨rest ++ (cfg.replies (.ipAddressDump client (context32 x) (swap32 v.index) false) ++
          cfg.replies (.ipAddressDump client (context32 y) (swap32 v.index) true)), ?_, ?_⟩
        · simp
        · refine ⟨done ++ [v], left, ?_, rfl, ?_, ?_, ?_⟩
          · rw [hall]
            simp
          · rw [linkTable_concat]
          · rw [List.map_append, hrest, cfg.received_addrs hv]
            simp
          · simp only [List.filterMap_append, hmarks]
            simp [mark, detailsMark, detailsMsg, msgId_message, body_message]

def AddrsRead (table₀ : Interfaces) (all : List Mem) (before : List Mark) (ms : List Mem)
    (table : Interfaces) (rest : List Mem) (h : List (Event VppOp.Answer)) : Prop :=
  ∃ done, all = done ++ ms ∧ table = addrTable table₀ done ∧ rest = [] ∧
    h.filterMap mark = before ++ done.map received

/-- The second loop reads addresses, if they are for interfaces below 256 and no more than
there is room for. -/
theorem follows_addrs (context : UInt32) {table₀ : Interfaces} {all : List Mem}
    {before : List Mark} {fuel : ℕ} (hfuel : all.length < fuel)
    (hids : ∀ m ∈ all, msgId m ≠ cfg.pongId.toNat) (hsmall : ∀ m ∈ all, (word m).toNat < 256)
    (hroom : ∀ i, (table₀ i).addrs.length + (all.filter fun m => (word m).toNat = i).length ≤ 256)
    {h : List (Event VppOp.Answer)} (hh : h.filterMap mark = before) :
    cfg.Follows (untilPong cfg.pongId.toNat fuel 1 storeAddr table₀)
      (fun table t => table = addrTable table₀ all ∧ t.1 = [] ∧
        t.2.filterMap mark = before ++ (all.map received ++ [cfg.pongMark]))
      (all ++ [cfg.pongMsg context], h) := by
  refine follows_mono cfg ?_ (follows_untilPong cfg (AddrsRead table₀ all before)
    (msgId_message _ _ _) ?_ hfuel ⟨[], rfl, rfl, rfl, by simpa using hh⟩)
  · rintro table ⟨rest, h'⟩ ⟨h'', ⟨done, hall, htable, hrest, hmarks⟩, rfl⟩
    rw [List.append_nil] at hall
    subst hall
    refine ⟨htable, hrest, ?_⟩
    rw [List.filterMap_append, hmarks]
    simp [mark, pongMark, msgId_message, body_message]
  · rintro m ms table rest h' ⟨done, hall, rfl, rfl, hmarks⟩
    have hm : m ∈ all := by rw [hall]; simp
    refine ⟨hids m hm, ?_⟩
    have hcount := hroom (word m).toNat
    rw [hall, List.filter_append, List.filter_cons_of_pos (by simp)] at hcount
    have hlen : (addrTable table₀ done (word m).toNat).addrs.length < 256 := by
      rw [addrTable_apply]
      simp only [List.length_append, List.length_cons] at hcount ⊢
      omega
    unfold storeAddr
    simp only [hsmall m hm, hlen, and_self, if_true]
    refine ⟨[], rfl, done ++ [m], ?_, ?_, rfl, ?_⟩
    · rw [hall]
      simp
    · rw [addrTable_concat]
    · rw [List.filterMap_append, hmarks]
      simp [mark, received]

/-! ### The table -/

theorem linkTable_addrs (context : UInt32) (vs : List VppInterface) (i : ℕ) :
    (cfg.linkTable context vs i).addrs = [] := by
  induction vs using List.reverseRecOn with
  | nil => rfl
  | append_singleton vs v ih =>
    rw [linkTable_concat]
    by_cases hi : i = v.index.toNat
    · subst hi
      rw [Function.update_self]
      exact ih
    · rw [Function.update_of_ne hi]
      exact ih

theorem linkTable_of_mem (context : UInt32) {vs : List VppInterface}
    (hdistinct : (vs.map VppInterface.index).Nodup) {v : VppInterface} (hv : v ∈ vs) :
    cfg.linkTable context vs v.index.toNat = ⟨true, cfg.detailsMsg context v, []⟩ := by
  induction vs using List.reverseRecOn with
  | nil => cases hv
  | append_singleton vs u ih =>
    rw [linkTable_concat]
    rw [List.map_append, List.nodup_append] at hdistinct
    rcases List.mem_append.mp hv with hv | hv
    · have hne : v.index ≠ u.index :=
        hdistinct.2.2 _ (List.mem_map_of_mem hv) _ (List.mem_map_of_mem (List.mem_singleton_self u))
      rw [Function.update_of_ne (fun heq => hne (UInt32.toNat_inj.mp heq))]
      exact ih hdistinct.1 hv
    · obtain rfl := List.mem_singleton.mp hv
      rw [Function.update_self]
      exact congrArg (InterfaceInfo.mk true _) (cfg.linkTable_addrs context vs _)

theorem linkTable_of_notMem (context : UInt32) {vs : List VppInterface} {i : ℕ}
    (h : ∀ v ∈ vs, v.index.toNat ≠ i) : cfg.linkTable context vs i = ⟨false, [], []⟩ := by
  induction vs using List.reverseRecOn with
  | nil => rfl
  | append_singleton vs u ih =>
    have hu := h u (List.mem_append_right _ (List.mem_singleton_self u))
    rw [linkTable_concat, Function.update_of_ne hu.symm]
    exact ih fun v hv => h v (List.mem_append_left _ hv)

end VppConfig

namespace Mark

def index : Mark → ℕ
  | ping => 0
  | received _ body => (swap32 (le32 body 0)).toNat

def body : Mark → Mem
  | ping => []
  | received _ body => body

end Mark

theorem index_received (m : Mem) : (received m).index = (word m).toNat := by
  rw [word_eq]
  rfl

namespace VppConfig

variable (cfg : VppConfig)

theorem index_of_mem_addrMarks {v : VppInterface} {k : Mark} (hk : k ∈ cfg.addrMarks v) :
    k.index = v.index.toNat := by
  obtain ⟨a, -, rfl⟩ := List.mem_map.mp hk
  exact congrArg UInt32.toNat (word_indexed v.index a)

theorem filter_addrMarks {us : List VppInterface} (hdistinct : (us.map VppInterface.index).Nodup)
    {v : VppInterface} (hv : v ∈ us) :
    (us.flatMap cfg.addrMarks).filter (fun k => k.index = v.index.toNat) = cfg.addrMarks v := by
  have hself : (cfg.addrMarks v).filter (fun k => k.index = v.index.toNat) = cfg.addrMarks v :=
    List.filter_eq_self.mpr fun k hk => by simpa using cfg.index_of_mem_addrMarks hk
  induction us with
  | nil => cases hv
  | cons u us ih =>
    rw [List.map_cons, List.nodup_cons] at hdistinct
    rw [List.flatMap_cons, List.filter_append]
    rcases List.mem_cons.mp hv with rfl | hv
    · have hrest : (us.flatMap cfg.addrMarks).filter (fun k => k.index = v.index.toNat) = [] := by
        refine List.filter_eq_nil_iff.mpr fun k hk => ?_
        obtain ⟨w, hw, hk⟩ := List.mem_flatMap.mp hk
        have hne : w.index ≠ v.index := fun heq => hdistinct.1 (heq ▸ List.mem_map_of_mem hw)
        simpa [cfg.index_of_mem_addrMarks hk, UInt32.toNat_inj] using hne
      rw [hself, hrest, List.append_nil]
    · have hne : u.index ≠ v.index := fun heq => hdistinct.1 (heq ▸ List.mem_map_of_mem hv)
      have hfirst : (cfg.addrMarks u).filter (fun k => k.index = v.index.toNat) = [] := by
        refine List.filter_eq_nil_iff.mpr fun k hk => ?_
        simpa [cfg.index_of_mem_addrMarks hk, UInt32.toNat_inj] using hne
      rw [hfirst, List.nil_append]
      exact ih hdistinct.2 hv

section Addresses

variable {cfg} {all : List Mem} (hall : all.map received = cfg.interfaces.flatMap cfg.addrMarks)
include hall

theorem received_mem {m : Mem} (hm : m ∈ all) :
    ∃ v ∈ cfg.interfaces, received m ∈ cfg.addrMarks v := by
  have hmem : received m ∈ cfg.interfaces.flatMap cfg.addrMarks := by
    rw [← hall]
    exact List.mem_map_of_mem hm
  exact List.mem_flatMap.mp hmem

theorem msgId_ne_pong {m : Mem} (hm : m ∈ all) : msgId m ≠ cfg.pongId.toNat := by
  obtain ⟨v, -, hmark⟩ := received_mem hall hm
  obtain ⟨a, -, ha⟩ := List.mem_map.mp hmark
  have hid : cfg.addressId.toNat = msgId m := (Mark.received.inj ha).1
  rw [← hid]
  exact fun heq => cfg.address_ne (UInt16.toNat_inj.mp heq)

theorem word_of_mem {m : Mem} (hm : m ∈ all) :
    ∃ v ∈ cfg.interfaces, (word m).toNat = v.index.toNat := by
  obtain ⟨v, hv, hmark⟩ := received_mem hall hm
  refine ⟨v, hv, ?_⟩
  rw [← index_received, cfg.index_of_mem_addrMarks hmark]

theorem filter_word_of_mem {v : VppInterface} (hv : v ∈ cfg.interfaces) :
    (all.filter fun m => (word m).toNat = v.index.toNat).map received = cfg.addrMarks v := by
  rw [← cfg.filter_addrMarks cfg.distinct hv, ← hall, List.filter_map]
  simp only [Function.comp_def, index_received]

theorem filter_word_of_notMem {i : ℕ} (hi : ∀ v ∈ cfg.interfaces, v.index.toNat ≠ i) :
    (all.filter fun m => (word m).toNat = i) = [] := by
  refine List.filter_eq_nil_iff.mpr fun m hm => ?_
  obtain ⟨v, hv, hword⟩ := word_of_mem hall hm
  simpa [hword] using hi v hv

theorem length_filter_word_le (i : ℕ) : (all.filter fun m => (word m).toNat = i).length ≤ 256 := by
  by_cases hi : ∃ v ∈ cfg.interfaces, v.index.toNat = i
  · obtain ⟨v, hv, rfl⟩ := hi
    have hlen := congrArg List.length (filter_word_of_mem hall hv)
    have hfew := cfg.few v hv
    rw [List.length_map, addrMarks, List.length_map, List.length_append] at hlen
    omega
  · rw [filter_word_of_notMem hall fun v hv heq => hi ⟨v, hv, heq⟩]
    exact Nat.zero_le _

theorem listed_addrTable (context : UInt32) :
    cfg.Listed (addrTable (cfg.linkTable context cfg.interfaces) all) where
  present := by
    intro v hv
    rw [addrTable_apply, cfg.linkTable_of_mem context cfg.distinct hv]
    refine ⟨rfl, rfl, ?_⟩
    have hbody := congrArg (List.map Mark.body) (filter_word_of_mem hall hv)
    rw [List.map_map, addrMarks, List.map_map] at hbody
    exact hbody
  absent := by
    intro i hi
    rw [addrTable_apply, cfg.linkTable_of_notMem context hi, filter_word_of_notMem hall hi]
    rfl

end Addresses

theorem follows_showVppInterface (extra : ℕ) :
    cfg.Follows (showVppInterface cfg.pongId.toNat (cfg.rounds + extra))
      (fun result t => t.1 = [] ∧ t.2.filterMap mark = cfg.expectedMarks ∧
        ∃ table, result = some table ∧ cfg.Listed table) ([], []) := by
  refine follows_connect cfg fun client => ?_
  refine follows_random cfg fun x => follows_send cfg ?_
  refine follows_random cfg fun y => follows_send cfg ?_
  refine follows_bind cfg (follows_mono cfg ?_
    (cfg.follows_links (context32 x) (context32 y) ?_ ?_))
  · rintro table ⟨all, h⟩ ⟨rfl, hall, hmarks⟩
    refine follows_random cfg fun z => follows_send cfg ?_
    have hlen := congrArg List.length hall
    rw [List.length_map] at hlen
    refine follows_bind cfg (follows_mono cfg ?_ (cfg.follows_addrs (context32 z) ?_
      (fun m => msgId_ne_pong hall) ?_ ?_ rfl))
    · rintro table ⟨rest, h'⟩ ⟨rfl, hrest, hmarks'⟩
      refine follows_disconnect cfg ⟨hrest, ?_, _, rfl, listed_addrTable hall _⟩
      rw [List.filterMap_append, hmarks']
      have hrandom : [(⟨.random, z⟩ : Event VppOp.Answer)].filterMap mark = [] := rfl
      have hdisconnect : [(⟨.disconnect, ()⟩ : Event VppOp.Answer)].filterMap mark = [] := rfl
      simp only [List.filterMap_append, hmarks, hall, hrandom, hdisconnect, expectedMarks]
      simp [mark]
    · rw [rounds]
      omega
    · intro m hm
      obtain ⟨v, hv, hword⟩ := word_of_mem hall hm
      rw [hword]
      exact cfg.small v hv
    · intro i
      rw [linkTable_addrs, List.length_nil, Nat.zero_add]
      exact length_filter_word_le hall i
  · rw [rounds]
    omega
  · rfl

/-- However VPP and the command are scheduled, the command ends with every interface once and
exactly its addresses: the first loop has read the interfaces up to the first answer to a ping,
the second one the addresses up to the second, and no message is left. -/
theorem showVppInterface_lists (extra : ℕ) :
    Exchange.Ends port cfg.replies
      (fun result pending h => pending = [] ∧ h.filterMap mark = cfg.expectedMarks ∧
        ∃ table, result = some table ∧ cfg.Listed table)
      [] ⟨showVppInterface cfg.pongId.toNat (cfg.rounds + extra), [], []⟩ :=
  Exchange.ends_of_wp _ [] [] [] (cfg.follows_showVppInterface extra)

def twoInterfaces : VppConfig where
  interfaces :=
    [⟨1, [7], [[10, 0, 0, 1]], [[32, 1, 13, 184]]⟩, ⟨2, [], [[10, 1, 0, 1], [10, 1, 0, 2]], []⟩]
  distinct := by decide
  small := by decide
  few := by decide
  pongId := 771
  pongBody := [1, 2]
  detailsId := 772
  addressId := 773
  details_ne := by decide
  address_ne := by decide

theorem twoInterfaces_lists :
    (twoInterfaces.interfaces.flatMap twoInterfaces.addrMarks).length = 4 ∧
      Exchange.Ends port twoInterfaces.replies
        (fun result pending h => pending = [] ∧ h.filterMap mark = twoInterfaces.expectedMarks ∧
          ∃ table, result = some table ∧ twoInterfaces.Listed table)
        [] ⟨showVppInterface twoInterfaces.pongId.toNat (twoInterfaces.rounds + 3), [], []⟩ :=
  ⟨rfl, twoInterfaces.showVppInterface_lists 3⟩

end VppConfig

end VppCli

end Routerd
