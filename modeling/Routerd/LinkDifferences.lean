import Routerd.LinkCommands

/-!
# The settings printed for links whose attributes changed

The link commands compare a message with the cache entry of its interface. Only a message
with `ifi_change` zero is compared or stored, and only if its interface has an entry, which
the start-up dump alone makes. What is printed is therefore the difference to the previous
message exactly as long as the messages that are not compared, or not stored, change
nothing, and as long as the entry, which lacks the end of its message, can be read back.
-/

namespace Routerd
open ByteMemory NumeralText KeyedUpdates OverwriteStore

/-- A link message that carries an MTU and an address of six bytes. -/
structure LinkState extends NewlinkMessage where
  mtuAttr : Rtattr
  addressAttr : Rtattr
  mtuCarried : newest Rtattr.type list iflaMtu = some mtuAttr
  addressCarried : newest Rtattr.type list iflaAddress = some addressAttr
  mtuLength : mtuAttr.payload.length = 4
  addressLength : addressAttr.payload.length = 6

namespace LinkState

def key (m : LinkState) : UInt32 := m.index

def change (m : LinkState) : UInt32 := ifiChange (nlmsgBody m.own)

def mtu (m : LinkState) : UInt32 := le32 m.mtuAttr.payload 0

def address (m : LinkState) : Fin 6 → UInt8 := bytes 6 m.addressAttr.payload

def SameSettings (m m' : LinkState) : Prop := m.mtu = m'.mtu ∧ m.address = m'.address

end LinkState

/-- What is to be printed for a message after the previous one of its interface. -/
def diffText (names : IfNames) (prev : Option LinkState) (m : LinkState) : Text :=
  match prev with
  | none => []
  | some p =>
    (if p.mtu ≠ m.mtu then mtuSetting (ifindex2str names m.key) m.mtu else []) ++
      (if p.address ≠ m.address then addressSetting (ifindex2str names m.key) m.address else [])

/-- A message as it is received, what lies behind it and behind the cache entry of its
interface, and what the locals hold. -/
structure CliStep where
  msg : LinkState
  behind : Mem
  heap : Mem
  frame : LinkFrame

def cliStep (names : IfNames) (links : List Mem) (s : CliStep) : Except Fault (Text × List Mem) :=
  nlreverseNewlink names s.frame s.heap links (s.msg.own ++ s.behind)

def cliRun (names : IfNames) : List Mem → List CliStep → Except Fault (List Text)
  | _, [] => pure []
  | links, s :: steps => do
    let (text, links') ← cliStep names links s
    let texts ← cliRun names links' steps
    pure (text :: texts)

def dumpCache (dump : List (LinkState × Mem)) : List Mem :=
  dump.foldl (fun links d => (cacheCallback links (d.1.own ++ d.2)).2) []

/-- Each message with `ifi_change` zero prints what differs from the previous message of its
interface, the messages before the sequence being `seen`. -/
def PrintsDifferences (names : IfNames) : List LinkState → List CliStep → List Text → Prop
  | _, [], [] => True
  | seen, s :: steps, text :: texts =>
    (s.msg.change = 0 → text = diffText names (newest LinkState.key seen s.msg.key) s.msg) ∧
      PrintsDifferences names (seen ++ [s.msg]) steps texts
  | _, _, _ => False

/-! ### The runs that print the differences -/

/-- Without the last eight bytes, and with the memory behind the entry in their place, the
attributes still show the MTU and the address. -/
def Survives (m : LinkState) (heap : Mem) : Prop :=
  ∃ kept cut, m.list = kept ++ cut ∧ (∀ a ∈ kept, a.type < maxAttrs) ∧
    (∀ a ∈ cut, a.type ≠ iflaMtu ∧ a.type ≠ iflaAddress) ∧ 8 ≤ (layout cut).length ∧
    QuietFor [iflaMtu, iflaAddress] ((layout cut).take ((layout cut).length - 8) ++ heap)
      ((layout cut).length + 8)

/-- The messages that were stored in the cache, and all messages. -/
structure LinkHistory where
  cached : List LinkState
  seen : List LinkState

namespace LinkHistory

def entry (hist : LinkHistory) (k : UInt32) : Option LinkState := newest LinkState.key hist.cached k

def last (hist : LinkHistory) (k : UInt32) : Option LinkState := newest LinkState.key hist.seen k

def after (hist : LinkHistory) (m : LinkState) : LinkHistory where
  cached := if m.change = 0 ∧ hist.entry m.key ≠ none then hist.cached ++ [m] else hist.cached
  seen := hist.seen ++ [m]

def ofDump (dump : List (LinkState × Mem)) : LinkHistory := ⟨dump.map Prod.fst, dump.map Prod.fst⟩

end LinkHistory

/-- The condition on a message after these ones. -/
structure StepMeets (hist : LinkHistory) (s : CliStep) : Prop where
  index : s.msg.key.toNat < 65536
  types : ∀ a ∈ s.msg.list, a.type < maxAttrs
  quiet : QuietFor linkTypes s.behind 8
  name : NameReadable s.msg.list
  describes : ~~~ s.msg.change = 0 → DescribesLink s.msg.list
  uncompared : s.msg.change = 0 → hist.entry s.msg.key = none →
    ∀ q, hist.last s.msg.key = some q → q.SameSettings s.msg
  unstored : s.msg.change ≠ 0 → hist.entry s.msg.key ≠ none →
    ∀ q, hist.last s.msg.key = some q → q.SameSettings s.msg
  survives : s.msg.change = 0 → ∀ p, hist.entry s.msg.key = some p → Survives p s.heap

def RunMeets : LinkHistory → List CliStep → Prop
  | _, [] => True
  | hist, s :: steps => StepMeets hist s ∧ RunMeets (hist.after s.msg) steps

/-! ### One message -/

theorem NewlinkMessage.ofMessage_link (m : NewlinkMessage)
    (htypes : ∀ a ∈ m.list, a.type < maxAttrs) {types : List ℕ} {behind : Mem}
    (hquiet : QuietFor types behind 8) :
    ∃ obj, ofMessage link (m.own ++ behind) = .ok obj ∧
      obj.hdr = nlmsgBody (m.own ++ behind) ∧ obj.len = m.own.length - 24 ∧
      ∀ t ∈ types, Shows (newest Rtattr.type m.list t) (obj.rtas.get t) := by
  have hlen := m.length_own
  obtain ⟨rtas, hrtas, hshows⟩ := rtaArray_layout_behind htypes hquiet
  refine ⟨⟨nlmsgBody (m.own ++ behind), m.own.length - 24, rtas⟩, ?_, rfl, rfl, hshows⟩
  rw [ofMessage, link, rtObject, m.drop_body_append, m.wellFormed, m.ifaPayload_eq,
    show m.own.length - 24 = (layout m.list).length + 8 by omega, hrtas]
  rfl

namespace LinkState

variable (m : LinkState)

theorem rtaRead32_mtu {p : Ptr} (h : Shows (some m.mtuAttr) p) : rtaRead32 p = .ok m.mtu := by
  have hlen := m.mtuLength
  cases h with
  | present _ behind =>
    rw [m.mtuAttr.rtaRead32_bytes behind (by omega), le32_append (by omega)]
    rfl

theorem read_address {p : Ptr} (h : Shows (some m.addressAttr) p) :
    ∃ b, deref (rtaReadptr p) = .ok b ∧ bytes 6 b = m.address := by
  have hlen := m.addressLength
  cases h with
  | present _ behind =>
    refine ⟨_, by rw [m.addressAttr.rtaReadptr_bytes, deref_mem], ?_⟩
    exact bytes_append (by omega) _

theorem cachedRtas_survives {heap : Mem} (h : Survives m heap) :
    ∃ rtas, cachedRtas m.stored heap m.stored.length = .ok rtas ∧
      Shows (some m.mtuAttr) (rtas.get iflaMtu) ∧
      Shows (some m.addressAttr) (rtas.get iflaAddress) := by
  obtain ⟨kept, cut, hlist, htypes, hcut, hlong, hquiet⟩ := h
  have hlen : (layout m.list).length = (layout kept).length + (layout cut).length := by
    rw [hlist, layout_append, List.length_append]
  have hbytes : (m.stored ++ heap).drop 16 =
      layout kept ++ ((layout cut).take ((layout cut).length - 8) ++ heap) := by
    have hstored := m.length_stored
    rw [List.drop_append_of_le_length (by omega), m.drop_stored, hlen, hlist, layout_append,
      List.take_append, List.take_of_length_le (by omega), List.append_assoc,
      show (layout kept).length + (layout cut).length - 8 - (layout kept).length =
        (layout cut).length - 8 by omega]
  obtain ⟨rtas, hrtas, hshows⟩ := rtaArray_layout_behind htypes hquiet
  have hnewest : ∀ t, (∀ a ∈ cut, a.type ≠ t) →
      newest Rtattr.type kept t = newest Rtattr.type m.list t := by
    intro t ht
    rw [hlist, newest_append, (newest_eq_none_iff _).mpr ht, Option.none_or]
  refine ⟨rtas, ?_, ?_, ?_⟩
  · rw [cachedRtas, hbytes, m.length_stored, hlen, Nat.add_assoc]
    exact hrtas
  · rw [← m.mtuCarried, ← hnewest iflaMtu fun a ha => (hcut a ha).1]
    exact hshows iflaMtu (by simp)
  · rw [← m.addressCarried, ← hnewest iflaAddress fun a ha => (hcut a ha).2]
    exact hshows iflaAddress (by simp)

end LinkState

theorem linkDifference_eq {names : IfNames} (hnames : ShortNames names) {p m : LinkState}
    {ifi heap : Mem} {cacheLen : ℕ} {rtas : RtaArray} {obj : RtObject}
    (hcache : cachedRtas ifi heap cacheLen = .ok rtas)
    (hmtu : Shows (some p.mtuAttr) (rtas.get iflaMtu))
    (haddress : Shows (some p.addressAttr) (rtas.get iflaAddress))
    (hindex : ifiIndex obj.hdr = m.key)
    (hmtu' : Shows (some m.mtuAttr) (obj.rtas.get iflaMtu))
    (haddress' : Shows (some m.addressAttr) (obj.rtas.get iflaAddress)) :
    linkDifference names heap ifi cacheLen obj = .ok (diffText names (some p) m) := by
  have hname := length_ifindex2str_lt hnames m.key
  obtain ⟨old, hold, holdAddress⟩ := p.read_address haddress
  obtain ⟨new, hnew, hnewAddress⟩ := m.read_address haddress'
  rw [linkDifference, hcache]
  simp only [bind, Except.bind, pure, Except.pure, p.rtaRead32_mtu hmtu, m.rtaRead32_mtu hmtu',
    hold, hnew, holdAddress, hnewAddress, hindex, strfmt_mtuSetting hname,
    strfmt_addressSetting hname, diffText]
  by_cases hsame : p.mtu = m.mtu
  · rw [if_neg (not_not.mpr hsame), if_neg (not_not.mpr hsame)]
    split <;> rfl
  · rw [if_pos hsame, if_pos hsame]
    split <;> rfl

theorem diffText_congr {names : IfNames} {p q m : LinkState} (h : p.SameSettings q) :
    diffText names (some p) m = diffText names (some q) m := by
  simp only [diffText, h.1, h.2]

theorem diffText_same {names : IfNames} {q m : LinkState} (h : q.SameSettings m) :
    diffText names (some q) m = [] := by
  simp only [diffText, h.1, h.2, ne_eq, not_true_eq_false, if_false, List.append_nil]

/-! ### Runs -/

/-- The cache holds the messages stored, and of each interface in it the last of them has
the settings of the last message. -/
structure Tracks (links : List Mem) (hist : LinkHistory) : Prop where
  cache : links = store ifiIndex (hist.cached.map fun m => m.stored)
  agrees : ∀ k p, hist.entry k = some p → ∃ q, hist.last k = some q ∧ p.SameSettings q

theorem Tracks.getLink {links : List Mem} {hist : LinkHistory} (h : Tracks links hist)
    {k : UInt32} (hk : k.toNat < 65536) :
    netlinkCacheGetLink links k.toUInt16 = (hist.entry k).map fun m => m.stored := by
  have hcut := toNat_toUInt16_toUInt32 k
  rw [Nat.mod_eq_of_lt hk, UInt32.toNat_inj] at hcut
  rw [netlinkCacheGetLink_eq_find?, h.cache, find?_store, hcut]
  exact newest_map LinkState.key (fun m => m.ifiIndex_stored) hist.cached k

theorem tracks_ofDump (dump : List (LinkState × Mem)) :
    Tracks (dumpCache dump) (LinkHistory.ofDump dump) := by
  refine ⟨?_, fun k p hp => ⟨p, hp, rfl, rfl⟩⟩
  rw [dumpCache, LinkHistory.ofDump, List.map_map]
  apply foldl_eq_store
  intro links d
  exact d.1.cacheCallback_eq links d.2

/-- A message that is not stored leaves the cache in step, if it has the settings of the one
before or no entry. -/
theorem Tracks.unstored {links : List Mem} {hist : LinkHistory} (h : Tracks links hist)
    {m : LinkState} (hcached : (hist.after m).cached = hist.cached)
    (hsame : hist.entry m.key ≠ none → ∀ q, hist.last m.key = some q → q.SameSettings m) :
    Tracks links (hist.after m) := by
  refine ⟨by rw [hcached]; exact h.cache, fun k p hp => ?_⟩
  have hentry : hist.entry k = some p := by
    rw [← hp, LinkHistory.entry, LinkHistory.entry, hcached]
  obtain ⟨q, hq, hpq⟩ := h.agrees k p hentry
  have hlast : (hist.after m).last k = if m.key = k then some m else hist.last k :=
    newest_concat LinkState.key hist.seen m k
  by_cases hk : m.key = k
  · subst hk
    have hqm := hsame (by simp [hentry]) q hq
    exact ⟨m, by rw [hlast, if_pos rfl], hpq.1.trans hqm.1, hpq.2.trans hqm.2⟩
  · exact ⟨q, by rw [hlast, if_neg hk, hq], hpq⟩

theorem Tracks.stored {links : List Mem} {hist : LinkHistory} (h : Tracks links hist)
    {m : LinkState} (hcached : (hist.after m).cached = hist.cached ++ [m]) :
    Tracks (put ifiIndex links m.stored) (hist.after m) := by
  refine ⟨?_, fun k p hp => ?_⟩
  · rw [hcached, List.map_append, List.map_singleton, store_concat, ← h.cache]
  · have hlast : (hist.after m).last k = if m.key = k then some m else hist.last k :=
      newest_concat LinkState.key hist.seen m k
    rw [LinkHistory.entry, hcached, newest_concat] at hp
    rw [hlast]
    by_cases hk : m.key = k
    · rw [if_pos hk] at hp ⊢
      cases hp
      exact ⟨m, rfl, rfl, rfl⟩
    · rw [if_neg hk] at hp ⊢
      exact h.agrees k p hp

theorem toIproute2Cli_ok {names : IfNames} (hnames : ShortNames names) (frame : LinkFrame)
    (heap : Mem) (links : List Mem) {obj : RtObject} {list : List Rtattr}
    (hshows : ∀ t ∈ linkTypes, Shows (newest Rtattr.type list t) (obj.rtas.get t))
    (hname : NameReadable list) (hdescribes : ~~~ ifiChange obj.hdr = 0 → DescribesLink list)
    (hchange : ifiChange obj.hdr ≠ 0) :
    ∃ str, toIproute2Cli names frame heap links obj true = .ok (str, links) := by
  rw [toIproute2Cli]
  by_cases hnew : ~~~ ifiChange obj.hdr = 0
  · obtain ⟨str, hstr⟩ :=
      toIproute2CliAdddelLink_ok hnames frame hshows hname (hdescribes hnew) true
    rw [if_pos hnew, hstr]
    exact ⟨str, rfl⟩
  · obtain ⟨str, hstr⟩ := toIproute2CliSetLinkFlag_ok hshows hname
    rw [if_neg hnew, if_neg hchange, hstr]
    exact ⟨str, rfl⟩

theorem cliStep_meets {names : IfNames} (hnames : ShortNames names) {links : List Mem}
    {hist : LinkHistory} {s : CliStep} (htracks : Tracks links hist) (hmeets : StepMeets hist s) :
    ∃ text links', cliStep names links s = .ok (text, links') ∧ Tracks links' (hist.after s.msg) ∧
      (s.msg.change = 0 → text = diffText names (hist.last s.msg.key) s.msg) := by
  obtain ⟨obj, hobj, hhdr, hlen, hshows⟩ := s.msg.ofMessage_link hmeets.types hmeets.quiet
  have hindex : ifiIndex obj.hdr = s.msg.key := by
    rw [hhdr]
    exact s.msg.le32_body_append (by decide) s.behind
  have hchange : ifiChange obj.hdr = s.msg.change := by
    rw [hhdr]
    exact s.msg.le32_body_append (by decide) s.behind
  have hstep : cliStep names links s = toIproute2Cli names s.frame s.heap links obj true := by
    rw [cliStep, nlreverseNewlink, hobj]
    rfl
  by_cases hzero : s.msg.change = 0
  · have hnot : ¬ ~~~ ifiChange obj.hdr = 0 := by
      rw [hchange, hzero]
      decide
    rw [hstep, toIproute2Cli, if_neg hnot, if_pos (hchange.trans hzero)]
    have hname := ifnameText_eq (hshows iflaIfname (by simp [linkTypes]))
      fun a ha => (hmeets.name a ha).1
    have hget := htracks.getLink hmeets.index
    rw [← hindex] at hget
    cases hentry : hist.entry s.msg.key with
    | none =>
      rw [hindex, hentry, Option.map_none, ← hindex] at hget
      refine ⟨_, _, toIproute2CliSetLink_none hname hget, htracks.unstored ?_ ?_, fun _ => ?_⟩
      · exact if_neg fun h => h.2 hentry
      · exact fun h => absurd hentry h
      · cases hlast : hist.last s.msg.key with
        | none => rfl
        | some q => exact (diffText_same (hmeets.uncompared hzero hentry q hlast)).symm
    | some p =>
      rw [hindex, hentry, Option.map_some, ← hindex] at hget
      obtain ⟨rtas, hrtas, hmtu, haddress⟩ := p.cachedRtas_survives (hmeets.survives hzero p hentry)
      have hdiff := linkDifference_eq hnames hrtas hmtu haddress hindex
        (by rw [← s.msg.mtuCarried]; exact hshows iflaMtu (by simp [linkTypes]))
        (by rw [← s.msg.addressCarried]; exact hshows iflaAddress (by simp [linkTypes]))
      have hput : netlinkCacheUpdateLink links obj.hdr obj.len =
          put ifiIndex links s.msg.stored := by
        rw [hhdr, hlen]
        exact s.msg.updateLink_eq links s.behind
      refine ⟨_, _, toIproute2CliSetLink_some hname hget hdiff, ?_, fun _ => ?_⟩
      · rw [hput]
        exact htracks.stored (if_pos ⟨hzero, by simp [hentry]⟩)
      · obtain ⟨q, hq, hpq⟩ := htracks.agrees _ p hentry
        rw [hq]
        exact diffText_congr hpq
  · obtain ⟨str, hstr⟩ := toIproute2Cli_ok hnames s.frame s.heap links hshows hmeets.name
      (by rw [hchange]; exact hmeets.describes) (by rw [hchange]; exact hzero)
    refine ⟨str, links, hstep.trans hstr, htracks.unstored ?_ ?_, fun h => absurd h hzero⟩
    · exact if_neg fun h => hzero h.1
    · exact hmeets.unstored hzero

theorem cliRun_meets {names : IfNames} (hnames : ShortNames names) {links : List Mem}
    {hist : LinkHistory} {steps : List CliStep} (htracks : Tracks links hist)
    (hmeets : RunMeets hist steps) :
    ∃ texts, cliRun names links steps = .ok texts ∧
      PrintsDifferences names hist.seen steps texts := by
  induction steps generalizing links hist with
  | nil => exact ⟨[], rfl, trivial⟩
  | cons s steps ih =>
    obtain ⟨text, links', hstep, htracks', hprints⟩ := cliStep_meets hnames htracks hmeets.1
    obtain ⟨texts, htexts, hrest⟩ := ih htracks' hmeets.2
    refine ⟨text :: texts, ?_, hprints, hrest⟩
    rw [cliRun, hstep]
    simp only [bind, Except.bind, htexts]
    rfl

/-- Every run whose messages meet the condition prints the differences: nothing dies, and
each message with `ifi_change` zero prints exactly the settings in which it differs from
the previous message of its interface. -/
theorem linkDifferences_printed (names : IfNames) (hnames : ShortNames names)
    (dump : List (LinkState × Mem)) (steps : List CliStep)
    (hmeets : RunMeets (LinkHistory.ofDump dump) steps) :
    ∃ texts, cliRun names (dumpCache dump) steps = .ok texts ∧
      PrintsDifferences names (dump.map Prod.fst) steps texts :=
  cliRun_meets hnames (tracks_ofDump dump) hmeets

def dummyAttrs (mtu : ℕ) : List Rtattr :=
  [plainRtattr 1 [2, 0, 0, 0, 0, 1], plainRtattr 4 (bytes32 mtu),
    plainRtattr 18 (layout [plainRtattr 1 [100, 117, 109, 109, 121, 0]])]

theorem length_dummyBody (flags change mtu : ℕ) :
    (ifinfomsgBytes 5 flags change ++ layout (dummyAttrs mtu)).length = 52 := by
  simp [dummyAttrs, Rtattr.length_bytes, Rtattr.len, plainRtattr, rtaAlign, ifinfomsgBytes,
    bytes32, bytes16]

def dummyLink (flags change mtu : ℕ) : LinkState where
  own := nlmsgBytes 16 (ifinfomsgBytes 5 flags change ++ layout (dummyAttrs mtu))
  length := by rw [nlmsgLen_nlmsgBytes 16 (by rw [length_dummyBody]; decide)]
  aligned := by rw [length_nlmsgBytes, length_dummyBody]
  covers := by
    rw [length_nlmsgBytes, length_dummyBody]
    decide
  newlink := rfl
  list := dummyAttrs mtu
  wellFormed := rfl
  mtuAttr := plainRtattr 4 (bytes32 mtu)
  addressAttr := plainRtattr 1 [2, 0, 0, 0, 0, 1]
  mtuCarried := rfl
  addressCarried := rfl
  mtuLength := rfl
  addressLength := rfl

def quietStep (msg : LinkState) : CliStep := ⟨msg, [], [], nullTable, nullTable⟩

/-- An interface created after the dump and then given another MTU, which is not printed;
and one in the dump whose MTU changes together with a flag and is printed with the next
message, which changes nothing. -/
theorem linkDifferences_missed :
    (∃ texts, cliRun .empty (dumpCache [])
        [quietStep (dummyLink 0 0xffffffff 1500), quietStep (dummyLink 0 0 1400)] = .ok texts ∧
      texts = ["ip link add  type dummy".toList, []] ∧
      ¬ PrintsDifferences .empty [] [quietStep (dummyLink 0 0xffffffff 1500),
        quietStep (dummyLink 0 0 1400)] texts) ∧
    ∃ texts, cliRun .empty (dumpCache [(dummyLink 0 0 1500, [])])
        [quietStep (dummyLink 1 1 1400), quietStep (dummyLink 1 0 1400)] = .ok texts ∧
      texts = ["ip link set dev  up".toList, "ip link set none mtu 1400".toList] ∧
      ¬ PrintsDifferences .empty [dummyLink 0 0 1500] [quietStep (dummyLink 1 1 1400),
        quietStep (dummyLink 1 0 1400)] texts := by
  constructor
  · have hrun : (cliRun .empty (dumpCache []) [quietStep (dummyLink 0 0xffffffff 1500),
        quietStep (dummyLink 0 0 1400)]).toOption.map id =
          some ["ip link add  type dummy".toList, []] := by decide +kernel
    obtain ⟨texts, htexts, heq⟩ := ok_of_toOption_map hrun
    refine ⟨texts, htexts, heq, fun hprints => ?_⟩
    subst heq
    exact absurd (hprints.2.1 (by decide +kernel)) (by decide +kernel)
  · have hrun : (cliRun .empty (dumpCache [(dummyLink 0 0 1500, [])])
        [quietStep (dummyLink 1 1 1400), quietStep (dummyLink 1 0 1400)]).toOption.map id =
          some ["ip link set dev  up".toList, "ip link set none mtu 1400".toList] := by
      decide +kernel
    obtain ⟨texts, htexts, heq⟩ := ok_of_toOption_map hrun
    refine ⟨texts, htexts, heq, fun hprints => ?_⟩
    subst heq
    exact absurd (hprints.2.1 (by decide +kernel)) (by decide +kernel)

theorem survives_dummyLink : Survives (dummyLink 0 0 1500) [] := by
  have hwalk : (parseRtattr ((layout ((dummyAttrs 1500).drop 2)).take 8 ++ []) 24 nullTable
      maxAttrs).toOption.map (fun found => (found iflaMtu, found iflaAddress)) =
        some (.null, .null) := by decide +kernel
  obtain ⟨found, hfound, hnull⟩ := ok_of_toOption_map hwalk
  obtain ⟨hmtu, haddress⟩ := Prod.mk.inj hnull
  refine ⟨(dummyAttrs 1500).take 2, (dummyAttrs 1500).drop 2, rfl, by decide +kernel,
    by decide +kernel, by decide +kernel, found, hfound, ?_⟩
  simp [hmtu, haddress]

/-- An MTU that changes between the dump and the next message is printed. -/
theorem linkDifferences_printed_mtu :
    RunMeets (LinkHistory.ofDump [(dummyLink 0 0 1500, [])]) [quietStep (dummyLink 0 0 1400)] ∧
      ∃ texts, cliRun .empty (dumpCache [(dummyLink 0 0 1500, [])])
          [quietStep (dummyLink 0 0 1400)] = .ok texts ∧
        PrintsDifferences .empty [dummyLink 0 0 1500] [quietStep (dummyLink 0 0 1400)] texts := by
  have hmeets : RunMeets (LinkHistory.ofDump [(dummyLink 0 0 1500, [])])
      [quietStep (dummyLink 0 0 1400)] := by
    have hentry : (LinkHistory.ofDump [(dummyLink 0 0 1500, [])]).entry
        (quietStep (dummyLink 0 0 1400)).msg.key = some (dummyLink 0 0 1500) := rfl
    have hzero : (quietStep (dummyLink 0 0 1400)).msg.change = 0 := by decide +kernel
    have hname : newest Rtattr.type (dummyAttrs 1400) iflaIfname = none := rfl
    refine ⟨⟨by decide +kernel, by decide +kernel, ⟨nullTable, rfl, fun _ _ => rfl⟩, ?_, ?_, ?_, ?_,
      ?_⟩, trivial⟩
    · exact fun a ha => absurd (hname.symm.trans ha) (by simp)
    · exact fun h => absurd h (by decide +kernel)
    · exact fun _ h => absurd (hentry.symm.trans h) (by simp)
    · exact fun h => absurd hzero h
    · intro _ p hp
      cases Option.some.inj (hentry.symm.trans hp)
      exact survives_dummyLink
  exact ⟨hmeets, linkDifferences_printed .empty (fun i s h => by cases h)
    [(dummyLink 0 0 1500, [])] [quietStep (dummyLink 0 0 1400)] hmeets⟩

end Routerd
