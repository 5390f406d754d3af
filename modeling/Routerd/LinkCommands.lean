import Routerd.LinkReadBack
import Mathlib.Data.List.TakeWhile
import Mathlib.Data.Nat.Digits.Defs

/-!
# Link messages as `ip link` commands

`to_iproute2_cli` has three branches, chosen by `ifi_change`: all ones for a link that was
added or deleted, zero for a link whose attributes changed, anything else for its flags.
The attribute branch compares the message with the cache entry of its interface and is the
only one that updates the cache. The tables of nested attributes are locals that are not
set before the nested walk. Formatting goes through an array of a thousand characters.
-/

namespace Routerd
open ByteMemory NumeralText KeyedUpdates OverwriteStore

def iflaIfname : ℕ := 3

def iflaLink : ℕ := 5

def iflaLinkinfo : ℕ := 18

def iflaInfoKind : ℕ := 1

def iflaInfoData : ℕ := 2

def iflaVlanId : ℕ := 1

def iflaVrfTable : ℕ := 1

def iffPromisc : UInt32 := 256

/-- What the locals of the link branch hold before they are set. -/
structure LinkFrame where
  sub : RtaTable
  subsub : RtaTable

/-- `strfmt` returns the formatted text if it fits into its array. -/
def strfmt (text : Text) : Except Fault Text :=
  if text.length < 1000 then .ok text else .error .overflow

/-- The bytes up to the first zero. -/
def cString (m : Mem) : Text := (m.takeWhile fun b => b != 0).map fun b => Char.ofNat b.toNat

/-- `rta_readstr` looks for the end of the string first, and then whether it is behind the
end of the payload. -/
def rtaReadstr (rta : Ptr) : Except Fault Text := do
  let m ← deref (rtaReadptr rta)
  let payload ← rtaPayload rta
  if payload < (cString m).length then .error .readMiss else pure (cString m)

/-- A nested walk over the payload of an attribute into a table that holds `table`. -/
def nestedRtas (rta : Ptr) (table : RtaTable) : Except Fault RtaTable := do
  let d ← deref (rtaReadptr rta)
  let l ← rtaPayload rta
  parseRtattr d l table maxAttrs

def ifnameText (rtas : RtaArray) : Except Fault Text :=
  match rtas.get iflaIfname with
  | .null => pure []
  | rta => rtaReadstr rta

/-- The options that follow the kind of a new link. -/
def kindOptions (names : IfNames) (frame : LinkFrame) (link : RtObject) (sub : RtaTable)
    (tname : Text) : Except Fault Text :=
  if tname = "vlan".toList then do
    let ii ← rtaRead32 (link.rtas.get iflaLink)
    let subsub ← nestedRtas (sub iflaInfoData) frame.subsub
    let id ← rtaRead16 (subsub iflaVlanId)
    strfmt (" link ".toList ++ ifindex2str names ii ++ " id ".toList ++ decimal id)
  else if tname = "dummy".toList then pure []
  else if tname = "bridge".toList then pure []
  else if tname = "vrf".toList then do
    let subsub ← nestedRtas (sub iflaInfoData) frame.subsub
    let tableid ← rtaRead32 (subsub iflaVrfTable)
    strfmt (" table ".toList ++ decimal tableid.toNat)
  else pure " UNKNOWNOPT???".toList

def toIproute2CliAdddelLink (names : IfNames) (frame : LinkFrame) (link : RtObject)
    (isNew : Bool) : Except Fault Text := do
  let ifname ← ifnameText link.rtas
  let sub ← nestedRtas (link.rtas.get iflaLinkinfo) frame.sub
  let tname ← rtaReadstr (sub iflaInfoKind)
  let ope := if isNew then "add".toList else "del".toList
  let str ← strfmt ("ip link ".toList ++ ope ++ [' '] ++ ifname ++ " type ".toList ++ tname)
  let options ← kindOptions names frame link sub tname
  pure (str ++ options)

/-- `ip link set %s mtu %u`. -/
def mtuSetting (lname : Text) (mtu : UInt32) : Text :=
  "ip link set ".toList ++ lname ++ " mtu ".toList ++ decimal mtu.toNat

/-- `%02x`. -/
def hexByte (b : UInt8) : Text := if b.toNat < 16 then '0' :: hex b.toNat else hex b.toNat

/-- `ip link set %s address %02x:%02x:%02x:%02x:%02x:%02x`. -/
def addressSetting (lname : Text) (addr : Fin 6 → UInt8) : Text :=
  "ip link set ".toList ++ lname ++ " address ".toList ++ hexByte (addr 0) ++ [':'] ++
    hexByte (addr 1) ++ [':'] ++ hexByte (addr 2) ++ [':'] ++ hexByte (addr 3) ++ [':'] ++
    hexByte (addr 4) ++ [':'] ++ hexByte (addr 5)

/-- The settings printed for a link that differs from its cache entry; `heap` is what lies
behind the entry. -/
def linkDifference (names : IfNames) (heap : Mem) (ifi : Mem) (cacheLen : ℕ) (link : RtObject) :
    Except Fault Text := do
  let cache ← cachedRtas ifi heap cacheLen
  let lname := ifindex2str names (ifiIndex link.hdr)
  let oldMtu ← rtaRead32 (cache.get iflaMtu)
  let newMtu ← rtaRead32 (link.rtas.get iflaMtu)
  let mtuStr ← if oldMtu ≠ newMtu then strfmt (mtuSetting lname newMtu) else pure []
  let oldAddr ← deref (rtaReadptr (cache.get iflaAddress))
  let newAddr ← deref (rtaReadptr (link.rtas.get iflaAddress))
  let addrStr ← if bytes 6 oldAddr ≠ bytes 6 newAddr then
      strfmt (addressSetting lname (bytes 6 newAddr))
    else pure []
  pure (mtuStr ++ addrStr)

/-- The command and the cache it leaves. -/
def toIproute2CliSetLink (names : IfNames) (heap : Mem) (links : List Mem) (link : RtObject)
    (isNew : Bool) : Except Fault (Text × List Mem) :=
  if isNew = false then .error .assertion
  else do
    let _ ← ifnameText link.rtas
    match netlinkCacheGetLink links (ifiIndex link.hdr).toUInt16 with
    | none => pure ([], links)
    | some ifi =>
      let cacheLen := netlinkCachelenGetLink links (ifiIndex link.hdr).toUInt16
      let str ← linkDifference names heap ifi cacheLen link
      pure (str, netlinkCacheUpdateLink links link.hdr link.len)

def toIproute2CliSetLinkFlag (link : RtObject) (isNew : Bool) : Except Fault Text :=
  if isNew = false then .error .assertion
  else do
    let ifname ← ifnameText link.rtas
    let change := ifiChange link.hdr
    let str ← strfmt ("ip link set dev ".toList ++ ifname ++ [' '])
    if change = 0 then pure (str ++ "UNSUPPORTED...?".toList)
    else
      let affectedFlag := (0xffffffff : UInt32) &&& change
      let destinationBit := ifiFlags link.hdr &&& change
      let up := if affectedFlag &&& iffUp = 0 then []
        else if destinationBit &&& affectedFlag ≠ 0 then "up".toList else "down".toList
      let promisc := if affectedFlag &&& iffPromisc = 0 then []
        else if destinationBit &&& affectedFlag ≠ 0 then "promisc on".toList
        else "promisc off".toList
      pure (str ++ up ++ promisc)

def toIproute2Cli (names : IfNames) (frame : LinkFrame) (heap : Mem) (links : List Mem)
    (link : RtObject) (isNew : Bool) : Except Fault (Text × List Mem) :=
  if ~~~ ifiChange link.hdr = 0 then do
    let str ← toIproute2CliAdddelLink names frame link isNew
    pure (str, links)
  else if ifiChange link.hdr = 0 then toIproute2CliSetLink names heap links link isNew
  else do
    let str ← toIproute2CliSetLinkFlag link isNew
    pure (str, links)

/-- `monitor_NEWLINK` of `nlreverse`: the text it prints and the cache it leaves. -/
def nlreverseNewlink (names : IfNames) (frame : LinkFrame) (heap : Mem) (links : List Mem)
    (n : Mem) : Except Fault (Text × List Mem) := do
  let link ← ofMessage link n
  toIproute2Cli names frame heap links link true

/-! ### Reading attributes that are there -/

theorem strfmt_ok {text : Text} (h : text.length < 1000) : strfmt text = .ok text := if_pos h

theorem length_cString_le (m : Mem) : (cString m).length ≤ m.length := by
  rw [cString, List.length_map]
  exact (List.takeWhile_prefix _).length_le

theorem cString_append {m : Mem} (h : 0 ∈ m) (behind : Mem) : cString (m ++ behind) = cString m := by
  rw [cString, cString, List.takeWhile_append, if_neg]
  intro hall
  have hself := (List.takeWhile_prefix _).eq_of_length hall
  have hne := List.takeWhile_eq_self_iff.mp hself 0 h
  simp at hne

theorem Rtattr.rtaReadstr_bytes (a : Rtattr) (h : 0 ∈ a.payload) (behind : Mem) :
    rtaReadstr (.mem (a.bytes ++ behind)) = .ok (cString a.payload) := by
  have hle := length_cString_le a.payload
  rw [rtaReadstr, a.rtaReadptr_bytes, a.rtaPayload_bytes]
  simp only [deref_mem, bind, Except.bind, cString_append h]
  exact if_neg (Nat.not_lt.mpr hle)

theorem Rtattr.nestedRtas_bytes (a : Rtattr) {nested : List Rtattr} (hpayload : a.payload = layout nested)
    (htypes : ∀ b ∈ nested, b.type < maxAttrs) (behind : Mem) (table : RtaTable) :
    nestedRtas (.mem (a.bytes ++ behind)) table =
      .ok (applyWrites table (layoutEntries nested (a.padding ++ behind))) := by
  have hparse := parseRtattr_layout htypes (a.padding ++ behind) 0 table
  rw [Nat.add_zero, parseRtattr_zero] at hparse
  rw [nestedRtas, a.rtaReadptr_bytes, a.rtaPayload_bytes]
  simp only [deref_mem, bind, Except.bind, hpayload, hparse]

def nameText (list : List Rtattr) : Text :=
  ((newest Rtattr.type list iflaIfname).map fun a => cString a.payload).getD []

theorem ifnameText_eq {rtas : RtaArray} {list : List Rtattr}
    (hshows : Shows (newest Rtattr.type list iflaIfname) (rtas.get iflaIfname))
    (hzero : ∀ a, newest Rtattr.type list iflaIfname = some a → 0 ∈ a.payload) :
    ifnameText rtas = .ok (nameText list) := by
  unfold ifnameText nameText
  generalize newest Rtattr.type list iflaIfname = o, rtas.get iflaIfname = p at hshows hzero
  cases hshows with
  | absent => rfl
  | present a behind => exact a.rtaReadstr_bytes (hzero a rfl) behind

/-! ### Texts that fit -/

/-- Names of interfaces fit into `IF_NAMESIZE` characters with the zero that ends them. -/
def ShortNames (names : IfNames) : Prop := ∀ i s, names.name i = some s → s.length < 16

theorem length_ifindex2str_lt {names : IfNames} (hnames : ShortNames names) (i : UInt32) :
    (ifindex2str names i).length < 16 := by
  unfold ifindex2str
  cases hname : names.name i with
  | none => decide
  | some s => exact hnames i s hname

theorem length_decimal_le (x : UInt32) : (decimal x.toNat).length ≤ 10 :=
  Nat.toDigits_length 10 _ 10 (by decide) (x.toNat_lt.trans (by decide))

theorem length_hexByte_le (b : UInt8) : (hexByte b).length ≤ 2 := by
  unfold hexByte
  split
  · rename_i hlt
    rw [hex, Nat.toDigits_of_lt_base hlt]
    exact Nat.le_refl 2
  · exact Nat.toDigits_length 16 _ 2 (by decide) b.toNat_lt

theorem strfmt_mtuSetting {lname : Text} (hname : lname.length < 16) (mtu : UInt32) :
    strfmt (mtuSetting lname mtu) = .ok (mtuSetting lname mtu) := by
  have hlen : (mtuSetting lname mtu).length =
      12 + lname.length + 5 + (decimal mtu.toNat).length := by
    have hset : "ip link set ".toList.length = 12 := rfl
    have hmtu : " mtu ".toList.length = 5 := rfl
    unfold mtuSetting
    rw [List.length_append, List.length_append, List.length_append, hset, hmtu]
  have hdigits := length_decimal_le mtu
  exact strfmt_ok (by omega)

theorem strfmt_addressSetting {lname : Text} (hname : lname.length < 16) (addr : Fin 6 → UInt8) :
    strfmt (addressSetting lname addr) = .ok (addressSetting lname addr) := by
  have hlen : (addressSetting lname addr).length =
      12 + lname.length + 9 + (hexByte (addr 0)).length + 1 + (hexByte (addr 1)).length + 1 +
        (hexByte (addr 2)).length + 1 + (hexByte (addr 3)).length + 1 +
        (hexByte (addr 4)).length + 1 + (hexByte (addr 5)).length := by
    have hset : "ip link set ".toList.length = 12 := rfl
    have haddress : " address ".toList.length = 9 := rfl
    unfold addressSetting
    simp only [List.length_append, List.length_singleton, hset, haddress]
  have h₀ := length_hexByte_le (addr 0)
  have h₁ := length_hexByte_le (addr 1)
  have h₂ := length_hexByte_le (addr 2)
  have h₃ := length_hexByte_le (addr 3)
  have h₄ := length_hexByte_le (addr 4)
  have h₅ := length_hexByte_le (addr 5)
  exact strfmt_ok (by omega)

/-! ### Messages the branches can print -/

/-- An attribute of the list that holds another list. -/
def Nests (list : List Rtattr) (t : ℕ) (nested : List Rtattr) : Prop :=
  ∃ a, newest Rtattr.type list t = some a ∧ a.payload = layout nested ∧
    ∀ b ∈ nested, b.type < maxAttrs

/-- An attribute of the list with a number of at most this many bytes. -/
def Numbers (list : List Rtattr) (t size : ℕ) : Prop :=
  ∃ a, newest Rtattr.type list t = some a ∧ a.payload.length ≤ size

/-- A list that describes a new link: the kind, and of a `vlan` and a `vrf` the options. -/
def DescribesLink (list : List Rtattr) : Prop :=
  ∃ nested kind, Nests list iflaLinkinfo nested ∧
    newest Rtattr.type nested iflaInfoKind = some kind ∧ 0 ∈ kind.payload ∧
    (cString kind.payload).length < 900 ∧
    (cString kind.payload = "vlan".toList → Numbers list iflaLink 4 ∧
      ∃ data, Nests nested iflaInfoData data ∧ Numbers data iflaVlanId 2) ∧
    (cString kind.payload = "vrf".toList →
      ∃ data, Nests nested iflaInfoData data ∧ Numbers data iflaVrfTable 4)

theorem Nests.nestedRtas_ok {list nested : List Rtattr} {t : ℕ} {p : Ptr} (h : Nests list t nested)
    (hp : newest Rtattr.type list t ≠ none → Shows (newest Rtattr.type list t) p)
    (table : RtaTable) :
    ∃ sub, nestedRtas p table = .ok sub ∧ ∀ t', newest Rtattr.type nested t' ≠ none →
      Shows (newest Rtattr.type nested t') (sub t') := by
  obtain ⟨a, ha, hpayload, htypes⟩ := h
  rw [ha] at hp
  cases hp (by simp) with
  | present _ behind =>
    exact ⟨_, a.nestedRtas_bytes hpayload htypes behind table,
      fun t' ht' => shows_applyWrites _ (Or.inl ht')⟩

theorem Numbers.rtaRead32_ok {list : List Rtattr} {t : ℕ} {p : Ptr} (h : Numbers list t 4)
    (hp : newest Rtattr.type list t ≠ none → Shows (newest Rtattr.type list t) p) :
    ∃ x, rtaRead32 p = .ok x := by
  obtain ⟨a, ha, hlen⟩ := h
  rw [ha] at hp
  cases hp (by simp) with
  | present _ behind => exact ⟨_, a.rtaRead32_bytes behind hlen⟩

theorem Numbers.rtaRead16_ok {list : List Rtattr} {t : ℕ} {p : Ptr} (h : Numbers list t 2)
    (hp : newest Rtattr.type list t ≠ none → Shows (newest Rtattr.type list t) p) :
    ∃ x, rtaRead16 p = .ok x ∧ x < 65536 := by
  obtain ⟨a, ha, hlen⟩ := h
  rw [ha] at hp
  cases hp (by simp) with
  | present _ behind => exact ⟨_, a.rtaRead16_bytes behind hlen, le16_lt _ _⟩

/-- The types of a link message that are read. -/
def linkTypes : List ℕ := [iflaAddress, iflaIfname, iflaMtu, iflaLink, iflaLinkinfo]

/-- A name is a string in an array of `IFNAMSIZ` bytes. -/
def NameReadable (list : List Rtattr) : Prop :=
  ∀ a, newest Rtattr.type list iflaIfname = some a → 0 ∈ a.payload ∧ a.payload.length ≤ 16

theorem length_nameText_le {list : List Rtattr} (h : NameReadable list) :
    (nameText list).length ≤ 16 := by
  unfold nameText
  cases hname : newest Rtattr.type list iflaIfname with
  | none => exact Nat.zero_le 16
  | some a => exact (length_cString_le a.payload).trans (h a hname).2

section Branches

variable {names : IfNames} {link : RtObject} {list : List Rtattr}

theorem kindOptions_ok (hnames : ShortNames names) (frame : LinkFrame)
    (hshows : ∀ t ∈ linkTypes, Shows (newest Rtattr.type list t) (link.rtas.get t))
    {nested : List Rtattr} {sub : RtaTable}
    (hsub : ∀ t, newest Rtattr.type nested t ≠ none → Shows (newest Rtattr.type nested t) (sub t))
    {tname : Text}
    (hvlan : tname = "vlan".toList → Numbers list iflaLink 4 ∧
      ∃ data, Nests nested iflaInfoData data ∧ Numbers data iflaVlanId 2)
    (hvrf : tname = "vrf".toList →
      ∃ data, Nests nested iflaInfoData data ∧ Numbers data iflaVrfTable 4) :
    ∃ options, kindOptions names frame link sub tname = .ok options := by
  unfold kindOptions
  split
  · rename_i htname
    obtain ⟨hlink, data, hdata, hid⟩ := hvlan htname
    obtain ⟨ii, hii⟩ := hlink.rtaRead32_ok fun _ => hshows iflaLink (by simp [linkTypes])
    obtain ⟨subsub, hsubsub, hshown⟩ := hdata.nestedRtas_ok (hsub _) frame.subsub
    obtain ⟨id, hread, hlt⟩ := hid.rtaRead16_ok (hshown _)
    rw [hii, hsubsub]
    simp only [bind, Except.bind, hread]
    have hlen : (" link ".toList ++ ifindex2str names ii ++ " id ".toList ++ decimal id).length =
        6 + (ifindex2str names ii).length + 4 + (decimal id).length := by
      rw [List.length_append, List.length_append, List.length_append]
      rfl
    have hname := length_ifindex2str_lt hnames ii
    have hdigits : (decimal id).length ≤ 5 :=
      Nat.toDigits_length 10 id 5 (by decide) (hlt.trans (by decide))
    exact ⟨_, strfmt_ok (by omega)⟩
  · split
    · exact ⟨_, rfl⟩
    · split
      · exact ⟨_, rfl⟩
      · split
        · rename_i htname
          obtain ⟨data, hdata, htable⟩ := hvrf htname
          obtain ⟨subsub, hsubsub, hshown⟩ := hdata.nestedRtas_ok (hsub _) frame.subsub
          obtain ⟨tableid, hread⟩ := htable.rtaRead32_ok (hshown _)
          rw [hsubsub]
          simp only [bind, Except.bind, hread]
          have hlen : (" table ".toList ++ decimal tableid.toNat).length =
              7 + (decimal tableid.toNat).length := List.length_append
          have hdigits := length_decimal_le tableid
          exact ⟨_, strfmt_ok (by omega)⟩
        · exact ⟨_, rfl⟩

theorem toIproute2CliAdddelLink_ok (hnames : ShortNames names) (frame : LinkFrame)
    (hshows : ∀ t ∈ linkTypes, Shows (newest Rtattr.type list t) (link.rtas.get t))
    (hname : NameReadable list) (hlink : DescribesLink list) (isNew : Bool) :
    ∃ str, toIproute2CliAdddelLink names frame link isNew = .ok str := by
  obtain ⟨nested, kind, hnests, hkind, hzero, hshort, hvlan, hvrf⟩ := hlink
  have hifname := ifnameText_eq (hshows iflaIfname (by simp [linkTypes])) fun a ha => (hname a ha).1
  obtain ⟨sub, hsub, hshown⟩ := hnests.nestedRtas_ok
    (fun _ => hshows iflaLinkinfo (by simp [linkTypes])) frame.sub
  have htname : rtaReadstr (sub iflaInfoKind) = .ok (cString kind.payload) := by
    have hkindshown := hshown iflaInfoKind (by rw [hkind]; simp)
    rw [hkind] at hkindshown
    generalize sub iflaInfoKind = p at hkindshown
    cases hkindshown with
    | present _ behind => exact kind.rtaReadstr_bytes hzero behind
  obtain ⟨options, hoptions⟩ := kindOptions_ok hnames frame hshows hshown hvlan hvrf
  have hlen : ∀ ope : Text, ope.length = 3 → ("ip link ".toList ++ ope ++ [' '] ++ nameText list ++
      " type ".toList ++ cString kind.payload).length =
        8 + 3 + 1 + (nameText list).length + 6 + (cString kind.payload).length := by
    intro ope hope
    simp only [List.length_append, hope]
    rfl
  have hnamelen := length_nameText_le hname
  have hfits := fun ope hope => strfmt_ok ((hlen ope hope).trans_lt (by omega))
  unfold toIproute2CliAdddelLink
  rw [hifname, hsub]
  simp only [bind, Except.bind, htname, hoptions]
  cases isNew with
  | true => exact ⟨_, by rw [if_pos rfl, hfits _ rfl]; rfl⟩
  | false => exact ⟨_, by rw [if_neg Bool.false_ne_true, hfits _ rfl]; rfl⟩

theorem toIproute2CliSetLinkFlag_ok
    (hshows : ∀ t ∈ linkTypes, Shows (newest Rtattr.type list t) (link.rtas.get t))
    (hname : NameReadable list) : ∃ str, toIproute2CliSetLinkFlag link true = .ok str := by
  have hifname := ifnameText_eq (hshows iflaIfname (by simp [linkTypes])) fun a ha => (hname a ha).1
  have hnamelen := length_nameText_le hname
  have hlen : ("ip link set dev ".toList ++ nameText list ++ [' ']).length =
      16 + (nameText list).length + 1 := by
    rw [List.length_append, List.length_append]
    rfl
  unfold toIproute2CliSetLinkFlag
  rw [if_neg (by decide), hifname]
  simp only [bind, Except.bind, strfmt_ok (hlen.trans_lt (by omega))]
  split
  · exact ⟨_, rfl⟩
  · exact ⟨_, rfl⟩

end Branches

theorem toIproute2CliSetLink_none {names : IfNames} {heap : Mem} {links : List Mem}
    {link : RtObject} {ifname : Text} (hname : ifnameText link.rtas = .ok ifname)
    (hnone : netlinkCacheGetLink links (ifiIndex link.hdr).toUInt16 = none) :
    toIproute2CliSetLink names heap links link true = .ok ([], links) := by
  rw [toIproute2CliSetLink, if_neg (by decide), hname, hnone]
  rfl

theorem toIproute2CliSetLink_some {names : IfNames} {heap ifi : Mem} {links : List Mem}
    {link : RtObject} {ifname str : Text} (hname : ifnameText link.rtas = .ok ifname)
    (hsome : netlinkCacheGetLink links (ifiIndex link.hdr).toUInt16 = some ifi)
    (hstr : linkDifference names heap ifi ifi.length link = .ok str) :
    toIproute2CliSetLink names heap links link true =
      .ok (str, netlinkCacheUpdateLink links link.hdr link.len) := by
  have hlen : netlinkCachelenGetLink links (ifiIndex link.hdr).toUInt16 = ifi.length := by
    rw [netlinkCachelenGetLink_eq, hsome]
    rfl
  rw [toIproute2CliSetLink, if_neg (by decide), hname, hsome, hlen]
  simp only [bind, Except.bind, hstr, pure, Except.pure]

end Routerd
