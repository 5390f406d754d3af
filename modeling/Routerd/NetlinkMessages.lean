import Routerd.RtattrTable
import Routerd.Inet6RoundTrip

/-!
# Netlink messages as the daemon reads them

A message is the memory from its `nlmsghdr` on, the bytes that follow it in the
receive buffer included: the attribute walk of a link, route or neighbour message
is given the payload length of an address message and can look beyond the end.
Family, prefix length and table are the single bytes of the fixed headers.
-/

namespace Routerd
open ByteMemory NumeralText InetText

inductive MsgType where
  | done
  | newlink
  | dellink
  | newaddr
  | deladdr
  | newroute
  | delroute
  | newneigh
  | delneigh
  | other (code : ℕ)
  deriving DecidableEq, Repr

def MsgType.ofCode : ℕ → MsgType
  | 3 => .done
  | 16 => .newlink
  | 17 => .dellink
  | 20 => .newaddr
  | 21 => .deladdr
  | 24 => .newroute
  | 25 => .delroute
  | 28 => .newneigh
  | 29 => .delneigh
  | code => .other code

def nlmsgLen (n : Mem) : ℕ := (le32 n 0).toNat

def nlmsgType (n : Mem) : MsgType := MsgType.ofCode (le16 n 4)

theorem nlmsgLen_append {n : Mem} (h : 16 ≤ n.length) (behind : Mem) :
    nlmsgLen (n ++ behind) = nlmsgLen n := by
  rw [nlmsgLen, le32_append (by omega)]
  rfl

theorem nlmsgType_append {n : Mem} (h : 16 ≤ n.length) (behind : Mem) :
    nlmsgType (n ++ behind) = nlmsgType n := by
  rw [nlmsgType, le16_append (by omega)]
  rfl

/-- `n + 1`: the family header behind the `nlmsghdr`. -/
def nlmsgBody (n : Mem) : Mem := n.drop 16

theorem nlmsgBody_append {n : Mem} (h : 16 ≤ n.length) (behind : Mem) :
    nlmsgBody (n ++ behind) = nlmsgBody n ++ behind := List.drop_append_of_le_length h

/-- `IFA_PAYLOAD`, which every handler uses whatever the kind of its message. -/
def ifaPayload (n : Mem) : ℕ := sizeSub (nlmsgLen n) 24

def ifiIndex (ifi : Mem) : UInt32 := le32 ifi 4

def ifiFlags (ifi : Mem) : UInt32 := le32 ifi 8

def ifiChange (ifi : Mem) : UInt32 := le32 ifi 12

def ifaFamily (ifa : Mem) : UInt8 := byteAt ifa 0

def ifaPrefixlen (ifa : Mem) : UInt8 := byteAt ifa 1

def ifaIndex (ifa : Mem) : UInt32 := le32 ifa 4

def rtmFamily (rtm : Mem) : UInt8 := byteAt rtm 0

def rtmDstLen (rtm : Mem) : UInt8 := byteAt rtm 1

def rtmTable (rtm : Mem) : UInt8 := byteAt rtm 4

def rtmType (rtm : Mem) : UInt8 := byteAt rtm 7

def afInet : UInt8 := 2

def afInet6 : UInt8 := 10

def iffUp : UInt32 := 1

def rtaDst : ℕ := 1

def rtaOif : ℕ := 4

def rtaGateway : ℕ := 5

def rtaEncapType : ℕ := 21

def rtaEncap : ℕ := 22

def iflaAddress : ℕ := 1

def ifaAddress : ℕ := 1

def ifaLocal : ℕ := 2

def lwtunnelEncapSeg6Local : ℕ := 7

def seg6LocalAction : ℕ := 1

def seg6LocalNh4 : ℕ := 4

def seg6LocalActionEndDx4 : UInt32 := 6

def rtTableMain : UInt8 := 254

def rtnUnicast : UInt8 := 1

/-- `routerd::link`, `ifaddr`, `route` and `neigh`: the fixed header, the length
handed to the constructor and the attributes behind the header. -/
structure RtObject where
  hdr : Mem
  len : ℕ
  rtas : RtaArray

/-- The constructor of an object whose fixed header takes `size` bytes. -/
def rtObject (size : ℕ) (hdr : Mem) (rtaLen : ℕ) : Except Fault RtObject := do
  let rtas ← rtaArray (hdr.drop size) rtaLen
  pure ⟨hdr, rtaLen, rtas⟩

def link (ifm : Mem) (rtaLen : ℕ) : Except Fault RtObject := rtObject 16 ifm rtaLen

def ifaddr (ifa : Mem) (rtaLen : ℕ) : Except Fault RtObject := rtObject 8 ifa rtaLen

def route (rtm : Mem) (rtaLen : ℕ) : Except Fault RtObject := rtObject 12 rtm rtaLen

def neigh (ndm : Mem) (rtaLen : ℕ) : Except Fault RtObject := rtObject 12 ndm rtaLen

/-- The object of a message: its body and the payload length of its header. -/
def ofMessage (make : Mem → ℕ → Except Fault RtObject) (n : Mem) : Except Fault RtObject :=
  make (nlmsgBody n) (ifaPayload n)

theorem rtObject_hdr {size : ℕ} {hdr : Mem} {len : ℕ} {o : RtObject}
    (h : rtObject size hdr len = .ok o) : o.hdr = hdr := by
  unfold rtObject at h
  cases hr : rtaArray (hdr.drop size) len with
  | error e =>
    rw [hr] at h
    cases h
  | ok rtas =>
    rw [hr] at h
    cases h
    rfl

/-- `inetpton`: the text of the address at the pointer. An unknown family leaves
the buffer empty and does not read the pointer. -/
def inetpton (ptr : Ptr) (afi : UInt8) : Except Fault Text :=
  if afi = afInet then do
    let m ← deref ptr
    pure (inetNtop4 (bytes 4 m))
  else if afi = afInet6 then do
    let m ← deref ptr
    pure (inetNtop6 (bytes 16 m))
  else pure []

/-- `if_indextoname`: the kernel gives distinct names to distinct interfaces and
no interface an empty one. -/
structure IfNames where
  name : UInt32 → Option Text
  injective : ∀ i j s, name i = some s → name j = some s → i = j
  nonempty : ∀ i, name i ≠ some []

def ifindex2str (names : IfNames) (ifindex : UInt32) : Text :=
  (names.name ifindex).getD ['n', 'o', 'n', 'e']

def IfNames.empty : IfNames := ⟨fun _ => none, by simp, by simp⟩

theorem ifindex2str_ne_nil (names : IfNames) (i : UInt32) : ifindex2str names i ≠ [] := by
  unfold ifindex2str
  cases h : names.name i with
  | none => simp
  | some s =>
    intro hs
    exact names.nonempty i (by rw [h]; exact congrArg some hs)

/-- The IPv4 address an attribute carries, if the attribute is there. -/
def optionalAddr (rtas : RtaArray) (t : ℕ) : Option InAddr :=
  match rtas.get t with
  | .mem m => some (bytes 4 (m.drop 4))
  | _ => none

theorem optionalAddr_ne_none_iff (rtas : RtaArray) (t : ℕ) :
    optionalAddr rtas t ≠ none ↔ rtas.get t ≠ .null := by
  rcases rtas.get_cases t with h | ⟨m, h⟩ <;> simp [optionalAddr, h]

/-- The address text of an optional attribute, empty when it is absent. -/
def addrText (rtas : RtaArray) (type : ℕ) (family : UInt8) : Except Fault Text :=
  match rtas.get type with
  | .null => pure []
  | rta => inetpton (rtaReadptr rta) family

theorem addrText_null {rtas : RtaArray} {t : ℕ} (h : rtas.get t = .null) (family : UInt8) :
    addrText rtas t family = .ok [] := by
  simp [addrText, h, pure, Except.pure]

theorem addrText_inet {rtas : RtaArray} {t : ℕ} {m : Mem} (h : rtas.get t = .mem m) :
    addrText rtas t afInet = .ok (inetNtop4 (bytes 4 (m.drop 4))) := by
  simp [addrText, h, inetpton, bind, Except.bind, pure, Except.pure]

theorem addrText_inet6 {rtas : RtaArray} {t : ℕ} {m : Mem} (h : rtas.get t = .mem m) :
    addrText rtas t afInet6 = .ok (inetNtop6 (bytes 16 (m.drop 4))) := by
  have hne : afInet6 ≠ afInet := by decide
  simp [addrText, h, inetpton, hne, bind, Except.bind, pure, Except.pure]

theorem addrText_other {rtas : RtaArray} {t : ℕ} {family : UInt8} (h₄ : family ≠ afInet)
    (h₆ : family ≠ afInet6) : addrText rtas t family = .ok [] := by
  unfold addrText
  split <;> simp [inetpton, h₄, h₆, pure, Except.pure]

theorem addrText_short (rtas : RtaArray) (t : ℕ) (family : UInt8) :
    ∃ text, addrText rtas t family = .ok text ∧ text.length ≤ 57 := by
  rcases rtas.get_cases t with hnull | ⟨m, hm⟩
  · exact ⟨_, addrText_null hnull family, Nat.zero_le _⟩
  · by_cases h4 : family = afInet
    · subst h4
      exact ⟨_, addrText_inet hm, (inetNtop4_length_le _).trans (by decide)⟩
    · by_cases h6 : family = afInet6
      · subst h6
        exact ⟨_, addrText_inet6 hm, inetNtop6_length_le _⟩
      · exact ⟨_, addrText_other h4 h6, Nat.zero_le _⟩

def bytes16 (x : ℕ) : Mem := [UInt8.ofNat x, UInt8.ofNat (x / 256)]

def bytes32 (x : ℕ) : Mem := bytes16 x ++ bytes16 (x / 65536)

theorem le16_bytes16 (x : ℕ) (m : Mem) : le16 (bytes16 x ++ m) 0 = x % 65536 := by
  have hlow : (UInt8.ofNat x).toNat = x % 256 := UInt8.toNat_ofNat'
  have hhigh : (UInt8.ofNat (x / 256)).toNat = x / 256 % 256 := UInt8.toNat_ofNat'
  change (UInt8.ofNat x).toNat + 256 * (UInt8.ofNat (x / 256)).toNat = x % 65536
  omega

theorem le16_bytes16_behind (x : ℕ) (m : Mem) (i : ℕ) : le16 (bytes16 x ++ m) (i + 2) = le16 m i :=
  rfl

theorem le32_bytes32 {x : ℕ} (hx : x < 2 ^ 32) (m : Mem) : (le32 (bytes32 x ++ m) 0).toNat = x := by
  rw [le32, bytes32, List.append_assoc, le16_bytes16, le16_bytes16_behind, le16_bytes16,
    UInt32.toNat_ofNat']
  omega

/-- An attribute in the kernel's layout, padded to four bytes. -/
def rtattrBytes (type : ℕ) (payload : Mem) : Mem :=
  bytes16 (payload.length + 4) ++ bytes16 type ++ payload ++
    List.replicate (rtaAlign payload.length - payload.length) 0

/-- A message in the kernel's layout, without flags, sequence number and port. -/
def nlmsgBytes (type : ℕ) (body : Mem) : Mem :=
  bytes32 (body.length + 16) ++ bytes16 type ++ List.replicate 10 0 ++ body

theorem length_nlmsgBytes (type : ℕ) (body : Mem) :
    (nlmsgBytes type body).length = body.length + 16 := by
  simp [nlmsgBytes, bytes32, bytes16]

theorem nlmsgLen_nlmsgBytes (type : ℕ) {body : Mem} (h : body.length + 16 < 2 ^ 32) :
    nlmsgLen (nlmsgBytes type body) = (nlmsgBytes type body).length := by
  rw [length_nlmsgBytes, nlmsgLen, nlmsgBytes, List.append_assoc, List.append_assoc, le32_bytes32 h]

def rtmsgBytes (family dstLen table type : UInt8) : Mem :=
  [family, dstLen, 0, 0, table, 0, 0, type, 0, 0, 0, 0]

def ifaddrmsgBytes (family prefixlen : UInt8) (index : ℕ) : Mem :=
  [family, prefixlen, 0, 0] ++ bytes32 index

def ifinfomsgBytes (index flags change : ℕ) : Mem :=
  [0, 0, 0, 0] ++ bytes32 index ++ bytes32 flags ++ bytes32 change

end Routerd
