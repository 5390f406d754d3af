import Routerd.LinkCommands
import Routerd.AttributeAccess

/-!
# Route messages as `ip route` commands

`to_iproute2_cli` of a route reads source, interfaces and destination, prints a route with
a gateway at once and looks into the encapsulation otherwise. Source and input interface
are read and never printed. The nested table `sub` is a local that is not set before the
walk; `stale` is what it holds. The reads are recorded as in the hooks.
-/

namespace Routerd
open ByteMemory NumeralText InetText AccessLog

def rtaSrc : ℕ := 2

def rtaIif : ℕ := 3

def lwtunnelEncapSeg6 : ℕ := 5

def seg6IptunnelSrh : ℕ := 1

def seg6LocalTable : ℕ := 3

def seg6LocalNh6 : ℕ := 5

def seg6LocalOif : ℕ := 7

def seg6LocalActionEndX : UInt32 := 2

def seg6LocalActionEndT : UInt32 := 3

def seg6LocalActionEndDx2 : UInt32 := 4

/-- `ip -%u route %s %s/%d`. -/
def routeHead (route : RtObject) (isNew : Bool) (dst : Text) : Text :=
  "ip -".toList ++ (if rtmFamily route.hdr = afInet then ['4'] else ['6']) ++ " route ".toList ++
    (if isNew then "add".toList else "del".toList) ++ [' '] ++ dst ++ ['/'] ++
    decimal (rtmDstLen route.hdr).toNat

/-- `%d` of a `uint32_t`. -/
def signedDecimal (x : UInt32) : Text :=
  if x.toNat < 2 ^ 31 then decimal x.toNat else '-' :: decimal (2 ^ 32 - x.toNat)

/-- The name of an encapsulation mode, empty for an unknown one. -/
def iptunMode (mode : UInt32) : Text :=
  if mode = 0 then "inline".toList
  else if mode = 1 then "encap".toList
  else if mode = 2 then "l2encap".toList
  else []

/-- The loop over the segments of a routing header, with `left` of `n` rounds left. The
header stands behind the four bytes of the mode, its segments behind eight more. -/
def segsLoop (rta : Ptr) (n : ℕ) : ℕ → Text → Reads Text
  | 0, segs => pure segs
  | left + 1, segs => do
    let i := n - (left + 1)
    let m ← payloadAt rta (12 + 16 * (i + 1))
    let str := inetNtop6 (bytes 16 (m.drop (12 + 16 * i)))
    let item ← .silent (strfmt (str ++ if i + 1 < n then [','] else []))
    segsLoop rta n left (segs ++ item)

/-- The mode and the segments of a `seg6_iptunnel_encap`. -/
def srhReads (rta : Ptr) : Reads (Text × Text) := do
  let m ← payloadAt rta 4
  let mode := iptunMode (le32 m 0)
  let m ← payloadAt rta 6
  let n := (byteAt m 5).toNat / 2
  let segs ← segsLoop rta n n []
  pure (mode, segs)

def seg6Command (stale : RtaTable) (route : RtObject) (isNew : Bool) (dst oif : Text) :
    Reads Text := do
  let sub ← readNested stale (route.rtas.get rtaEncap)
  let srh ← optional (sub seg6IptunnelSrh) ([], []) srhReads
  .silent (strfmt (routeHead route isNew dst ++ " encap seg6 mode ".toList ++ srh.1 ++
    " segs ".toList ++ srh.2 ++ " dev ".toList ++ oif))

/-- The parameter printed behind an action. The table of `end.t` is read from the
attribute of the interface. -/
def actionParameter (names : IfNames) (sub : RtaTable) (num : UInt32) : Reads Text :=
  if num = seg6LocalActionEndX ∧ sub seg6LocalNh6 ≠ .null then do
    let nh6 ← readAddr (sub seg6LocalNh6) afInet6
    .silent (strfmt (" nh6 ".toList ++ nh6))
  else if num = seg6LocalActionEndDx2 ∧ sub seg6LocalOif ≠ .null then do
    let oif ← readIfname names (sub seg6LocalOif)
    .silent (strfmt (" oif ".toList ++ oif))
  else if num = seg6LocalActionEndT ∧ sub seg6LocalTable ≠ .null then do
    let tableId ← read32 (sub seg6LocalOif)
    .silent (strfmt (" table ".toList ++ signedDecimal tableId))
  else pure []

def seg6LocalCommand (names : IfNames) (stale : RtaTable) (route : RtObject) (isNew : Bool)
    (dst oif : Text) : Reads Text := do
  let sub ← readNested stale (route.rtas.get rtaEncap)
  let action ← optional (sub seg6LocalAction) [] fun rta => do
    let num ← read32 rta
    let action ← .silent (strfmt (seg6LocalActionToStr2 num))
    let parameter ← actionParameter names sub num
    pure (action ++ parameter)
  .silent (strfmt (routeHead route isNew dst ++ " encap seg6local action ".toList ++ action ++
    " dev ".toList ++ oif))

def unknownCommand (route : RtObject) (isNew : Bool) (dst : Text) : Reads Text :=
  .silent (strfmt (routeHead route isNew dst ++ " unknown-type".toList))

/-- The command of a route without a gateway. -/
def encapCommand (names : IfNames) (stale : RtaTable) (route : RtObject) (isNew : Bool)
    (dst oif : Text) : Reads Text :=
  match route.rtas.get rtaEncapType with
  | .null => unknownCommand route isNew dst
  | encapRta => do
    let encapType ← read16 encapRta
    if encapType = lwtunnelEncapSeg6 then seg6Command stale route isNew dst oif
    else if encapType = lwtunnelEncapSeg6Local then
      seg6LocalCommand names stale route isNew dst oif
    else unknownCommand route isNew dst

def routeToIproute2Cli (names : IfNames) (stale : RtaTable) (route : RtObject) (isNew : Bool) :
    Reads Text := do
  let family := rtmFamily route.hdr
  let _src ← optional (route.rtas.get rtaSrc) [] fun rta => readAddr rta family
  let _iif ← optional (route.rtas.get rtaIif) [] (readIfname names)
  let dst ← optional (route.rtas.get rtaDst) [] fun rta => readAddr rta family
  let oif ← optional (route.rtas.get rtaOif) [] (readIfname names)
  match route.rtas.get rtaGateway with
  | .null => encapCommand names stale route isNew dst oif
  | gwRta => do
    let gw ← readAddr gwRta family
    .silent (strfmt (routeHead route isNew dst ++ " via ".toList ++ gw ++ " dev ".toList ++ oif))

/-! ### Texts that fit -/

theorem strfmt_cases (text : Text) : strfmt text = .ok text ∨ strfmt text = .error .overflow := by
  unfold strfmt
  split
  · exact Or.inl rfl
  · exact Or.inr rfl

theorem strfmt_eq_ok {text cmd : Text} (h : strfmt text = .ok cmd) :
    text.length < 1000 ∧ text = cmd := by
  unfold strfmt at h
  split at h
  · exact ⟨‹_›, Except.ok.inj h⟩
  · cases h

theorem length_routeHead (route : RtObject) (isNew : Bool) (dst : Text) :
    (routeHead route isNew dst).length =
      17 + dst.length + (decimal (rtmDstLen route.hdr).toNat).length := by
  have hfamily : (if rtmFamily route.hdr = afInet then ['4'] else ['6']).length = 1 := by
    split <;> rfl
  have hope : (if isNew then "add".toList else "del".toList).length = 3 := by
    cases isNew <;> rfl
  have hip : "ip -".toList.length = 4 := rfl
  have hroute : " route ".toList.length = 7 := rfl
  unfold routeHead
  simp only [List.length_append, List.length_singleton, hfamily, hope, hip, hroute]
  omega

theorem length_routeHead_le (route : RtObject) (isNew : Bool) (dst : Text) :
    (routeHead route isNew dst).length ≤ dst.length + 20 := by
  have hlen := decimal_length_le (show (rtmDstLen route.hdr).toNat < 1000 from
    (rtmDstLen route.hdr).toNat_lt.trans (by decide))
  rw [length_routeHead]
  omega

theorem strfmt_action (num : UInt32) :
    strfmt (seg6LocalActionToStr2 num) = .ok (seg6LocalActionToStr2 num) := by
  apply strfmt_ok
  unfold seg6LocalActionToStr2
  split <;> decide

theorem strfmt_segment (a : In6Addr) (more : Prop) [Decidable more] :
    strfmt (inetNtop6 a ++ if more then [','] else []) =
      .ok (inetNtop6 a ++ if more then [','] else []) := by
  have hlen := inetNtop6_length_le a
  have hsep : (if more then [','] else []).length ≤ 1 := by
    split <;> decide
  have happend := @List.length_append _ (inetNtop6 a) (if more then [','] else [])
  exact strfmt_ok (by omega)

end Routerd
