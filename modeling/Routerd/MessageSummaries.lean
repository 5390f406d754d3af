import Routerd.AssertedLengths

/-!
# The summaries of address, nexthop and netconf messages

Each of the three pairs a start macro with a length macro, and here the two agree: the walk stays
inside the message and is decided by it. It comes to the end of the attributes only if each of them
prints, though. The printer of an address attribute asserts nothing; those of nexthop and netconf
attributes end the process at an attribute whose length is not the expected one, and of a nexthop
message also where the type of an encapsulation does not come right behind it.
-/

namespace Routerd
open ByteMemory NumeralText InetText

/-! ### Addresses -/

def rtaTypeAddrToStr (type : ℕ) : String :=
  ["IFA_UNSPEC", "IFA_ADDRESS", "IFA_LOCAL", "IFA_LABEL", "IFA_BROADCAST", "IFA_ANYCAST",
    "IFA_CACHEINFO", "IFA_MULTICAST", "IFA_FLAGS"].getD type "IFA_UNKWNOWN"

def ifaLabel : ℕ := 3

def ifaFlags : ℕ := 8

def ifaddrmsgRtattrSummary (rta : Mem) : Except Fault Text :=
  let type := rtaType rta
  let hdr := attrHdr 16 type (rtaTypeAddrToStr type)
  if type = ifaAddress ∨ type = ifaLocal then
    let addrLen := sizeSub (rtaLen rta) 4
    if addrLen = 4 ∨ addrLen = 16 then .ok (hdr ++ addressText (rta.drop 4) addrLen)
    else .ok (hdr ++ "unknown-addr-fmt".toList)
  else if type = ifaLabel then .ok (hdr ++ cString (rta.drop 4))
  else if type = ifaFlags then .ok (hdr ++ "0x".toList ++ hex (le32 rta 4).toNat)
  else .ok (hdr ++ unknownFmt rta)

def ifaddrmsgSummary (ifa : Mem) : Text :=
  "family=".toList ++ decimal (byteAt ifa 0).toNat ++ " pref=".toList ++
    decimal (byteAt ifa 1).toNat ++ " ifindex=".toList ++ decimal (le32 ifa 4).toNat ++
    " flags=0x".toList ++ hex (byteAt ifa 2).toNat ++ " scope=".toList ++
    decimal (byteAt ifa 3).toNat

/-- `IFA_RTA` is behind the eight bytes of the `ifaddrmsg`. -/
def rtnlAddrSummary (fuel : ℕ) (hdr : Mem) : SummaryRun :=
  summaryLoop ifaddrmsgRtattrSummary hdr fuel (16 + 8) (ifaPayload hdr)
    (ifaddrmsgSummary (nlmsgBody hdr) ++ ['\n'])

/-! ### Nexthops -/

def nhmsgSummary (nhm : Mem) : Text :=
  "fmly=".toList ++ decimal (byteAt nhm 0).toNat ++ " scope=".toList ++
    decimal (byteAt nhm 1).toNat ++ " pro=".toList ++ decimal (byteAt nhm 2).toNat ++
    " flags=0x".toList ++ hex (le32 nhm 4).toNat

/-- `NHM_RTA` is behind the eight bytes of the `nhmsg`. -/
def rtnlNexthopSummary (fuel : ℕ) (hdr : Mem) : SummaryRun :=
  summaryLoop nhmsgRtattrSummary hdr fuel (16 + 8) (ifaPayload hdr)
    (nhmsgSummary (nlmsgBody hdr) ++ ['\n'])

/-! ### Settings of interfaces -/

def rtaTypeNetconfToStr (type : ℕ) : String :=
  ["NETCONFA_UNSPEC", "NETCONFA_IFINDEX", "NETCONFA_FORWARDING", "NETCONFA_RP_FILTER",
    "NETCONFA_MC_FORWARDING", "NETCONFA_PROXY_NEIGH", "NETCONFA_IGNORE_ROUTES_WITH_LINKDOWN",
    "NETCONFA_INPUT"].getD type "UNKNOWN"

/-- From `NETCONFA_IFINDEX` to `NETCONFA_INPUT`. -/
def netconfTypes32 : List ℕ := [1, 2, 3, 4, 5, 6, 7]

def netconfmsgRtattrSummary (rta : Mem) : Except Fault Text :=
  let type := rtaType rta
  let hdr := attrHdr 24 type (rtaTypeNetconfToStr type)
  if type ∈ netconfTypes32 then sizedText rta 8 (hdr ++ formatValue rta .u32)
  else .ok (hdr ++ unknownFmt rta)

def netconfmsgSummary (nc : Mem) : Text := "family=".toList ++ decimal (byteAt nc 0).toNat

/-- `NC_PAYLOAD`. -/
def ncPayload (n : Mem) : ℕ := sizeSub (nlmsgLen n) 20

/-- `NC_RTA` is behind the one byte of the `netconfmsg`, padded to a word. -/
def rtnlNetconfSummary (fuel : ℕ) (hdr : Mem) : SummaryRun :=
  summaryLoop netconfmsgRtattrSummary hdr fuel (16 + 4) (ncPayload hdr)
    (netconfmsgSummary (nlmsgBody hdr) ++ ['\n'])

/-! ### The walks -/

theorem exists_ifaddrmsgRtattrSummary (rta : Mem) : ∃ t, ifaddrmsgRtattrSummary rta = .ok t := by
  unfold ifaddrmsgRtattrSummary
  dsimp only
  split
  · split <;> exact ⟨_, rfl⟩
  split
  · exact ⟨_, rfl⟩
  split <;> exact ⟨_, rfl⟩

/-- The length of an attribute of a netconf message. -/
def NetconfLength (type len : ℕ) : Prop := type ∈ netconfTypes32 → len = 8

instance (type len : ℕ) : Decidable (NetconfLength type len) := inferInstanceAs (Decidable (_ → _))

theorem exists_netconfmsgRtattrSummary_iff (rta : Mem) :
    (∃ t, netconfmsgRtattrSummary rta = .ok t) ↔ NetconfLength (rtaType rta) (rtaLen rta) := by
  unfold netconfmsgRtattrSummary
  dsimp only
  split
  · rename_i h
    rw [exists_sizedText_iff, NetconfLength, imp_iff_right h]
  · rename_i h
    exact iff_of_true ⟨_, rfl⟩ fun h' => absurd h' h

theorem Follows.congr {offsets : List ℕ} {p q : ℕ → Prop} {run : SummaryRun}
    (h : Follows offsets p run) (hpq : ∀ k ∈ offsets, p k ↔ q k) : Follows offsets q run :=
  ⟨h.ended, h.visited, h.completes_iff.trans (forall₂_congr hpq)⟩

theorem netconfLength_own {own : Mem} {h : ℕ} (hinside : h + 4 ≤ own.length) (behind : Mem) :
    PrintsAt netconfmsgRtattrSummary (own ++ behind) h ↔
      NetconfLength (rtaType (own.drop h)) (rtaLen (own.drop h)) := by
  have hhead : 4 ≤ (own.drop h).length := by
    rw [List.length_drop]
    omega
  rw [PrintsAt, exists_netconfmsgRtattrSummary_iff, List.drop_append_of_le_length (by omega),
    rtaType_append hhead, rtaLen_append hhead]

theorem exists_netconfWalk (msg : WholeMessage 1) :
    ∃ offsets, OwnWalk msg.own 20 offsets ∧
      ∀ behind fuel, msg.own.length / 4 ≤ fuel →
        Follows offsets (PrintsAt netconfmsgRtattrSummary (msg.own ++ behind))
          (rtnlNetconfSummary fuel (msg.own ++ behind)) := by
  have hcovers := msg.covers
  have haligned := msg.aligned
  have hpayload : ∀ behind, ncPayload (msg.own ++ behind) = msg.own.length - 20 := by
    intro behind
    rw [ncPayload, nlmsgLen_append (by omega), ← msg.length, sizeSub_of_le (by omega)]
  have hat : AtWord msg.own 20 := ⟨haligned, rfl, by omega⟩
  obtain ⟨offsets, hwalk, hfollows⟩ := exists_ownWalk hat
  refine ⟨offsets, hwalk, fun behind fuel hfuel => ?_⟩
  rw [rtnlNetconfSummary, hpayload]
  exact hfollows netconfmsgRtattrSummary behind fuel _ hfuel

/-- The walks of the three summaries, whatever lies behind the message: they end, and come in order
to attributes that lie inside the message and are decided by it alone, which are its attribute list
where it has a well-formed one. The walk over an address message comes to all of them. The other two
do exactly if every attribute has the length that is asserted of its type and, in a nexthop message,
an encapsulation is followed right behind by its type and nests attributes of the lengths asserted. -/
theorem summaries_complete_iff (addrMsg nexthopMsg : WholeMessage 8) (netconfMsg : WholeMessage 1) :
    (∃ offsets, OwnWalk addrMsg.own 24 offsets ∧
      ∀ behind fuel, addrMsg.own.length / 4 ≤ fuel →
        Completes offsets (rtnlAddrSummary fuel (addrMsg.own ++ behind))) ∧
    (∃ offsets, OwnWalk nexthopMsg.own 24 offsets ∧
      ∀ behind fuel, nexthopMsg.own.length / 4 ≤ fuel →
        Follows offsets (fun h => NexthopAsserts ((nexthopMsg.own ++ behind).drop h))
          (rtnlNexthopSummary fuel (nexthopMsg.own ++ behind))) ∧
    ∃ offsets, OwnWalk netconfMsg.own 20 offsets ∧
      ∀ behind fuel, netconfMsg.own.length / 4 ≤ fuel →
        Follows offsets (fun h => NetconfLength (rtaType (netconfMsg.own.drop h))
            (rtaLen (netconfMsg.own.drop h)))
          (rtnlNetconfSummary fuel (netconfMsg.own ++ behind)) := by
  refine ⟨?_, ?_, ?_⟩
  · obtain ⟨offsets, hwalk, hfollows⟩ := exists_addressWalk addrMsg
    refine ⟨offsets, hwalk, fun behind fuel hfuel => ?_⟩
    exact (hfollows ifaddrmsgRtattrSummary behind fuel _ hfuel).completes_iff.mpr fun h _ =>
      exists_ifaddrmsgRtattrSummary _
  · obtain ⟨offsets, hwalk, hfollows⟩ := exists_addressWalk nexthopMsg
    refine ⟨offsets, hwalk, fun behind fuel hfuel => ?_⟩
    exact (hfollows nhmsgRtattrSummary behind fuel _ hfuel).congr fun h _ =>
      exists_nhmsgRtattrSummary_iff _
  · obtain ⟨offsets, hwalk, hfollows⟩ := exists_netconfWalk netconfMsg
    refine ⟨offsets, hwalk, fun behind fuel hfuel =>
      (hfollows behind fuel hfuel).congr fun h hh => ?_⟩
    obtain ⟨-, hmin, hfit⟩ := hwalk.inside h hh
    exact netconfLength_own (by omega) behind

def addressMessage : WholeMessage 8 where
  own := nlmsgBytes 20 (ifaddrmsgBytes afInet 8 1 ++
    layout [plainRtattr 1 [10, 0, 0, 1], plainRtattr 3 [108, 111]])
  length := by decide +kernel
  aligned := by decide +kernel
  covers := by decide +kernel

def nexthopAttrsList : List Rtattr :=
  [plainRtattr 1 [1, 0, 0, 0],
    plainRtattr 8 (layout [plainRtattr 1 [3, 0, 0, 0], plainRtattr 3 [254, 0, 0, 0]]),
    plainRtattr 7 [7, 0], plainRtattr 5 [2, 0, 0, 0]]

def nexthopMessage : WholeMessage 8 where
  own := nlmsgBytes 104 ([10, 0, 0, 0, 0, 0, 0, 0] ++ layout nexthopAttrsList)
  length := by decide +kernel
  aligned := by decide +kernel
  covers := by decide +kernel

def netconfMessage : WholeMessage 1 where
  own := nlmsgBytes 80 ([2, 0, 0, 0] ++
    layout [plainRtattr 1 [2, 0, 0, 0], plainRtattr 2 [1, 0, 0, 0]])
  length := by decide +kernel
  aligned := by decide +kernel
  covers := by decide +kernel

theorem nexthopMessage_asserts :
    ∀ h ∈ [24, 32, 52, 60], NexthopAsserts ((nexthopMessage.own ++ [9]).drop h) := by
  have hlength : ∀ h ∈ [24, 32, 52, 60],
      NexthopLength (rtaType ((nexthopMessage.own ++ [9]).drop h))
        (rtaLen ((nexthopMessage.own ++ [9]).drop h)) := by decide +kernel
  have hencap : ∀ h ∈ [24, 32, 52, 60], rtaType ((nexthopMessage.own ++ [9]).drop h) = nhaEncap →
      h = 32 := by decide +kernel
  intro h hh
  refine ⟨hlength h hh, fun htype => ?_⟩
  rw [hencap h hh htype]
  have hnested : (nestedViews (((nexthopMessage.own ++ [9]).drop 32).drop 4)
      (sizeSub (rtaLen ((nexthopMessage.own ++ [9]).drop 32)) 4)).all
        (fun v => decide (Seg6LocalLength (rtaType v) (rtaLen v))) = true := by decide +kernel
  exact ⟨by decide +kernel, by decide +kernel, fun _ v hv =>
    of_decide_eq_true (List.all_eq_true.mp hnested v hv)⟩

theorem summaries_complete_iff_messages :
    (rtnlAddrSummary 10 (addressMessage.own ++ [9])).visited = [24, 32] ∧
    (rtnlNexthopSummary 17 (nexthopMessage.own ++ [9])).visited = [24, 32, 52, 60] ∧
    (rtnlNetconfSummary 9 (netconfMessage.own ++ [9])).visited = [20, 28] := by
  obtain ⟨⟨addrs, haddrs, haddr⟩, ⟨hops, hhops, hhop⟩, ⟨confs, hconfs, hconf⟩⟩ :=
    summaries_complete_iff addressMessage nexthopMessage netconfMessage
  have haddrs' : addrs = [24, 32] := haddrs.list
    [plainRtattr 1 [10, 0, 0, 1], plainRtattr 3 [108, 111]] (by decide +kernel)
  have hhops' : hops = [24, 32, 52, 60] := hhops.list nexthopAttrsList (by decide +kernel)
  have hconfs' : confs = [20, 28] := hconfs.list
    [plainRtattr 1 [2, 0, 0, 0], plainRtattr 2 [1, 0, 0, 0]] (by decide +kernel)
  subst haddrs' hhops' hconfs'
  refine ⟨(haddr [9] 10 (by decide +kernel)).visited, ?_, ?_⟩
  · exact ((hhop [9] 17 (by decide +kernel)).completes_iff.mpr nexthopMessage_asserts).visited
  · exact ((hconf [9] 9 (by decide +kernel)).completes_iff.mpr (by decide +kernel)).visited

def shortIdMessage : WholeMessage 8 where
  own := nlmsgBytes 104 ([10, 0, 0, 0, 0, 0, 0, 0] ++
    layout [plainRtattr 1 [5, 0], plainRtattr 5 [2, 0, 0, 0]])
  length := by decide +kernel
  aligned := by decide +kernel
  covers := by decide +kernel

/-- The assertion on the length of the id fails, and the interface behind it is not come to. -/
theorem shortId_aborts :
    shortIdMessage.own.drop 24 = layout [plainRtattr 1 [5, 0], plainRtattr 5 [2, 0, 0, 0]] ∧
    layoutOffsets 24 [plainRtattr 1 [5, 0], plainRtattr 5 [2, 0, 0, 0]] = [24, 32] ∧
    (rtnlNexthopSummary 10 shortIdMessage.own).visited = [24] ∧
    (rtnlNexthopSummary 10 shortIdMessage.own).ending = .aborted .assertion := by
  refine ⟨by decide +kernel, by decide +kernel, by decide +kernel, by decide +kernel⟩

end Routerd
