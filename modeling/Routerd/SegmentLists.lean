import Routerd.EncapRoutes

/-!
# The segment list of a printed route

A routing header stores its segments last to first, and `ip route` takes them first to last:
the first one listed goes to the last place. The command lists them as they are stored, and
it takes their number from a header length that counts the bytes behind them as well. Read
back, the command therefore rebuilds the segments exactly if their list is its own reverse
and fewer than sixteen bytes stand behind it.
-/

namespace Routerd
open ByteMemory NumeralText InetText OverwriteStore AccessLog

/-- `struct seg6_iptunnel_encap` with its routing header: one segment or more, and the bytes
behind them that the header length covers. -/
structure Seg6Srh where
  mode : UInt32
  nexthdr : UInt8
  hdrlen : UInt8
  type : UInt8
  segmentsLeft : UInt8
  firstSegment : UInt8
  flags : UInt8
  tag : UInt16
  segments : List In6Addr
  tlvs : Mem
  first : segments.length = firstSegment.toNat + 1
  covers : 8 * hdrlen.toNat = 16 * segments.length + tlvs.length

namespace Seg6Srh

variable (srh : Seg6Srh)

def segmentBytes (segs : List In6Addr) : Mem := segs.flatMap List.ofFn

def bytes : Mem :=
  bytes32 srh.mode.toNat ++ ([srh.nexthdr, srh.hdrlen, srh.type, srh.segmentsLeft,
    srh.firstSegment, srh.flags] ++ (bytes16 srh.tag.toNat ++ (segmentBytes srh.segments ++ srh.tlvs)))

/-- The addresses that the loop over the header lists. -/
def listed : List In6Addr :=
  (List.range (srh.hdrlen.toNat / 2)).map fun i => ByteMemory.bytes 16 (srh.bytes.drop (12 + 16 * i))

end Seg6Srh

/-- The segments as the command writes them. -/
def segsText (segs : List In6Addr) : Text := [','].intercalate (segs.map inetNtop6)

/-- A route whose encapsulation holds a routing header. -/
structure Seg6Route extends EncapRoute lwtunnelEncapSeg6 where
  srh : Seg6Srh
  srhAttr : Rtattr
  found : newest Rtattr.type nested seg6IptunnelSrh = some srhAttr
  srhPayload : srhAttr.payload = srh.bytes

/-- Names of interfaces are single words. -/
structure WordNames extends IfNames where
  noBlank : ∀ i s, name i = some s → ' ' ∉ s

/-! ### Reading a command back -/

/-- The word behind `segs`. -/
def segsOperand (cmd : Text) : Option Text :=
  ((cmd.splitOn ' ').dropWhile (· != "segs".toList)).tail.head?

/-- The segments that `ip route` stores: the `k`-th one listed goes to the place `k` before the
last, so that the list is turned round. -/
def rebuiltSegments (cmd : Text) : Option (List In6Addr) := do
  let operand ← segsOperand cmd
  let listed ← (operand.splitOn ',').mapM inetPton6
  pure listed.reverse

theorem notMem_inetNtop6 {c : Char} (hc : c.isAlphanum = false ∧ c ≠ ':' ∧ c ≠ '.')
    (a : In6Addr) : c ∉ inetNtop6 a := by
  intro h
  rcases mem_inetNtop6 h with h | h | h
  · rw [hc.1] at h
    cases h
  · exact hc.2.1 h
  · exact hc.2.2 h

theorem mapM_inetPton6 (segs : List In6Addr) :
    (segs.map inetNtop6).mapM inetPton6 = some segs := by
  induction segs with
  | nil => rfl
  | cons a segs ih =>
    rw [List.map_cons, List.mapM_cons, ih, inetPton6_inetNtop6]
    rfl

theorem splitOn_segsText {segs : List In6Addr} (h : segs ≠ []) :
    (segsText segs).splitOn ',' = segs.map inetNtop6 := by
  apply List.splitOn_intercalate
  · intro text htext
    obtain ⟨a, -, rfl⟩ := List.mem_map.mp htext
    exact notMem_inetNtop6 (by decide) a
  · simpa using h

theorem blank_notMem_segsText (segs : List In6Addr) : ' ' ∉ segsText segs := by
  have hno : ∀ texts : List Text, (∀ text ∈ texts, ' ' ∉ text) →
      ' ' ∉ [','].intercalate texts := by
    intro texts
    induction texts with
    | nil => simp
    | cons text texts ih =>
      intro hall
      obtain ⟨htext, hrest⟩ := List.forall_mem_cons.mp hall
      cases texts with
      | nil => simpa using htext
      | cons text' texts =>
        rw [List.intercalate_cons_cons]
        simp [htext, ih hrest]
  apply hno
  intro text htext
  obtain ⟨a, -, rfl⟩ := List.mem_map.mp htext
  exact notMem_inetNtop6 (by decide) a

theorem addrText_noBlank {rtas : RtaArray} {t : ℕ} {family : UInt8} {text : Text}
    (h : addrText rtas t family = .ok text) : ' ' ∉ text := by
  rcases rtas.get_cases t with hnull | ⟨m, hm⟩
  · rw [addrText_null hnull] at h
    cases h
    simp
  · by_cases h4 : family = afInet
    · rw [h4, addrText_inet hm] at h
      cases h
      intro hmem
      rcases mem_inetNtop4 hmem with hmem | hmem
      · exact absurd hmem (by decide)
      · exact absurd hmem (by decide)
    · by_cases h6 : family = afInet6
      · rw [h6, addrText_inet6 hm] at h
        cases h
        exact notMem_inetNtop6 (by decide) _
      · rw [addrText_other h4 h6] at h
        cases h
        simp

theorem WordNames.readIfname_noBlank (names : WordNames) {rtas : RtaArray} {t : ℕ} {text : Text}
    (h : (optional (rtas.get t) [] (readIfname names.toIfNames)).outcome = .ok text) :
    ' ' ∉ text := by
  rcases rtas.get_cases t with hnull | ⟨m, hm⟩
  · rw [hnull] at h
    cases h
    simp
  · rw [hm, optional_of_ne_null (by simp), readIfname, Logged.outcome_bind] at h
    obtain ⟨index, -, hindex⟩ := bind_eq_ok h
    cases hindex
    unfold ifindex2str
    cases hname : names.name index with
    | none => decide
    | some s => exact names.noBlank index s hname

/-! ### The words of a command -/

def headWords (route : RtObject) (isNew : Bool) (dst : Text) : List Text :=
  [['i', 'p'], '-' :: (if rtmFamily route.hdr = afInet then ['4'] else ['6']),
    ['r', 'o', 'u', 't', 'e'], if isNew then ['a', 'd', 'd'] else ['d', 'e', 'l'],
    dst ++ '/' :: decimal (rtmDstLen route.hdr).toNat]

theorem routeHead_append (route : RtObject) (isNew : Bool) (dst word : Text) (words : List Text) :
    routeHead route isNew dst ++ ' ' :: [' '].intercalate (word :: words) =
      [' '].intercalate (headWords route isNew dst ++ word :: words) := by
  have hip : "ip -".toList = ['i', 'p', ' ', '-'] := rfl
  have hroute : " route ".toList = [' ', 'r', 'o', 'u', 't', 'e', ' '] := rfl
  have hope : (if isNew then "add".toList else "del".toList) =
      if isNew then ['a', 'd', 'd'] else ['d', 'e', 'l'] := rfl
  unfold routeHead headWords
  rw [hip, hroute, hope]
  simp only [List.cons_append, List.nil_append, List.intercalate_cons_cons, List.append_assoc]

theorem headWords_noBlank (route : RtObject) (isNew : Bool) {dst : Text} (hdst : ' ' ∉ dst) :
    ∀ word ∈ headWords route isNew dst, ' ' ∉ word := by
  have hlen : ' ' ∉ decimal (rtmDstLen route.hdr).toNat := fun h =>
    absurd (isDigit_of_mem_decimal h) (by decide)
  intro word hword
  simp only [headWords, List.mem_cons, List.not_mem_nil, or_false] at hword
  rcases hword with rfl | rfl | rfl | rfl | rfl
  · decide
  · split <;> decide
  · decide
  · split <;> decide
  · simp [hdst, hlen]

theorem dropWhile_headWords (route : RtObject) (isNew : Bool) (dst : Text) (words : List Text) :
    (headWords route isNew dst ++ words).dropWhile (· != "segs".toList) =
      words.dropWhile (· != "segs".toList) := by
  have hope : (if isNew then ['a', 'd', 'd'] else ['d', 'e', 'l']) ≠ "segs".toList := by
    cases isNew <;> decide
  have hdst : dst ++ '/' :: decimal (rtmDstLen route.hdr).toNat ≠ "segs".toList := by
    intro h
    have hmem : '/' ∈ "segs".toList := by rw [← h]; simp
    exact absurd hmem (by decide)
  unfold headWords
  simp only [List.cons_append, List.nil_append]
  rw [List.dropWhile_cons_of_pos (by decide), List.dropWhile_cons_of_pos (by simp),
    List.dropWhile_cons_of_pos (by decide), List.dropWhile_cons_of_pos (by simpa using hope),
    List.dropWhile_cons_of_pos (by simpa using hdst)]

theorem segsOperand_words (route : RtObject) (isNew : Bool) {dst word : Text} {words : List Text}
    (hdst : ' ' ∉ dst) (hwords : ∀ w ∈ word :: words, ' ' ∉ w) :
    segsOperand (routeHead route isNew dst ++ ' ' :: [' '].intercalate (word :: words)) =
      ((word :: words).dropWhile (· != "segs".toList)).tail.head? := by
  have hblank : ∀ w ∈ headWords route isNew dst ++ word :: words, ' ' ∉ w := by
    intro w hw
    rcases List.mem_append.mp hw with hw | hw
    · exact headWords_noBlank route isNew hdst w hw
    · exact hwords w hw
  rw [segsOperand, routeHead_append, List.splitOn_intercalate ' ' hblank (by simp),
    dropWhile_headWords]

/-! ### The segments that the loop lists -/

theorem segsText_cons (a : In6Addr) (segs : List In6Addr) :
    segsText (a :: segs) = (inetNtop6 a ++ if 0 < segs.length then [','] else []) ++ segsText segs := by
  cases segs with
  | nil => simp [segsText]
  | cons b segs => simp [segsText, List.intercalate_cons_cons]

theorem outcome_segsLoop {rta : Ptr} {m : Mem} (hm : deref (rtaReadptr rta) = .ok m) {n left : ℕ}
    (hle : left ≤ n) (segs : Text) :
    (segsLoop rta n left segs).outcome = .ok (segs ++ segsText
      ((List.range' (n - left) left).map fun i => bytes 16 (m.drop (12 + 16 * i)))) := by
  induction left generalizing segs with
  | zero => simp [segsLoop, segsText]
  | succ left ih =>
    have hnext : n - (left + 1) + 1 = n - left := by omega
    have hmore : n - left < n ↔ 0 < left := by omega
    rw [segsLoop, Logged.outcome_bind, outcome_payloadAt, hm, ok_bind, Logged.outcome_bind,
      Logged.outcome_silent, strfmt_segment, ok_bind, ih (by omega), List.range'_succ, List.map_cons,
      segsText_cons, List.length_map, List.length_range', hnext, List.append_assoc]
    simp only [hmore]

namespace Seg6Srh

variable (srh : Seg6Srh)

theorem length_segmentBytes (segs : List In6Addr) :
    (segmentBytes segs).length = 16 * segs.length := by
  induction segs with
  | nil => rfl
  | cons a segs ih =>
    rw [segmentBytes, List.flatMap_cons, List.length_append, List.length_ofFn, List.length_cons]
    rw [segmentBytes] at ih
    omega

theorem bytes_ofFn (a : In6Addr) (m : Mem) : ByteMemory.bytes 16 (List.ofFn a ++ m) = a := by
  funext i
  have hi : (i : ℕ) < (List.ofFn a).length := by rw [List.length_ofFn]; exact i.isLt
  rw [ByteMemory.bytes, byteAt_append hi, byteAt, List.getD_eq_getElem?_getD,
    List.getElem?_eq_getElem hi, Option.getD_some, List.getElem_ofFn]

theorem map_range_segmentBytes (segs : List In6Addr) (m : Mem) :
    ((List.range segs.length).map fun i =>
      ByteMemory.bytes 16 ((segmentBytes segs ++ m).drop (16 * i))) = segs := by
  induction segs with
  | nil => rfl
  | cons a segs ih =>
    have hfirst : segmentBytes (a :: segs) ++ m = List.ofFn a ++ (segmentBytes segs ++ m) := by
      rw [segmentBytes, List.flatMap_cons, List.append_assoc]
      rfl
    have hrest : ∀ i, (List.ofFn a ++ (segmentBytes segs ++ m)).drop (16 * (i + 1)) =
        (segmentBytes segs ++ m).drop (16 * i) := by
      intro i
      rw [List.drop_append, List.drop_eq_nil_of_le (by simp), List.length_ofFn]
      simp [Nat.mul_add]
    rw [List.length_cons, List.range_succ_eq_map, List.map_cons, List.map_map, hfirst]
    simp only [Function.comp_def, Nat.succ_eq_add_one, hrest]
    rw [ih, Nat.mul_zero, List.drop_zero, bytes_ofFn]

theorem bytes_eq : srh.bytes = (bytes32 srh.mode.toNat ++ ([srh.nexthdr, srh.hdrlen, srh.type,
    srh.segmentsLeft, srh.firstSegment, srh.flags] ++ bytes16 srh.tag.toNat)) ++
      (segmentBytes srh.segments ++ srh.tlvs) := by
  simp [bytes]

theorem length_bytes : srh.bytes.length = 12 + 8 * srh.hdrlen.toNat := by
  rw [srh.covers, ← length_segmentBytes, ← List.length_append, bytes_eq, List.length_append]
  rfl

theorem le32_bytes (behind : Mem) : le32 (srh.bytes ++ behind) 0 = srh.mode := by
  apply UInt32.toNat_inj.mp
  rw [bytes, List.append_assoc, le32_bytes32 srh.mode.toNat_lt]

theorem byteAt_bytes (behind : Mem) : byteAt (srh.bytes ++ behind) 5 = srh.hdrlen := rfl

theorem length_listed : srh.listed.length = srh.segments.length + srh.tlvs.length / 16 := by
  have hcovers := srh.covers
  rw [listed, List.length_map, List.length_range]
  omega

theorem listed_append (behind : Mem) :
    ((List.range (srh.hdrlen.toNat / 2)).map fun i =>
      ByteMemory.bytes 16 ((srh.bytes ++ behind).drop (12 + 16 * i))) = srh.listed := by
  have hlen := srh.length_bytes
  apply List.map_congr_left
  intro i hi
  have hi' := List.mem_range.mp hi
  rw [List.drop_append_of_le_length (by omega), bytes_append (by rw [List.length_drop]; omega)]

theorem listed_eq (h : srh.tlvs.length < 16) : srh.listed = srh.segments := by
  have hcovers := srh.covers
  have hn : srh.hdrlen.toNat / 2 = srh.segments.length := by omega
  have hdrop : ∀ i, srh.bytes.drop (12 + 16 * i) =
      (segmentBytes srh.segments ++ srh.tlvs).drop (16 * i) := by
    intro i
    rw [bytes_eq, List.drop_append, List.drop_eq_nil_of_le (by simp [bytes32, bytes16])]
    simp [bytes32, bytes16]
  rw [listed, hn]
  simp only [hdrop]
  exact map_range_segmentBytes srh.segments srh.tlvs

/-- The listed addresses, turned round, are the segments. -/
theorem reverse_listed_iff :
    srh.listed.reverse = srh.segments ↔
      srh.tlvs.length < 16 ∧ srh.segments.reverse = srh.segments := by
  constructor
  · intro h
    have hlen := congrArg List.length h
    rw [List.length_reverse, length_listed] at hlen
    have htlvs : srh.tlvs.length < 16 := by omega
    rw [srh.listed_eq htlvs] at h
    exact ⟨htlvs, h⟩
  · rintro ⟨htlvs, h⟩
    rw [srh.listed_eq htlvs, h]

theorem listed_ne_nil : srh.listed ≠ [] := by
  have hlen := srh.length_listed
  have hfirst := srh.first
  intro h
  rw [h, List.length_nil] at hlen
  omega

end Seg6Srh

/-! ### The printed command -/

namespace Seg6Route

variable (r : Seg6Route)

def command (isNew : Bool) (dst oif : Text) : Text :=
  routeHead r.route isNew dst ++ " encap seg6 mode ".toList ++ iptunMode r.srh.mode ++
    " segs ".toList ++ segsText r.srh.listed ++ " dev ".toList ++ oif

theorem outcome_srhReads {rest : Mem} {rta : Ptr} (h : rta = .mem (r.srhAttr.bytes ++ rest)) :
    (srhReads rta).outcome = .ok (iptunMode r.srh.mode, segsText r.srh.listed) := by
  have hm : deref (rtaReadptr rta) = .ok (r.srh.bytes ++ (r.srhAttr.padding ++ rest)) := by
    rw [h, r.srhAttr.rtaReadptr_bytes, deref_mem, r.srhPayload]
  rw [srhReads, Logged.outcome_bind, outcome_payloadAt, hm, ok_bind, Logged.outcome_bind,
    outcome_payloadAt, hm, ok_bind, Logged.outcome_bind, outcome_segsLoop hm (Nat.le_refl _), ok_bind,
    r.srh.le32_bytes, r.srh.byteAt_bytes, Nat.sub_self, ← List.range_eq_range', r.srh.listed_append,
    List.nil_append]
  rfl

theorem outcome_seg6Command (h : r.TypesFit) (stale : RtaTable) (isNew : Bool) (dst oif : Text) :
    (seg6Command stale r.route isNew dst oif).outcome = strfmt (r.command isNew dst oif) := by
  obtain ⟨rest, hrest⟩ := r.sub_of_newest r.found
  rw [seg6Command, Logged.outcome_bind, r.outcome_readNested_ok h, ok_bind, Logged.outcome_bind,
    hrest, optional_of_ne_null (by simp), r.outcome_srhReads rfl, ok_bind, Logged.outcome_silent]
  rfl

theorem outcome_seg6Command_refused (h : ¬ r.TypesFit) (stale : RtaTable) (isNew : Bool)
    (dst oif : Text) :
    (seg6Command stale r.route isNew dst oif).outcome = .error .assertion := by
  rw [seg6Command, Logged.outcome_bind, r.outcome_readNested_refused h, error_bind]

theorem command_words (isNew : Bool) (dst oif : Text) :
    r.command isNew dst oif = routeHead r.route isNew dst ++ ' ' :: [' '].intercalate
      ["encap".toList, "seg6".toList, "mode".toList, iptunMode r.srh.mode, "segs".toList,
        segsText r.srh.listed, "dev".toList, oif] := by
  have hmode : " encap seg6 mode ".toList =
      ' ' :: ("encap".toList ++ ' ' :: ("seg6".toList ++ ' ' :: ("mode".toList ++ [' ']))) := rfl
  have hsegs : " segs ".toList = ' ' :: ("segs".toList ++ [' ']) := rfl
  have hdev : " dev ".toList = ' ' :: ("dev".toList ++ [' ']) := rfl
  unfold command
  rw [hmode, hsegs, hdev]
  simp only [List.intercalate_cons_cons, List.intercalate_singleton, List.append_assoc, List.cons_append,
    List.nil_append]

theorem rebuiltSegments_command (isNew : Bool) {dst oif : Text} (hdst : ' ' ∉ dst)
    (hoif : ' ' ∉ oif) :
    rebuiltSegments (r.command isNew dst oif) = some r.srh.listed.reverse := by
  have hmode : ' ' ∉ iptunMode r.srh.mode ∧ iptunMode r.srh.mode ≠ "segs".toList := by
    unfold iptunMode
    repeat' split
    all_goals decide
  have hwords : ∀ w ∈ ["encap".toList, "seg6".toList, "mode".toList, iptunMode r.srh.mode,
      "segs".toList, segsText r.srh.listed, "dev".toList, oif], ' ' ∉ w := by
    intro w hw
    simp only [List.mem_cons, List.not_mem_nil, or_false] at hw
    rcases hw with rfl | rfl | rfl | rfl | rfl | rfl | rfl | rfl
    · decide
    · decide
    · decide
    · exact hmode.1
    · decide
    · exact blank_notMem_segsText _
    · decide
    · exact hoif
  have hoperand : segsOperand (r.command isNew dst oif) = some (segsText r.srh.listed) := by
    rw [command_words, segsOperand_words r.route isNew hdst hwords,
      List.dropWhile_cons_of_pos (by decide), List.dropWhile_cons_of_pos (by decide),
      List.dropWhile_cons_of_pos (by decide), List.dropWhile_cons_of_pos (by simpa using hmode.2),
      List.dropWhile_cons_of_neg (by decide)]
    rfl
  rw [rebuiltSegments, hoperand, Option.bind_eq_bind, Option.bind_some,
    splitOn_segsText r.srh.listed_ne_nil, mapM_inetPton6]
  rfl

theorem outcome_routeToIproute2Cli (hgateway : r.route.rtas.get rtaGateway = .null)
    (hiif : ¬ Refuses r.route.rtas rtaIif) (hoif : ¬ Refuses r.route.rtas rtaOif)
    (htypes : r.TypesFit) (names : WordNames) (isNew : Bool) :
    ∃ dst oif, addrText r.route.rtas rtaDst (rtmFamily r.route.hdr) = .ok dst ∧
      (optional (r.route.rtas.get rtaOif) [] (readIfname names.toIfNames)).outcome = .ok oif ∧
      ∀ stale, (routeToIproute2Cli names.toIfNames stale r.route isNew).outcome =
        strfmt (r.command isNew dst oif) := by
  obtain ⟨src, hsrc, -⟩ := addrText_short r.route.rtas rtaSrc (rtmFamily r.route.hdr)
  obtain ⟨dst, hdst, -⟩ := addrText_short r.route.rtas rtaDst (rtmFamily r.route.hdr)
  obtain ⟨iif, hiif'⟩ := exists_read_of_not_refuses names.toIfNames hiif
  obtain ⟨oif, hoif'⟩ := exists_read_of_not_refuses names.toIfNames hoif
  refine ⟨dst, oif, hdst, hoif', fun stale => ?_⟩
  rw [Routerd.outcome_routeToIproute2Cli hgateway, hsrc, ok_bind, hiif', ok_bind, hdst, ok_bind, hoif',
    ok_bind, r.outcome_encapCommand, if_pos rfl, r.outcome_seg6Command htypes]

theorem rebuiltSegments_gateway (route : RtObject) (isNew : Bool) {dst gw oif : Text}
    (hdst : ' ' ∉ dst) (hgw : ' ' ∉ gw) (hoif : ' ' ∉ oif) :
    rebuiltSegments (routeHead route isNew dst ++ " via ".toList ++ gw ++ " dev ".toList ++ oif) =
      none := by
  have hvia : " via ".toList = ' ' :: ("via".toList ++ [' ']) := rfl
  have hdev : " dev ".toList = ' ' :: ("dev".toList ++ [' ']) := rfl
  have hcommand : routeHead route isNew dst ++ " via ".toList ++ gw ++ " dev ".toList ++ oif =
      routeHead route isNew dst ++ ' ' :: [' '].intercalate
        ["via".toList, gw, "dev".toList, oif] := by
    rw [hvia, hdev]
    simp only [List.intercalate_cons_cons, List.intercalate_singleton, List.append_assoc,
      List.cons_append, List.nil_append]
  have hwords : ∀ w ∈ ["via".toList, gw, "dev".toList, oif], ' ' ∉ w := by
    intro w hw
    simp only [List.mem_cons, List.not_mem_nil, or_false] at hw
    rcases hw with rfl | rfl | rfl | rfl
    · decide
    · exact hgw
    · decide
    · exact hoif
  rw [rebuiltSegments, hcommand, segsOperand_words route isNew hdst hwords,
    List.dropWhile_cons_of_pos (by decide)]
  -- an operand could only be `dev`, which is no address
  by_cases hgw' : gw = "segs".toList
  · rw [List.dropWhile_cons_of_neg (by simp [hgw'])]
    rfl
  · rw [List.dropWhile_cons_of_pos (by simpa using hgw'), List.dropWhile_cons_of_pos (by decide)]
    by_cases hoif' : oif = "segs".toList
    · rw [List.dropWhile_cons_of_neg (by simp [hoif'])]
      rfl
    · rw [List.dropWhile_cons_of_pos (by simpa using hoif')]
      rfl

theorem rebuiltSegments_of_gateway {route : RtObject} (h : route.rtas.get rtaGateway ≠ .null)
    (names : WordNames) (stale : RtaTable) (isNew : Bool) {cmd : Text}
    (hcmd : (routeToIproute2Cli names.toIfNames stale route isNew).outcome = .ok cmd) :
    rebuiltSegments cmd = none := by
  rw [routeToIproute2Cli] at hcmd
  simp only [Logged.outcome_bind, outcome_optional_readAddr] at hcmd
  obtain ⟨-, -, hcmd⟩ := bind_eq_ok hcmd
  obtain ⟨-, -, hcmd⟩ := bind_eq_ok hcmd
  obtain ⟨dst, hdst, hcmd⟩ := bind_eq_ok hcmd
  obtain ⟨oif, hoif, hcmd⟩ := bind_eq_ok hcmd
  obtain ⟨gw, hgw, hcmd⟩ := bind_eq_ok hcmd
  have hgw' : addrText route.rtas rtaGateway (rtmFamily route.hdr) = .ok gw := by
    rw [← outcome_optional_readAddr, optional_of_ne_null h]
    exact hgw
  rw [Logged.outcome_silent] at hcmd
  obtain ⟨-, rfl⟩ := strfmt_eq_ok hcmd
  exact rebuiltSegments_gateway route isNew (addrText_noBlank hdst) (addrText_noBlank hgw')
    (names.readIfname_noBlank hoif)

/-- What a route needs for its command to rebuild its segments. -/
structure Rebuildable (names : WordNames) (isNew : Bool) : Prop where
  gateway : r.route.rtas.get rtaGateway = .null
  iif : ¬ Refuses r.route.rtas rtaIif
  oif : ¬ Refuses r.route.rtas rtaOif
  types : r.TypesFit
  tlvs : r.srh.tlvs.length < 16
  symmetric : r.srh.segments.reverse = r.srh.segments
  fits : ∀ dst oif, addrText r.route.rtas rtaDst (rtmFamily r.route.hdr) = .ok dst →
    (optional (r.route.rtas.get rtaOif) [] (readIfname names.toIfNames)).outcome = .ok oif →
    (r.command isNew dst oif).length < 1000

/-- The command is printed and rebuilds the segments of the route. -/
def Rebuilds (names : WordNames) (stale : RtaTable) (isNew : Bool) : Prop :=
  ∃ cmd, (routeToIproute2Cli names.toIfNames stale r.route isNew).outcome = .ok cmd ∧
    rebuiltSegments cmd = some r.srh.segments

variable {r}

theorem Rebuildable.rebuilds {names : WordNames} {isNew : Bool} (h : r.Rebuildable names isNew)
    (stale : RtaTable) : r.Rebuilds names stale isNew := by
  obtain ⟨dst, oif, hdst, hoif, hprint⟩ :=
    r.outcome_routeToIproute2Cli h.gateway h.iif h.oif h.types names isNew
  refine ⟨r.command isNew dst oif, ?_, ?_⟩
  · rw [hprint, strfmt_ok (h.fits dst oif hdst hoif)]
  · rw [r.rebuiltSegments_command isNew (addrText_noBlank hdst) (names.readIfname_noBlank hoif),
      r.srh.reverse_listed_iff.mpr ⟨h.tlvs, h.symmetric⟩]

theorem reaches_of_printed {names : WordNames} {stale : RtaTable} {isNew : Bool} {cmd : Text}
    (hgateway : r.route.rtas.get rtaGateway = .null)
    (h : (routeToIproute2Cli names.toIfNames stale r.route isNew).outcome = .ok cmd) :
    ¬ Refuses r.route.rtas rtaIif ∧ ¬ Refuses r.route.rtas rtaOif ∧ r.TypesFit := by
  rw [Routerd.outcome_routeToIproute2Cli hgateway] at h
  obtain ⟨-, -, h⟩ := bind_eq_ok h
  obtain ⟨iif, hiif, h⟩ := bind_eq_ok h
  obtain ⟨dst, -, h⟩ := bind_eq_ok h
  obtain ⟨oif, hoif, h⟩ := bind_eq_ok h
  refine ⟨not_refuses_of_read hiif, not_refuses_of_read hoif, ?_⟩
  by_contra htypes
  rw [r.outcome_encapCommand, if_pos rfl, r.outcome_seg6Command_refused htypes] at h
  cases h

variable (r)

/-- A command rebuilds the segments of a route exactly if the route has no gateway, everything
read on the way fits, fewer than sixteen bytes follow the segments, and their list is its own
reverse. -/
theorem rebuilds_iff (names : WordNames) (stale : RtaTable) (isNew : Bool) :
    r.Rebuilds names stale isNew ↔ r.Rebuildable names isNew := by
  constructor
  · rintro ⟨cmd, hcmd, hrebuilt⟩
    have hgateway : r.route.rtas.get rtaGateway = .null := by
      by_contra hsome
      rw [rebuiltSegments_of_gateway hsome names stale isNew hcmd] at hrebuilt
      cases hrebuilt
    obtain ⟨hiif, hoif, htypes⟩ := reaches_of_printed hgateway hcmd
    obtain ⟨dst, oif, hdst, hoif', hprint⟩ :=
      r.outcome_routeToIproute2Cli hgateway hiif hoif htypes names isNew
    rw [hprint] at hcmd
    obtain ⟨hfits, rfl⟩ := strfmt_eq_ok hcmd
    rw [r.rebuiltSegments_command isNew (addrText_noBlank hdst)
      (names.readIfname_noBlank hoif')] at hrebuilt
    obtain ⟨htlvs, hsymmetric⟩ := r.srh.reverse_listed_iff.mp (Option.some.inj hrebuilt)
    refine ⟨hgateway, hiif, hoif, htypes, htlvs, hsymmetric, fun dst' oif' hdst' hoif'' => ?_⟩
    rw [hdst] at hdst'
    rw [hoif'] at hoif''
    cases hdst'
    cases hoif''
    exact hfits
  · exact fun h => h.rebuilds stale

end Seg6Route

def twoSegments : Seg6Srh where
  mode := 1
  nexthdr := 41
  hdrlen := 4
  type := 4
  segmentsLeft := 1
  firstSegment := 1
  flags := 0
  tag := 0
  segments := [bytes 16 [252, 0, 0, 0, 0, 0, 0, 0, 0, 0, 0, 0, 0, 0, 0, 2],
    bytes 16 [252, 0, 0, 0, 0, 0, 0, 0, 0, 0, 0, 0, 0, 0, 0, 1]]
  tlvs := []
  first := rfl
  covers := rfl

def twoSegmentRoute : Mem :=
  nlmsgBytes 24 (rtmsgBytes afInet6 16 rtTableMain rtnUnicast ++
    layout [plainRtattr 1 [252, 1, 0, 0, 0, 0, 0, 0, 0, 0, 0, 0, 0, 0, 0, 0],
      plainRtattr 4 [5, 0, 0, 0], plainRtattr 21 [5, 0],
      plainRtattr 22 (layout [plainRtattr 1 twoSegments.bytes])])

def WordNames.empty : WordNames := ⟨.empty, fun _ _ h => by cases h⟩

/-- The command lists the segments in the order they are stored, so that a route added with it
travels through them the other way. -/
theorem twoSegments_reversed :
    ∃ r : Seg6Route, ofMessage route twoSegmentRoute = .ok r.route ∧ r.srh = twoSegments ∧
      (routeToIproute2Cli .empty nullTable r.route true).outcome =
        .ok "ip -6 route add fc01::/16 encap seg6 mode encap segs fc00::2,fc00::1 dev none".toList ∧
      rebuiltSegments
          "ip -6 route add fc01::/16 encap seg6 mode encap segs fc00::2,fc00::1 dev none".toList =
        some twoSegments.segments.reverse ∧
      ¬ r.Rebuilds .empty nullTable true := by
  have hfields : (ofMessage route twoSegmentRoute).toOption.map (fun o =>
      ((rtaRead16 (o.rtas.get rtaEncapType)).toOption, o.rtas.get rtaEncap,
        (routeToIproute2Cli .empty nullTable o true).outcome.toOption)) =
      some (some lwtunnelEncapSeg6, .mem (plainRtattr 22 (layout [plainRtattr 1 twoSegments.bytes])).bytes,
        some "ip -6 route add fc01::/16 encap seg6 mode encap segs fc00::2,fc00::1 dev none".toList) := by
    decide +kernel
  have hrebuilt : rebuiltSegments
      "ip -6 route add fc01::/16 encap seg6 mode encap segs fc00::2,fc00::1 dev none".toList =
        some twoSegments.segments.reverse := by decide +kernel
  have hdiffer : twoSegments.segments.reverse ≠ twoSegments.segments := by decide +kernel
  obtain ⟨o, ho, hread⟩ := ok_of_toOption_map hfields
  obtain ⟨htype, hread⟩ := Prod.mk.inj hread
  obtain ⟨hencap, hcmd⟩ := Prod.mk.inj hread
  refine ⟨⟨⟨o, [plainRtattr 1 twoSegments.bytes],
    plainRtattr 22 (layout [plainRtattr 1 twoSegments.bytes]), [], ok_of_toOption htype, ?_, ?_⟩,
    twoSegments, plainRtattr 1 twoSegments.bytes, ?_, ?_⟩, ho, rfl, ok_of_toOption hcmd, hrebuilt, ?_⟩
  · rw [hencap, List.append_nil]
  · decide
  · rfl
  · decide
  · rintro ⟨cmd, hcmd', hrebuilt'⟩
    rw [show (WordNames.empty).toIfNames = .empty from rfl, ok_of_toOption hcmd] at hcmd'
    cases hcmd'
    rw [hrebuilt] at hrebuilt'
    exact hdiffer (Option.some.inj hrebuilt')

end Routerd
