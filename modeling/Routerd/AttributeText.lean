import Routerd.LinkCommands

/-!
# The text of an attribute

Every summary of an attribute begins with its type and the name of the type, and one that
has no format of its own ends with its length and its first bytes. Nested attributes are
walked with the length of the payload, one line each.
-/

namespace Routerd
open ByteMemory NumeralText

/-- `%-Ns`. -/
def padRight (width : ℕ) (s : Text) : Text := s ++ List.replicate (width - s.length) ' '

/-- `%0Nx`. -/
def zeroHex (width n : ℕ) : Text := List.replicate (width - (hex n).length) '0' ++ hex n

def le64 (m : Mem) (i : ℕ) : ℕ := (le32 m i).toNat + 4294967296 * (le32 m (i + 4)).toNat

/-- `strfmt("0x%04x %-Ns :: ", type, name)`. -/
def attrHdr (width type : ℕ) (name : String) : Text :=
  "0x".toList ++ zeroHex 4 type ++ " ".toList ++ padRight width name.toList ++ " :: ".toList

def unknownFmt (rta : Mem) : Text :=
  let payloadLen := sizeSub (rtaLen rta) 4
  let n := min 4 payloadLen
  "unknown-fmt(rta_len=".toList ++ decimal (rtaLen rta) ++ ",data=".toList ++
    ((List.range n).flatMap fun i => zeroHex 2 (byteAt rta (4 + i)).toNat) ++
    (if 4 < payloadLen then "...".toList else []) ++ ")".toList

inductive ValueFormat where
  | u8
  | u16
  | u32
  | u64
  | hex64
  | dotted
  | unknown
  deriving DecidableEq, Repr

def formatValue (rta : Mem) : ValueFormat → Text
  | .u8 => decimal (byteAt rta 4).toNat
  | .u16 => decimal (le16 rta 4)
  | .u32 => decimal (le32 rta 4).toNat
  | .u64 => decimal (le64 rta 4)
  | .hex64 => "0x".toList ++ hex (le64 rta 4)
  | .dotted =>
    decimal (byteAt rta 4).toNat ++ ".".toList ++ decimal (byteAt rta 5).toNat ++ ".".toList ++
      decimal (byteAt rta 6).toNat ++ ".".toList ++ decimal (byteAt rta 7).toNat
  | .unknown => unknownFmt rta

/-- The types a summary knows, in the order of their numbers. -/
structure AttrTable where
  width : ℕ
  types : List (String × ValueFormat)
  unknownName : String

def AttrTable.type (t : AttrTable) (type : ℕ) : String × ValueFormat :=
  t.types.getD type (t.unknownName, .unknown)

def AttrTable.summary (t : AttrTable) (rta : Mem) : Text :=
  attrHdr t.width (rtaType rta) (t.type (rtaType rta)).1 ++
    formatValue rta (t.type (rtaType rta)).2

/-! ### Nested attributes -/

/-- The loop over nested attributes, with what is printed for each. It is followed for as
many rounds as there are bytes. -/
def nestedLoop (summary : Mem → Except Fault Text) : ℕ → Mem → ℕ → Except Fault (List Text)
  | 0, _, _ => .ok []
  | fuel + 1, rta, len =>
    if rtaOk rta len then do
      let attrStr ← summary rta
      let rest ← nestedLoop summary fuel (rtaNext rta) (sizeSub len (rtaAlign (rtaLen rta)))
      .ok (attrStr :: rest)
    else .ok []

def nestedTexts (summary : Mem → Except Fault Text) (rta : Mem) (len : ℕ) :
    Except Fault (List Text) :=
  nestedLoop summary rta.length rta len

/-- `"nested-data\n"`, a line for each attribute that has a text, and `pop_back`. -/
def nestedData (indent : ℕ) (texts : List Text) : Text :=
  ("nested-data\n".toList ++ texts.flatMap fun s =>
    if s = [] then [] else List.replicate indent ' ' ++ s ++ ['\n']).dropLast

theorem isWalk_nestedLoop (summary : Mem → Except Fault Text) :
    IsWalk rtaOk rtaNext (fun _ => .ok [])
      (fun rta len rest => do
        let attrStr ← summary rta
        let rest ← rest (sizeSub len (rtaAlign (rtaLen rta)))
        .ok (attrStr :: rest))
      (nestedLoop summary) :=
  ⟨fun _ _ => rfl, fun _ _ _ => rfl, fun _ _ => rtaNext_length_lt⟩

theorem nestedTexts_unfold (summary : Mem → Except Fault Text) (rta : Mem) (len : ℕ) :
    nestedTexts summary rta len =
      if rtaOk rta len then (do
        let attrStr ← summary rta
        let rest ← nestedTexts summary (rtaNext rta) (sizeSub len (rtaAlign (rtaLen rta)))
        .ok (attrStr :: rest))
      else .ok [] :=
  (isWalk_nestedLoop summary).unfold rta len

theorem nestedTexts_layout (summary : Mem → Except Fault Text) (attrs : List Rtattr)
    (behind : Mem) :
    nestedTexts summary (layout attrs ++ behind) (layout attrs).length =
      (layoutViews attrs behind).mapM summary := by
  induction attrs with
  | nil =>
    have hno : ¬ rtaOk behind 0 := fun hok => absurd hok.1 (by decide)
    rw [nestedTexts_unfold, layout_nil, List.nil_append, List.length_nil, if_neg hno]
    rfl
  | cons a attrs ih =>
    have hleft : sizeSub (layout (a :: attrs)).length (rtaAlign a.len) = (layout attrs).length :=
      a.sizeSub_layout_cons attrs 0
    rw [nestedTexts_unfold, layout_cons, List.append_assoc, ← layout_cons,
      if_pos (a.rtaOk_bytes _ (a.len_le_layout attrs)), a.rtaNext_bytes, a.rtaLen_bytes, hleft, ih,
      layoutViews, List.mapM_cons]
    rfl

theorem Rtattr.sizeSub_rtaLen (a : Rtattr) (behind : Mem) :
    sizeSub (rtaLen (a.bytes ++ behind)) 4 = a.payload.length := by
  rw [a.rtaLen_bytes, a.sizeSub_len]

theorem nestedTexts_payload (summary : Mem → Except Fault Text) (a : Rtattr) {attrs : List Rtattr}
    (hpayload : a.payload = layout attrs) (behind : Mem) :
    nestedTexts summary ((a.bytes ++ behind).drop 4) (sizeSub (rtaLen (a.bytes ++ behind)) 4) =
      (layoutViews attrs (a.padding ++ behind)).mapM summary := by
  rw [a.sizeSub_rtaLen, a.drop_bytes, hpayload, nestedTexts_layout]

theorem mapM_ok (f : Mem → Text) (views : List Mem) :
    views.mapM (fun rta => (.ok (f rta) : Except Fault Text)) = .ok (views.map f) := by
  induction views with
  | nil => rfl
  | cons v views ih => rw [List.mapM_cons, ih, List.map_cons]; rfl

end Routerd
