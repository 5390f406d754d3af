import Routerd.ByteMemory
import Mathlib.Logic.Function.Basic

/-!
# Route attributes: the `rtattr` walk, its table and its readers

The walk of `parse_rtattr` follows the C macros: `RTA_OK` compares in `size_t`
and `RTA_NEXT` subtracts the aligned length, so the remaining length can wrap
past zero. Each step moves forward by at least four bytes; the number of bytes
of the buffer therefore bounds the number of steps, and `parseRtattr_unfold`
removes that bound from every later argument.
-/

namespace Routerd
open ByteMemory

inductive Fault where
  | segv
  | readMiss
  | assertion
  | overflow
  deriving DecidableEq, Repr

theorem bind_eq_ok {α β : Type} {x : Except Fault α} {f : α → Except Fault β} {b : β}
    (h : (x >>= f) = .ok b) : ∃ a, x = .ok a ∧ f a = .ok b := by
  cases x with
  | error e => cases h
  | ok a => exact ⟨a, rfl, h⟩

theorem ok_bind {α β : Type} (a : α) (f : α → Except Fault β) : (Except.ok a >>= f) = f a := rfl

theorem error_bind {α β : Type} (e : Fault) (f : α → Except Fault β) :
    (Except.error e >>= f) = Except.error e := rfl

theorem ok_of_toOption {α : Type} {x : Except Fault α} {a : α} (h : x.toOption = some a) :
    x = .ok a := by
  cases x with
  | error e => cases h
  | ok a' => exact congrArg Except.ok (Option.some.inj h)

theorem ok_of_toOption_map {α β : Type} {x : Except Fault α} {f : α → β} {b : β}
    (h : x.toOption.map f = some b) : ∃ a, x = .ok a ∧ f a = b := by
  cases x with
  | error e => cases h
  | ok a => exact ⟨a, rfl, Option.some.inj h⟩

/-- The array `struct rtattr *attrs[50000]`, whatever it holds. -/
abbrev RtaTable := ℕ → Ptr

def maxAttrs : ℕ := 50000

def rtaLen (rta : Mem) : ℕ := le16 rta 0

def rtaType (rta : Mem) : ℕ := le16 rta 2

def rtaAlign (n : ℕ) : ℕ := (n + 3) / 4 * 4

def rtaOk (rta : Mem) (len : ℕ) : Prop := 4 ≤ len ∧ 4 ≤ rtaLen rta ∧ rtaLen rta ≤ len

instance (rta : Mem) (len : ℕ) : Decidable (rtaOk rta len) := by
  unfold rtaOk
  infer_instance

def rtaNext (rta : Mem) : Mem := rta.drop (rtaAlign (rtaLen rta))

def parseRtattrLoop (max : ℕ) : ℕ → Mem → ℕ → RtaTable → Except Fault RtaTable
  | 0, _, _, attrs => .ok attrs
  | fuel + 1, rta, len, attrs =>
    if rtaOk rta len then
      if rtaType rta < max then
        parseRtattrLoop max fuel (rtaNext rta) (sizeSub len (rtaAlign (rtaLen rta)))
          (Function.update attrs (rtaType rta) (.mem rta))
      else .error .assertion
    else .ok attrs

def parseRtattr (buf : Mem) (buflen : ℕ) (attrs : RtaTable) (max : ℕ) : Except Fault RtaTable :=
  parseRtattrLoop max buf.length buf buflen attrs

theorem length_pos_of_rtaOk {rta : Mem} {len : ℕ} (h : rtaOk rta len) : 0 < rta.length := by
  obtain ⟨-, hlen, -⟩ := h
  by_contra hempty
  rw [Nat.not_lt, Nat.le_zero, List.length_eq_zero_iff] at hempty
  subst hempty
  simp [rtaLen, le16, byteAt] at hlen

theorem rtaNext_length_lt {rta : Mem} {len : ℕ} (h : rtaOk rta len) :
    (rtaNext rta).length < rta.length := by
  have hpos := length_pos_of_rtaOk h
  obtain ⟨-, hlen, -⟩ := h
  rw [rtaNext, List.length_drop]
  unfold rtaAlign
  omega

theorem isWalk_parseRtattrLoop (max : ℕ) :
    IsWalk (fun rta (t : ℕ × RtaTable) => rtaOk rta t.1) rtaNext (fun t => .ok t.2)
      (fun rta t rest =>
        if rtaType rta < max then
          rest (sizeSub t.1 (rtaAlign (rtaLen rta)),
            Function.update t.2 (rtaType rta) (.mem rta))
        else .error .assertion)
      (fun fuel rta t => parseRtattrLoop max fuel rta t.1 t.2) :=
  ⟨fun _ _ => rfl, fun _ _ _ => rfl, fun _ _ => rtaNext_length_lt⟩

theorem parseRtattr_unfold (buf : Mem) (len : ℕ) (attrs : RtaTable) (max : ℕ) :
    parseRtattr buf len attrs max =
      if rtaOk buf len then
        if rtaType buf < max then
          parseRtattr (rtaNext buf) (sizeSub len (rtaAlign (rtaLen buf)))
            (Function.update attrs (rtaType buf) (.mem buf)) max
        else .error .assertion
      else .ok attrs :=
  (isWalk_parseRtattrLoop max).unfold buf (len, attrs)

/-- Reasoning about a whole walk: what one stored attribute preserves, the walk preserves. -/
theorem parseRtattr_induction {P : RtaTable → Prop} {max : ℕ}
    (hstep : ∀ rta attrs, 4 ≤ rtaLen rta → rtaType rta < max → P attrs →
      P (Function.update attrs (rtaType rta) (.mem rta)))
    {buf : Mem} {len : ℕ} {attrs result : RtaTable} (hP : P attrs)
    (h : parseRtattr buf len attrs max = .ok result) : P result := by
  induction hn : buf.length using Nat.strongRecOn generalizing buf len attrs with
  | _ n ih =>
    rw [parseRtattr_unfold] at h
    split at h
    · rename_i hok
      split at h
      · rename_i htype
        have hlt := rtaNext_length_lt hok
        exact ih _ (by omega) (hstep buf attrs hok.2.1 htype hP) h rfl
      · cases h
    · cases h
      exact hP

def nullTable : RtaTable := fun _ => .null

/-- What a table shows after a walk that found `found`: the attribute found, or
what the table held before. -/
def overlay (found attrs : RtaTable) : RtaTable :=
  fun t => if found t = .null then attrs t else found t

theorem overlay_of_ne_null {found attrs : RtaTable} {t : ℕ} (h : found t ≠ .null) :
    overlay found attrs t = found t := if_neg h

private theorem overlay_update (found attrs : RtaTable) (t : ℕ) (rta : Mem) :
    overlay (Function.update found t (.mem rta)) attrs =
      Function.update (overlay found attrs) t (.mem rta) := by
  funext u
  by_cases hu : u = t
  · subst hu
    simp [overlay]
  · simp [overlay, Function.update_of_ne hu]

private theorem parseRtattr_overlay_from (buf : Mem) (len : ℕ) (found attrs : RtaTable) (max : ℕ) :
    parseRtattr buf len (overlay found attrs) max =
      (parseRtattr buf len found max).map (overlay · attrs) := by
  induction hn : buf.length using Nat.strongRecOn generalizing buf len found with
  | _ n ih =>
    rw [parseRtattr_unfold, parseRtattr_unfold buf len found]
    split
    · rename_i hok
      have hlt := rtaNext_length_lt hok
      split
      · rw [← overlay_update]
        exact ih _ (by omega) _ _ _ rfl
      · rfl
    · rfl

/-- A walk over any table stores the same attributes as a walk over the empty one. -/
theorem parseRtattr_overlay (buf : Mem) (len : ℕ) (attrs : RtaTable) (max : ℕ) :
    parseRtattr buf len attrs max =
      (parseRtattr buf len nullTable max).map (overlay · attrs) := by
  have h := parseRtattr_overlay_from buf len nullTable attrs max
  have hnull : overlay nullTable attrs = attrs := by
    funext t
    simp [overlay, nullTable]
  rwa [hnull] at h

/-- The entry of a table at `t` is null or an attribute of that very type. -/
def ValidEntry (attrs : RtaTable) (t : ℕ) : Prop :=
  attrs t = .null ∨ ∃ m, attrs t = .mem m ∧ rtaType m = t ∧ 4 ≤ rtaLen m

/-- `struct rta_array`: a table that was zeroed before the walk. -/
structure RtaArray where
  attrs : RtaTable
  valid : ∀ t, ValidEntry attrs t

theorem parseRtattr_valid {buf : Mem} {len max : ℕ} {attrs : RtaTable}
    (h : parseRtattr buf len nullTable max = .ok attrs) (t : ℕ) : ValidEntry attrs t := by
  apply parseRtattr_induction _ (Or.inl rfl) h
  intro rta attrs hlen _ hP
  by_cases ht : t = rtaType rta
  · subst ht
    exact Or.inr ⟨rta, by simp, rfl, hlen⟩
  · rwa [ValidEntry, Function.update_of_ne ht]

def rtaArray (head : Mem) (len : ℕ) : Except Fault RtaArray :=
  match h : parseRtattr head len nullTable maxAttrs with
  | .ok attrs => .ok ⟨attrs, parseRtattr_valid h⟩
  | .error e => .error e

def RtaArray.get (rtas : RtaArray) (type : ℕ) : Ptr := rtas.attrs type

theorem RtaArray.get_cases (rtas : RtaArray) (t : ℕ) :
    rtas.get t = .null ∨ ∃ m, rtas.get t = .mem m := by
  rcases rtas.valid t with h | ⟨m, h, -⟩
  · exact Or.inl h
  · exact Or.inr ⟨m, h⟩

theorem RtaArray.ne_wild (rtas : RtaArray) (t : ℕ) : rtas.get t ≠ .wild := by
  rcases rtas.get_cases t with h | ⟨m, h⟩ <;> simp [h]

def deref : Ptr → Except Fault Mem
  | .mem m => .ok m
  | _ => .error .segv

def rtaPayload (rta : Ptr) : Except Fault ℕ := do
  let m ← deref rta
  pure (sizeSub (rtaLen m) 4)

/-- The address behind the header; of a null pointer it is a small address that
is not null. -/
def rtaReadptr : Ptr → Ptr
  | .mem m => .mem (m.drop 4)
  | _ => .wild

def rtaRead16 (rta : Ptr) : Except Fault ℕ := do
  let payload ← rtaPayload rta
  if 2 < payload then .error .readMiss
  else
    let m ← deref (rtaReadptr rta)
    pure (le16 m 0)

def rtaRead32 (rta : Ptr) : Except Fault UInt32 := do
  let payload ← rtaPayload rta
  if 4 < payload then .error .readMiss
  else
    let m ← deref (rtaReadptr rta)
    pure (le32 m 0)

@[simp] theorem deref_mem (m : Mem) : deref (.mem m) = .ok m := rfl

@[simp] theorem rtaReadptr_mem (m : Mem) : rtaReadptr (.mem m) = .mem (m.drop 4) := rfl

end Routerd
