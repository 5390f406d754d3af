import Mathlib.Data.List.Basic
import Mathlib.Tactic.Ring

/-!
# Byte memory seen from a pointer

A pointer is represented by the bytes that start at it, so advancing a pointer
is dropping bytes and a field access is a read at a fixed offset. The machine is
little-endian; `swap32` is its `htonl` and `ntohl`. A loop that advances a pointer
makes no more rounds than there are bytes.
-/

namespace ByteMemory

/-- The bytes from a pointer up to the end of the object it points into. -/
abbrev Mem := List UInt8

/-- A pointer variable. A wild pointer is not null, but faults when it is read. -/
inductive Ptr where
  | null
  | wild
  | mem (m : Mem)
  deriving DecidableEq, Repr

def byteAt (m : Mem) (i : ℕ) : UInt8 := m.getD i 0

def le16 (m : Mem) (i : ℕ) : ℕ := (byteAt m i).toNat + 256 * (byteAt m (i + 1)).toNat

def le32 (m : Mem) (i : ℕ) : UInt32 :=
  UInt32.ofNat (le16 m i + 65536 * le16 m (i + 2))

def bytes (n : ℕ) (m : Mem) : Fin n → UInt8 := fun i => byteAt m i

/-- Subtraction in the 64-bit `size_t`, of values below `2 ^ 64`. -/
def sizeSub (a b : ℕ) : ℕ := if b ≤ a then a - b else 2 ^ 64 - (b - a)

def swap32 (x : UInt32) : UInt32 :=
  UInt32.ofNat (x.toNat / 16777216 + 256 * (x.toNat / 65536 % 256) +
    65536 * (x.toNat / 256 % 256) + 16777216 * (x.toNat % 256))

theorem byteAt_take (m : Mem) {n i : ℕ} (h : i < n) : byteAt (m.take n) i = byteAt m i := by
  simp [byteAt, List.getD_eq_getElem?_getD, h]

theorem le32_take (m : Mem) {n i : ℕ} (h : i + 3 < n) : le32 (m.take n) i = le32 m i := by
  simp only [le32, le16]
  rw [byteAt_take m (by omega), byteAt_take m (by omega), byteAt_take m (by omega),
    byteAt_take m (by omega)]

theorem byteAt_append {m : Mem} {i : ℕ} (h : i < m.length) (behind : Mem) :
    byteAt (m ++ behind) i = byteAt m i := by
  have htake := byteAt_take (m ++ behind) h
  rw [List.take_left] at htake
  exact htake.symm

theorem le16_append {m : Mem} {i : ℕ} (h : i + 1 < m.length) (behind : Mem) :
    le16 (m ++ behind) i = le16 m i := by
  rw [le16, byteAt_append (by omega), byteAt_append h]
  rfl

theorem le32_append {m : Mem} {i : ℕ} (h : i + 3 < m.length) (behind : Mem) :
    le32 (m ++ behind) i = le32 m i := by
  rw [le32, le16_append (by omega), le16_append (by omega)]
  rfl

theorem le16_lt (m : Mem) (i : ℕ) : le16 m i < 65536 := by
  have hlow := (byteAt m i).toNat_lt
  have hhigh := (byteAt m (i + 1)).toNat_lt
  rw [le16]
  omega

theorem bytes_append {m : Mem} {n : ℕ} (h : n ≤ m.length) (behind : Mem) :
    bytes n (m ++ behind) = bytes n m := by
  funext i
  exact byteAt_append (lt_of_lt_of_le i.isLt h) behind

theorem sizeSub_of_le {a b : ℕ} (h : b ≤ a) : sizeSub a b = a - b := if_pos h

def splice (m : Mem) (pos : ℕ) (bs : Mem) : Mem :=
  m.take pos ++ (bs ++ m.drop (pos + bs.length))

section Splice

variable {m bs : Mem} {pos i : ℕ}

theorem length_splice (h : pos + bs.length ≤ m.length) : (splice m pos bs).length = m.length := by
  rw [splice, List.length_append, List.length_append, List.length_take, List.length_drop]
  omega

theorem drop_splice_of_le (hi : i ≤ pos) (hpos : pos ≤ m.length) :
    (splice m pos bs).drop i = (m.drop i).take (pos - i) ++ (bs ++ m.drop (pos + bs.length)) := by
  have hlen : i ≤ (m.take pos).length := by
    rw [List.length_take]
    omega
  rw [splice, List.drop_append_of_le_length hlen, List.drop_take]

theorem drop_splice_of_ge (hi : pos + bs.length ≤ i) (hpos : pos ≤ m.length) :
    (splice m pos bs).drop i = m.drop i := by
  obtain ⟨k, rfl⟩ := Nat.exists_eq_add_of_le hi
  have hlen : (m.take pos ++ bs).length = pos + bs.length := by
    rw [List.length_append, List.length_take, Nat.min_eq_left hpos]
  rw [splice, ← List.append_assoc, ← List.drop_drop, ← hlen, List.drop_left, hlen,
    List.drop_drop]

theorem le32_splice (hi : i + 3 < pos) (hpos : pos ≤ m.length) :
    le32 (splice m pos bs) i = le32 m i := by
  rw [splice, le32_append (by rw [List.length_take]; omega), le32_take m hi]

end Splice

/-! ### Walks -/

section Walks

variable {τ ρ : Type} {more : Mem → τ → Prop} [∀ m t, Decidable (more m t)] {next : Mem → Mem}
  {stop : τ → ρ} {step : Mem → τ → (τ → ρ) → ρ} {loop : ℕ → Mem → τ → ρ}

/-- `loop n` follows a loop over memory for `n` rounds. A round is made where there is `more`; it
has the result of `step`, which is given the rest of the loop behind the part that was read. -/
structure IsWalk (more : Mem → τ → Prop) [∀ m t, Decidable (more m t)] (next : Mem → Mem)
    (stop : τ → ρ) (step : Mem → τ → (τ → ρ) → ρ) (loop : ℕ → Mem → τ → ρ) : Prop where
  zero : ∀ m t, loop 0 m t = stop t
  succ : ∀ n m t, loop (n + 1) m t = if more m t then step m t (loop n (next m)) else stop t
  shorter : ∀ m t, more m t → (next m).length < m.length

theorem IsWalk.stops (h : IsWalk more next stop step loop) {m : Mem} {t : τ} (hno : ¬ more m t)
    (n : ℕ) : loop n m t = stop t := by
  cases n with
  | zero => exact h.zero m t
  | succ n => rw [h.succ, if_neg hno]

theorem IsWalk.rounds (h : IsWalk more next stop step loop) {n n' : ℕ} {m : Mem} (t : τ)
    (hn : m.length ≤ n) (hn' : m.length ≤ n') : loop n m t = loop n' m t := by
  induction n generalizing n' m t with
  | zero =>
    have hno : ¬ more m t := fun hmore => by
      have hlt := h.shorter m t hmore
      omega
    rw [h.stops hno, h.stops hno]
  | succ n ih =>
    by_cases hmore : more m t
    · have hlt := h.shorter m t hmore
      obtain ⟨n', rfl⟩ : ∃ k, n' = k + 1 := ⟨n' - 1, by omega⟩
      have hrest : loop n (next m) = loop n' (next m) := funext fun t' =>
        ih t' (by omega) (by omega)
      rw [h.succ, h.succ, hrest]
    · rw [h.stops hmore, h.stops hmore]

/-- The loop itself, with a round for each byte. -/
theorem IsWalk.unfold (h : IsWalk more next stop step loop) (m : Mem) (t : τ) :
    loop m.length m t =
      if more m t then step m t (loop (next m).length (next m)) else stop t := by
  by_cases hmore : more m t
  · have hlt := h.shorter m t hmore
    obtain ⟨n, hn⟩ : ∃ n, m.length = n + 1 := ⟨m.length - 1, by omega⟩
    have hrest : loop n (next m) = loop (next m).length (next m) := funext fun t' =>
      h.rounds t' (by omega) le_rfl
    rw [hn, h.succ, hrest]
  · rw [if_neg hmore, h.stops hmore]

end Walks

private theorem swap32_toNat (x : UInt32) {a b c d : ℕ} (ha : a < 256) (hb : b < 256)
    (hc : c < 256) (hd : d < 256)
    (hx : x.toNat = a + 256 * b + 65536 * c + 16777216 * d) :
    (swap32 x).toNat = d + 256 * c + 65536 * b + 16777216 * a := by
  have h₀ : x.toNat % 256 = a := by omega
  have h₁ : x.toNat / 256 % 256 = b := by omega
  have h₂ : x.toNat / 65536 % 256 = c := by omega
  have h₃ : x.toNat / 16777216 = d := by omega
  simp only [swap32, UInt32.toNat_ofNat', h₀, h₁, h₂, h₃]
  omega

@[simp] theorem swap32_swap32 (x : UInt32) : swap32 (swap32 x) = x := by
  have hlt := x.toNat_lt
  have hx : x.toNat = x.toNat % 256 + 256 * (x.toNat / 256 % 256) +
      65536 * (x.toNat / 65536 % 256) + 16777216 * (x.toNat / 16777216) := by omega
  have h := swap32_toNat x (by omega) (by omega) (by omega) (by omega) hx
  have h' := swap32_toNat (swap32 x) (by omega) (by omega) (by omega) (by omega) h
  apply UInt32.toNat_inj.mp
  rw [h', ← hx]

theorem swap32_inj {x y : UInt32} (h : swap32 x = swap32 y) : x = y := by
  have h' := congrArg swap32 h
  simpa using h'

end ByteMemory
