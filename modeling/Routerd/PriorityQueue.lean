import Routerd.HeapOrder

/-!
# The priority queue of timers

`pqueue.c` keeps pointers in an array that is a binary heap, and tells each item through a callback
where it lies. An item is moved by shifting others into its place, and it is written back at the end
only: in between the array holds another item twice. Seen with the moved item in the gap, each shift
is an exchange.
-/

namespace Routerd.Threads
open HeapOrder

/-- The array behind the pointer, the items and the room in it, and where the callback `update` has
last told an item that it lies. -/
structure PQueue (α : Type) where
  array : ℕ → α
  size : ℕ
  arraySize : ℕ
  position : α → ℤ

def PQUEUE_INIT_ARRAYSIZE : ℕ := 32

def leftOf (x : ℕ) : ℕ := 2 * x + 1

def rightOf (x : ℕ) : ℕ := 2 * x + 2

namespace PQueue
variable {α : Type} [DecidableEq α]

def place (q : PQueue α) (index : ℕ) (x : α) : PQueue α :=
  { q with
    array := Function.update q.array index x
    position := Function.update q.position x index }

section Code
variable (cmp : α → α → ℤ)

def trickleUpLoop (tmp : α) : ℕ → ℕ → PQueue α → PQueue α
  | 0, index, q => q.place index tmp
  | fuel + 1, index, q =>
    if 0 < index ∧ cmp tmp (q.array (parent index)) < 0 then
      trickleUpLoop tmp fuel (parent index) (q.place index (q.array (parent index)))
    else q.place index tmp

/-- Every round moves to a smaller number, so there are no more rounds than that. -/
def trickleUp (index : ℕ) (q : PQueue α) : PQueue α :=
  trickleUpLoop cmp (q.array index) index index q

/-- The child that is to be moved up if one is. -/
def which (q : PQueue α) (index : ℕ) : ℕ :=
  if rightOf index < q.size ∧ 0 < cmp (q.array (leftOf index)) (q.array (rightOf index)) then
    rightOf index
  else leftOf index

def trickleDownLoop (tmp : α) : ℕ → ℕ → PQueue α → PQueue α
  | 0, index, q => q.place index tmp
  | fuel + 1, index, q =>
    if index < q.size / 2 then
      if 0 < cmp (q.array (q.which cmp index)) tmp then q.place index tmp
      else trickleDownLoop tmp fuel (q.which cmp index)
        (q.place index (q.array (q.which cmp index)))
    else q.place index tmp

/-- Every round moves to a larger number below the size. -/
def trickleDown (index : ℕ) (q : PQueue α) : PQueue α :=
  trickleDownLoop cmp (q.array index) q.size index q

def expand (q : PQueue α) : PQueue α := { q with arraySize := q.arraySize * 2 }

def enqueue (data : α) (q : PQueue α) : PQueue α :=
  let q := if q.arraySize ≤ q.size + 2 then q.expand else q
  let q := trickleUp cmp q.size (q.place q.size data)
  { q with size := q.size + 1 }

def dropInto (q : PQueue α) (index : ℕ) : PQueue α :=
  { q with size := q.size - 1, array := Function.update q.array index (q.array (q.size - 1)) }

def dequeue (q : PQueue α) : α × PQueue α := (q.array 0, trickleDown cmp 0 (q.dropInto 0))

def removeAt (index : ℕ) (q : PQueue α) : PQueue α :=
  let q := q.dropInto index
  if 0 < index ∧ cmp (q.array index) (q.array (parent index)) < 0 then trickleUp cmp index q
  else trickleDown cmp index q

end Code

/-- The queue that `pqueue_create` makes, with any pointers in the array. -/
def create (array : ℕ → α) (position : α → ℤ) : PQueue α :=
  ⟨array, 0, PQUEUE_INIT_ARRAYSIZE, position⟩

/-! ### Moving an item to its place -/

/-- What moving an item makes of a queue, given the array with the item in the gap: the items at
the first `n` numbers are the same, each is told where it lies, and no other item is told
anything. -/
structure Settles (b : ℕ → α) (n : ℕ) (q r : PQueue α) : Prop where
  perm : ∃ σ : Equiv.Perm ℕ, (∀ i, n ≤ i → σ i = i) ∧ r.array = b ∘ σ
  recorded : ∀ i < n, r.position (r.array i) = i
  others : ∀ x, (∀ i < n, b i ≠ x) → r.position x = q.position x
  size : r.size = q.size
  arraySize : r.arraySize = q.arraySize

/-- All items but that in the gap know where they lie, and differ from it. -/
def Gap (position : α → ℤ) (b : ℕ → α) (n index : ℕ) : Prop :=
  ∀ i < n, i ≠ index → position (b i) = i ∧ b i ≠ b index

omit [DecidableEq α] in
theorem Gap.injective {position : α → ℤ} {b : ℕ → α} {n index : ℕ} (h : Gap position b n index)
    {i j : ℕ} (hi : i < n) (hj : j < n) (heq : b i = b j) : i = j := by
  by_cases h1 : i = index <;> by_cases h2 : j = index
  · omega
  · exact absurd (heq ▸ h1 ▸ rfl) (h j hj h2).2
  · exact absurd (heq.trans (h2 ▸ rfl)) (h i hi h1).2
  · have := (h i hi h1).1
    rw [heq, (h j hj h2).1] at this
    exact_mod_cast this.symm

theorem settles_place {q : PQueue α} {n index : ℕ} {tmp : α} (hindex : index < n)
    (hgap : Gap q.position (Function.update q.array index tmp) n index) :
    Settles (Function.update q.array index tmp) n q (q.place index tmp) where
  perm := ⟨1, fun _ _ => rfl, rfl⟩
  recorded := by
    intro i hi
    by_cases hne : i = index
    · subst hne
      simp [place]
    · obtain ⟨hpos, hdiff⟩ := hgap i hi hne
      rw [Function.update_self] at hdiff
      change Function.update q.position tmp _ (Function.update q.array index tmp i) = _
      rw [Function.update_of_ne hdiff, hpos]
  others := by
    intro x hx
    have := hx index hindex
    rw [Function.update_self] at this
    change Function.update q.position tmp _ x = _
    rw [Function.update_of_ne this.symm]
  size := rfl
  arraySize := rfl

/-- One shift: the item at another number moves into the gap, and the gap to that number. -/
theorem settles_shift {q r : PQueue α} {n index next : ℕ} {tmp : α} (hindex : index < n)
    (hnext : next < n) (hne : index ≠ next)
    (h : Settles (Function.update q.array index tmp ∘ Equiv.swap index next) n
      (q.place index (q.array next)) r) :
    Settles (Function.update q.array index tmp) n q r where
  perm := by
    obtain ⟨σ, hσ, heq⟩ := h.perm
    refine ⟨σ.trans (Equiv.swap index next), ?_, heq⟩
    intro i hi
    rw [Equiv.trans_apply, hσ i hi, swap_fixes hindex hnext i hi]
  recorded := h.recorded
  others := by
    intro x hx
    have hx' : ∀ i < n, (Function.update q.array index tmp ∘ Equiv.swap index next) i ≠ x := by
      intro i hi
      refine hx _ ?_
      by_contra hle
      have := swap_fixes hindex hnext _ (not_lt.mp hle)
      rw [Equiv.swap_apply_self] at this
      omega
    rw [h.others x hx']
    have := hx next hnext
    rw [Function.update_of_ne hne.symm] at this
    change Function.update q.position (q.array next) _ x = _
    rw [Function.update_of_ne this.symm]
  size := h.size
  arraySize := h.arraySize

theorem gap_shift {q : PQueue α} {n index next : ℕ} {tmp : α} (hindex : index < n)
    (hnext : next < n) (hne : index ≠ next)
    (hgap : Gap q.position (Function.update q.array index tmp) n index) :
    Gap (q.place index (q.array next)).position
      (Function.update q.array index tmp ∘ Equiv.swap index next) n next := by
  intro i hi hne'
  have hmoved : q.array next = Function.update q.array index tmp next := by
    rw [Function.update_of_ne hne.symm]
  change Function.update q.position (q.array next) _ _ = _ ∧ _
  rw [Function.comp_apply, Function.comp_apply, Equiv.swap_apply_right]
  by_cases hii : i = index
  · subst hii
    rw [Equiv.swap_apply_left, ← hmoved, Function.update_self]
    exact ⟨rfl, hmoved ▸ (hgap next hnext hne.symm).2⟩
  · rw [Equiv.swap_apply_of_ne_of_ne hii hne', hmoved]
    obtain ⟨hpos, hdiff⟩ := hgap i hi hii
    refine ⟨?_, hdiff⟩
    rw [Function.update_of_ne (fun heq => hne' (hgap.injective hi hnext heq)), hpos]

section Order
variable {β : Type*} [LinearOrder β] {cmp : α → α → ℤ} {key : α → β}

/-- The function `cmp` compares keys. -/
def Compares (cmp : α → α → ℤ) (key : α → β) : Prop :=
  ∀ a b, (cmp a b < 0 ↔ key a < key b) ∧ (0 < cmp a b ↔ key b < key a)

theorem trickleUpLoop_settles (hcmp : Compares cmp key) {tmp : α} {n fuel index : ℕ}
    {q : PQueue α} (hfuel : index ≤ fuel) (hindex : index < n)
    (hgap : Gap q.position (Function.update q.array index tmp) n index)
    (horder : UpTo key (Function.update q.array index tmp) n index) :
    Settles (Function.update q.array index tmp) n q (trickleUpLoop cmp tmp fuel index q) ∧
      Ordered key (trickleUpLoop cmp tmp fuel index q).array n := by
  induction fuel generalizing index q with
  | zero =>
    obtain rfl : index = 0 := by omega
    exact ⟨settles_place hindex hgap, horder.ordered fun h => absurd h (lt_irrefl 0)⟩
  | succ fuel ih =>
    rw [trickleUpLoop]
    split
    · rename_i hstep
      obtain ⟨hpos, hless⟩ := hstep
      have hp := parent_lt hpos
      have hfill : Function.update (q.place index (q.array (parent index))).array (parent index) tmp =
          Function.update q.array index tmp ∘ Equiv.swap index (parent index) :=
        update_swap _ _ hp.ne'
      have hsmall : key (Function.update q.array index tmp index) ≤
          key (Function.update q.array index tmp (parent index)) := by
        rw [Function.update_self, Function.update_of_ne hp.ne]
        exact ((hcmp _ _).1.mp hless).le
      have hrest := @ih (parent index) (q.place index (q.array (parent index)))
        (by omega) (by omega) (by rw [hfill]; exact gap_shift hindex (by omega) hp.ne' hgap)
        (by rw [hfill]; exact horder.swap hpos hindex hsmall)
      rw [hfill] at hrest
      exact ⟨settles_shift hindex (by omega) hp.ne' hrest.1, hrest.2⟩
    · rename_i hstop
      refine ⟨settles_place hindex hgap, horder.ordered fun hpos => ?_⟩
      rw [Function.update_self, Function.update_of_ne (parent_lt hpos).ne]
      exact not_lt.mp fun hless => hstop ⟨hpos, (hcmp _ _).1.mpr hless⟩

omit [DecidableEq α] in
theorem which_spec (hcmp : Compares cmp key) (q : PQueue α) {index : ℕ}
    (h : index < q.size / 2) :
    0 < q.which cmp index ∧ q.which cmp index < q.size ∧ parent (q.which cmp index) = index ∧
      ∀ i, 0 < i → i < q.size → parent i = index →
        key (q.array (q.which cmp index)) ≤ key (q.array i) := by
  unfold which
  split
  · rename_i hright
    obtain ⟨hlt, hless⟩ := hright
    refine ⟨by unfold rightOf; omega, hlt, (parent_eq_iff (by unfold rightOf; omega)).mpr (.inr rfl),
      ?_⟩
    intro i hi _ hparent
    rcases (parent_eq_iff hi).mp hparent with rfl | rfl
    · exact ((hcmp _ _).2.mp hless).le
    · exact le_rfl
  · rename_i hleft
    refine ⟨by unfold leftOf; omega, by unfold leftOf; omega,
      (parent_eq_iff (by unfold leftOf; omega)).mpr (.inl rfl), ?_⟩
    intro i hi hlt hparent
    rcases (parent_eq_iff hi).mp hparent with rfl | rfl
    · exact le_rfl
    · exact not_lt.mp fun hless => hleft ⟨hlt, (hcmp _ _).2.mpr hless⟩

theorem trickleDownLoop_settles (hcmp : Compares cmp key) {tmp : α} {fuel index : ℕ}
    {q : PQueue α} (hfuel : q.size ≤ index + fuel) (hindex : index < q.size)
    (hgap : Gap q.position (Function.update q.array index tmp) q.size index)
    (horder : DownFrom key (Function.update q.array index tmp) q.size index) :
    Settles (Function.update q.array index tmp) q.size q (trickleDownLoop cmp tmp fuel index q) ∧
      Ordered key (trickleDownLoop cmp tmp fuel index q).array q.size := by
  induction fuel generalizing index q with
  | zero => omega
  | succ fuel ih =>
    have hvalue : ∀ {i : ℕ}, 0 < i → parent i = index →
        Function.update q.array index tmp i = q.array i := by
      intro i hi hparent
      rw [Function.update_of_ne]
      have := parent_lt hi
      omega
    rw [trickleDownLoop]
    split
    · rename_i hchild
      obtain ⟨hpos, hlt, hparent, hbest⟩ := which_spec hcmp q hchild
      have hp := parent_lt hpos
      split
      · rename_i hstop
        refine ⟨settles_place hindex hgap, horder.ordered fun i hi hin hpi => ?_⟩
        rw [Function.update_self, hvalue hi hpi]
        exact ((hcmp _ _).2.mp hstop).le.trans (hbest i hi hin hpi)
      · rename_i hmove
        generalize hw : q.which cmp index = which at *
        have hne : index ≠ which := by omega
        have hfill : Function.update (q.place index (q.array which)).array which tmp =
            Function.update q.array index tmp ∘ Equiv.swap index which := update_swap _ _ hne
        have hdown : DownFrom key (Function.update q.array index tmp ∘ Equiv.swap index which)
            q.size which := by
          refine horder.swap hpos hlt hparent (fun i hi hin hpi => ?_) ?_
          · rw [hvalue hpos hparent, hvalue hi hpi]
            exact hbest i hi hin hpi
          · rw [hvalue hpos hparent, Function.update_self]
            exact not_lt.mp fun hless => hmove ((hcmp _ _).2.mpr hless)
        have hrest := @ih which (q.place index (q.array which))
          (show q.size ≤ which + fuel by omega) hlt
          (by rw [hfill]; exact gap_shift hindex hlt hne hgap) (by rw [hfill]; exact hdown)
        rw [hfill] at hrest
        exact ⟨settles_shift hindex hlt hne hrest.1, hrest.2⟩
    · rename_i hleaf
      refine ⟨settles_place hindex hgap, horder.ordered fun i hi hin hpi => ?_⟩
      have := (parent_eq_iff hi).mp hpi
      omega

/-! ### The operations -/

/-- The items are ordered, each knows where it lies, and there is room for one more. -/
structure Valid (key : α → β) (q : PQueue α) : Prop where
  ordered : Ordered key q.array q.size
  recorded : ∀ i < q.size, q.position (q.array i) = i
  room : q.size + 1 < q.arraySize

omit [DecidableEq α] in
theorem Valid.injective {q : PQueue α} (h : Valid key q) {i j : ℕ} (hi : i < q.size)
    (hj : j < q.size) (heq : q.array i = q.array j) : i = j := by
  have := h.recorded i hi
  rw [heq, h.recorded j hj] at this
  exact_mod_cast this.symm

omit [DecidableEq α] in
theorem Valid.nodup_items {q : PQueue α} (h : Valid key q) : (items q.array q.size).Nodup :=
  List.nodup_range.map_on fun _ hi _ hj heq =>
    h.injective (List.mem_range.mp hi) (List.mem_range.mp hj) heq

omit [DecidableEq α] in
theorem valid_create (key : α → β) (array : ℕ → α) (position : α → ℤ) :
    Valid key (create array position) where
  ordered i _ hi := absurd hi (Nat.not_lt_zero i)
  recorded i hi := absurd hi (Nat.not_lt_zero i)
  room := by
    change 0 + 1 < PQUEUE_INIT_ARRAYSIZE
    decide

omit [DecidableEq α] in
theorem Settles.items_perm {b : ℕ → α} {n : ℕ} {q r : PQueue α} (h : Settles b n q r) :
    (items r.array n).Perm (items b n) := by
  obtain ⟨σ, hσ, heq⟩ := h.perm
  rw [heq]
  exact items_comp_perm b σ hσ

theorem enqueue_spec (hcmp : Compares cmp key) {q : PQueue α} (hq : Valid key q) {data : α}
    (hdata : data ∉ items q.array q.size) :
    Valid key (enqueue cmp data q) ∧
      (items (enqueue cmp data q).array (enqueue cmp data q).size).Perm
        (data :: items q.array q.size) ∧
      ∀ x, x ≠ data → x ∉ items q.array q.size →
        (enqueue cmp data q).position x = q.position x := by
  generalize hq' : (if q.arraySize ≤ q.size + 2 then q.expand else q) = q'
  have harray : q'.array = q.array := by rw [← hq']; split <;> rfl
  have hsize : q'.size = q.size := by rw [← hq']; split <;> rfl
  have hposition : q'.position = q.position := by rw [← hq']; split <;> rfl
  have hroom : q.size + 2 < q'.arraySize := by
    have := hq.room
    rw [← hq']
    split
    · change _ < q.arraySize * 2
      omega
    · omega
  have hold : ∀ i < q.size, Function.update q.array q.size data i = q.array i := fun i hi =>
    Function.update_of_ne hi.ne _ _
  have hfill : Function.update (q'.place q.size data).array q.size
      ((q'.place q.size data).array q.size) = Function.update q.array q.size data := by
    rw [Function.update_eq_self, ← harray]
    rfl
  have hne : ∀ i < q.size, q.array i ≠ data := fun i hi heq => hdata (mem_items.mpr ⟨i, hi, heq⟩)
  have hgap : Gap (q'.place q.size data).position (Function.update q.array q.size data)
      (q.size + 1) q.size := by
    intro i hi hlast
    have hi : i < q.size := by omega
    rw [hold i hi, Function.update_self]
    change Function.update q'.position data _ _ = _ ∧ _
    rw [Function.update_of_ne (hne i hi), hposition]
    exact ⟨hq.recorded i hi, hne i hi⟩
  have horder : UpTo key (Function.update q.array q.size data) (q.size + 1) q.size := by
    constructor
    · intro i hi hin hlast
      have := parent_lt hi
      rw [hold i (by omega), hold _ (by omega)]
      exact hq.ordered i hi (by omega)
    · intro _ i hi hin hparent
      have := parent_lt hi
      omega
  obtain ⟨hsettles, hordered⟩ := trickleUpLoop_settles (q := q'.place q.size data) hcmp le_rfl
    (Nat.lt_succ_self q.size) (by rw [hfill]; exact hgap) (by rw [hfill]; exact horder)
  have henqueue : enqueue cmp data q =
      { trickleUp cmp q.size (q'.place q.size data) with
        size := (trickleUp cmp q.size (q'.place q.size data)).size + 1 } := by
    unfold enqueue
    simp only [hq', hsize]
  rw [hfill] at hsettles
  have hnew : (enqueue cmp data q).size = q.size + 1 := by
    rw [henqueue]
    exact congrArg (· + 1) (hsettles.size.trans hsize)
  refine ⟨⟨?_, ?_, ?_⟩, ?_, ?_⟩
  · rw [hnew, henqueue]
    exact hordered
  · rw [hnew, henqueue]
    exact hsettles.recorded
  · rw [hnew, henqueue]
    refine lt_of_lt_of_eq ?_ hsettles.arraySize.symm
    exact hroom
  · rw [hnew, henqueue]
    refine hsettles.items_perm.trans ?_
    rw [items_succ, Function.update_self, items_congr hold]
    exact List.perm_append_comm
  · intro x hx hout
    have hother : ∀ i < q.size + 1, Function.update q.array q.size data i ≠ x := by
      intro i hi heq
      by_cases hlast : i = q.size
      · subst hlast
        rw [Function.update_self] at heq
        exact hx heq.symm
      · rw [hold i (by omega)] at heq
        exact hout (mem_items.mpr ⟨i, by omega, heq⟩)
    rw [henqueue]
    refine (hsettles.others x hother).trans ?_
    change Function.update q'.position data _ x = _
    rw [Function.update_of_ne hx, hposition]

theorem removeAt_last (hcmp : Compares cmp key) {q : PQueue α} (hq : Valid key q) {index : ℕ}
    (hindex : index + 1 = q.size) :
    removeAt cmp index q = (q.dropInto index).place index (q.array index) := by
  have hself : (q.dropInto index).array index = q.array index := by
    simp [dropInto, ← hindex]
  have hsize : (q.dropInto index).size = index := by simp [dropInto, ← hindex]
  have hstop : ¬ (0 < index ∧
      cmp ((q.dropInto index).array index) ((q.dropInto index).array (parent index)) < 0) := by
    rintro ⟨hpos, hless⟩
    have hp := parent_lt hpos
    rw [hself, show (q.dropInto index).array (parent index) = q.array (parent index) from
      Function.update_of_ne hp.ne _ _, (hcmp _ _).1] at hless
    exact absurd (hq.ordered index hpos (by omega)) (not_le.mpr hless)
  rw [removeAt, if_neg hstop, trickleDown, hself, hsize]
  cases index with
  | zero => rfl
  | succ index => rw [trickleDownLoop, if_neg (by rw [hsize]; omega)]

theorem removeAt_spec (hcmp : Compares cmp key) {q : PQueue α} (hq : Valid key q) {index : ℕ}
    (hindex : index < q.size) :
    Valid key (removeAt cmp index q) ∧
      (q.array index :: items (removeAt cmp index q).array (removeAt cmp index q).size).Perm
        (items q.array q.size) ∧
      (∀ x, x ∉ items q.array q.size → (removeAt cmp index q).position x = q.position x) ∧
      (removeAt cmp index q).position (q.array index) = index := by
  obtain ⟨n, hn⟩ : ∃ n, q.size = n + 1 := ⟨q.size - 1, by omega⟩
  have hsize : (q.dropInto index).size = n := by simp [dropInto, hn]
  have hroom := hq.room
  by_cases hlast : index = n
  · -- the item that would fill the gap is the one that is taken away
    subst hlast
    rw [removeAt_last hcmp hq hn.symm]
    have harray : ((q.dropInto index).place index (q.array index)).array = q.array := by
      simp [place, dropInto, hn]
    have hsize' : ((q.dropInto index).place index (q.array index)).size = index := hsize
    rw [hsize', harray, hn, items_succ]
    refine ⟨⟨?_, ?_, ?_⟩, (List.perm_append_singleton _ _).symm, ?_, Function.update_self _ _ _⟩
    · rw [hsize', harray]
      exact fun i hi hin => hq.ordered i hi (by omega)
    · rw [hsize', harray]
      intro i hi
      change Function.update q.position (q.array index) _ (q.array i) = _
      rw [Function.update_of_ne, hq.recorded i (by omega)]
      intro heq
      have := hq.injective (show i < q.size by omega) hindex heq
      omega
    · rw [hsize']
      change _ < q.arraySize
      omega
    · intro x hx
      change Function.update q.position (q.array index) _ x = _
      rw [Function.update_of_ne]
      rintro rfl
      exact hx (List.mem_append_right _ List.mem_cons_self)
  · have hdrop : ∀ i, i ≠ index → (q.dropInto index).array i = q.array i := fun i hi =>
      Function.update_of_ne hi _ _
    have hmoved : (q.dropInto index).array index = q.array n := by simp [dropInto, hn]
    have hfill : Function.update (q.dropInto index).array index ((q.dropInto index).array index) =
        (q.dropInto index).array := Function.update_eq_self _ _
    have hgap : Gap (q.dropInto index).position (q.dropInto index).array n index := by
      intro i hi hne
      rw [hdrop i hne, hmoved]
      refine ⟨hq.recorded i (by omega), fun heq => ?_⟩
      have := hq.injective (show i < q.size by omega) (show n < q.size by omega) heq
      omega
    have hgrand : 0 < index → ∀ i, 0 < i → i < n → parent i = index →
        key (q.array (parent index)) ≤ key (q.array i) := by
      intro hpos i hi hin hparent
      have := hq.ordered i hi (by omega)
      rw [hparent] at this
      exact (hq.ordered index hpos (by omega)).trans this
    have hkeep : Settles (q.dropInto index).array n (q.dropInto index) (removeAt cmp index q) ∧
        Ordered key (removeAt cmp index q).array n := by
      simp only [removeAt]
      split
      · rename_i hup
        obtain ⟨hpos, hless⟩ := hup
        have hp := parent_lt hpos
        rw [hmoved, hdrop _ hp.ne, (hcmp _ _).1] at hless
        have horder : UpTo key (q.dropInto index).array n index := by
          constructor
          · intro i hi hin hne
            rw [hdrop i hne]
            by_cases hparent : parent i = index
            · rw [hparent, hmoved]
              exact hless.le.trans (hgrand hpos i hi hin hparent)
            · rw [hdrop _ hparent]
              exact hq.ordered i hi (by omega)
          · intro _ i hi hin hparent
            have := parent_lt hi
            rw [hdrop i (by omega), hdrop _ hp.ne]
            exact hgrand hpos i hi hin hparent
        have := trickleUpLoop_settles (q := q.dropInto index) hcmp le_rfl
          (show index < n by omega) (by rw [hfill]; exact hgap) (by rw [hfill]; exact horder)
        rwa [hfill] at this
      · rename_i hdown
        have horder : DownFrom key (q.dropInto index).array n index := by
          constructor
          · intro i hi hin hparent
            rw [hdrop _ hparent]
            by_cases hne : i = index
            · subst hne
              refine not_lt.mp fun hless => hdown ⟨hi, ?_⟩
              rw [(hcmp _ _).1, hdrop _ hparent]
              exact hless
            · rw [hdrop i hne]
              exact hq.ordered i hi (by omega)
          · intro hpos i hi hin hparent
            have := parent_lt hi
            have := parent_lt hpos
            rw [hdrop i (by omega), hdrop _ (by omega)]
            exact hgrand hpos i hi hin hparent
        have hgap' : Gap (q.dropInto index).position (Function.update (q.dropInto index).array index
            ((q.dropInto index).array index)) (q.dropInto index).size index := by
          rw [hfill, hsize]
          exact hgap
        have := trickleDownLoop_settles hcmp (Nat.le_add_left _ index) (by omega) hgap'
          (by rw [hfill, hsize]; exact horder)
        rw [hfill] at this
        rw [← hsize]
        exact this
    obtain ⟨hsettles, hordered⟩ := hkeep
    have hsize' : (removeAt cmp index q).size = n := hsettles.size.trans hsize
    have hgone : ∀ i < n, (q.dropInto index).array i ≠ q.array index := by
      intro i hi heq
      by_cases hne : i = index
      · subst hne
        rw [hmoved] at heq
        have := hq.injective (show n < q.size by omega) hindex heq
        omega
      · rw [hdrop i hne] at heq
        exact hne (hq.injective (show i < q.size by omega) hindex heq)
    refine ⟨⟨?_, ?_, ?_⟩, ?_, ?_, (hsettles.others _ hgone).trans (hq.recorded index hindex)⟩
    · rw [hsize']
      exact hordered
    · rw [hsize']
      exact hsettles.recorded
    · rw [hsize', hsettles.arraySize]
      change _ < q.arraySize
      omega
    · rw [hsize', hn]
      have hdrop := items_drop_perm q.array (show index < n by omega)
      rw [← show (q.dropInto index).array = Function.update q.array index (q.array n) by
        simp [dropInto, hn]] at hdrop
      exact (hsettles.items_perm.cons _).trans hdrop
    · intro x hx
      refine hsettles.others x fun i hi heq => hx (mem_items.mpr ?_)
      by_cases hne : i = index
      · subst hne
        exact ⟨n, by omega, hmoved ▸ heq⟩
      · exact ⟨i, by omega, hdrop i hne ▸ heq⟩

omit [LinearOrder β] in
theorem dequeue_eq (q : PQueue α) : dequeue cmp q = (q.array 0, removeAt cmp 0 q) := by
  simp [dequeue, removeAt]

end Order
end PQueue
end Routerd.Threads
