/-
# `EspIot.Misc.CircularBuffer` — the fixed ring of misc/circular_buffer.h

`acquire` and `pop` hand out slots, not values: the producer fills the slot
after `acquire` has returned it, the consumer reads the slot after `pop` has
returned it.  `contents` is the queue the ring stands for, and the two theorems
at the end say what an acquire-and-fill and a pop do to it.

The bounds on `_used` and `_next_index` are fields, so the index arithmetic of
`pop`, `(Size + _next_index - _used) % Size`, never underflows.
-/
import Mathlib.Data.List.Basic
import Mathlib.Data.Nat.ModEq

namespace EspIot

structure CircularBuffer (α : Type*) (size : Nat) where
  buffer : Vector α size
  used : Nat
  nextIndex : Nat
  used_le : used ≤ size
  next_lt : nextIndex < size

namespace CircularBuffer

variable {α : Type*} {size : Nat}

/-- The initial buffer: every slot holds the default value, none is used. -/
def init (default : α) [NeZero size] : CircularBuffer α size where
  buffer := Vector.replicate size default
  used := 0
  nextIndex := 0
  used_le := Nat.zero_le _
  next_lt := Nat.pos_of_neZero size

def canAcquire (b : CircularBuffer α size) : Bool := b.used < size

def canPop (b : CircularBuffer α size) : Bool := b.used != 0

/-- `++_next_index >= Size` starts again at slot 0. -/
def advance (b : CircularBuffer α size) : Nat :=
  if b.nextIndex + 1 ≥ size then 0 else b.nextIndex + 1

theorem advance_lt (b : CircularBuffer α size) : b.advance < size := by
  have := b.next_lt
  rw [advance]
  split <;> omega

/-- `acquire`: the slot to fill, or the null pointer. -/
def acquire (b : CircularBuffer α size) : Option (Fin size × CircularBuffer α size) :=
  if h : b.used < size then
    some (⟨b.nextIndex, b.next_lt⟩,
      { b with used := b.used + 1, nextIndex := b.advance, used_le := h, next_lt := b.advance_lt })
  else none

/-- The slot `k` places after the oldest used one. -/
def index (b : CircularBuffer α size) (k : Nat) : Fin size :=
  ⟨(size + b.nextIndex - b.used + k) % size,
    Nat.mod_lt _ (Nat.lt_of_le_of_lt (Nat.zero_le _) b.next_lt)⟩

/-- `pop`: the oldest used slot, or the null pointer. -/
def pop (b : CircularBuffer α size) : Option (Fin size × CircularBuffer α size) :=
  if b.used ≠ 0 then
    some (b.index 0, { b with
      used := b.used - 1
      used_le := Nat.le_trans (Nat.sub_le ..) b.used_le })
  else none

/-- A slot is filled through the pointer that was handed out. -/
def fill (b : CircularBuffer α size) (i : Fin size) (value : α) : CircularBuffer α size :=
  { b with buffer := b.buffer.set i value }

def read (b : CircularBuffer α size) (i : Fin size) : α := b.buffer[i]

/-- The queue the ring stands for, oldest first. -/
def contents (b : CircularBuffer α size) : List α :=
  (List.range b.used).map fun k => b.read (b.index k)

theorem read_fill (b : CircularBuffer α size) (i j : Fin size) (value : α) :
    (b.fill i value).read j = if i = j then value else b.read j := by
  simp only [read, fill, Fin.getElem_fin, Vector.getElem_set, Fin.ext_iff]

@[simp] theorem contents_length (b : CircularBuffer α size) : b.contents.length = b.used := by
  simp [contents]

@[simp] theorem contents_init (default : α) [NeZero size] :
    (init default : CircularBuffer α size).contents = [] := rfl

theorem acquire_some {b b' : CircularBuffer α size} {i : Fin size}
    (h : b.acquire = some (i, b')) :
    b.used < size ∧ (i : Nat) = b.nextIndex ∧ b'.used = b.used + 1 ∧
      b'.nextIndex = b.advance ∧ b'.buffer = b.buffer := by
  rw [acquire] at h
  split at h
  · rename_i hused
    cases h
    exact ⟨hused, rfl, rfl, rfl, rfl⟩
  · cases h

theorem pop_some {b b' : CircularBuffer α size} {i : Fin size} (h : b.pop = some (i, b')) :
    b.used = b'.used + 1 ∧ i = b.index 0 ∧ b'.nextIndex = b.nextIndex ∧
      b'.buffer = b.buffer := by
  rw [pop] at h
  split at h
  · rename_i hused
    cases h
    exact ⟨(Nat.succ_pred_eq_of_ne_zero hused).symm, rfl, rfl, rfl⟩
  · cases h

/-! ## Index arithmetic -/

/-- Acquiring moves `_next_index` and `_used` together, so the used slots stay where they are. -/
theorem index_acquire {b b' : CircularBuffer α size} {i : Fin size} (h : b.acquire = some (i, b'))
    (k : Nat) : b'.index k = b.index k := by
  obtain ⟨hused, -, hu, hn, -⟩ := acquire_some h
  have hlt := b.next_lt
  refine Fin.ext ?_
  simp only [index, hu, hn, advance]
  split
  · have heq : size + b.nextIndex - b.used + k = (size + 0 - (b.used + 1) + k) + size := by omega
    rw [heq, Nat.add_mod_right]
  · congr 1
    omega

theorem index_used (b : CircularBuffer α size) : (b.index b.used : Nat) = b.nextIndex := by
  have hn := b.next_lt
  have hu := b.used_le
  have heq : size + b.nextIndex - b.used + b.used = b.nextIndex + size := by omega
  simp only [index]
  rw [heq, Nat.add_mod_right, Nat.mod_eq_of_lt hn]

theorem index_inj (b : CircularBuffer α size) {j k : Nat} (hj : j < size) (hk : k < size)
    (h : b.index j = b.index k) : j = k := by
  have hmod : size + b.nextIndex - b.used + j ≡ size + b.nextIndex - b.used + k [MOD size] :=
    congrArg Fin.val h
  exact (Nat.ModEq.add_left_cancel' _ hmod).eq_of_lt_of_lt hj hk

theorem index_pop {b b' : CircularBuffer α size} {i : Fin size} (h : b.pop = some (i, b'))
    (k : Nat) : b'.index k = b.index (k + 1) := by
  obtain ⟨hu, -, hn, -⟩ := pop_some h
  have hle := b.used_le
  refine Fin.ext ?_
  simp only [index, hn]
  congr 1
  omega

/-! ## The queue -/

theorem contents_acquire_fill {b b' : CircularBuffer α size} {i : Fin size}
    (h : b.acquire = some (i, b')) (value : α) :
    (b'.fill i value).contents = b.contents ++ [value] := by
  obtain ⟨hused, hi, hu, -, hbuf⟩ := acquire_some h
  have hread : ∀ k, k ≤ b.used → (b'.fill i value).read ((b'.fill i value).index k) =
      if k = b.used then value else b.read (b.index k) := by
    intro k hk
    have hidx : (b'.fill i value).index k = b.index k := index_acquire h k
    have hlast : i = b.index b.used := Fin.ext (hi.trans b.index_used.symm)
    have hsame : b'.read (b.index k) = b.read (b.index k) := by simp only [read, hbuf]
    rw [hidx, read_fill, hsame]
    by_cases hkb : k = b.used
    · rw [if_pos hkb, if_pos (by rw [hlast, hkb])]
    · rw [if_neg hkb, if_neg]
      intro heq
      exact hkb (b.index_inj (by omega) hused (heq.symm.trans hlast))
  have hcount : (b'.fill i value).used = b.used + 1 := hu
  simp only [contents, hcount, List.range_succ, List.map_append, List.map_cons, List.map_nil]
  congr 1
  · refine List.map_congr_left ?_
    intro k hk
    have hlt : k < b.used := List.mem_range.mp hk
    rw [hread k hlt.le, if_neg hlt.ne]
  · rw [hread b.used le_rfl, if_pos rfl]

theorem contents_pop {b b' : CircularBuffer α size} {i : Fin size} (h : b.pop = some (i, b')) :
    b.contents = b'.read i :: b'.contents := by
  obtain ⟨hu, rfl, -, hbuf⟩ := pop_some h
  have hread : ∀ j, b'.read j = b.read j := fun j => by simp only [read, hbuf]
  simp only [contents, hu, List.range_succ_eq_map, List.map_cons, List.map_map, hread]
  congr 1
  refine List.map_congr_left ?_
  intro k _
  simp only [Function.comp_apply, index_pop h]

theorem acquire_eq_none {b : CircularBuffer α size} :
    b.acquire = none ↔ b.canAcquire = false := by
  rw [acquire, canAcquire]
  split <;> simp_all

theorem pop_eq_none {b : CircularBuffer α size} : b.pop = none ↔ b.canPop = false := by
  rw [pop, canPop]
  split <;> simp_all

end CircularBuffer

end EspIot
