/-
# `EspIot.Misc.RingQueue` — the ring is a bounded queue

`boundedQueue` is what a ring of `size` slots is for: a queue that takes no more than that.
`serve` is the ring as it is used, a slot acquired and filled in one step, a slot popped and
read in the other.  The two give the same answers to every sequence of calls, and what the
ring holds in between is the queue (`Implements`).

`Misc.CircularBuffer` computes with natural numbers, the source with a `size_t`;
`popIndexWord` is the index of `pop` in words that wrap around.  An array has at most half
as many elements as there are words, and then no step of it wraps.
-/
import EspIot.Lib.Machine
import EspIot.Misc.CircularBuffer

namespace EspIot

open Lib

/-- A value is stored, or one is asked for. -/
inductive QueueEvent (α : Type*)
  | put (value : α)
  | take
deriving DecidableEq, Repr

/-- Whether the value was taken; the value that comes back, if any. -/
inductive QueueAnswer (α : Type*)
  | put (accepted : Bool)
  | taken (value : Option α)
deriving DecidableEq, Repr

/-- A queue that takes `bound` elements. -/
def boundedQueue {α : Type*} (bound : ℕ) (queue : List α) :
    QueueEvent α → QueueAnswer α × List α
  | .put value =>
      if queue.length < bound then (.put true, queue ++ [value]) else (.put false, queue)
  | .take => (.taken queue.head?, queue.tail)

namespace CircularBuffer

variable {α : Type*} {size : ℕ}

/-- `acquire`, and the slot is filled; `pop`, and the slot is read. -/
def serve (b : CircularBuffer α size) : QueueEvent α → QueueAnswer α × CircularBuffer α size
  | .put value =>
      match b.acquire with
      | none => (.put false, b)
      | some (slot, b) => (.put true, b.fill slot value)
  | .take =>
      match b.pop with
      | none => (.taken none, b)
      | some (slot, b) => (.taken (some (b.read slot)), b)

/-- `(Size + _next_index - _used) % Size`, in words of `w` bits. -/
def popIndexWord (w : ℕ) (b : CircularBuffer α size) : BitVec w :=
  (BitVec.ofNat w size + BitVec.ofNat w b.nextIndex - BitVec.ofNat w b.used) % BitVec.ofNat w size

/-- **The ring stands for this queue**, and its arithmetic stays in the array. -/
structure Implements (b : CircularBuffer α size) (queue : List α) : Prop where
  contents : b.contents = queue
  acquire : b.acquire = none ↔ queue.length = size
  pop : b.pop = none ↔ queue = []
  oldest : ∀ slot b', b.pop = some (slot, b') → queue.head? = some (b'.read slot)
  noUnderflow : b.used ≤ size + b.nextIndex
  noWrap : ∀ w, 2 * size ≤ 2 ^ w → (b.popIndexWord w).toNat = b.index 0
  inside : b.nextIndex < size ∧ ∀ slot b', b.pop = some (slot, b') → (slot : ℕ) < size

/-! ## What one call does -/

theorem full_iff {b : CircularBuffer α size} : b.acquire = none ↔ b.contents.length = size := by
  have hle := b.used_le
  rw [acquire_eq_none, canAcquire, decide_eq_false_iff_not, contents_length]
  omega

theorem empty_iff {b : CircularBuffer α size} : b.pop = none ↔ b.contents = [] := by
  rw [pop_eq_none, canPop, bne_eq_false_iff_eq, ← List.length_eq_zero_iff, contents_length]

theorem serve_put (b : CircularBuffer α size) (value : α) :
    (b.serve (.put value)).1 = (boundedQueue size b.contents (.put value)).1 ∧
      (b.serve (.put value)).2.contents = (boundedQueue size b.contents (.put value)).2 := by
  rw [serve, boundedQueue]
  have hle := b.used_le
  cases hacquire : b.acquire with
  | none =>
      have hfull := full_iff.mp hacquire
      rw [if_neg (by omega)]
      exact ⟨rfl, rfl⟩
  | some slotBuffer =>
      obtain ⟨slot, b'⟩ := slotBuffer
      have hroom := (acquire_some hacquire).1
      rw [contents_length, if_pos hroom]
      exact ⟨rfl, contents_acquire_fill hacquire value⟩

theorem serve_take (b : CircularBuffer α size) :
    (b.serve .take).1 = (boundedQueue size b.contents .take).1 ∧
      (b.serve .take).2.contents = (boundedQueue size b.contents .take).2 := by
  rw [serve, boundedQueue]
  cases hpop : b.pop with
  | none =>
      have hempty := empty_iff.mp hpop
      rw [hempty]
      exact ⟨rfl, rfl⟩
  | some slotBuffer =>
      obtain ⟨slot, b'⟩ := slotBuffer
      rw [contents_pop hpop]
      exact ⟨rfl, rfl⟩

theorem serve_simulates :
    Simulates (fun (b : CircularBuffer α size) queue => b.contents = queue) serve
      (boundedQueue size) := by
  rintro b queue (value | _) rfl
  · exact b.serve_put value
  · exact b.serve_take

/-! ## The arithmetic -/

theorem popIndexWord_toNat (b : CircularBuffer α size) {w : ℕ} (h : 2 * size ≤ 2 ^ w) :
    (b.popIndexWord w).toNat = b.index 0 := by
  have hused := b.used_le
  have hnext := b.next_lt
  have hsize : (BitVec.ofNat w size).toNat = size := by
    rw [BitVec.toNat_ofNat, Nat.mod_eq_of_lt (by omega)]
  have hindex : (BitVec.ofNat w b.nextIndex).toNat = b.nextIndex := by
    rw [BitVec.toNat_ofNat, Nat.mod_eq_of_lt (by omega)]
  have hcount : (BitVec.ofNat w b.used).toNat = b.used := by
    rw [BitVec.toNat_ofNat, Nat.mod_eq_of_lt (by omega)]
  have hsum : (BitVec.ofNat w size + BitVec.ofNat w b.nextIndex).toNat = size + b.nextIndex := by
    rw [BitVec.toNat_add, hsize, hindex, Nat.mod_eq_of_lt (by omega)]
  have hle : BitVec.ofNat w b.used ≤ BitVec.ofNat w size + BitVec.ofNat w b.nextIndex := by
    rw [BitVec.le_def, hcount, hsum]
    omega
  rw [popIndexWord, BitVec.toNat_umod, BitVec.toNat_sub_of_le hle, hsum, hcount, hsize]
  rfl

theorem implements_contents (b : CircularBuffer α size) : b.Implements b.contents where
  contents := rfl
  acquire := full_iff
  pop := empty_iff
  oldest slot b' hpop := by
    rw [contents_pop hpop]
    rfl
  noUnderflow := Nat.le_add_right_of_le b.used_le
  noWrap _ h := b.popIndexWord_toNat h
  inside := ⟨b.next_lt, fun slot _ _ => slot.2⟩

/-- **Whatever is stored and asked for, a ring answers as the bounded queue does, and stands for it
in every state.** -/
theorem ring_refines_queue [NeZero size] (default : α) (es : List (QueueEvent α)) :
    answers serve (init default : CircularBuffer α size) es = answers (boundedQueue size) [] es ∧
      (after serve (init default : CircularBuffer α size) es).Implements
        (after (boundedQueue size) [] es) := by
  have hempty : (init default : CircularBuffer α size).contents = [] :=
    contents_init default
  obtain ⟨hanswers, hcontents⟩ := serve_simulates.run es hempty
  refine ⟨hanswers, ?_⟩
  rw [← hcontents]
  exact implements_contents _

/-- Two slots: the third value is refused, and the first two come back in order. -/
theorem ring_refines_queue_two :
    answers serve (init 0 : CircularBuffer ℕ 2) [.put 7, .put 8, .put 9, .take, .take, .take] =
      [.put true, .put true, .put false, .taken (some 7), .taken (some 8), .taken none] := by
  rw [(ring_refines_queue 0 _).1]
  rfl

end CircularBuffer

end EspIot
