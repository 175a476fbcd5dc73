/-
# `EspIot.Misc.PoppedSlots` — how long a popped slot stays the consumer's

`pop` counts a slot as free before the consumer has read it, so a later `acquire`
may hand it out again.  `SlotRun` is a ring in use: a producer that acquires and
fills in one step, a consumer that pops, and beside them the slot popped last,
with what it held then.

    Stable        the slot popped last was not handed out since, and holds what it held
    LeavesRoom    while it is in use, no `acquire` takes the last free slot

`stable_iff` says that the second is exactly what the first takes: the slots are
handed out in turn, so the popped one comes last.
-/
import EspIot.Lib.Run
import EspIot.Misc.CircularBuffer

namespace EspIot

open Lib

/-- A `CircularBuffer` with the slot that was popped last, the value it held then, and whether
`acquire` has handed it out since. -/
structure SlotRun (α : Type*) (size : ℕ) where
  buffer : CircularBuffer α size
  popped : Option (Fin size × α) := none
  handedOut : Bool := false

/-- The producer makes something of the slot it gets; the consumer pops. -/
inductive SlotEvent (α : Type*)
  | store (fill : α → α)
  | pop

namespace SlotRun

variable {α : Type*} {size : ℕ}

/-- An empty ring that nothing was popped from. -/
def start [NeZero size] (default : α) : SlotRun α size := { buffer := .init default }

/-- `acquire`, and the slot is filled. -/
def store (fill : α → α) (s : SlotRun α size) : SlotRun α size :=
  match s.buffer.acquire with
  | none => s
  | some (slot, buffer) =>
      { s with
        buffer := buffer.fill slot (fill (buffer.read slot))
        handedOut := s.handedOut || decide (s.popped.map Prod.fst = some slot) }

/-- `pop`.  With the null pointer the consumer has no slot. -/
def pop (s : SlotRun α size) : SlotRun α size :=
  match s.buffer.pop with
  | none => { s with popped := none, handedOut := false }
  | some (slot, buffer) =>
      { buffer, popped := some (slot, buffer.read slot), handedOut := false }

def step (s : SlotRun α size) : SlotEvent α → Option (SlotRun α size)
  | .store fill => some (s.store fill)
  | .pop => some s.pop

/-- The slot popped last is the consumer's: it was not handed out since, and it holds what it
held. -/
def Stable (s : SlotRun α size) : Prop :=
  ∀ slot value, s.popped = some (slot, value) →
    s.handedOut = false ∧ s.buffer.read slot = value

/-- While a popped slot is in use, the ring is not filled up. -/
def LeavesRoom (s : SlotRun α size) : SlotEvent α → Prop
  | .store _ => s.popped.isSome → s.buffer.used + 1 ≠ size
  | .pop => True

/-- The slot popped last is free, and the one in front of the oldest used. -/
def InFront (s : SlotRun α size) : Prop :=
  ∀ slot value, s.popped = some (slot, value) →
    s.buffer.used < size ∧
      (slot : ℕ) = (size + s.buffer.nextIndex - (s.buffer.used + 1)) % size

/-! ## Steps -/

theorem pop_inFront (s : SlotRun α size) : InFront s.pop := by
  intro slot value h
  rw [pop] at h ⊢
  cases hp : s.buffer.pop with
  | none =>
      rw [hp] at h
      cases h
  | some slotBuffer =>
      obtain ⟨slot', buffer⟩ := slotBuffer
      rw [hp] at h
      cases h
      obtain ⟨hused, rfl, hnext, -⟩ := CircularBuffer.pop_some hp
      have hle := s.buffer.used_le
      refine ⟨?_, ?_⟩
      · show buffer.used < size
        omega
      · show (s.buffer.index 0 : ℕ) = (size + buffer.nextIndex - (buffer.used + 1)) % size
        rw [hnext, ← hused]
        rfl

theorem pop_stable (s : SlotRun α size) : Stable s.pop := by
  intro slot value h
  rw [pop] at h ⊢
  cases hp : s.buffer.pop with
  | none =>
      rw [hp] at h
      cases h
  | some slotBuffer =>
      rw [hp] at h
      cases h
      exact ⟨rfl, rfl⟩

/-- The slot that `acquire` hands out is the one in front of the oldest exactly when it is the last
free one. -/
theorem acquires_popped_iff {s : SlotRun α size} (h : InFront s) {slot popped : Fin size}
    {value : α} {buffer : CircularBuffer α size} (hp : s.popped = some (popped, value))
    (ha : s.buffer.acquire = some (slot, buffer)) :
    popped = slot ↔ s.buffer.used + 1 = size := by
  obtain ⟨hlt, hslot⟩ := h popped value hp
  obtain ⟨-, hnext, -⟩ := CircularBuffer.acquire_some ha
  have hn := s.buffer.next_lt
  rw [Fin.ext_iff, hslot, hnext]
  rcases Nat.lt_or_ge s.buffer.nextIndex (s.buffer.used + 1) with hless | hge
  · rw [Nat.mod_eq_of_lt (by omega)]
    omega
  · have hsum : size + s.buffer.nextIndex - (s.buffer.used + 1) =
        s.buffer.nextIndex - (s.buffer.used + 1) + size := by omega
    rw [hsum, Nat.add_mod_right, Nat.mod_eq_of_lt (by omega)]
    omega

theorem store_inFront {s : SlotRun α size} (h : InFront s) {fill : α → α}
    (hroom : LeavesRoom s (.store fill)) : InFront (s.store fill) := by
  intro slot value hp
  rw [store] at hp ⊢
  cases ha : s.buffer.acquire with
  | none =>
      rw [ha] at hp
      exact h slot value hp
  | some slotBuffer =>
      obtain ⟨next, buffer⟩ := slotBuffer
      rw [ha] at hp
      have hp' : s.popped = some (slot, value) := hp
      obtain ⟨hlt, hslot⟩ := h slot value hp'
      obtain ⟨-, -, hused, hnext, -⟩ := CircularBuffer.acquire_some ha
      have hne : s.buffer.used + 1 ≠ size := hroom (by rw [hp']; rfl)
      have hn := s.buffer.next_lt
      refine ⟨?_, ?_⟩
      · show buffer.used < size
        omega
      · show (slot : ℕ) = (size + buffer.nextIndex - (buffer.used + 1)) % size
        rw [hslot, hused, hnext, CircularBuffer.advance]
        split
        · rename_i hwrap
          have hsum : size + s.buffer.nextIndex - (s.buffer.used + 1) =
              size + 0 - (s.buffer.used + 1 + 1) + size := by omega
          rw [hsum, Nat.add_mod_right]
        · congr 1
          omega

theorem store_stable {s : SlotRun α size} (hs : Stable s) (h : InFront s) {fill : α → α}
    (hroom : LeavesRoom s (.store fill)) : Stable (s.store fill) := by
  intro slot value hp
  rw [store] at hp ⊢
  cases ha : s.buffer.acquire with
  | none =>
      rw [ha] at hp
      exact hs slot value hp
  | some slotBuffer =>
      obtain ⟨next, buffer⟩ := slotBuffer
      rw [ha] at hp
      have hp' : s.popped = some (slot, value) := hp
      obtain ⟨hout, hread⟩ := hs slot value hp'
      obtain ⟨-, -, -, -, hbuffer⟩ := CircularBuffer.acquire_some ha
      have hne : slot ≠ next := by
        intro heq
        exact hroom (by rw [hp']; rfl) ((acquires_popped_iff h hp' ha).mp heq)
      refine ⟨?_, ?_⟩
      · show (s.handedOut || decide (s.popped.map Prod.fst = some next)) = false
        rw [hout, hp', Bool.false_or, decide_eq_false_iff_not]
        exact fun heq => hne (Option.some.inj heq)
      · show (buffer.fill next _).read slot = value
        rw [CircularBuffer.read_fill, if_neg hne.symm, ← hread]
        simp only [CircularBuffer.read, hbuffer]

theorem not_stable_store {s : SlotRun α size} (h : InFront s) {fill : α → α}
    (hroom : ¬ LeavesRoom s (.store fill)) : ¬ Stable (s.store fill) := by
  intro hs
  have hroom' : ¬ (s.popped.isSome → s.buffer.used + 1 ≠ size) := hroom
  rw [Classical.not_imp, not_not] at hroom'
  obtain ⟨hsome, hfull⟩ := hroom'
  obtain ⟨⟨slot, value⟩, hp⟩ := Option.isSome_iff_exists.mp hsome
  cases ha : s.buffer.acquire with
  | none =>
      have hnone := CircularBuffer.acquire_eq_none.mp ha
      rw [CircularBuffer.canAcquire, decide_eq_false_iff_not] at hnone
      omega
  | some slotBuffer =>
      obtain ⟨next, buffer⟩ := slotBuffer
      have heq : slot = next := (acquires_popped_iff h hp ha).mpr hfull
      have hpopped : (s.store fill).popped = some (slot, value) := by
        rw [store, ha]
        exact hp
      have hout : (s.store fill).handedOut = true := by
        rw [store, ha]
        show (s.handedOut || decide (s.popped.map Prod.fst = some next)) = true
        rw [hp, Option.map_some, heq, decide_eq_true rfl, Bool.or_true]
      rw [(hs slot value hpopped).1] at hout
      cases hout

/-! ## Runs -/

/-- **The slot popped last is neither handed out again nor overwritten before the next pop, all
along a run, exactly when no `acquire` takes the last free slot while a popped slot is in use.** -/
theorem stable_iff [NeZero size] (default : α) (es : List (SlotEvent α)) :
    Always step Stable (start default : SlotRun α size) es ↔
      Each step LeavesRoom (start default : SlotRun α size) es := by
  refine always_iff_each (I := fun s => Stable s ∧ InFront s) (fun _ h => h.1) ?_ ?_ ?_
  · intro s e t hI hroom hs
    cases e with
    | store fill =>
        cases hs
        exact ⟨store_stable hI.1 hI.2 hroom, store_inFront hI.2 hroom⟩
    | pop =>
        cases hs
        exact ⟨s.pop_stable, s.pop_inFront⟩
  · intro s e t hI hroom hs
    cases e with
    | store fill =>
        cases hs
        exact not_stable_store hI.2 hroom
    | pop => exact absurd trivial hroom
  · refine ⟨?_, ?_⟩
    · intro slot value h
      cases h
    · intro slot value h
      cases h

end SlotRun

end EspIot
