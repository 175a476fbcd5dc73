/-
# `EspIot.Misc.Timer` — the slot timer of misc/timer.h, with re-entrant passes

`Timer` is an array of `TimerEntry` slots.  An id is a slot index, and a slot is
reused as soon as it is free.  A pass of `handle_timers` calls the callbacks of
the due slots, and a callback may itself add, clear and start further passes, so
a run of the class is not a sequence of calls but a stack of them.

The stack is explicit here.  A frame is a pass that is about to look at slot `i`,
or a callback that the pass has called from slot `i`; the code that may call the
class is the main program while the stack is empty, and otherwise the callback
on top of it.  What that code does is left open: every event list is a program.

Three things are read from outside and stand in the events: the `millis()`
readings, whether `new(std::nothrow)` finds memory, and the value a reference
into a deleted slot array reads — `handle_timers` holds `auto &entry` across the
callback, and `_grow` may have deleted the array it points into.
-/
import EspIot.Lib.Run
import Mathlib.Data.UInt
import Mathlib.Logic.Function.Basic

namespace EspIot

def timerGrowAmount : Nat := 8

/-- `TimerEntry`, with the default values of its declaration.  The callback type is
open; `none` is the null function. -/
structure TimerEntry (Fn : Type*) where
  active : Bool := false
  repeats : Bool := false
  callback : Option Fn := none
  parameter : Nat := 0
  interval : UInt32 := 0
  createdAt : UInt32 := 0
deriving DecidableEq

/-- `Timer`.  `_count` is the length of `entries`, and `_entries` is null until the
first growth, so exactly while the list is empty.  `generation` counts the
allocations of the array: a reference taken under an older one dangles. -/
structure Timer (Fn : Type*) where
  entries : List (TimerEntry Fn) := []
  freeCount : UInt32 := 0
  generation : Nat := 0
deriving DecidableEq

namespace Timer

variable {Fn : Type*}

/-- `_grow`; `memory` is the answer of `new(std::nothrow)`. -/
def grow (t : Timer Fn) (memory : Bool) : Timer Fn :=
  if memory then
    { entries := t.entries ++ List.replicate timerGrowAmount {}
      freeCount := t.freeCount + UInt32.ofNat timerGrowAmount
      generation := t.generation + 1 }
  else t

/-- `_add`, with the slot it returns; `none` is the `-1ul` of a full array. -/
def add (t : Timer Fn) (callback : Fn) (interval : UInt32) (repeats : Bool) (parameter : Nat)
    (now : UInt32) (memory : Bool) : Timer Fn × Option Nat :=
  let t := if t.freeCount = 0 then t.grow memory else t
  match t.entries.findIdx? (fun entry => !entry.active) with
  | some i =>
      ({ t with
          entries := t.entries.set i
            { active := true, createdAt := now, interval, repeats, callback := some callback,
              parameter }
          freeCount := t.freeCount - 1 }, some i)
  | none => (t, none)

/-- `_clear`.  The code indexes without a check; an id past the end is no slot here and
the callers below never pass one. -/
def clear (t : Timer Fn) (timerId : Nat) : Timer Fn :=
  match t.entries[timerId]? with
  | some entry =>
      if entry.active then
        { t with entries := t.entries.set timerId {}, freeCount := t.freeCount + 1 }
      else t
  | none => t

/-- The early return of `handle_timers`: no array, or every slot free. -/
def idle (t : Timer Fn) : Bool := t.entries.isEmpty || t.entries.length == t.freeCount.toNat

/-- The test a pass makes of a slot, in the wrapping arithmetic of `unsigned long`. -/
def due (entry : TimerEntry Fn) (now : UInt32) : Bool :=
  entry.active && !(now - entry.createdAt < entry.interval)

/-- What a pass writes into a due slot before it calls back. -/
def arm (entry : TimerEntry Fn) (now : UInt32) : TimerEntry Fn :=
  if entry.repeats then { entry with createdAt := now }
  -- `~0ul`: a nested pass must not run a timeout that is already running
  else { entry with interval := 0xFFFFFFFF }

/-- `entry.repeat` as the pass reads it after the callback has returned.  The reference was
taken under `generation`; once the array has been reallocated it points into freed memory,
and any value, `stale`, may be read there. -/
def repeatAfter (t : Timer Fn) (i generation : Nat) (stale : Bool) : Bool :=
  if generation = t.generation then
    match t.entries[i]? with
    | some entry => entry.repeats
    | none => stale
  else stale

/-! ## What the operations leave alone -/

theorem grow_prefix (t : Timer Fn) (memory : Bool) {i : Nat} (h : i < t.entries.length) :
    (t.grow memory).entries[i]? = t.entries[i]? := by
  rw [grow]
  split
  · exact List.getElem?_append_left h
  · rfl

theorem grow_active (t : Timer Fn) (memory : Bool) {i : Nat} {entry : TimerEntry Fn}
    (h : (t.grow memory).entries[i]? = some entry) (ha : entry.active = true) :
    t.entries[i]? = some entry := by
  rw [grow] at h
  split at h
  · rcases Nat.lt_or_ge i t.entries.length with hi | hi
    · rwa [List.getElem?_append_left hi] at h
    · rw [List.getElem?_append_right hi, List.getElem?_replicate] at h
      split at h
      · cases h; cases ha
      · cases h
  · exact h

/-- Everything `_add` can do: nothing but growth, or the first free slot is taken. -/
theorem add_cases (t : Timer Fn) (callback : Fn) (interval : UInt32) (repeats : Bool)
    (parameter : Nat) (now : UInt32) (memory : Bool) :
    ∃ g : Timer Fn, (g = t ∨ g = t.grow memory) ∧
      ((t.add callback interval repeats parameter now memory = (g, none)) ∨
       ∃ i entry, g.entries[i]? = some entry ∧ entry.active = false ∧
        t.add callback interval repeats parameter now memory =
          ({ g with
              entries := g.entries.set i
                { active := true, createdAt := now, interval, repeats,
                  callback := some callback, parameter }
              freeCount := g.freeCount - 1 }, some i)) := by
  have hg : (if t.freeCount = 0 then t.grow memory else t) = t ∨
      (if t.freeCount = 0 then t.grow memory else t) = t.grow memory := by
    split
    · exact Or.inr rfl
    · exact Or.inl rfl
  refine ⟨if t.freeCount = 0 then t.grow memory else t, hg, ?_⟩
  unfold add
  generalize (if t.freeCount = 0 then t.grow memory else t) = g
  cases h : g.entries.findIdx? (fun entry => !entry.active) with
  | none => exact Or.inl (by simp [h])
  | some i =>
      obtain ⟨hlt, hfree, -⟩ := List.findIdx?_eq_some_iff_getElem.mp h
      exact Or.inr ⟨i, _, List.getElem?_eq_getElem hlt, by simpa using hfree, by simp [h]⟩

/-- Everything `_clear` can do. -/
theorem clear_cases (t : Timer Fn) (i : Nat) :
    (t.clear i = t ∧ ∀ entry, t.entries[i]? = some entry → entry.active = false) ∨
    ∃ entry, t.entries[i]? = some entry ∧ entry.active = true ∧
      t.clear i = { t with entries := t.entries.set i {}, freeCount := t.freeCount + 1 } := by
  rw [clear]
  cases h : t.entries[i]? with
  | none => exact Or.inl ⟨rfl, fun _ he => by cases he⟩
  | some entry =>
      cases ha : entry.active with
      | true => exact Or.inr ⟨entry, rfl, ha, by simp [ha]⟩
      | false => exact Or.inl ⟨by simp [ha], fun _ he => by cases he; exact ha⟩

@[simp] theorem arm_active (entry : TimerEntry Fn) (now : UInt32) :
    (arm entry now).active = entry.active := by
  unfold arm; split <;> rfl

@[simp] theorem arm_repeats (entry : TimerEntry Fn) (now : UInt32) :
    (arm entry now).repeats = entry.repeats := by
  unfold arm; split <;> rfl

@[simp] theorem arm_callback (entry : TimerEntry Fn) (now : UInt32) :
    (arm entry now).callback = entry.callback := by
  unfold arm; split <;> rfl

@[simp] theorem arm_parameter (entry : TimerEntry Fn) (now : UInt32) :
    (arm entry now).parameter = entry.parameter := by
  unfold arm; split <;> rfl

end Timer

/-! ## The machine -/

/-- A pass about to look at slot `i`, or the callback a pass has called from slot `i`
through a reference taken under `generation`. -/
inductive TimerFrame (Fn : Type*)
  | pass (i : Nat)
  | running (i generation : Nat) (callback : Option Fn) (parameter : Nat)
deriving DecidableEq

/-- One timer that `add_timeout` or `add_interval` returned, as it was asked for. -/
structure AddedTimer (Fn : Type*) where
  id : Nat
  repeats : Bool
  callback : Fn
  parameter : Nat
deriving DecidableEq

/-- The history the results about timers speak of: the timers returned so far, in order,
which of them each slot holds, which have fired, and for which a clear call with their id was
made after they were added. -/
structure TimerLedger (Fn : Type*) where
  added : List (AddedTimer Fn) := []
  owner : Nat → Option Nat := fun _ => none
  fired : Nat → Bool := fun _ => false
  cleared : Nat → Bool := fun _ => false

/-- A `Timer` in the middle of a run. -/
structure TimerRun (Fn : Type*) where
  timer : Timer Fn := {}
  frames : List (TimerFrame Fn) := []
  ledger : TimerLedger Fn := {}

/-- A call of the class by the code that is running, or a step of the code of the class. -/
inductive TimerEvent (Fn : Type*)
  /-- `add_timeout` (`repeats = false`) or `add_interval` (`repeats = true`) -/
  | add (callback : Fn) (interval : UInt32) (repeats : Bool) (parameter : Nat) (now : UInt32)
      (memory : Bool)
  /-- `clear_timeout` or `clear_interval` -/
  | clear (timerId : Nat)
  /-- `handle_timers` is called -/
  | handle
  /-- the pass on top looks at its slot -/
  | visit (now : UInt32)
  /-- the callback on top returns -/
  | ret (stale : Bool)
deriving DecidableEq

namespace TimerRun

variable {Fn : Type*}

/-- The class is called by the main program or by the callback on top of the stack. -/
def canCall (s : TimerRun Fn) : Bool :=
  match s.frames with
  | .pass _ :: _ => false
  | _ => true

/-- Slot `i` holds an active timer. -/
def live (s : TimerRun Fn) (i : Nat) : Bool := (s.timer.entries[i]?).any (·.active)

/-- `add_timeout` / `add_interval` -/
def add (s : TimerRun Fn) (callback : Fn) (interval : UInt32) (repeats : Bool) (parameter : Nat)
    (now : UInt32) (memory : Bool) : TimerRun Fn :=
  match s.timer.add callback interval repeats parameter now memory with
  | (t, none) => { s with timer := t }
  | (t, some i) =>
      { s with
          timer := t
          ledger := { s.ledger with
            added := s.ledger.added ++ [{ id := i, repeats, callback, parameter }]
            owner := Function.update s.ledger.owner i (some s.ledger.added.length) } }

/-- `clear_timeout` / `clear_interval` -/
def clear (s : TimerRun Fn) (timerId : Nat) : TimerRun Fn :=
  { s with
      timer := s.timer.clear timerId
      ledger := { s.ledger with
        owner := Function.update s.ledger.owner timerId none
        cleared := fun k =>
          s.ledger.cleared k || (s.ledger.added[k]?).any fun a => a.id == timerId } }

/-- A due slot: the pass writes it and calls back. -/
def fire (s : TimerRun Fn) (i : Nat) (entry : TimerEntry Fn) (now : UInt32)
    (rest : List (TimerFrame Fn)) : TimerRun Fn :=
  { timer := { s.timer with entries := s.timer.entries.set i (Timer.arm entry now) }
    frames := .running i s.timer.generation entry.callback entry.parameter :: rest
    ledger := { s.ledger with
      fired := fun k => s.ledger.fired k || s.ledger.owner i == some k } }

/-- The pass is back from the callback of slot `i`: `if (!entry.repeat) _clear(i);` -/
def finish (s : TimerRun Fn) (i generation : Nat) (stale : Bool)
    (rest : List (TimerFrame Fn)) : TimerRun Fn :=
  if s.timer.repeatAfter i generation stale then { s with frames := .pass (i + 1) :: rest }
  else
    { timer := s.timer.clear i
      frames := .pass (i + 1) :: rest
      ledger := { s.ledger with owner := Function.update s.ledger.owner i none } }

/-- One event.  A clear call is made with the id of a timer that is live at that moment. -/
def step (s : TimerRun Fn) : TimerEvent Fn → Option (TimerRun Fn)
  | .add callback interval repeats parameter now memory =>
      if s.canCall then some (s.add callback interval repeats parameter now memory) else none
  | .clear timerId => if s.canCall && s.live timerId then some (s.clear timerId) else none
  | .handle =>
      if s.canCall then
        some (if s.timer.idle then s else { s with frames := .pass 0 :: s.frames })
      else none
  | .visit now =>
      match s.frames with
      | .pass i :: rest =>
          match s.timer.entries[i]? with
          -- `i < _count` fails: the pass is over
          | none => some { s with frames := rest }
          | some entry =>
              if Timer.due entry now then some (s.fire i entry now rest)
              else some { s with frames := .pass (i + 1) :: rest }
      | _ => none
  | .ret stale =>
      match s.frames with
      | .running i generation _ _ :: rest => some (s.finish i generation stale rest)
      | _ => none

/-! What each event can do. -/

variable {s s' : TimerRun Fn}

theorem step_add {callback : Fn} {interval : UInt32} {repeats : Bool} {parameter : ℕ}
    {now : UInt32} {memory : Bool}
    (h : s.step (.add callback interval repeats parameter now memory) = some s') :
    s.canCall = true ∧ s' = s.add callback interval repeats parameter now memory := by
  simp only [step] at h
  split at h
  · rename_i hcan
    cases h
    exact ⟨hcan, rfl⟩
  · cases h

theorem step_clear {i : ℕ} (h : s.step (.clear i) = some s') :
    s.live i = true ∧ s' = s.clear i := by
  simp only [step] at h
  split at h
  · rename_i hcan
    cases h
    exact ⟨(Bool.and_eq_true_iff.mp hcan).2, rfl⟩
  · cases h

theorem step_handle (h : s.step .handle = some s') :
    s' = s ∨ s' = { s with frames := .pass 0 :: s.frames } := by
  simp only [step] at h
  split at h
  · cases h
    split
    · exact .inl rfl
    · exact .inr rfl
  · cases h

theorem step_visit {now : UInt32} (h : s.step (.visit now) = some s') :
    ∃ i rest, s.frames = .pass i :: rest ∧
      ((s.timer.entries[i]? = none ∧ s' = { s with frames := rest }) ∨
        ∃ entry, s.timer.entries[i]? = some entry ∧
          ((Timer.due entry now = true ∧ s' = s.fire i entry now rest) ∨
            (Timer.due entry now = false ∧ s' = { s with frames := .pass (i + 1) :: rest }))) := by
  simp only [step] at h
  split at h
  · rename_i i rest hf
    refine ⟨i, rest, hf, ?_⟩
    split at h
    · rename_i hnone
      cases h
      exact .inl ⟨hnone, rfl⟩
    · rename_i entry he
      refine .inr ⟨entry, he, ?_⟩
      split at h
      · rename_i hdue
        cases h
        exact .inl ⟨hdue, rfl⟩
      · rename_i hnot
        cases h
        exact .inr ⟨Bool.eq_false_iff.mpr hnot, rfl⟩
  · cases h

theorem step_ret {stale : Bool} (h : s.step (.ret stale) = some s') :
    ∃ i generation callback parameter rest,
      s.frames = .running i generation callback parameter :: rest ∧
        s' = s.finish i generation stale rest := by
  simp only [step] at h
  split at h
  · rename_i i generation callback parameter rest hf
    cases h
    exact ⟨i, generation, callback, parameter, rest, hf, rfl⟩
  · cases h

end TimerRun

end EspIot
