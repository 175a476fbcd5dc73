/-
# `EspIot.Misc.Button` — a button that counts clicks and notices a hold

The pin is read in two places.  The interrupt handler runs on every edge: it drops what comes
too soon after the last one, turns a reading it has seen already around, and counts a click
on the way up.  `handle()` is polled: it notices the hold and its end, and reports clicks
when nothing has happened for a while.

What the pin shows and what `millis()` shows stand in the arguments; a handler that is set
is called, and the calls come back as a list.  Here `handle()` runs whole;
`Misc.ButtonSteps` takes it apart.
-/
import EspIot.Lib.Clock
import Mathlib.Data.UInt

namespace EspIot

open Lib

structure ButtonState where
  hold : Bool := false
  clickCount : UInt8 := 0
  timestamp : UInt32 := 0
deriving DecidableEq, Repr

/-- What the setters set.  A handler is there or it is `nullptr`. -/
structure ButtonSettings where
  silenceInterval : UInt32 := 40
  holdInterval : UInt32 := 500
  holdCallInterval : UInt32 := 500
  pressWaitInterval : UInt32 := 500
  resetInterval : UInt32 := 1000
  holdRepeat : Bool := true
  clickHandler : Bool := false
  holdHandler : Bool := false
  holdReleaseHandler : Bool := false
deriving DecidableEq, Repr

structure Button extends ButtonSettings where
  highState : Bool := true
  usedForWakeup : Bool := false
  hold : Bool := false
  clickCount : ℕ := 0
  lastImpulseTime : UInt32 := 0
  lastButtonHoldCallTime : UInt32 := 0
  holdCalled : Bool := false
  lastInterruptState : Bool := false
  lastState : ButtonState := {}
deriving DecidableEq, Repr

inductive ButtonCall
  | click (count : UInt8)
  | hold (count : UInt8)
  | holdRelease (count : UInt8)
deriving DecidableEq, Repr

/-- The readings of `millis()` in one `handle()`, in the order they are taken: for `delta`, for
`hold_call_delta`, for the timestamp, and after the hold handler. -/
structure ButtonReadings where
  delta : UInt32
  holdCallDelta : UInt32
  timestamp : UInt32
  called : UInt32
deriving DecidableEq, Repr

/-- The readings of a poll at `now`, with the time between one and the next. -/
def ButtonReadings.taken (now first second third : ℕ) : ButtonReadings where
  delta := reading now
  holdCallDelta := reading (now + first)
  timestamp := reading (now + first + second)
  called := reading (now + first + second + third)

namespace Button

/-- `_read`, where the pin shows `level`. -/
def read (level : Bool) (b : Button) : Bool := level ^^ !b.highState

theorem read_not (level : Bool) (b : Button) : b.read (!level) = !b.read level := Bool.not_xor _ _

/-- `begin`; `wakedUp` is the bit of the pin in `esp_sleep_get_gpio_wakeup_status`, on a chip that
has it. -/
def begin (level wakedUp : Bool) (now : UInt32) (b : Button) : Button :=
  let b :=
    if b.usedForWakeup && !b.read level && wakedUp then
      { b with lastImpulseTime := now, clickCount := 1 }
    else b
  { b with lastInterruptState := b.read level }

/-- `end` -/
def finish (b : Button) : Button := { b with clickCount := 0, hold := false }

/-! ## The interrupt -/

/-- The test of `_handle_rising_interrupt`: the clicks were not collected in time. -/
def startsOver (delta : UInt32) (b : Button) : Bool :=
  (b.clickCount ≠ 0 || b.hold) && b.resetInterval < delta

def handleRisingInterrupt (delta : UInt32) (b : Button) : Button :=
  if b.startsOver delta then { b with hold := false, clickCount := 0 } else b

def handleFallingInterrupt (b : Button) : Button :=
  if b.hold then b else { b with clickCount := b.clickCount + 1 }

def silenced (now : UInt32) (b : Button) : Bool := now - b.lastImpulseTime < b.silenceInterval

/-- `_handle_interrupt_change`; a run of it takes no time. -/
def handleInterruptChange (level : Bool) (now : UInt32) (b : Button) : Button :=
  let delta := now - b.lastImpulseTime
  let b' := { b with lastImpulseTime := now }
  if b.silenced now then b'
  else
    -- a reading that was seen already belongs to the other edge
    let state := if b.read level = b.lastInterruptState then !b.read level else b.read level
    let b' := { b' with lastInterruptState := state }
    if state then b'.handleRisingInterrupt delta else b'.handleFallingInterrupt

/-! ## `handle` -/

/-- The first `if` of `handle`: the hold begins, or it ends. -/
def updateHold (state : Bool) (delta : UInt32) (b : Button) : List ButtonCall × Button :=
  if !b.hold && state && b.holdInterval ≤ delta then
    ([], { b with hold := true, clickCount := b.clickCount + 1 })
  else if b.hold && !state then
    (if b.holdReleaseHandler then [.holdRelease (UInt8.ofNat b.clickCount)] else [],
      { b with hold := false, clickCount := 0, lastInterruptState := false, holdCalled := false })
  else ([], b)

/-- The test for a call of the hold handler. -/
def holdDue (now : UInt32) (b : Button) : Bool :=
  (!b.holdCalled || b.holdRepeat) && b.holdCallInterval ≤ now - b.lastButtonHoldCallTime

/-- The test for a call of the click handler. -/
def clicksDue (delta : UInt32) (b : Button) : Bool :=
  b.clickCount ≠ 0 && b.pressWaitInterval < delta

/-- The second `if` of `handle`: the hold or the clicks are reported. -/
def report (delta : UInt32) (t : ButtonReadings) (b : Button) : List ButtonCall × Button :=
  let count := UInt8.ofNat b.clickCount
  if b.hold then
    if b.holdDue t.holdCallDelta then
      (if b.holdHandler then [.hold count] else [],
        { b with
          lastState := { hold := true, clickCount := count, timestamp := t.timestamp }
          holdCalled := true
          lastButtonHoldCallTime := t.called })
    else ([], b)
  else if b.clicksDue delta then
    (if b.clickHandler then [.click count] else [],
      { b with
        lastState := { hold := false, clickCount := count, timestamp := t.timestamp }
        clickCount := 0
        lastInterruptState := false })
  else ([], b)

def handle (level : Bool) (t : ButtonReadings) (b : Button) : List ButtonCall × Button :=
  let delta := t.delta - b.lastImpulseTime
  let r := b.updateHold (b.read level) delta
  let r' := r.2.report delta t
  (r.1 ++ r'.1, r'.2)

/-! ## What the pieces do -/

section
variable (b : Button)

/-- `_hold` after the first `if`: it is what the button shows, unless a press is too young. -/
theorem updateHold_hold (state : Bool) (delta : UInt32) :
    (b.updateHold state delta).2.hold = (state && (b.hold || b.holdInterval ≤ delta)) := by
  rw [updateHold]
  cases hhold : b.hold <;> cases state <;> cases hlong : decide (b.holdInterval ≤ delta) <;>
    simp [hhold]

theorem handleInterruptChange_eq (level : Bool) (now : UInt32) :
    b.handleInterruptChange level now =
      let b' := { b with lastImpulseTime := now }
      if b.silenced now then b'
      else if b.lastInterruptState then
        { b' with lastInterruptState := false }.handleFallingInterrupt
      else { b' with lastInterruptState := true }.handleRisingInterrupt
        (now - b.lastImpulseTime) := by
  have hstate : (if b.read level = b.lastInterruptState then !b.read level else b.read level) =
      !b.lastInterruptState := by
    cases b.read level <;> cases b.lastInterruptState <;> rfl
  rw [handleInterruptChange, hstate]
  cases b.lastInterruptState <;> rfl

/-- What `handle` and the two halves of the interrupt handler leave alone. -/
structure Frame (b b' : Button) : Prop where
  settings : b'.toButtonSettings = b.toButtonSettings
  highState : b'.highState = b.highState
  lastImpulseTime : b'.lastImpulseTime = b.lastImpulseTime

theorem Frame.read {b b' : Button} (h : Frame b b') (level : Bool) :
    b'.read level = b.read level := by
  rw [Button.read, Button.read, h.highState]

theorem frame_updateHold (state : Bool) (delta : UInt32) :
    Frame b (b.updateHold state delta).2 := by
  rw [updateHold]
  split
  · exact ⟨rfl, rfl, rfl⟩
  · split <;> exact ⟨rfl, rfl, rfl⟩

theorem frame_report (delta : UInt32) (t : ButtonReadings) : Frame b (b.report delta t).2 := by
  rw [report]
  split
  · split <;> exact ⟨rfl, rfl, rfl⟩
  · split <;> exact ⟨rfl, rfl, rfl⟩

theorem frame_handle (level : Bool) (t : ButtonReadings) : Frame b (b.handle level t).2 := by
  have hupdate := b.frame_updateHold (b.read level) (t.delta - b.lastImpulseTime)
  have hreport := (b.updateHold (b.read level) (t.delta - b.lastImpulseTime)).2.frame_report
    (t.delta - b.lastImpulseTime) t
  exact ⟨hreport.settings.trans hupdate.settings, hreport.highState.trans hupdate.highState,
    hreport.lastImpulseTime.trans hupdate.lastImpulseTime⟩

theorem frame_handleRisingInterrupt (delta : UInt32) :
    Frame b (b.handleRisingInterrupt delta) := by
  rw [handleRisingInterrupt]
  split <;> exact ⟨rfl, rfl, rfl⟩

theorem frame_handleFallingInterrupt : Frame b b.handleFallingInterrupt := by
  rw [handleFallingInterrupt]
  split <;> exact ⟨rfl, rfl, rfl⟩

theorem frame_handleInterruptChange (level : Bool) (now : UInt32) :
    Frame { b with lastImpulseTime := now } (b.handleInterruptChange level now) := by
  rw [handleInterruptChange]
  split
  · exact ⟨rfl, rfl, rfl⟩
  · dsimp only
    generalize (if b.read level = b.lastInterruptState then !b.read level else b.read level) =
      state
    cases state with
    | true =>
        have hframe := frame_handleRisingInterrupt
          { b with lastImpulseTime := now, lastInterruptState := true } (now - b.lastImpulseTime)
        exact ⟨hframe.settings, hframe.highState, hframe.lastImpulseTime⟩
    | false =>
        have hframe := frame_handleFallingInterrupt
          { b with lastImpulseTime := now, lastInterruptState := false }
        exact ⟨hframe.settings, hframe.highState, hframe.lastImpulseTime⟩

end

end Button

end EspIot
