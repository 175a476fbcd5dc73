/-
# `EspIot.Misc.ButtonSteps` — `handle()` statement by statement

`handle()` passes `_click_count` to a handler, runs it, and clears the counter afterwards.  The
interrupt may come at any point in between, so the statements stand one by one:

    callRelease ──▶ inRelease ──▶ clearHold ──▶ clearCount ──▶ …
    callClick ──▶ inClick ──▶ clearClicks ──▶ …

`execute` is one statement.  Without an interrupt in between the statements make up
`Button.handle`.
-/
import EspIot.Misc.Button
import Mathlib.Logic.Function.Iterate

namespace EspIot

/-- The statement of `handle()` that is next, with the locals; `passed` is the count a handler
has got, zero where there is none.  `idle` is outside. -/
inductive ButtonStatement
  | idle
  | delta
  | read (delta : UInt32)
  | holdTest (delta : UInt32) (state : Bool)
  | setHold (delta : UInt32)
  | addClick (delta : UInt32)
  | releaseTest (delta : UInt32) (state : Bool)
  | callRelease (delta : UInt32)
  | inRelease (delta : UInt32) (passed : ℕ)
  | clearHold (delta : UInt32) (passed : ℕ)
  | clearCount (delta : UInt32) (passed : ℕ)
  | clearState (delta : UInt32)
  | clearCalled (delta : UInt32)
  | reportTest (delta : UInt32)
  | holdCallDelta
  | holdCallTest (holdCallDelta : UInt32)
  | holdStateCount
  | holdStateHold
  | holdStateTime
  | callHold
  | inHold
  | setCalled
  | setCallTime
  | clickTest (delta : UInt32)
  | clickStateCount
  | clickStateHold
  | clickStateTime
  | callClick
  | inClick (passed : ℕ)
  | clearClicks (passed : ℕ)
  | clearClickState
deriving DecidableEq, Repr

namespace Button

/-- One statement of `handle()`: the next one, the button, and the handler that is called.  The
argument of a call is evaluated with the call; the return of a handler is a step of its own. -/
def execute (level : Bool) (now : UInt32) (b : Button) :
    ButtonStatement → ButtonStatement × Button × List ButtonCall
  | .idle => (.idle, b, [])
  | .delta => (.read (now - b.lastImpulseTime), b, [])
  | .read delta => (.holdTest delta (b.read level), b, [])
  | .holdTest delta state =>
      (if !b.hold && state && b.holdInterval ≤ delta then .setHold delta
        else .releaseTest delta state, b, [])
  | .setHold delta => (.addClick delta, { b with hold := true }, [])
  | .addClick delta => (.reportTest delta, { b with clickCount := b.clickCount + 1 }, [])
  | .releaseTest delta state =>
      (if b.hold && !state then .callRelease delta else .reportTest delta, b, [])
  | .callRelease delta =>
      let count := UInt8.ofNat b.clickCount
      if b.holdReleaseHandler then (.inRelease delta count.toNat, b, [.holdRelease count])
      else (.inRelease delta 0, b, [])
  | .inRelease delta passed => (.clearHold delta passed, b, [])
  | .clearHold delta passed => (.clearCount delta passed, { b with hold := false }, [])
  | .clearCount delta _ => (.clearState delta, { b with clickCount := 0 }, [])
  | .clearState delta => (.clearCalled delta, { b with lastInterruptState := false }, [])
  | .clearCalled delta => (.reportTest delta, { b with holdCalled := false }, [])
  | .reportTest delta => (if b.hold then .holdCallDelta else .clickTest delta, b, [])
  | .holdCallDelta => (.holdCallTest (now - b.lastButtonHoldCallTime), b, [])
  | .holdCallTest holdCallDelta =>
      (if (!b.holdCalled || b.holdRepeat) && b.holdCallInterval ≤ holdCallDelta then
        .holdStateCount else .idle, b, [])
  | .holdStateCount =>
      (.holdStateHold,
        { b with lastState := { b.lastState with clickCount := UInt8.ofNat b.clickCount } }, [])
  | .holdStateHold =>
      (.holdStateTime, { b with lastState := { b.lastState with hold := true } }, [])
  | .holdStateTime => (.callHold, { b with lastState := { b.lastState with timestamp := now } }, [])
  | .callHold => (.inHold, b, if b.holdHandler then [.hold (UInt8.ofNat b.clickCount)] else [])
  | .inHold => (.setCalled, b, [])
  | .setCalled => (.setCallTime, { b with holdCalled := true }, [])
  | .setCallTime => (.idle, { b with lastButtonHoldCallTime := now }, [])
  | .clickTest delta => (if b.clicksDue delta then .clickStateCount else .idle, b, [])
  | .clickStateCount =>
      (.clickStateHold,
        { b with lastState := { b.lastState with clickCount := UInt8.ofNat b.clickCount } }, [])
  | .clickStateHold =>
      (.clickStateTime, { b with lastState := { b.lastState with hold := false } }, [])
  | .clickStateTime =>
      (.callClick, { b with lastState := { b.lastState with timestamp := now } }, [])
  | .callClick =>
      let count := UInt8.ofNat b.clickCount
      if b.clickHandler then (.inClick count.toNat, b, [.click count]) else (.inClick 0, b, [])
  | .inClick passed => (.clearClicks passed, b, [])
  | .clearClicks _ => (.clearClickState, { b with clickCount := 0 }, [])
  | .clearClickState => (.idle, { b with lastInterruptState := false }, [])

end Button

/-! ## Without an interrupt -/

def ButtonReadings.at (t : ButtonReadings) : ButtonStatement → UInt32
  | .holdCallDelta => t.holdCallDelta
  | .holdStateTime | .clickStateTime => t.timestamp
  | .setCallTime => t.called
  | _ => t.delta

namespace Button

/-- The next statement, at a level of the pin and with the readings of a call of `handle()`; the
calls are kept. -/
def advance (level : Bool) (t : ButtonReadings)
    (m : ButtonStatement × Button × List ButtonCall) :
    ButtonStatement × Button × List ButtonCall :=
  let r := m.2.1.execute level (t.at m.1) m.1
  (r.1, r.2.1, m.2.2 ++ r.2.2)

section
variable (b : Button) (level : Bool) (t : ButtonReadings)

theorem advance_calls (n : ℕ) (p : ButtonStatement) (b : Button) (calls : List ButtonCall) :
    (advance level t)^[n] (p, b, calls) =
      (((advance level t)^[n] (p, b, [])).1, ((advance level t)^[n] (p, b, [])).2.1,
        calls ++ ((advance level t)^[n] (p, b, [])).2.2) := by
  induction n generalizing p b calls with
  | zero =>
      show (p, b, calls) = (p, b, calls ++ [])
      rw [List.append_nil]
  | succ n ih =>
      have hstep : ∀ calls, (advance level t)^[n + 1] (p, b, calls) =
          (advance level t)^[n] ((b.execute level (t.at p) p).1,
            (b.execute level (t.at p) p).2.1, calls ++ (b.execute level (t.at p) p).2.2) :=
        fun _ => rfl
      rw [hstep, hstep, ih _ _ (calls ++ _), ih _ _ ([] ++ _), List.nil_append, List.append_assoc]

theorem advance_updateHold :
    ∃ n, (advance level t)^[n] (.delta, b, []) =
      (.reportTest (t.delta - b.lastImpulseTime),
        (b.updateHold (b.read level) (t.delta - b.lastImpulseTime)).2,
        (b.updateHold (b.read level) (t.delta - b.lastImpulseTime)).1) := by
  have hstart : (advance level t)^[3] (.delta, b, []) =
      (if !b.hold && b.read level && b.holdInterval ≤ t.delta - b.lastImpulseTime then
        .setHold (t.delta - b.lastImpulseTime)
      else .releaseTest (t.delta - b.lastImpulseTime) (b.read level), b, []) := rfl
  have htest : ∀ delta state, (advance level t)^[1] (.releaseTest delta state, b, []) =
      (if b.hold && !state then .callRelease delta else .reportTest delta, b, []) :=
    fun _ _ => rfl
  rw [updateHold]
  by_cases hbegins :
      (!b.hold && b.read level && b.holdInterval ≤ t.delta - b.lastImpulseTime) = true
  · rw [if_pos hbegins]
    refine ⟨2 + 3, ?_⟩
    rw [Function.iterate_add_apply, hstart, if_pos hbegins]
    rfl
  · rw [if_neg hbegins]
    by_cases hends : (b.hold && !b.read level) = true
    · rw [if_pos hends]
      cases hset : b.holdReleaseHandler
      all_goals
        refine ⟨5 + (1 + (1 + 3)), ?_⟩
        rw [Function.iterate_add_apply, Function.iterate_add_apply, Function.iterate_add_apply,
          hstart, if_neg hbegins, htest, if_pos hends, Function.iterate_one, advance]
        dsimp only [execute]
        rw [hset]
        rfl
    · rw [if_neg hends]
      refine ⟨1 + 3, ?_⟩
      rw [Function.iterate_add_apply, hstart, if_neg hbegins, htest, if_neg hends]

theorem advance_report (delta : UInt32) :
    ∃ n, (advance level t)^[n] (.reportTest delta, b, []) =
      (.idle, (b.report delta t).2, (b.report delta t).1) := by
  have hstart : (advance level t)^[1] (.reportTest delta, b, []) =
      (if b.hold then .holdCallDelta else .clickTest delta, b, []) := rfl
  let count := UInt8.ofNat b.clickCount
  rw [report]
  by_cases hhold : b.hold = true
  · rw [if_pos hhold]
    have htest : (advance level t)^[2] (.holdCallDelta, b, []) =
        (if b.holdDue t.holdCallDelta then .holdStateCount else .idle, b, []) := rfl
    by_cases hdue : b.holdDue t.holdCallDelta = true
    · rw [if_pos hdue]
      have hcall : (advance level t)^[4] (.holdStateCount, b, []) =
          (.inHold, { b with
            lastState := { hold := true, clickCount := count, timestamp := t.timestamp } },
            if b.holdHandler then [.hold count] else []) := rfl
      refine ⟨3 + (4 + (2 + 1)), ?_⟩
      rw [Function.iterate_add_apply, Function.iterate_add_apply, Function.iterate_add_apply,
        hstart, if_pos hhold, htest, if_pos hdue, hcall]
      cases b.holdHandler <;> rfl
    · rw [if_neg hdue]
      refine ⟨2 + 1, ?_⟩
      rw [Function.iterate_add_apply, hstart, if_pos hhold, htest, if_neg hdue]
  · rw [if_neg hhold]
    have htest : (advance level t)^[1] (.clickTest delta, b, []) =
        (if b.clicksDue delta then .clickStateCount else .idle, b, []) := rfl
    by_cases hdue : b.clicksDue delta = true
    · rw [if_pos hdue]
      have hstate : (advance level t)^[3] (.clickStateCount, b, []) =
          (.callClick, { b with
            lastState := { hold := false, clickCount := count, timestamp := t.timestamp } },
            []) := rfl
      cases hset : b.clickHandler
      all_goals
        refine ⟨3 + (1 + (3 + (1 + 1))), ?_⟩
        rw [Function.iterate_add_apply, Function.iterate_add_apply, Function.iterate_add_apply,
          Function.iterate_add_apply, hstart, if_neg hhold, htest, if_pos hdue, hstate,
          Function.iterate_one, advance]
        dsimp only [execute]
        rw [hset]
        rfl
    · rw [if_neg hdue]
      refine ⟨1 + 1, ?_⟩
      rw [Function.iterate_add_apply, hstart, if_neg hhold, htest, if_neg hdue]

theorem advance_handle :
    ∃ n, (advance level t)^[n] (.delta, b, []) =
      (.idle, (b.handle level t).2, (b.handle level t).1) := by
  obtain ⟨n, hn⟩ := b.advance_updateHold level t
  obtain ⟨m, hm⟩ := (b.updateHold (b.read level) (t.delta - b.lastImpulseTime)).2.advance_report
    level t (t.delta - b.lastImpulseTime)
  refine ⟨m + n, ?_⟩
  rw [Function.iterate_add_apply, hn, advance_calls, hm]
  rfl

end

end Button

end EspIot
