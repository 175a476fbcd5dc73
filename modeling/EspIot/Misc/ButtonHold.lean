/-
# `EspIot.Misc.ButtonHold` — whether a noted call belongs to the current hold

`_hold_called` says that the hold handler has been called for this hold, so it has to go when
the hold goes.  Five places write `_hold`:

    handle      the hold begins        _hold
    handle      the hold is released   _hold, _hold_called
    interrupt   the clicks start over  _hold
    end                                _hold

so a hold that ends in one of the last two leaves its note to the next one.
-/
import EspIot.Lib.Clock
import EspIot.Lib.Run
import EspIot.Misc.Button

namespace EspIot

open Lib

/-- A button and the clock.  `notified` says that the hold handler was due in the current hold. -/
structure ButtonHold where
  button : Button
  now : ℕ := 0
  attached : Bool := false
  notified : Bool := false
deriving DecidableEq, Repr

/-- Time passes; the interrupt handler, `handle()`, `begin`, `end` and the setters are called, at
any level of the pin. -/
inductive ButtonHoldEvent
  | elapse (millis : ℕ)
  | interrupt (level : Bool)
  | poll (level : Bool) (first second third : ℕ)
  | begin (level wakedUp : Bool)
  | finish
  | set (settings : ButtonSettings)
deriving DecidableEq, Repr

namespace ButtonHold

/-- The button after the first `if` of a poll. -/
def updated (level : Bool) (s : ButtonHold) : Button :=
  (s.button.updateHold (s.button.read level) (reading s.now - s.button.lastImpulseTime)).2

/-- The hold that a poll finds or begins has been noted already. -/
def known (s : ButtonHold) : Bool := s.button.hold && s.notified

def step (s : ButtonHold) : ButtonHoldEvent → Option ButtonHold
  | .elapse millis => some { s with now := s.now + millis }
  | .interrupt level =>
      if s.attached then
        some { s with button := s.button.handleInterruptChange level (reading s.now) }
      else none
  | .poll level first second third =>
      let t : ButtonReadings := .taken s.now first second third
      some { s with
        button := (s.button.handle level t).2
        now := s.now + first + second + third
        notified := s.known || (s.updated level).holdDue t.holdCallDelta }
  | .begin level wakedUp =>
      some { s with button := s.button.begin level wakedUp (reading s.now), attached := true }
  | .finish => some { s with button := s.button.finish, attached := false }
  | .set settings => some { s with button := { s.button with toButtonSettings := settings } }

/-- **`_hold_called` implies `_hold`.** -/
def Belongs (s : ButtonHold) : Prop := s.button.holdCalled = true → s.button.hold = true

/-- No hold that has been noted is cut short: neither by `end`, nor by an edge of a button that
was not seen to be released, later than `_reset_interval`. -/
def KeepsHold (s : ButtonHold) : ButtonHoldEvent → Prop
  | .finish => s.button.holdCalled = false
  | .interrupt _ => s.button.holdCalled = true →
      s.button.silenced (reading s.now) = false → s.button.lastInterruptState = false →
      ¬ s.button.resetInterval < reading s.now - s.button.lastImpulseTime
  | _ => True

/-- A poll that finds a hold whose handler has not been called calls it, once
`_hold_call_interval` has passed. -/
def CallsFirst (s : ButtonHold) : ButtonHoldEvent → Prop
  | .poll level first second third => (s.updated level).hold = true → s.known = false →
      s.button.holdCallInterval ≤ reading (s.now + first) - s.button.lastButtonHoldCallTime →
      s.button.holdHandler = true →
      ∃ count, .hold count ∈ (s.button.handle level (.taken s.now first second third)).1
  | _ => True

/-! ## The pieces -/

section
variable (b : Button)

theorem updateHold_holdCalled (state : Bool) (delta : UInt32) :
    (b.updateHold state delta).2.holdCalled = (b.holdCalled && !(b.hold && !state)) := by
  rw [Button.updateHold]
  cases b.hold <;> cases state <;> cases decide (b.holdInterval ≤ delta) <;> simp

theorem updateHold_lastButtonHoldCallTime (state : Bool) (delta : UInt32) :
    (b.updateHold state delta).2.lastButtonHoldCallTime = b.lastButtonHoldCallTime := by
  rw [Button.updateHold]
  split
  · rfl
  · split <;> rfl

theorem report_hold (delta : UInt32) (t : ButtonReadings) :
    (b.report delta t).2.hold = b.hold := by
  rw [Button.report]
  split
  · split <;> rfl
  · split <;> rfl

theorem report_holdCalled (delta : UInt32) (t : ButtonReadings) :
    (b.report delta t).2.holdCalled =
      (b.holdCalled || b.hold && b.holdDue t.holdCallDelta) := by
  rw [Button.report]
  cases hhold : b.hold with
  | true =>
      cases b.holdDue t.holdCallDelta with
      | true => exact (Bool.or_true _).symm
      | false => exact (Bool.or_false _).symm
  | false =>
      rw [Bool.false_and, Bool.or_false]
      cases b.clicksDue delta <;> rfl

theorem handleInterruptChange_hold (level : Bool) (now : UInt32) (h : b.hold = true) :
    (b.handleInterruptChange level now).hold = true ↔
      (b.silenced now = false → b.lastInterruptState = false →
        ¬ b.resetInterval < now - b.lastImpulseTime) := by
  rw [Button.handleInterruptChange_eq]
  cases b.silenced now with
  | true => exact ⟨fun _ hnot => Bool.noConfusion hnot, fun _ => h⟩
  | false =>
      cases b.lastInterruptState with
      | true =>
          refine ⟨fun _ _ hnot => Bool.noConfusion hnot, fun _ => ?_⟩
          show (Button.handleFallingInterrupt _).hold = true
          rw [Button.handleFallingInterrupt, if_pos h]
          exact h
      | false =>
          show (Button.handleRisingInterrupt _ _).hold = true ↔ _
          rw [Button.handleRisingInterrupt, Button.startsOver]
          dsimp only
          rw [h, Bool.or_true, Bool.true_and]
          by_cases hlate : b.resetInterval < now - b.lastImpulseTime
          · rw [if_pos (decide_eq_true hlate)]
            exact ⟨fun hgone => Bool.noConfusion hgone, fun hnot => absurd hlate (hnot rfl rfl)⟩
          · rw [if_neg (fun hdecide => hlate (of_decide_eq_true hdecide))]
            exact ⟨fun _ _ _ => hlate, fun _ => rfl⟩

theorem handleInterruptChange_holdCalled (level : Bool) (now : UInt32) :
    (b.handleInterruptChange level now).holdCalled = b.holdCalled := by
  rw [Button.handleInterruptChange_eq]
  dsimp only
  split
  · rfl
  · split
    · rw [Button.handleFallingInterrupt]
      split <;> rfl
    · rw [Button.handleRisingInterrupt]
      split <;> rfl

end

/-! ## The invariant -/

def Inv (s : ButtonHold) : Prop :=
  s.button.holdCalled = true → s.button.hold = true ∧ s.notified = true

theorem Inv.belongs {s : ButtonHold} (h : Inv s) : s.Belongs := fun hcalled => (h hcalled).1

theorem Inv.updated {s : ButtonHold} (h : Inv s) (level : Bool) :
    (s.updated level).holdCalled = true → (s.updated level).hold = true ∧ s.known = true := by
  intro hcalled
  rw [ButtonHold.updated, updateHold_holdCalled, Bool.and_eq_true] at hcalled
  obtain ⟨hnoted, hstays⟩ := hcalled
  obtain ⟨hhold, hnotified⟩ := h hnoted
  rw [hhold, Bool.true_and, Bool.not_not] at hstays
  rw [ButtonHold.updated, Button.updateHold_hold, known, hhold, hnotified, hstays]
  exact ⟨rfl, rfl⟩

theorem Inv.step {s t : ButtonHold} {e : ButtonHoldEvent} (h : Inv s) (hkeeps : s.KeepsHold e)
    (ht : s.step e = some t) : Inv t := by
  cases e with
  | elapse millis =>
      cases ht
      exact h
  | interrupt level =>
      rw [ButtonHold.step] at ht
      split at ht
      · cases ht
        intro hcalled
        have hold : s.button.holdCalled = true :=
          (handleInterruptChange_holdCalled s.button level _).symm.trans hcalled
        obtain ⟨hhold, hnotified⟩ := h hold
        exact ⟨(handleInterruptChange_hold s.button level _ hhold).mpr (hkeeps hold), hnotified⟩
      · cases ht
  | poll level first second third =>
      cases ht
      intro hcalled
      have hreport : (((s.updated level).report (reading s.now - s.button.lastImpulseTime)
          (.taken s.now first second third)).2).holdCalled = true := hcalled
      rw [report_holdCalled, Bool.or_eq_true, Bool.and_eq_true] at hreport
      have hhold : (s.updated level).hold = true := by
        rcases hreport with hold | ⟨hhold, -⟩
        · exact (h.updated level hold).1
        · exact hhold
      refine ⟨(report_hold _ _ _).trans hhold, ?_⟩
      show (s.known || (s.updated level).holdDue _) = true
      rw [Bool.or_eq_true]
      rcases hreport with hold | ⟨-, hdue⟩
      · exact .inl (h.updated level hold).2
      · exact .inr hdue
  | begin level wakedUp =>
      cases ht
      have hsame : (s.button.begin level wakedUp (reading s.now)).hold = s.button.hold ∧
          (s.button.begin level wakedUp (reading s.now)).holdCalled = s.button.holdCalled := by
        rw [Button.begin]
        split <;> exact ⟨rfl, rfl⟩
      intro hcalled
      obtain ⟨hhold, hnotified⟩ := h (hsame.2.symm.trans hcalled)
      exact ⟨hsame.1.trans hhold, hnotified⟩
  | finish =>
      cases ht
      intro hcalled
      have hnot : s.button.holdCalled = false := hkeeps
      have hold : s.button.holdCalled = true := hcalled
      rw [hnot] at hold
      cases hold
  | set settings =>
      cases ht
      exact h

/-! ## The notes -/

theorem Inv.callsFirst {s : ButtonHold} (h : Inv s) (e : ButtonHoldEvent) : s.CallsFirst e := by
  cases e with
  | poll level first second third =>
      intro hhold hunknown hpassed hset
      have hnot : (s.updated level).holdCalled = false := by
        by_contra hcalled
        rw [Bool.not_eq_false] at hcalled
        rw [(h.updated level hcalled).2] at hunknown
        cases hunknown
      have hframe := s.button.frame_updateHold (s.button.read level)
        (reading s.now - s.button.lastImpulseTime)
      have hdue : (s.updated level).holdDue
          (ButtonReadings.taken s.now first second third).holdCallDelta = true := by
        rw [Button.holdDue, hnot]
        have hinterval : (s.updated level).holdCallInterval = s.button.holdCallInterval :=
          congrArg ButtonSettings.holdCallInterval hframe.settings
        have htime : (s.updated level).lastButtonHoldCallTime = s.button.lastButtonHoldCallTime :=
          updateHold_lastButtonHoldCallTime _ _ _
        rw [hinterval, htime]
        exact decide_eq_true hpassed
      have hhandler : (s.updated level).holdHandler = true :=
        (congrArg ButtonSettings.holdHandler hframe.settings).trans hset
      refine ⟨UInt8.ofNat (s.updated level).clickCount, List.mem_append_right _ ?_⟩
      show _ ∈ ((s.updated level).report _ (.taken s.now first second third)).1
      rw [Button.report, if_pos hhold, if_pos hdue, if_pos hhandler]
      exact List.mem_singleton.mpr rfl
  | elapse | interrupt | begin | finish | set => trivial

/-- **The note belongs to the current hold in every state of a run exactly where no hold that was
noted is cut short; and in such a run every hold gets its first call of the handler, whatever
`_hold_repeat` says.** -/
theorem belongs_iff_keepsHold (settings : ButtonSettings) (highState usedForWakeup : Bool)
    (now : ℕ) (es : List ButtonHoldEvent) :
    let s : ButtonHold :=
      { button := { toButtonSettings := settings, highState, usedForWakeup }, now }
    (Always step Belongs s es ↔ Each step KeepsHold s es) ∧
      (Each step KeepsHold s es → Each step CallsFirst s es) := by
  intro s
  have hstart : Inv s := nofun
  refine ⟨?_, ?_⟩
  · refine always_iff_each (fun _ h => Inv.belongs h) ?_ ?_ hstart
    · intro s e t h hkeeps ht
      exact h.step hkeeps ht
    · intro s e t h hnot ht hbelongs
      cases e with
      | interrupt level =>
          rw [ButtonHold.step] at ht
          split at ht
          · cases ht
            refine hnot ?_
            intro hcalled
            have hnow : (s.button.handleInterruptChange level (reading s.now)).holdCalled = true :=
              (handleInterruptChange_holdCalled s.button level _).trans hcalled
            exact (handleInterruptChange_hold s.button level _ (h hcalled).1).mp (hbelongs hnow)
          · cases ht
      | finish =>
          cases ht
          cases hcalled : s.button.holdCalled with
          | true => exact Bool.false_ne_true (hbelongs hcalled)
          | false => exact hnot hcalled
      | elapse | poll | begin | set => exact hnot trivial
  · exact Each.imp_of (I := Inv) (fun s e h _ => h.callsFirst e)
      (fun s e t h hkeeps ht => h.step hkeeps ht) hstart

/-- A hold is noted, its release and the next press are not polled, and the press comes later than
`_reset_interval`. -/
theorem note_left_behind :
    ¬ Always step Belongs
      { button := { holdRepeat := false, holdHandler := true }, now := 10000 }
      [.begin false false, .interrupt true, .elapse 600, .poll true 0 0 0, .elapse 600,
        .interrupt false, .elapse 2000, .interrupt true] := by
  intro h
  have hbelongs := always_iff_reached.mp h _ [] _ (List.append_nil _).symm rfl
  exact absurd (hbelongs (by decide)) (by decide)

end ButtonHold

end EspIot
