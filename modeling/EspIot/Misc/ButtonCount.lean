/-
# `EspIot.Misc.ButtonCount` — the clicks on their way

A click is added by a falling edge or by a hold that begins.  It leaves the counter when a
handler has got it, or when a rising edge starts over.  The count that a handler has got is
cleared some statements after the call:

    added + pending = passed + discarded + _click_count

where `pending` is what a handler has got and the counter still shows.  The clear takes away
what is there by then, so the balance is kept where the counter has not moved since the call.
-/
import EspIot.Lib.Clock
import EspIot.Lib.Run
import EspIot.Misc.ButtonSteps

namespace EspIot

open Lib

/-- The count that a handler has got and that is not cleared yet. -/
def ButtonStatement.pending : ButtonStatement → ℕ
  | inRelease _ passed | clearHold _ passed | clearCount _ passed => passed
  | inClick passed | clearClicks passed => passed
  | _ => 0

def ButtonStatement.adds : ButtonStatement → ℕ
  | addClick _ => 1
  | _ => 0

/-- What the handler has got, at the statement that clears the counter. -/
def ButtonStatement.clears : ButtonStatement → Option ℕ
  | clearCount _ passed | clearClicks passed => some passed
  | _ => none

/-- The clicks that a call takes out of the counter. -/
def ButtonCall.clicks : ButtonCall → ℕ
  | click count => count.toNat
  | hold _ => 0
  | holdRelease count => count.toNat

namespace Button

/-- The click of an edge that is taken for a falling one. -/
def addedByEdge (now : UInt32) (b : Button) : ℕ :=
  if !b.silenced now && b.lastInterruptState && !b.hold then 1 else 0

/-- The clicks that an edge that is taken for a rising one throws away. -/
def discardedByEdge (now : UInt32) (b : Button) : ℕ :=
  if !b.silenced now && !b.lastInterruptState && b.startsOver (now - b.lastImpulseTime) then
    b.clickCount
  else 0

theorem handleInterruptChange_clickCount (level : Bool) (now : UInt32) (b : Button) :
    (b.handleInterruptChange level now).clickCount + b.discardedByEdge now =
      b.clickCount + b.addedByEdge now := by
  rw [handleInterruptChange_eq, discardedByEdge, addedByEdge]
  cases b.silenced now with
  | true => rfl
  | false =>
      cases b.lastInterruptState with
      | true =>
          show (handleFallingInterrupt _).clickCount + 0 = _
          rw [handleFallingInterrupt]
          cases b.hold <;> simp
      | false =>
          show (handleRisingInterrupt _ _).clickCount + _ = b.clickCount + 0
          rw [handleRisingInterrupt]
          show (if b.startsOver _ then _ else _ : Button).clickCount + _ = _
          cases b.startsOver (now - b.lastImpulseTime) with
          | true => exact Nat.zero_add _
          | false => rfl

end Button

/-- A button, the statement of `handle()` that is next, and the clicks so far. -/
structure ButtonCount where
  button : Button
  statement : ButtonStatement := .idle
  now : ℕ := 0
  added : ℕ := 0
  passed : ℕ := 0
  discarded : ℕ := 0
deriving DecidableEq, Repr

/-- Time passes; an edge comes; `handle()` is called, and goes on by a statement; the setters are
called. -/
inductive ButtonCountEvent
  | elapse (millis : ℕ)
  | interrupt (level : Bool)
  | poll
  | execute (level : Bool)
  | set (settings : ButtonSettings)
deriving DecidableEq, Repr

namespace ButtonCount

def step (s : ButtonCount) : ButtonCountEvent → Option ButtonCount
  | .elapse millis => some { s with now := s.now + millis }
  | .interrupt level =>
      some { s with
        button := s.button.handleInterruptChange level (reading s.now)
        added := s.added + s.button.addedByEdge (reading s.now)
        discarded := s.discarded + s.button.discardedByEdge (reading s.now) }
  | .poll => if s.statement = .idle then some { s with statement := .delta } else none
  | .execute level =>
      let r := s.button.execute level (reading s.now) s.statement
      some { s with
        button := r.2.1
        statement := r.1
        added := s.added + s.statement.adds
        passed := s.passed + (r.2.2.map ButtonCall.clicks).sum }
  | .set settings => some { s with button := { s.button with toButtonSettings := settings } }

/-- `begin` has attached the interrupt; what it found at a wake-up is added. -/
def start (level wakedUp : Bool) (now : ℕ) (b : Button) : ButtonCount :=
  let b := b.begin level wakedUp (reading now)
  { button := b, now, added := b.clickCount }

def Accounted (s : ButtonCount) : Prop :=
  s.added + s.statement.pending = s.passed + s.discarded + s.button.clickCount

/-- **Outside `handle()` every click was passed, was discarded or is counted still.** -/
def Conserved (s : ButtonCount) : Prop :=
  s.statement = .idle → s.added = s.passed + s.discarded + s.button.clickCount

/-- Where the counter is cleared after a call, it shows what the handler has got. -/
def KeepsCount (s : ButtonCount) : ButtonCountEvent → Prop
  | .execute _ => ∀ passed, s.statement.clears = some passed → s.button.clickCount = passed
  | _ => True

theorem Accounted.conserved {s : ButtonCount} (h : Accounted s) : Conserved s := by
  intro hidle
  rw [Accounted, hidle] at h
  exact h

/-! ## The statements -/

theorem execute_counts {p : ButtonStatement} (h : p.clears = none) (level : Bool) (now : UInt32)
    (b : Button) :
    (b.execute level now p).2.1.clickCount + p.pending +
        ((b.execute level now p).2.2.map ButtonCall.clicks).sum =
      b.clickCount + p.adds + (b.execute level now p).1.pending := by
  cases p with
  | clearCount | clearClicks => cases h
  | callRelease delta =>
      rw [Button.execute]
      cases b.holdReleaseHandler with
      | true => rfl
      | false => rfl
  | callClick =>
      rw [Button.execute]
      cases b.clickHandler with
      | true => rfl
      | false => rfl
  | callHold =>
      rw [Button.execute]
      cases b.holdHandler with
      | true => rfl
      | false => rfl
  | holdTest | releaseTest | reportTest | holdCallTest | clickTest =>
      rw [Button.execute]
      split <;> rfl
  | _ => rfl

theorem execute_clears {p : ButtonStatement} {passed : ℕ} (h : p.clears = some passed)
    (level : Bool) (now : UInt32) (b : Button) :
    p.pending = passed ∧ p.adds = 0 ∧ (b.execute level now p).1.pending = 0 ∧
      (b.execute level now p).2.1.clickCount = 0 ∧ (b.execute level now p).2.2 = [] := by
  cases p with
  | clearCount | clearClicks =>
      cases h
      exact ⟨rfl, rfl, rfl, rfl, rfl⟩
  | _ => cases h

theorem Accounted.step {s t : ButtonCount} {e : ButtonCountEvent} (h : Accounted s)
    (ht : s.step e = some t) : Accounted t ↔ s.KeepsCount e := by
  rw [Accounted] at h
  cases e with
  | elapse | set =>
      cases ht
      exact ⟨fun _ => trivial, fun _ => h⟩
  | interrupt level =>
      cases ht
      have hedge := s.button.handleInterruptChange_clickCount level (reading s.now)
      refine ⟨fun _ => trivial, fun _ => ?_⟩
      rw [Accounted]
      dsimp only
      omega
  | poll =>
      rw [ButtonCount.step] at ht
      split at ht
      · next hidle =>
          cases ht
          rw [hidle] at h
          exact ⟨fun _ => trivial, fun _ => h⟩
      · cases ht
  | execute level =>
      cases ht
      rw [Accounted, KeepsCount]
      dsimp only
      cases hclears : s.statement.clears with
      | none =>
          have hcounts := execute_counts hclears level (reading s.now) s.button
          refine ⟨fun _ => nofun, fun _ => ?_⟩
          omega
      | some passed =>
          obtain ⟨hpending, hadds, hdone, hcount, hcalls⟩ :=
            execute_clears hclears level (reading s.now) s.button
          rw [hpending] at h
          rw [hadds, hdone, hcount, hcalls]
          constructor
          · intro hbalance passed' hpassed
            cases hpassed
            have hsum : s.added + 0 + 0 = s.passed + 0 + s.discarded + 0 := hbalance
            omega
          · intro hkeeps
            have hcleared := hkeeps passed rfl
            show s.added + 0 + 0 = s.passed + 0 + s.discarded + 0
            omega

/-! ## The clicks -/

/-- **In a run in which the counter has not moved between a call and its clear, no click is lost
or reported twice; and the balance is kept in no other run.** -/
theorem conserved_of_keepsCount (level wakedUp : Bool) (now : ℕ) (b : Button)
    (es : List ButtonCountEvent) :
    (Each step KeepsCount (start level wakedUp now b) es →
        Always step Conserved (start level wakedUp now b) es) ∧
      (Always step Accounted (start level wakedUp now b) es ↔
        Each step KeepsCount (start level wakedUp now b) es) := by
  have hstart : Accounted (start level wakedUp now b) := by
    show (start level wakedUp now b).added + 0 = 0 + 0 + (start level wakedUp now b).added
    omega
  refine ⟨?_, ?_⟩
  · exact Always.of_each (fun _ h => Accounted.conserved h)
      (fun s e t h hkeeps ht => (h.step ht).mpr hkeeps) hstart
  · refine always_iff_each (fun _ h => h) ?_ ?_ hstart
    · intro s e t h hkeeps ht
      exact (h.step ht).mpr hkeeps
    · intro s e t h hnot ht hbalance
      exact hnot ((h.step ht).mp hbalance)

/-- The second click comes while the handler runs that has got the first. -/
theorem click_lost_in_handler :
    ¬ Always step Conserved
      (start false false 10000 { clickHandler := true, holdReleaseHandler := true })
      ([.interrupt true, .elapse 100, .interrupt false, .elapse 600, .poll] ++
        List.replicate 10 (.execute false) ++
        [.interrupt true, .elapse 100, .interrupt false] ++
        List.replicate 3 (.execute false)) := by
  intro h
  have hconserved := always_iff_reached.mp h _ [] _ (List.append_nil _).symm rfl
  exact absurd (hconserved (by decide)) (by decide)

end ButtonCount

end EspIot
