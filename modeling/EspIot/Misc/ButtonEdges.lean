/-
# `EspIot.Misc.ButtonEdges` — whether the button knows which edge is next

`_last_interrupt_state` is what the interrupt handler takes the button for, and a reading
equal to it is turned around.  So it has to be what the button shows between two edges:
each edge moves it, `begin` reads it, and `handle()` writes it in two branches.

The branch of a released hold has just read the button.  The branch that reports clicks has
not looked: it runs as soon as nothing has happened for `_press_wait_interval`, and a press
that is younger than `_hold_interval` does not keep it from running.
-/
import EspIot.Lib.Clock
import EspIot.Lib.Run
import EspIot.Misc.Button

namespace EspIot

open Lib

/-- A button on its pin.  `impulseAt` is when `_last_impulse_time` was read, `edgeAt` when the
level last changed or the chip was woken up. -/
structure ButtonEdges where
  button : Button
  level : Bool
  now : ℕ := 0
  attached : Bool := false
  impulseAt : ℕ := 0
  edgeAt : ℕ := 0
deriving DecidableEq, Repr

/-- Time passes; the level changes; `handle()` is called, with the time between its readings of
the clock; `begin`, `end` and the setters are called. -/
inductive ButtonEdgesEvent
  | elapse (millis : ℕ)
  | edge
  | poll (first second third : ℕ)
  | begin (wakedUp : Bool)
  | finish
  | set (settings : ButtonSettings)
deriving DecidableEq, Repr

namespace ButtonEdges

/-- A change of the level, no sooner after the last than `_silence_interval`. -/
def edge (s : ButtonEdges) : Option ButtonEdges :=
  if s.edgeAt + s.button.silenceInterval.toNat ≤ s.now then
    let s := { s with level := !s.level, edgeAt := s.now }
    if s.attached then
      some { s with
        button := s.button.handleInterruptChange s.level (reading s.now)
        impulseAt := s.now }
    else some s
  else none

/-- `begin`, which takes the time of the wake-up where it counts a click. -/
def begin (wakedUp : Bool) (s : ButtonEdges) : ButtonEdges :=
  let s' := { s with button := s.button.begin s.level wakedUp (reading s.now), attached := true }
  if s.button.usedForWakeup && !s.button.read s.level && wakedUp then
    { s' with impulseAt := s.now, edgeAt := s.now }
  else s'

def step (s : ButtonEdges) : ButtonEdgesEvent → Option ButtonEdges
  | .elapse millis => some { s with now := s.now + millis }
  | .edge => s.edge
  | .poll first second third =>
      some { s with
        button := (s.button.handle s.level (.taken s.now first second third)).2
        now := s.now + first + second + third }
  | .begin wakedUp => some (s.begin wakedUp)
  | .finish => some { s with button := s.button.finish, attached := false }
  | .set settings => some { s with button := { s.button with toButtonSettings := settings } }

/-- **The interrupt handler takes the button for what it shows.** -/
def Polarity (s : ButtonEdges) : Prop :=
  s.attached = true → s.button.lastInterruptState = s.button.read s.level

/-- Clicks are reported while the button is pressed: the press is older than
`_press_wait_interval` and younger than `_hold_interval`. -/
def reportsPressed (level : Bool) (delta : UInt32) (b : Button) : Bool :=
  b.read level && !b.hold && delta < b.holdInterval && b.clicksDue delta

/-- No clicks are reported while the button is pressed, and no edge follows the last impulse so
late that the clock, which has wrapped around, shows less than `_silence_interval`. -/
def KeepsPolarity (s : ButtonEdges) : ButtonEdgesEvent → Prop
  | .poll _ _ _ => s.attached = true →
      reportsPressed s.level (reading s.now - s.button.lastImpulseTime) s.button = false
  | .edge => s.attached = true →
      s.button.silenceInterval.toNat ≤ (s.now - s.impulseAt) % 2 ^ 32
  | _ => True

/-! ## One poll, one edge -/

theorem report_lastInterruptState (b : Button) (delta : UInt32) (t : ButtonReadings) :
    (b.report delta t).2.lastInterruptState =
      if !b.hold && b.clicksDue delta then false else b.lastInterruptState := by
  rw [Button.report]
  cases b.hold with
  | true => cases b.holdDue t.holdCallDelta <;> rfl
  | false => cases b.clicksDue delta <;> rfl

theorem handle_lastInterruptState (b : Button) (level : Bool) (t : ButtonReadings)
    (h : b.lastInterruptState = b.read level) :
    (b.handle level t).2.lastInterruptState =
      (b.read level && !reportsPressed level (t.delta - b.lastImpulseTime) b) := by
  rw [Button.handle, reportsPressed, report_lastInterruptState]
  generalize b.read level = state at h ⊢
  generalize t.delta - b.lastImpulseTime = delta
  have hhold := b.updateHold_hold state delta
  cases state with
  | false =>
      -- whatever is written is what was read
      have hupdate : (b.updateHold false delta).2.lastInterruptState = false := by
        rw [Button.updateHold]
        split
        · exact h
        · split
          · rfl
          · exact h
      rw [hupdate]
      split <;> rfl
  | true =>
      have hupdate : (b.updateHold true delta).2.lastInterruptState = true := by
        rw [Button.updateHold]
        split
        · exact h
        · split
          · rename_i hrelease
            rw [Bool.not_true, Bool.and_false] at hrelease
            cases hrelease
          · exact h
      rw [hupdate, hhold]
      cases hheld : b.hold with
      | true => rfl
      | false =>
          by_cases hlong : b.holdInterval ≤ delta
          · have hyoung : decide (delta < b.holdInterval) = false :=
              decide_eq_false (UInt32.not_lt.mpr hlong)
            rw [hyoung, decide_eq_true hlong]
            rfl
          · have hyoung : decide (delta < b.holdInterval) = true :=
              decide_eq_true (UInt32.not_le.mp hlong)
            have hsame : (b.updateHold true delta).2 = b := by
              rw [Button.updateHold, hheld, decide_eq_false hlong]
              rfl
            rw [hyoung, decide_eq_false hlong, hsame]
            cases b.clicksDue delta <;> rfl

theorem handleInterruptChange_lastInterruptState (b : Button) (level : Bool) (now : UInt32)
    (h : b.lastInterruptState = b.read (!level)) :
    (b.handleInterruptChange level now).lastInterruptState =
      if b.silenced now then b.read (!level) else b.read level := by
  have hne : b.read level ≠ b.lastInterruptState := by
    rw [h, Button.read_not]
    exact Bool.self_ne_not _
  rw [Button.handleInterruptChange]
  split
  · exact h
  · dsimp only
    cases b.read level with
    | true =>
        show (Button.handleRisingInterrupt _ _).lastInterruptState = true
        rw [Button.handleRisingInterrupt]
        split <;> rfl
    | false =>
        show (Button.handleFallingInterrupt _).lastInterruptState = false
        rw [Button.handleFallingInterrupt]
        split <;> rfl

/-! ## The invariant -/

/-- The time of the last impulse is what the button has noted, and no edge came before it. -/
structure Inv (s : ButtonEdges) : Prop where
  impulse : s.button.lastImpulseTime = reading s.impulseAt
  edges : s.impulseAt ≤ s.edgeAt ∧ s.edgeAt ≤ s.now
  polarity : s.Polarity

/-- The clock wraps around between the last impulse and this edge, or it shows the time between. -/
theorem Inv.silenced {s : ButtonEdges} (h : Inv s) :
    s.button.silenced (reading s.now) = true ↔
      ¬ s.button.silenceInterval.toNat ≤ (s.now - s.impulseAt) % 2 ^ 32 := by
  rw [Button.silenced, decide_eq_true_iff, h.impulse, UInt32.lt_iff_toNat_lt,
    reading_sub (Nat.le_trans h.edges.1 h.edges.2), Nat.not_le]

theorem step_edge {s t : ButtonEdges} (ht : s.step .edge = some t) :
    (s.attached = true ∧
        t = { s with
          level := !s.level
          edgeAt := s.now
          button := s.button.handleInterruptChange (!s.level) (reading s.now)
          impulseAt := s.now }) ∨
      ¬ s.attached = true ∧ t = { s with level := !s.level, edgeAt := s.now } := by
  rw [ButtonEdges.step, edge] at ht
  dsimp only at ht
  split at ht
  · split at ht
    · rename_i hattached
      cases ht
      exact .inl ⟨hattached, rfl⟩
    · rename_i hdetached
      cases ht
      exact .inr ⟨hdetached, rfl⟩
  · cases ht

theorem Inv.edge_polarity {s : ButtonEdges} (h : Inv s) (hattached : s.attached = true) :
    (s.button.handleInterruptChange (!s.level) (reading s.now)).lastInterruptState =
        (s.button.handleInterruptChange (!s.level) (reading s.now)).read (!s.level) ↔
      s.button.silenceInterval.toNat ≤ (s.now - s.impulseAt) % 2 ^ 32 := by
  have hread := (s.button.frame_handleInterruptChange (!s.level) (reading s.now)).read (!s.level)
  have hlevel : s.button.lastInterruptState = s.button.read (!!s.level) := by
    rw [Bool.not_not]
    exact h.polarity hattached
  rw [hread, handleInterruptChange_lastInterruptState _ _ _ hlevel]
  have hne : s.button.read (!!s.level) ≠ s.button.read (!s.level) := by
    rw [Bool.not_not, Button.read_not]
    exact Bool.self_ne_not _
  cases hsilenced : s.button.silenced (reading s.now) with
  | true =>
      rw [if_pos rfl]
      exact ⟨fun heq => absurd heq hne, fun hle => absurd hle (h.silenced.mp hsilenced)⟩
  | false =>
      rw [if_neg Bool.false_ne_true]
      refine ⟨?_, fun _ => rfl⟩
      intro _
      by_contra hnot
      rw [h.silenced.mpr hnot] at hsilenced
      cases hsilenced

theorem Inv.poll_polarity {s : ButtonEdges} (h : Inv s) (hattached : s.attached = true)
    (t : ButtonReadings) :
    (s.button.handle s.level t).2.lastInterruptState =
        (s.button.handle s.level t).2.read s.level ↔
      reportsPressed s.level (t.delta - s.button.lastImpulseTime) s.button = false := by
  rw [(s.button.frame_handle s.level t).read, handle_lastInterruptState _ _ _
    (h.polarity hattached)]
  have hpressed : reportsPressed s.level (t.delta - s.button.lastImpulseTime) s.button = true →
      s.button.read s.level = true := by
    intro hreports
    rw [reportsPressed, Bool.and_assoc, Bool.and_assoc] at hreports
    exact (Bool.and_eq_true_iff.mp hreports).1
  cases hreports : reportsPressed s.level (t.delta - s.button.lastImpulseTime) s.button with
  | true =>
      rw [hpressed hreports]
      exact ⟨nofun, nofun⟩
  | false =>
      rw [Bool.not_false, Bool.and_true]
      exact ⟨fun _ => rfl, fun _ => rfl⟩

theorem Inv.step {s t : ButtonEdges} {e : ButtonEdgesEvent} (h : Inv s) (hkeeps : s.KeepsPolarity e)
    (ht : s.step e = some t) : Inv t := by
  obtain ⟨himpulse, ⟨hedge, hnow⟩, hpolarity⟩ := h
  cases e with
  | elapse millis =>
      cases ht
      exact ⟨himpulse, ⟨hedge, Nat.le_add_right_of_le hnow⟩, hpolarity⟩
  | edge =>
      rcases step_edge ht with ⟨hattached, rfl⟩ | ⟨hdetached, rfl⟩
      · refine ⟨?_, ⟨Nat.le_refl _, Nat.le_refl _⟩, ?_⟩
        · exact (s.button.frame_handleInterruptChange _ _).lastImpulseTime
        · intro _
          exact (Inv.edge_polarity ⟨himpulse, ⟨hedge, hnow⟩, hpolarity⟩ hattached).mpr
            (hkeeps hattached)
      · refine ⟨himpulse, ⟨Nat.le_trans hedge hnow, Nat.le_refl _⟩, ?_⟩
        intro hattached
        exact absurd hattached hdetached
  | poll first second third =>
      cases ht
      have hframe := s.button.frame_handle s.level (.taken s.now first second third)
      refine ⟨hframe.lastImpulseTime.trans himpulse, ⟨hedge, ?_⟩, ?_⟩
      · show s.edgeAt ≤ s.now + first + second + third
        omega
      · intro hattached
        exact (Inv.poll_polarity ⟨himpulse, ⟨hedge, hnow⟩, hpolarity⟩ hattached _).mpr
          (hkeeps hattached)
  | begin wakedUp =>
      cases ht
      rw [ButtonEdges.begin, Button.begin]
      split
      · exact ⟨rfl, ⟨Nat.le_refl _, Nat.le_refl _⟩, fun _ => rfl⟩
      · exact ⟨himpulse, ⟨hedge, hnow⟩, fun _ => rfl⟩
  | finish =>
      cases ht
      exact ⟨himpulse, ⟨hedge, hnow⟩, nofun⟩
  | set settings =>
      cases ht
      exact ⟨himpulse, ⟨hedge, hnow⟩, hpolarity⟩

/-! ## The polarity -/

/-- A button that has just been made, on its pin. -/
def start (settings : ButtonSettings) (highState usedForWakeup level : Bool) (now : ℕ) :
    ButtonEdges where
  button := { toButtonSettings := settings, highState, usedForWakeup }
  level
  now

/-- **The polarity is right in every state of a run exactly where `handle()` never reports clicks
while the button is pressed and no edge meets a clock that has wrapped around.** -/
theorem polarity_iff_keepsPolarity (settings : ButtonSettings)
    (highState usedForWakeup level : Bool) (now : ℕ) (es : List ButtonEdgesEvent) :
    Always step Polarity (start settings highState usedForWakeup level now) es ↔
      Each step KeepsPolarity (start settings highState usedForWakeup level now) es := by
  refine always_iff_each (fun _ h => Inv.polarity h) ?_ ?_
    ⟨rfl, ⟨Nat.le_refl _, Nat.zero_le _⟩, nofun⟩
  · intro s e t h hkeeps ht
    exact h.step hkeeps ht
  · intro s e t h hnot ht hpolarity
    cases e with
    | edge =>
        rcases step_edge ht with ⟨hattached, rfl⟩ | ⟨hdetached, rfl⟩
        · exact hnot fun _ => (h.edge_polarity hattached).mp (hpolarity hattached)
        · exact hnot fun hattached => absurd hattached hdetached
    | poll first second third =>
        cases ht
        have hkeeps : s.KeepsPolarity (.poll first second third) := by
          intro hattached
          exact (h.poll_polarity hattached (.taken s.now first second third)).mp
            (hpolarity hattached)
        exact hnot hkeeps
    | elapse | begin | finish | set => exact hnot trivial

/-- A double click whose second press is held: the first click is reported 300 ms into the press,
because the press may last 500 ms before it is a hold and 200 ms of silence are enough. -/
theorem second_press_inverted :
    ¬ Always step Polarity
      (start { pressWaitInterval := 200, clickHandler := true } true false false 1000)
      [.begin false, .edge, .elapse 50, .edge, .elapse 100, .edge, .elapse 300, .poll 0 0 0] := by
  intro h
  have hpolarity := always_iff_reached.mp h _ [] _ (List.append_nil _).symm rfl
  exact absurd (hpolarity (by decide)) (by decide)

end ButtonEdges

end EspIot
