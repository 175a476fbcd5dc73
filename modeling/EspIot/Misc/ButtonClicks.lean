/-
# `EspIot.Misc.ButtonClicks` — n presses are reported once, as n

What the user does is a level that changes; what the button is for is to say how often it was
pressed.  `ButtonClicks` counts the presses as they are and reports them as it should: at the
first poll of a released button that comes more than `_press_wait_interval` after the last edge.

    edge    a press that ends is one more
    poll    released, and silent for long enough: the presses are reported

The button itself goes by an edge flag, a silence filter and a clock that wraps around.
`clicks_reported` says that the handler gets the same reports, where the polls never see a press
long enough for a hold, or waiting clicks, and no pause is long enough to start over.
-/
import EspIot.Misc.ButtonEdges

namespace EspIot

open Lib

/-- A button with the calls of its handlers, the presses that have ended since the last report,
and the reports there should be. -/
structure ButtonClicks where
  edges : ButtonEdges
  calls : List ButtonCall := []
  presses : ℕ := 0
  reports : List ℕ := []
deriving DecidableEq, Repr

/-- Time passes, the level changes, or `handle()` is called. -/
inductive ButtonClicksEvent
  | elapse (millis : ℕ)
  | edge
  | poll (first second third : ℕ)
deriving DecidableEq, Repr

namespace ButtonClicks

def pressed (s : ButtonClicks) : Bool := s.edges.button.read s.edges.level

def silence (s : ButtonClicks) : ℕ := s.edges.now - s.edges.edgeAt

def due (s : ButtonClicks) : Bool :=
  !s.pressed && s.presses ≠ 0 && s.edges.button.pressWaitInterval.toNat < s.silence

def edge (s : ButtonClicks) : Option ButtonClicks :=
  (s.edges.step .edge).map fun edges =>
    { s with edges, presses := if s.pressed then s.presses + 1 else s.presses }

/-- `handle()`, and what it should report. -/
def poll (first second third : ℕ) (s : ButtonClicks) : Option ButtonClicks :=
  (s.edges.step (.poll first second third)).map fun edges =>
    { edges
      calls := s.calls ++ (s.edges.button.handle s.edges.level
        (.taken s.edges.now first second third)).1
      presses := if s.due then 0 else s.presses
      reports := if s.due then s.reports ++ [s.presses] else s.reports }

def step (s : ButtonClicks) : ButtonClicksEvent → Option ButtonClicks
  | .elapse millis => (s.edges.step (.elapse millis)).map fun edges => { s with edges }
  | .edge => s.edge
  | .poll first second third => s.poll first second third

/-- A button on its pin, after `begin`. -/
def start (settings : ButtonSettings) (highState level : Bool) (now : ℕ) : ButtonClicks where
  edges := (ButtonEdges.start settings highState false level now).begin false

/-- What the button is made for: the polls see presses that are younger than a hold and, with
presses waiting, than a report; they come before the clock has wrapped around; and no edge finds
the clock where it would be taken for noise, or for the start of something new. -/
def Timely (s : ButtonClicks) : ButtonClicksEvent → Prop
  | .elapse _ => True
  | .edge =>
      s.edges.button.silenceInterval.toNat ≤ s.silence % 2 ^ 32 ∧
        (s.pressed = false → s.presses ≠ 0 →
          s.silence % 2 ^ 32 ≤ s.edges.button.resetInterval.toNat)
  | .poll _ _ _ =>
      (s.pressed = true → s.silence < s.edges.button.holdInterval.toNat ∧
        (s.presses ≠ 0 → s.silence ≤ s.edges.button.pressWaitInterval.toNat)) ∧
      (s.presses ≠ 0 → s.silence < 2 ^ 32)

instance (s : ButtonClicks) : (e : ButtonClicksEvent) → Decidable (s.Timely e)
  | .elapse _ => inferInstanceAs (Decidable True)
  | .edge => inferInstanceAs (Decidable (_ ∧ _))
  | .poll _ _ _ => inferInstanceAs (Decidable (_ ∧ _))

/-! ## The invariant -/

/-- The button has counted the presses, and its handler has got the reports. -/
structure Inv (s : ButtonClicks) : Prop where
  edges : s.edges.Inv
  attached : s.edges.attached = true
  impulse : s.edges.impulseAt = s.edges.edgeAt
  hold : s.edges.button.hold = false
  count : s.edges.button.clickCount = s.presses
  handler : s.edges.button.clickHandler = true
  calls : s.calls = s.reports.map fun n => ButtonCall.click (UInt8.ofNat n)

variable {s s' : ButtonClicks}

theorem Inv.delta (h : Inv s) :
    (reading s.edges.now - s.edges.button.lastImpulseTime).toNat = s.silence % 2 ^ 32 := by
  have hle : s.edges.impulseAt ≤ s.edges.now := Nat.le_trans h.edges.edges.1 h.edges.edges.2
  rw [h.edges.impulse, reading_sub hle, h.impulse]
  rfl

theorem start_inv (settings : ButtonSettings) (highState level : Bool) (now : ℕ)
    (h : settings.clickHandler = true) : Inv (start settings highState level now) where
  edges := by
    have hinit : (ButtonEdges.start settings highState false level now).Inv :=
      ⟨rfl, ⟨Nat.le_refl _, Nat.zero_le _⟩, nofun⟩
    exact hinit.step (e := .begin false) trivial rfl
  attached := rfl
  impulse := rfl
  hold := rfl
  count := rfl
  handler := h
  calls := rfl

/-! ## Edges -/

theorem handleInterruptChange_presses {b : Button} {level : Bool} {now : UInt32}
    (hhold : b.hold = false) (hsilenced : b.silenced now = false)
    (hpolarity : b.lastInterruptState = b.read level)
    (hreset : b.read level = false → b.clickCount ≠ 0 → now - b.lastImpulseTime ≤ b.resetInterval) :
    (b.handleInterruptChange (!level) now).hold = false ∧
      (b.handleInterruptChange (!level) now).clickCount =
        if b.read level then b.clickCount + 1 else b.clickCount := by
  rw [Button.handleInterruptChange_eq]
  dsimp only
  rw [if_neg (by rw [hsilenced]; exact Bool.false_ne_true), hpolarity]
  cases hpressed : b.read level with
  | true =>
      rw [if_pos rfl, if_pos rfl, Button.handleFallingInterrupt, if_neg (by simp [hhold])]
      exact ⟨hhold, rfl⟩
  | false =>
      rw [if_neg Bool.false_ne_true, if_neg Bool.false_ne_true, Button.handleRisingInterrupt,
        if_neg ?_]
      · exact ⟨hhold, rfl⟩
      · intro hstarts
        rw [Button.startsOver, Bool.and_eq_true, decide_eq_true_iff, hhold, Bool.or_false,
          decide_eq_true_iff] at hstarts
        exact absurd (hreset hpressed hstarts.1) (UInt32.not_le.mpr hstarts.2)

theorem Inv.edge (h : Inv s) (ht : s.Timely .edge) (hs : s.step .edge = some s') : Inv s' := by
  obtain ⟨edges, hedge, rfl⟩ := Option.map_eq_some_iff.mp hs
  have hkeeps : s.edges.KeepsPolarity .edge := by
    intro _
    rw [h.impulse]
    exact ht.1
  have hinv := h.edges.step hkeeps hedge
  rcases ButtonEdges.step_edge hedge with ⟨-, rfl⟩ | ⟨hdetached, -⟩
  · have hsilenced : s.edges.button.silenced (reading s.edges.now) = false := by
      refine Bool.eq_false_iff.mpr fun hsilenced => ?_
      exact h.edges.silenced.mp hsilenced (hkeeps h.attached)
    have hreset : s.edges.button.read s.edges.level = false → s.edges.button.clickCount ≠ 0 →
        reading s.edges.now - s.edges.button.lastImpulseTime ≤ s.edges.button.resetInterval := by
      intro hreleased hne
      rw [UInt32.le_iff_toNat_le, h.delta]
      exact ht.2 hreleased (h.count ▸ hne)
    obtain ⟨hhold, hcount⟩ := handleInterruptChange_presses h.hold hsilenced
      (h.edges.polarity h.attached) hreset
    have hframe := s.edges.button.frame_handleInterruptChange (!s.edges.level)
      (reading s.edges.now)
    refine ⟨hinv, h.attached, rfl, hhold, hcount.trans ?_, ?_, h.calls⟩
    · rw [h.count]
      rfl
    · exact (congrArg ButtonSettings.clickHandler hframe.settings).trans h.handler
  · exact absurd h.attached hdetached

/-! ## Polls -/

theorem Inv.clicksDue (h : Inv s) {first second third : ℕ}
    (ht : s.Timely (.poll first second third)) :
    s.edges.button.clicksDue (reading s.edges.now - s.edges.button.lastImpulseTime) = s.due := by
  rw [Button.clicksDue, due, h.count]
  by_cases hnone : s.presses = 0
  · simp [hnone]
  · have hdelta : (s.edges.button.pressWaitInterval <
        reading s.edges.now - s.edges.button.lastImpulseTime) ↔
        s.edges.button.pressWaitInterval.toNat < s.silence := by
      rw [UInt32.lt_iff_toNat_lt, h.delta, Nat.mod_eq_of_lt (ht.2 hnone)]
    rw [decide_eq_decide.mpr hdelta]
    cases hpressed : s.pressed with
    | false => rfl
    | true =>
        have hyoung : ¬ s.edges.button.pressWaitInterval.toNat < s.silence :=
          Nat.not_lt.mpr ((ht.1 hpressed).2 hnone)
        simp [hyoung]

theorem Inv.updateHold (h : Inv s) {first second third : ℕ}
    (ht : s.Timely (.poll first second third)) :
    s.edges.button.updateHold (s.edges.button.read s.edges.level)
      (reading s.edges.now - s.edges.button.lastImpulseTime) = ([], s.edges.button) := by
  rw [Button.updateHold, h.hold]
  cases hpressed : s.edges.button.read s.edges.level with
  | false => rfl
  | true =>
      have hyoung : ¬ s.edges.button.holdInterval ≤
          reading s.edges.now - s.edges.button.lastImpulseTime := by
        rw [UInt32.le_iff_toNat_le, h.delta, Nat.not_le]
        exact Nat.lt_of_le_of_lt (Nat.mod_le ..) (ht.1 hpressed).1
      simp [hyoung]

section Report
variable {b : Button} {delta : UInt32} {t : ButtonReadings}

theorem report_due (hhold : b.hold = false) (hdue : b.clicksDue delta = true)
    (hhandler : b.clickHandler = true) :
    b.report delta t = ([.click (UInt8.ofNat b.clickCount)],
      { b with
        lastState := { hold := false, clickCount := UInt8.ofNat b.clickCount,
                       timestamp := t.timestamp }
        clickCount := 0
        lastInterruptState := false }) := by
  rw [Button.report, if_neg (by simp [hhold]), if_pos hdue, if_pos hhandler]

theorem report_idle (hhold : b.hold = false) (hdue : b.clicksDue delta = false) :
    b.report delta t = ([], b) := by
  rw [Button.report, if_neg (by simp [hhold]), if_neg (by simp [hdue])]

end Report

theorem Inv.poll (h : Inv s) {first second third : ℕ} (ht : s.Timely (.poll first second third))
    (hs : s.step (.poll first second third) = some s') : Inv s' := by
  rw [ButtonClicks.step, ButtonClicks.poll] at hs
  obtain ⟨edges, hpoll, rfl⟩ := Option.map_eq_some_iff.mp hs
  have hdue := h.clicksDue ht
  have hkeeps : s.edges.KeepsPolarity (.poll first second third) := by
    intro _
    rw [ButtonEdges.reportsPressed, hdue, due, ← pressed]
    cases s.pressed <;> simp
  have hinv := h.edges.step hkeeps hpoll
  cases hpoll
  have hhandle : s.edges.button.handle s.edges.level (.taken s.edges.now first second third) =
      s.edges.button.report (reading s.edges.now - s.edges.button.lastImpulseTime)
        (.taken s.edges.now first second third) := by
    rw [Button.handle]
    show (_ ++ _, _) = _
    rw [show (ButtonReadings.taken s.edges.now first second third).delta =
      reading s.edges.now from rfl, h.updateHold ht]
    rfl
  have hframe := s.edges.button.frame_handle s.edges.level
    (.taken s.edges.now first second third)
  have hhandler := (congrArg ButtonSettings.clickHandler hframe.settings).trans h.handler
  rw [hhandle] at hinv hhandler
  rw [hhandle]
  cases hnow : s.due with
  | true =>
      rw [hnow] at hdue
      rw [report_due h.hold hdue h.handler] at hinv hhandler ⊢
      refine ⟨hinv, h.attached, h.impulse, h.hold, rfl, hhandler, ?_⟩
      show s.calls ++ _ = List.map _ (s.reports ++ [s.presses])
      rw [List.map_append, h.calls, h.count]
      rfl
  | false =>
      rw [hnow] at hdue
      rw [report_idle h.hold hdue] at hinv hhandler ⊢
      refine ⟨hinv, h.attached, h.impulse, h.hold, h.count, hhandler, ?_⟩
      show s.calls ++ [] = _
      rw [List.append_nil]
      exact h.calls

theorem Inv.step {e : ButtonClicksEvent} (h : Inv s) (ht : s.Timely e)
    (hs : s.step e = some s') : Inv s' := by
  cases e with
  | elapse millis =>
      rw [ButtonClicks.step] at hs
      obtain ⟨edges, helapse, rfl⟩ := Option.map_eq_some_iff.mp hs
      have hinv := h.edges.step (e := .elapse millis) trivial helapse
      cases helapse
      exact ⟨hinv, h.attached, h.impulse, h.hold, h.count, h.handler, h.calls⟩
  | edge => exact h.edge ht hs
  | poll first second third => exact h.poll ht hs

/-- **Presses are reported once, together, and as many as they were.**  Over any presses and polls
that are timely, at any moment the calls of the click handler are, in order, the reports there
should be: one for each pause that a poll has found longer than `_press_wait_interval`, with the
presses that have ended since the one before; and nothing else is called. -/
theorem clicks_reported (settings : ButtonSettings) (highState level : Bool) (now : ℕ)
    (hhandler : settings.clickHandler = true) (es : List ButtonClicksEvent)
    (hes : Each ButtonClicks.step Timely (start settings highState level now) es)
    (hs : Lib.run ButtonClicks.step (start settings highState level now) es = some s) :
    s.calls = s.reports.map fun n => ButtonCall.click (UInt8.ofNat n) :=
  (run_each_invariant (fun _ _ _ h ht hstep => Inv.step h ht hstep)
    (start_inv settings highState level now hhandler) hes hs).calls

/-- A double click, 12 days after the button was made, and polls every 100 ms. -/
theorem clicks_reported_double :
    ∃ s, Lib.run ButtonClicks.step (start { clickHandler := true } true false 1036800000)
        [.edge, .elapse 100, .poll 0 0 0, .edge, .elapse 100, .poll 0 0 0, .edge, .elapse 100,
          .poll 0 0 0, .edge, .elapse 500, .poll 0 0 0, .elapse 1, .poll 0 1 2, .poll 0 0 0] =
          some s ∧
      s.calls = [.click 2] :=
  ⟨_, rfl, clicks_reported { clickHandler := true } true false 1036800000 rfl
    [.edge, .elapse 100, .poll 0 0 0, .edge, .elapse 100, .poll 0 0 0, .edge, .elapse 100,
      .poll 0 0 0, .edge, .elapse 500, .poll 0 0 0, .elapse 1, .poll 0 1 2, .poll 0 0 0]
    (by decide) rfl⟩

end ButtonClicks

end EspIot
