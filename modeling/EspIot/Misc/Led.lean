/-
# `EspIot.Misc.Led` — an LED that flashes and blinks

Which of its modes the LED is in stands in four fields:

    _active  _blink_count  _blink_count_left  _continuously
    false    any           any                any             off
    true     0             0                  false           a flash
    true     n > 0         1 … n              any             a series, so many blinks left
    true     n > 0         0                  true            the pause between two series

`tick` looks at `_blink_count_left` first, then at the pause; what is neither is a flash.  So
a row that is missing here, a series that does not repeat and has no blink left, is a flash
for it, one that nothing ends.  Two calls of `blink` make it: with no blinks while the LED is
off, and one that makes a pause the end of its series.
-/
import EspIot.Lib.Clock
import EspIot.Lib.Run
import Mathlib.Data.UInt

namespace EspIot

open Lib

structure LedSettings where
  maxBrightness : UInt16 := 0xff
  brightness : UInt16 := 0xff
  blinkActiveDuration : UInt32 := 60
  blinkWaitDuration : UInt32 := 140
  blinkRepeatInterval : UInt32 := 3000
deriving DecidableEq, Repr

inductive LedWrite
  | pinMode (pin : UInt8)
  | analog (pin : UInt8) (value : UInt16)
  | digital (pin : UInt8) (high : Bool)
deriving DecidableEq, Repr

/-- `Led`, with what has been written to its pin. -/
structure Led extends LedSettings where
  pin : UInt8
  active : Bool := false
  continuously : Bool := false
  blinkCount : UInt8 := 0
  blinkCountLeft : UInt8 := 0
  flashDuration : UInt32 := 0
  startTime : UInt32 := 0
  initialized : Bool := false
  writes : List LedWrite := []
deriving DecidableEq, Repr

namespace Led

def begin (l : Led) : Led :=
  { l with writes := l.writes ++ [.pinMode l.pin], initialized := true }

def refreshLed (active : Bool) (l : Led) : Led :=
  if l.initialized = false then l
  else if l.brightness < l.maxBrightness then
    { l with writes := l.writes ++ [.analog l.pin (if active then l.brightness else 0)] }
  else { l with writes := l.writes ++ [.digital l.pin active] }

def flash (duration now : UInt32) (l : Led) : Led :=
  if l.initialized = false ∨ l.active = true ∧ l.blinkCount = 0 then l
  else
    { l with
      active := true
      startTime := now
      flashDuration := duration
      blinkCount := 0
      blinkCountLeft := 0
      continuously := false }.refreshLed true

def turnOff (l : Led) : Led :=
  if l.initialized = false ∨ l.active = false then l
  else { l with active := false }.refreshLed false

def blink (count : UInt8) (continuously : Bool) (now : UInt32) (l : Led) : Led :=
  if l.initialized = false then l
  else if l.active = true ∧ count = 0 then l.turnOff
  else if l.active = true ∧ 0 < l.blinkCount then
    { l with
      continuously
      blinkCount := count
      blinkCountLeft := min l.blinkCountLeft count }
  else
    { l with
      active := true
      startTime := now
      flashDuration := 0
      blinkCount := count
      blinkCountLeft := count
      continuously }.refreshLed true

def tick (now : UInt32) (l : Led) : Led :=
  if l.initialized = false ∨ l.active = false then l
  else
    let delta := now - l.startTime
    if 0 < l.blinkCountLeft then
      if delta < l.blinkActiveDuration then l.refreshLed true
      else
        let l := l.refreshLed false
        if l.blinkWaitDuration < delta - l.blinkActiveDuration then
          let l := { l with startTime := now, blinkCountLeft := l.blinkCountLeft - 1 }
          if l.blinkCountLeft = 0 ∧ l.continuously = false then l.turnOff else l
        else l
    else if 0 < l.blinkCount ∧ l.continuously = true then
      if l.blinkRepeatInterval < delta then
        { l with startTime := now, blinkCountLeft := l.blinkCount }.refreshLed true
      else l
    else
      if 0 < l.flashDuration ∧ delta < l.flashDuration then l.turnOff else l

/-! ## What the pin shows is beside the mode -/

theorem refreshLed_eq (active : Bool) (l : Led) :
    ∃ writes, l.refreshLed active = { l with writes } := by
  rw [refreshLed]
  split
  · exact ⟨l.writes, rfl⟩
  · split
    · exact ⟨_, rfl⟩
    · exact ⟨_, rfl⟩

theorem turnOff_active {l : Led} (h : l.initialized = true) : l.turnOff.active = false := by
  rw [turnOff]
  split
  · rename_i hoff
    rcases hoff with hnot | hoff
    · rw [h] at hnot
      cases hnot
    · exact hoff
  · obtain ⟨writes, heq⟩ := refreshLed_eq false { l with active := false }
    rw [heq]

@[simp] theorem refreshLed_initialized (active : Bool) (l : Led) :
    (l.refreshLed active).initialized = l.initialized := by
  obtain ⟨writes, heq⟩ := refreshLed_eq active l
  rw [heq]

@[simp] theorem turnOff_initialized (l : Led) : l.turnOff.initialized = l.initialized := by
  rw [turnOff]
  split <;> simp

@[simp] theorem flash_initialized (duration now : UInt32) (l : Led) :
    (l.flash duration now).initialized = l.initialized := by
  rw [flash]
  split <;> simp

@[simp] theorem blink_initialized (count : UInt8) (continuously : Bool) (now : UInt32) (l : Led) :
    (l.blink count continuously now).initialized = l.initialized := by
  rw [blink]
  split_ifs <;> simp

@[simp] theorem tick_initialized (now : UInt32) (l : Led) :
    (l.tick now).initialized = l.initialized := by
  rw [tick]
  dsimp only
  split_ifs <;> simp

end Led

/-! ## Runs -/

/-- The LED; `flashed` says that its activity was started by `flash`. -/
structure LedRun where
  led : Led
  flashed : Bool := false
deriving DecidableEq, Repr

/-- A call, with what `millis()` shows in it. -/
inductive LedCall
  | blink (count : UInt8) (continuously : Bool) (now : UInt32)
  | flash (duration now : UInt32)
  | turnOff
  | tick (now : UInt32)
deriving DecidableEq, Repr

namespace LedRun

/-- The calls on the LED.  An activity starts in `flash`, or in `blink` unless that turns the LED
off or changes a series. -/
def step (s : LedRun) : LedCall → Option LedRun
  | .blink count continuously now =>
      some
        { led := s.led.blink count continuously now
          flashed :=
            if s.led.initialized = true ∧ (s.led.active = false ∨ count ≠ 0 ∧ s.led.blinkCount = 0)
            then false else s.flashed }
  | .flash duration now =>
      some
        { led := s.led.flash duration now
          flashed :=
            if s.led.initialized = true ∧ (s.led.active = false ∨ s.led.blinkCount ≠ 0)
            then true else s.flashed }
  | .turnOff => some { s with led := s.led.turnOff }
  | .tick now => some { s with led := s.led.tick now }

def start (pin : UInt8) (settings : LedSettings) : LedRun where
  led := { settings with pin : Led }.begin

/-- A series, or the pause behind one that repeats. -/
def Blinks (l : Led) : Prop :=
  0 < l.blinkCount ∧ l.blinkCountLeft ≤ l.blinkCount ∧
    (l.continuously = false → 0 < l.blinkCountLeft)

/-- **An active LED flashes because `flash` was called, or it blinks and has a blink to do.** -/
def Ends (s : LedRun) : Prop :=
  s.led.active = true → s.led.blinkCount = 0 ∧ s.flashed = true ∨ Blinks s.led

/-- `blink` asks for a blink when it starts a series, and does not end a series in its pause. -/
def LeavesABlink (s : LedRun) : LedCall → Prop
  | .blink count continuously _ =>
      (s.led.active = false → 0 < count) ∧
        (s.led.active = true → 0 < s.led.blinkCount → s.led.blinkCountLeft = 0 → 0 < count →
          continuously = true)
  | _ => True

/-! ## Each call -/

/-- What `blink` does to an LED that has been begun: it turns it off, it changes the series, or it
starts one. -/
theorem blink_cases {l : Led} (h : l.initialized = true) (count : UInt8) (continuously : Bool)
    (now : UInt32) :
    l.active = true ∧ count = 0 ∧ (l.blink count continuously now).active = false ∨
      l.active = true ∧ 0 < count ∧ 0 < l.blinkCount ∧
        l.blink count continuously now =
          { l with
            continuously
            blinkCount := count
            blinkCountLeft := min l.blinkCountLeft count } ∨
      (l.active = false ∨ 0 < count ∧ l.blinkCount = 0) ∧
        ∃ writes, l.blink count continuously now =
          { l with
            active := true
            startTime := now
            flashDuration := 0
            blinkCount := count
            blinkCountLeft := count
            continuously
            writes } := by
  have hinit : ¬ l.initialized = false := by
    rw [h]
    exact Bool.noConfusion
  rw [Led.blink, if_neg hinit]
  by_cases hoff : l.active = true ∧ count = 0
  · rw [if_pos hoff]
    exact .inl ⟨hoff.1, hoff.2, Led.turnOff_active h⟩
  · rw [if_neg hoff]
    by_cases hchange : l.active = true ∧ 0 < l.blinkCount
    · have hcount : 0 < count := UInt8.pos_iff_ne_zero.mpr fun hzero => hoff ⟨hchange.1, hzero⟩
      rw [if_pos hchange]
      exact .inr (.inl ⟨hchange.1, hcount, hchange.2, rfl⟩)
    · rw [if_neg hchange]
      refine .inr (.inr ⟨?_, Led.refreshLed_eq true _⟩)
      cases hactive : l.active with
      | false => exact .inl rfl
      | true =>
          refine .inr ⟨UInt8.pos_iff_ne_zero.mpr fun hzero => hoff ⟨hactive, hzero⟩, ?_⟩
          by_contra hne
          exact hchange ⟨hactive, UInt8.pos_iff_ne_zero.mpr hne⟩

/-- What `tick` does to an LED that has been begun: it is turned off, a blink is done, a series
starts again, or the mode stays. -/
theorem tick_cases {l : Led} (h : l.initialized = true) (now : UInt32) :
    (l.tick now).active = false ∨
      0 < l.blinkCountLeft ∧ (l.blinkCountLeft - 1 ≠ 0 ∨ l.continuously = true) ∧
        (∃ writes, l.tick now =
          { l with startTime := now, blinkCountLeft := l.blinkCountLeft - 1, writes }) ∨
      0 < l.blinkCount ∧
        (∃ writes, l.tick now =
          { l with startTime := now, blinkCountLeft := l.blinkCount, writes }) ∨
      ∃ writes, l.tick now = { l with writes } := by
  rw [Led.tick]
  dsimp only
  by_cases hidle : l.initialized = false ∨ l.active = false
  · rw [if_pos hidle]
    exact .inr (.inr (.inr ⟨l.writes, rfl⟩))
  · rw [if_neg hidle]
    by_cases hleft : 0 < l.blinkCountLeft
    · rw [if_pos hleft]
      obtain ⟨writes, hdark⟩ := Led.refreshLed_eq false l
      by_cases hlit : now - l.startTime < l.blinkActiveDuration
      · rw [if_pos hlit]
        exact .inr (.inr (.inr (Led.refreshLed_eq true l)))
      · rw [if_neg hlit, hdark]
        by_cases hwaited :
            l.blinkWaitDuration < now - l.startTime - l.blinkActiveDuration
        · rw [if_pos hwaited]
          by_cases hlast : l.blinkCountLeft - 1 = 0 ∧ l.continuously = false
          · rw [if_pos hlast]
            exact .inl (Led.turnOff_active h)
          · rw [if_neg hlast]
            refine .inr (.inl ⟨hleft, ?_, writes, rfl⟩)
            rw [not_and_or, Bool.not_eq_false] at hlast
            exact hlast
        · rw [if_neg hwaited]
          exact .inr (.inr (.inr ⟨writes, rfl⟩))
    · rw [if_neg hleft]
      by_cases hpause : 0 < l.blinkCount ∧ l.continuously = true
      · rw [if_pos hpause]
        split
        · exact .inr (.inr (.inl ⟨hpause.1, Led.refreshLed_eq true _⟩))
        · exact .inr (.inr (.inr ⟨l.writes, rfl⟩))
      · rw [if_neg hpause]
        split
        · exact .inl (Led.turnOff_active h)
        · exact .inr (.inr (.inr ⟨l.writes, rfl⟩))

theorem Ends.tick {s : LedRun} (hinit : s.led.initialized = true) (h : s.Ends) (now : UInt32) :
    Ends { s with led := s.led.tick now } := by
  intro hactive
  have hbefore : s.led.active = true := by
    by_contra hoff
    rw [Bool.not_eq_true] at hoff
    have hsame : s.led.tick now = s.led := by rw [Led.tick, if_pos (.inr hoff)]
    rw [hsame, hoff] at hactive
    cases hactive
  rcases tick_cases hinit now with hoff | ⟨hleft, hgoes, writes, heq⟩ |
    ⟨hcount, writes, heq⟩ | ⟨writes, heq⟩
  · rw [hoff] at hactive
    cases hactive
  · rw [heq]
    rcases h hbefore with hflash | ⟨hcount, hle, -⟩
    · exact .inl hflash
    · have hone : 1 ≤ s.led.blinkCountLeft :=
        UInt8.le_iff_toNat_le.mpr (UInt8.lt_iff_toNat_lt.mp hleft)
      refine .inr ⟨hcount, ?_, ?_⟩
      · exact UInt8.le_trans (UInt8.sub_le hone) hle
      · intro honce
        refine UInt8.pos_iff_ne_zero.mpr (hgoes.resolve_right ?_)
        rw [honce]
        exact Bool.noConfusion
  · rw [heq]
    exact .inr ⟨hcount, UInt8.le_refl _, fun _ => hcount⟩
  · rw [heq]
    exact h hbefore

theorem Ends.turnOff {s : LedRun} (hinit : s.led.initialized = true) :
    Ends { s with led := s.led.turnOff } := by
  intro hactive
  rw [Led.turnOff_active hinit] at hactive
  cases hactive

/-- A call of `flash` starts a flash, unless there is one. -/
theorem flash_cases {l : Led} (h : l.initialized = true) (duration now : UInt32) :
    ¬ (l.active = false ∨ l.blinkCount ≠ 0) ∧ l.flash duration now = l ∨
      (l.active = false ∨ l.blinkCount ≠ 0) ∧
        ∃ writes, l.flash duration now =
          { l with
            active := true
            startTime := now
            flashDuration := duration
            blinkCount := 0
            blinkCountLeft := 0
            continuously := false
            writes } := by
  rw [Led.flash]
  by_cases hflashes : l.active = true ∧ l.blinkCount = 0
  · rw [if_pos (.inr hflashes)]
    refine .inl ⟨?_, rfl⟩
    rintro (hoff | hne)
    · rw [hflashes.1] at hoff
      cases hoff
    · exact hne hflashes.2
  · have hguard : ¬ (l.initialized = false ∨ l.active = true ∧ l.blinkCount = 0) := by
      rintro (hnot | hflash)
      · rw [h] at hnot
        cases hnot
      · exact hflashes hflash
    rw [if_neg hguard]
    refine .inr ⟨?_, Led.refreshLed_eq true _⟩
    rw [not_and_or, Bool.not_eq_true] at hflashes
    exact hflashes

structure Inv (s : LedRun) : Prop where
  initialized : s.led.initialized = true
  ends : s.Ends

theorem Ends.blink {s : LedRun} (hinit : s.led.initialized = true) {count : UInt8}
    {continuously : Bool} {now : UInt32}
    (hallowed : s.LeavesABlink (.blink count continuously now)) {flashed : Bool} :
    Ends { led := s.led.blink count continuously now, flashed } := by
  rcases blink_cases hinit count continuously now with ⟨-, -, hoff⟩ |
    ⟨hactive, hcount, hblinks, heq⟩ | ⟨hstarts, writes, heq⟩
  · intro hon
    rw [hoff] at hon
    cases hon
  · -- the series is changed
    rw [heq]
    intro _
    right
    refine ⟨hcount, Std.min_le_right, ?_⟩
    intro honce
    have hleft : s.led.blinkCountLeft ≠ 0 := by
      intro hpause
      exact Bool.noConfusion (honce.symm.trans (hallowed.2 hactive hblinks hpause hcount))
    show 0 < min s.led.blinkCountLeft count
    rcases Std.min_eq_or (a := s.led.blinkCountLeft) (b := count) with hmin | hmin
    · rw [hmin]
      exact UInt8.pos_iff_ne_zero.mpr hleft
    · rw [hmin]
      exact hcount
  · -- a series is started
    rw [heq]
    intro _
    have hcount : 0 < count := by
      rcases hstarts with hoff | ⟨hcount, -⟩
      · exact hallowed.1 hoff
      · exact hcount
    exact .inr ⟨hcount, UInt8.le_refl _, fun _ => hcount⟩

theorem Inv.step {s t : LedRun} {e : LedCall} (h : Inv s) (hallowed : s.LeavesABlink e)
    (ht : s.step e = some t) : Inv t := by
  obtain ⟨hinit, hends⟩ := h
  cases e with
  | tick now =>
      cases ht
      exact ⟨(Led.tick_initialized now s.led).trans hinit, hends.tick hinit now⟩
  | turnOff =>
      cases ht
      exact ⟨(Led.turnOff_initialized s.led).trans hinit, Ends.turnOff hinit⟩
  | flash duration now =>
      cases ht
      refine ⟨(Led.flash_initialized duration now s.led).trans hinit, ?_⟩
      rcases flash_cases hinit duration now with ⟨hflashes, heq⟩ | ⟨hstarts, writes, heq⟩
      · rw [heq, if_neg fun h => hflashes h.2]
        exact hends
      · rw [heq, if_pos ⟨hinit, hstarts⟩]
        exact fun _ => .inl ⟨rfl, rfl⟩
  | blink count continuously now =>
      cases ht
      refine ⟨?_, Ends.blink hinit hallowed⟩
      exact (Led.blink_initialized count continuously now s.led).trans hinit

theorem Inv.lost {s t : LedRun} {e : LedCall} (h : Inv s) (hnot : ¬ s.LeavesABlink e)
    (ht : s.step e = some t) : ¬ t.Ends := by
  cases e with
  | tick now => exact absurd trivial hnot
  | turnOff => exact absurd trivial hnot
  | flash duration now => exact absurd trivial hnot
  | blink count continuously now =>
      cases ht
      rcases not_and_or.mp hnot with hstart | hpause
      · -- no blinks, and the LED is off
        obtain ⟨hoff, hzero⟩ := Classical.not_imp.mp hstart
        rcases blink_cases h.initialized count continuously now with ⟨hactive, -⟩ |
          ⟨hactive, -⟩ | ⟨-, writes, heq⟩
        · rw [hoff] at hactive
          cases hactive
        · rw [hoff] at hactive
          cases hactive
        · rw [heq, if_pos ⟨h.initialized, .inl hoff⟩]
          intro hends
          rcases hends rfl with ⟨-, hflashed⟩ | ⟨hcount, -⟩
          · cases hflashed
          · exact hzero hcount
      · -- a pause becomes the end of the series
        simp only [Classical.not_imp, Bool.not_eq_true] at hpause
        obtain ⟨hactive, hblinks, hleft, hcount, honce⟩ := hpause
        rcases blink_cases h.initialized count continuously now with ⟨-, hzero, -⟩ |
          ⟨-, -, -, heq⟩ | ⟨hstarts, -⟩
        · exact absurd hzero (UInt8.pos_iff_ne_zero.mp hcount)
        · rw [heq]
          intro hends
          have hmin : min s.led.blinkCountLeft count = 0 := by
            rw [hleft]
            exact UInt8.le_zero_iff.mp Std.min_le_left
          rcases hends hactive with ⟨hzero, -⟩ | ⟨-, -, hdo⟩
          · exact UInt8.pos_iff_ne_zero.mp hcount hzero
          · have hpos : 0 < min s.led.blinkCountLeft count := hdo honce
            rw [hmin] at hpos
            exact UInt8.lt_irrefl _ hpos
        · rcases hstarts with hoff | ⟨-, hzero⟩
          · rw [hactive] at hoff
            cases hoff
          · exact absurd hzero (UInt8.pos_iff_ne_zero.mp hblinks)

/-! ## The modes of a run -/

/-- **In every state of a run an active LED flashes because it was asked to or has a blink to do,
exactly where each `blink` leaves it one.** -/
theorem ends_iff_leavesABlink (pin : UInt8) (settings : LedSettings) (es : List LedCall) :
    Always step Ends (start pin settings) es ↔ Each step LeavesABlink (start pin settings) es := by
  refine always_iff_each (I := Inv) (fun s h => h.ends) ?_ ?_ ⟨rfl, fun h => by cases h⟩
  · intro s e t h hallowed ht
    exact h.step hallowed ht
  · intro s e t h hnot ht
    exact h.lost hnot ht

/-- `blink(0)` while the LED is off turns it on, in no mode that was asked for. -/
theorem blink_nothing : ¬ Always step Ends (start 2 {}) [.blink 0 false 0] := by
  intro h
  have hends := always_iff_reached.mp h _ [] _ (List.append_nil _).symm rfl
  rcases hends rfl with ⟨-, hflashed⟩ | ⟨hcount, -⟩
  · cases hflashed
  · exact absurd hcount (by decide)

end LedRun

end EspIot
