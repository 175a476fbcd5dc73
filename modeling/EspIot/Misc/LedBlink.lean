/-
# `EspIot.Misc.LedBlink` — `blink(n)` lights the LED n times

A series is done by `tick`, which looks at the clock: lit until `_blink_active_duration` is over,
dark until `_blink_wait_duration` is over as well, then the next blink.

    lit ──active over──▶ dark ──wait over──▶ next: lit at the next tick, if that is soon enough
                                       └──▶ off, after the last

A blink but the first is lit by a tick, so one that comes too late does not light it.  Where no
tick is later than `_blink_active_duration` after the one before, `blinks_shown` says how often
the pin goes on, and between which bounds the series ends.
-/
import EspIot.Misc.Led

namespace EspIot

open Lib

/-! ## The pin -/

def LedWrite.level : LedWrite → Option Bool
  | pinMode _ => none
  | analog _ value => some (value ≠ 0)
  | digital _ high => some high

/-- Whether the LED is lit, and how often it has been lit up. -/
structure LedLight where
  lit : Bool := false
  rises : ℕ := 0
deriving DecidableEq, Repr

namespace LedLight

/-- The LED is set to `on`. -/
def set (on : Bool) (p : LedLight) : LedLight :=
  { lit := on, rises := if on && !p.lit then p.rises + 1 else p.rises }

@[simp] theorem set_false (p : LedLight) : p.set false = ⟨false, p.rises⟩ := rfl
@[simp] theorem set_true_lit (n : ℕ) : set true ⟨true, n⟩ = ⟨true, n⟩ := rfl
@[simp] theorem set_true_dark (n : ℕ) : set true ⟨false, n⟩ = ⟨true, n + 1⟩ := rfl

def write (p : LedLight) (w : LedWrite) : LedLight :=
  match w.level with
  | some on => p.set on
  | none => p

end LedLight

namespace Led

def light (l : Led) : LedLight := l.writes.foldl LedLight.write {}

theorem refreshLed_light {l : Led} (hinit : l.initialized = true) (hbright : 0 < l.brightness)
    (on : Bool) : (l.refreshLed on).light = l.light.set on := by
  have hne : l.brightness ≠ 0 := UInt16.pos_iff_ne_zero.mp hbright
  rw [refreshLed, if_neg (by simp [hinit])]
  split
  · rw [light, light, List.foldl_append, List.foldl_cons, List.foldl_nil, LedLight.write]
    cases on <;> simp [LedWrite.level, hne]
  · rw [light, light, List.foldl_append]
    rfl

theorem turnOff_light {l : Led} (hinit : l.initialized = true) (hbright : 0 < l.brightness)
    (hactive : l.active = true) : l.turnOff.light = l.light.set false := by
  rw [turnOff, if_neg (by simp [hinit, hactive])]
  exact refreshLed_light (l := { l with active := false }) hinit hbright false

/-- A blink is over: the LED is dark, and the next one begins now. -/
def blinkDone (now : UInt32) (l : Led) : Led :=
  { l.refreshLed false with startTime := now, blinkCountLeft := l.blinkCountLeft - 1 }

theorem tick_series {l : Led} (hinit : l.initialized = true) (hactive : l.active = true)
    (honce : l.continuously = false) (hleft : 0 < l.blinkCountLeft) (now : UInt32) :
    l.tick now =
      if now - l.startTime < l.blinkActiveDuration then l.refreshLed true
      else if l.blinkWaitDuration < now - l.startTime - l.blinkActiveDuration then
        if l.blinkCountLeft - 1 = 0 then (l.blinkDone now).turnOff else l.blinkDone now
      else l.refreshLed false := by
  obtain ⟨writes, heq⟩ := refreshLed_eq false l
  rw [tick, if_neg (by simp [hinit, hactive])]
  dsimp only
  rw [if_pos hleft, blinkDone, heq]
  simp [honce]

end Led

/-! ## Ticks -/

structure LedTimed where
  led : Led
  now : ℕ

namespace LedTimed

/-- A tick, so many milliseconds after the last. -/
def step (s : LedTimed) (gap : ℕ) : Option LedTimed :=
  some { led := s.led.tick (reading (s.now + gap)), now := s.now + gap }

/-- An LED on which `blink` has been called. -/
def start (l : Led) (count : UInt8) (now : ℕ) : LedTimed where
  led := l.blink count false (reading now)
  now

/-- A series that goes on, with `done` blinks over and the next one begun at `startAt`: it is lit,
it is dark, or the next tick will light it. -/
structure Blinking (l : Led) (count : UInt8) (t₀ : ℕ) (startAt done : ℕ) (s : LedTimed) :
    Prop where
  active : s.led.active = true
  left : s.led.blinkCountLeft.toNat + done = count.toNat
  more : done < count.toNat
  startTime : s.led.startTime = reading startAt
  began : t₀ + done * (l.blinkActiveDuration.toNat + l.blinkWaitDuration.toNat + 1) ≤ startAt ∧
    startAt ≤ t₀ + done * (2 * l.blinkActiveDuration.toNat + l.blinkWaitDuration.toNat)
  now : startAt ≤ s.now ∧
    s.now - startAt ≤ l.blinkActiveDuration.toNat + l.blinkWaitDuration.toNat
  light : s.led.light = ⟨true, l.light.rises + done + 1⟩ ∨
    s.led.light = ⟨false, l.light.rises + done + 1⟩ ∧
      l.blinkActiveDuration.toNat ≤ s.now - startAt ∨
    s.led.light = ⟨false, l.light.rises + done⟩ ∧ s.now = startAt

structure Over (l : Led) (count : UInt8) (t₀ : ℕ) (s : LedTimed) : Prop where
  active : s.led.active = false
  light : s.led.light = ⟨false, l.light.rises + count.toNat⟩
  now : t₀ + count.toNat * (l.blinkActiveDuration.toNat + l.blinkWaitDuration.toNat + 1) ≤ s.now

structure Series (l : Led) (count : UInt8) (s : LedTimed) : Prop where
  settings : s.led.toLedSettings = l.toLedSettings
  initialized : s.led.initialized = true
  continuously : s.led.continuously = false
  blinkCount : s.led.blinkCount = count

variable {l : Led} {count : UInt8} {t₀ startAt done : ℕ} {s : LedTimed}

theorem Series.refreshLed (h : Series l count s) (on : Bool) (now : ℕ) :
    Series l count { led := s.led.refreshLed on, now } := by
  obtain ⟨writes, heq⟩ := Led.refreshLed_eq on s.led
  rw [heq]
  exact ⟨h.settings, h.initialized, h.continuously, h.blinkCount⟩

theorem Series.blinkDone (h : Series l count s) (time : UInt32) (now : ℕ) :
    Series l count { led := s.led.blinkDone time, now } := by
  obtain ⟨writes, heq⟩ := Led.refreshLed_eq false s.led
  rw [Led.blinkDone, heq]
  exact ⟨h.settings, h.initialized, h.continuously, h.blinkCount⟩

theorem Series.turnOff (h : Series l count s) : Series l count { s with led := s.led.turnOff } := by
  rw [Led.turnOff]
  split
  · exact h
  · obtain ⟨writes, heq⟩ := Led.refreshLed_eq false { s.led with active := false }
    rw [heq]
    exact ⟨h.settings, h.initialized, h.continuously, h.blinkCount⟩

theorem Series.bright (h : Series l count s) (hbright : 0 < l.brightness) :
    0 < s.led.brightness :=
  (congrArg LedSettings.brightness h.settings).symm ▸ hbright

theorem Blinking.delta (h : Blinking l count t₀ startAt done s)
    (hclock : 2 * l.blinkActiveDuration.toNat + l.blinkWaitDuration.toNat < 2 ^ 32) {gap : ℕ}
    (hgap : gap < l.blinkActiveDuration.toNat) :
    (reading (s.now + gap) - s.led.startTime).toNat = s.now + gap - startAt := by
  have hnow := h.now
  rw [h.startTime, reading_sub (by omega), Nat.mod_eq_of_lt (by omega)]

theorem Blinking.lit (h : Blinking l count t₀ startAt done s) (hseries : Series l count s)
    (hbright : 0 < l.brightness) {gap : ℕ}
    (hyoung : s.now + gap - startAt < l.blinkActiveDuration.toNat) :
    Blinking l count t₀ startAt done
      { led := s.led.refreshLed true, now := s.now + gap } := by
  have hnow := h.now
  have hlight : (s.led.refreshLed true).light = ⟨true, l.light.rises + done + 1⟩ := by
    rw [Led.refreshLed_light hseries.initialized (hseries.bright hbright)]
    rcases h.light with hlit | ⟨-, hold⟩ | ⟨hnext, -⟩
    · rw [hlit, LedLight.set_true_lit]
    · omega
    · rw [hnext, LedLight.set_true_dark]
  obtain ⟨writes, heq⟩ := Led.refreshLed_eq true s.led
  rw [heq] at hlight ⊢
  exact ⟨h.active, h.left, h.more, h.startTime, h.began, by dsimp only; omega, .inl hlight⟩

theorem Blinking.dark_light (h : Blinking l count t₀ startAt done s)
    (hseries : Series l count s) (hbright : 0 < l.brightness) {gap : ℕ}
    (hgap : gap < l.blinkActiveDuration.toNat)
    (hold : l.blinkActiveDuration.toNat ≤ s.now + gap - startAt) :
    (s.led.refreshLed false).light = ⟨false, l.light.rises + done + 1⟩ := by
  rw [Led.refreshLed_light hseries.initialized (hseries.bright hbright), LedLight.set_false]
  rcases h.light with hlit | ⟨hdark, -⟩ | ⟨-, hnow⟩
  · rw [hlit]
  · rw [hdark]
  · omega

theorem Blinking.dark (h : Blinking l count t₀ startAt done s) (hseries : Series l count s)
    (hbright : 0 < l.brightness) {gap : ℕ} (hgap : gap < l.blinkActiveDuration.toNat)
    (hold : l.blinkActiveDuration.toNat ≤ s.now + gap - startAt)
    (hwait : s.now + gap - startAt ≤
      l.blinkActiveDuration.toNat + l.blinkWaitDuration.toNat) :
    Blinking l count t₀ startAt done
      { led := s.led.refreshLed false, now := s.now + gap } := by
  have hnow := h.now
  have hlight := h.dark_light hseries hbright hgap hold
  obtain ⟨writes, heq⟩ := Led.refreshLed_eq false s.led
  rw [heq] at hlight ⊢
  exact ⟨h.active, h.left, h.more, h.startTime, h.began, by dsimp only; omega,
    .inr (.inl ⟨hlight, hold⟩)⟩

/-- The times of the next blink: it begins no sooner than both durations after this one, and no
later than a tick after them. -/
theorem Blinking.next_began (h : Blinking l count t₀ startAt done s) {gap : ℕ}
    (hgap : gap < l.blinkActiveDuration.toNat)
    (hover : l.blinkActiveDuration.toNat + l.blinkWaitDuration.toNat < s.now + gap - startAt) :
    t₀ + (done + 1) * (l.blinkActiveDuration.toNat + l.blinkWaitDuration.toNat + 1) ≤
        s.now + gap ∧
      s.now + gap ≤
        t₀ + (done + 1) * (2 * l.blinkActiveDuration.toNat + l.blinkWaitDuration.toNat) := by
  have hbegan := h.began
  have hnow := h.now
  rw [Nat.add_mul, Nat.add_mul, Nat.one_mul, Nat.one_mul]
  omega

theorem Blinking.next (h : Blinking l count t₀ startAt done s) (hseries : Series l count s)
    (hbright : 0 < l.brightness) {gap : ℕ} (hgap : gap < l.blinkActiveDuration.toNat)
    (hover : l.blinkActiveDuration.toNat + l.blinkWaitDuration.toNat < s.now + gap - startAt) :
    if s.led.blinkCountLeft - 1 = 0 then
      Over l count t₀
        { led := (s.led.blinkDone (reading (s.now + gap))).turnOff, now := s.now + gap }
    else
      Blinking l count t₀ (s.now + gap) (done + 1)
        { led := s.led.blinkDone (reading (s.now + gap)), now := s.now + gap } := by
  have hbegan := h.next_began hgap hover
  have hmore := h.more
  have hleft : (s.led.blinkCountLeft - 1).toNat + (done + 1) = count.toNat := by
    have hone : (1 : UInt8) ≤ s.led.blinkCountLeft := by
      rw [UInt8.le_iff_toNat_le]
      have := h.left
      show 1 ≤ _
      omega
    rw [UInt8.toNat_sub_of_le _ _ hone]
    have := h.left
    show s.led.blinkCountLeft.toNat - 1 + _ = _
    omega
  have hlight : (s.led.blinkDone (reading (s.now + gap))).light =
      ⟨false, l.light.rises + done + 1⟩ := h.dark_light hseries hbright hgap (by omega)
  have hnext := hseries.blinkDone (reading (s.now + gap)) (s.now + gap)
  have hactive : (s.led.blinkDone (reading (s.now + gap))).active = true := by
    obtain ⟨writes, heq⟩ := Led.refreshLed_eq false s.led
    rw [Led.blinkDone, heq]
    exact h.active
  split
  · rename_i hlast
    rw [hlast] at hleft
    have hcount : done + 1 = count.toNat := (Nat.zero_add _).symm.trans hleft
    refine ⟨Led.turnOff_active hnext.initialized, ?_, hcount ▸ hbegan.1⟩
    dsimp only
    rw [Led.turnOff_light hnext.initialized (hnext.bright hbright) hactive, hlight, ← hcount]
    rfl
  · rename_i hlast
    have hmore' : done + 1 < count.toNat := by
      have hne : (s.led.blinkCountLeft - 1).toNat ≠ 0 := fun hzero =>
        hlast (UInt8.toNat_inj.mp hzero)
      omega
    exact ⟨hactive, hleft, hmore', rfl, hbegan, ⟨Nat.le_refl _, by dsimp only; omega⟩,
      .inr (.inr ⟨hlight, rfl⟩)⟩

/-- The invariant: the series goes on, or it is over. -/
def Inv (l : Led) (count : UInt8) (t₀ : ℕ) (s : LedTimed) : Prop :=
  Series l count s ∧
    ((∃ startAt done, Blinking l count t₀ startAt done s) ∨ Over l count t₀ s)

theorem Inv.step (hbright : 0 < l.brightness)
    (hclock : 2 * l.blinkActiveDuration.toNat + l.blinkWaitDuration.toNat < 2 ^ 32) {gap : ℕ}
    (h : Inv l count t₀ s) (hgap : gap < l.blinkActiveDuration.toNat) :
    Inv l count t₀ { led := s.led.tick (reading (s.now + gap)), now := s.now + gap } := by
  obtain ⟨hseries, ⟨startAt, done, hblink⟩ | hover⟩ := h
  · have hdelta := hblink.delta hclock hgap
    have hdur := congrArg LedSettings.blinkActiveDuration hseries.settings
    have hwaits := congrArg LedSettings.blinkWaitDuration hseries.settings
    have hleft : 0 < s.led.blinkCountLeft := by
      rw [UInt8.lt_iff_toNat_lt]
      have hmore := hblink.more
      have := hblink.left
      show 0 < _
      omega
    have hyoung : reading (s.now + gap) - s.led.startTime < s.led.blinkActiveDuration ↔
        s.now + gap - startAt < l.blinkActiveDuration.toNat := by
      rw [UInt32.lt_iff_toNat_lt, hdelta, hdur]
    rw [Led.tick_series hseries.initialized hblink.active hseries.continuously hleft]
    by_cases hlit : s.now + gap - startAt < l.blinkActiveDuration.toNat
    · rw [if_pos (hyoung.mpr hlit)]
      exact ⟨hseries.refreshLed true _, .inl ⟨startAt, done, hblink.lit hseries hbright hlit⟩⟩
    · rw [if_neg fun hlt => hlit (hyoung.mp hlt)]
      have hwaited : s.led.blinkWaitDuration <
          reading (s.now + gap) - s.led.startTime - s.led.blinkActiveDuration ↔
          l.blinkActiveDuration.toNat + l.blinkWaitDuration.toNat < s.now + gap - startAt := by
        rw [UInt32.lt_iff_toNat_lt, UInt32.toNat_sub_of_le _ _ ?_, hdelta, hdur, hwaits]
        · omega
        · rw [UInt32.le_iff_toNat_le, hdelta, hdur]
          omega
      by_cases hdone : l.blinkActiveDuration.toNat + l.blinkWaitDuration.toNat <
          s.now + gap - startAt
      · rw [if_pos (hwaited.mpr hdone)]
        have hnext := hblink.next hseries hbright hgap hdone
        have hstays := hseries.blinkDone (reading (s.now + gap)) (s.now + gap)
        split
        · rename_i hlast
          rw [if_pos hlast] at hnext
          exact ⟨hstays.turnOff, .inr hnext⟩
        · rename_i hlast
          rw [if_neg hlast] at hnext
          exact ⟨hstays, .inl ⟨_, _, hnext⟩⟩
      · rw [if_neg fun hlt => hdone (hwaited.mp hlt)]
        exact ⟨hseries.refreshLed false _, .inl ⟨startAt, done,
          hblink.dark hseries hbright hgap (by omega) (by omega)⟩⟩
  · have hsame : s.led.tick (reading (s.now + gap)) = s.led := by
      rw [Led.tick, if_pos (.inr hover.active)]
    rw [hsame]
    exact ⟨⟨hseries.settings, hseries.initialized, hseries.continuously, hseries.blinkCount⟩,
      .inr ⟨hover.active, hover.light, Nat.le_add_right_of_le hover.now⟩⟩

theorem start_inv (hinit : l.initialized = true) (hoff : l.active = false)
    (hdark : l.light.lit = false) (hbright : 0 < l.brightness) (hcount : 0 < count) (t₀ : ℕ) :
    Inv l count t₀ (start l count t₀) := by
  have hblink : l.blink count false (reading t₀) =
      { l with
        active := true, startTime := reading t₀, flashDuration := 0, blinkCount := count
        blinkCountLeft := count, continuously := false : Led }.refreshLed true := by
    rw [Led.blink, if_neg (by simp [hinit]), if_neg (by simp [hoff]), if_neg (by simp [hoff])]
  have hlight : (l.blink count false (reading t₀)).light = ⟨true, l.light.rises + 0 + 1⟩ := by
    have hbegan : l.light = ⟨false, l.light.rises⟩ := by rw [← hdark]
    rw [hblink]
    refine (Led.refreshLed_light (l := { l with
      active := true, startTime := reading t₀, flashDuration := 0, blinkCount := count
      blinkCountLeft := count, continuously := false }) hinit hbright true).trans ?_
    show LedLight.set true l.light = _
    rw [hbegan]
    rfl
  obtain ⟨writes, heq⟩ := Led.refreshLed_eq true { l with
    active := true, startTime := reading t₀, flashDuration := 0, blinkCount := count
    blinkCountLeft := count, continuously := false }
  rw [start]
  rw [hblink, heq] at hlight ⊢
  refine ⟨⟨rfl, hinit, rfl, rfl⟩, .inl ⟨t₀, 0, rfl, rfl, ?_, rfl, ?_, ?_, .inl hlight⟩⟩
  · exact UInt8.lt_iff_toNat_lt.mp hcount
  · simp
  · simp

/-- **`blink(n)` lights the LED n times, and ends.**  With ticks no further apart than
`_blink_active_duration`, an LED that is off is lit up no more than n times after `blink(n)`, and
exactly n times when it is off again; it is not off before n times both durations are over, and it
is off when n times both and a tick are. -/
theorem blinks_shown (hinit : l.initialized = true) (hoff : l.active = false)
    (hdark : l.light.lit = false) (hbright : 0 < l.brightness) (hcount : 0 < count)
    (hclock : 2 * l.blinkActiveDuration.toNat + l.blinkWaitDuration.toNat < 2 ^ 32) (t₀ : ℕ)
    (gaps : List ℕ) (hgaps : ∀ gap ∈ gaps, gap < l.blinkActiveDuration.toNat)
    (hs : Lib.run step (start l count t₀) gaps = some s) :
    s.led.light.rises ≤ l.light.rises + count.toNat ∧
      (s.led.active = false → s.led.light = ⟨false, l.light.rises + count.toNat⟩ ∧
        t₀ + count.toNat * (l.blinkActiveDuration.toNat + l.blinkWaitDuration.toNat + 1) ≤
          s.now) ∧
      (t₀ + count.toNat * (2 * l.blinkActiveDuration.toNat + l.blinkWaitDuration.toNat + 1) ≤
        s.now → s.led.active = false) := by
  have h : Inv l count t₀ s := by
    refine run_invariant_of (I := Inv l count t₀)
      (C := fun gap => gap < l.blinkActiveDuration.toNat) ?_ hgaps
      (start_inv hinit hoff hdark hbright hcount t₀) hs
    intro s gap s' hinv hgap hstep
    cases hstep
    exact hinv.step hbright hclock hgap
  obtain ⟨-, ⟨startAt, done, hblink⟩ | hover⟩ := h
  · have hmore := hblink.more
    have hon : s.led.active ≠ false := by
      rw [hblink.active]
      nofun
    refine ⟨?_, fun hdone => absurd hdone hon, fun hlate => ?_⟩
    · rcases hblink.light with hlit | ⟨hlit, -⟩ | ⟨hlit, -⟩
      all_goals
        rw [hlit]
        dsimp only
        omega
    · -- the blink that goes on has begun too late for that
      have hbegan := hblink.began.2
      have hnow := hblink.now
      have hmul : (done + 1) * (2 * l.blinkActiveDuration.toNat + l.blinkWaitDuration.toNat + 1) ≤
          count.toNat * (2 * l.blinkActiveDuration.toNat + l.blinkWaitDuration.toNat + 1) :=
        Nat.mul_le_mul_right _ hmore
      have hless : done * (2 * l.blinkActiveDuration.toNat + l.blinkWaitDuration.toNat) ≤
          done * (2 * l.blinkActiveDuration.toNat + l.blinkWaitDuration.toNat + 1) :=
        Nat.mul_le_mul_left _ (Nat.le_succ _)
      rw [Nat.add_mul, Nat.one_mul] at hmul
      omega
  · rw [hover.light]
    exact ⟨Nat.le_refl _, fun _ => ⟨rfl, hover.now⟩, fun _ => hover.active⟩

/-- Two blinks over the end of the clock, with a tick every 50 ms. -/
theorem blinks_shown_two :
    ∃ s, Lib.run step (start { pin := 2 : Led }.begin 2 (2 ^ 32 - 100)) (List.replicate 11 50) =
        some s ∧
      s.led.active = false := by
  refine ⟨_, rfl, (@blinks_shown ({ pin := 2 : Led }.begin) 2 _ rfl rfl rfl
    (by decide) (by decide) (by decide) (2 ^ 32 - 100) (List.replicate 11 50) (by decide)
    rfl).2.2 ?_⟩
  decide

end LedTimed

end EspIot
