/-
# `EspIot.Misc.LedFlash` — how long a flash lasts

A flash has a duration, and `tick` compares the time since its start with it:

    if (_flash_duration > 0 && delta < _flash_duration) turn_off();

The LED goes off at a tick that comes before the duration is over, and a tick that comes
after it does nothing.  `ticks_active` says so for every sequence of ticks.
-/
import EspIot.Misc.Led

namespace EspIot

open Lib

namespace Led

/-- A flash is called at `start`, and then `tick`, so many milliseconds after that. -/
def flashTicks (start : ℕ) (duration : UInt32) (ticks : List ℕ) (l : Led) : Led :=
  ticks.foldl (fun l t => l.tick (reading (start + t))) (l.flash duration (reading start))

/-- **The LED is on after each tick before the duration is over, and off after the first one
that is not.** -/
def Lasts (start : ℕ) (duration : UInt32) (ticks : List ℕ) (l : Led) : Prop :=
  ∀ before t after, ticks = before ++ t :: after → (∀ u ∈ before, u < duration.toNat) →
    ((l.flashTicks start duration (before ++ [t])).active = true ↔ t < duration.toNat)

/-- An LED whose flash has started; it may be over. -/
structure Flashing (start : ℕ) (duration : UInt32) (l : Led) : Prop where
  initialized : l.initialized = true
  count : l.blinkCount = 0
  left : l.blinkCountLeft = 0
  duration : l.flashDuration = duration
  startTime : l.startTime = reading start

theorem flash_flashing {l : Led} (hinit : l.initialized = true) (hoff : l.active = false)
    (start : ℕ) (duration : UInt32) :
    Flashing start duration (l.flash duration (reading start)) ∧
      (l.flash duration (reading start)).active = true := by
  rcases LedRun.flash_cases hinit duration (reading start) with ⟨hflashes, -⟩ | ⟨-, writes, heq⟩
  · exact absurd (.inl hoff) hflashes
  · rw [heq]
    exact ⟨⟨hinit, rfl, rfl, rfl, rfl⟩, rfl⟩

theorem Flashing.tick_eq {l : Led} {start : ℕ} {duration : UInt32}
    (h : Flashing start duration l) (hon : l.active = true) (now : UInt32) :
    l.tick now =
      if 0 < duration ∧ now - reading start < duration then l.turnOff else l := by
  have hguard : ¬ (l.initialized = false ∨ l.active = false) := by
    rw [h.initialized, hon]
    decide
  have hleft : ¬ 0 < l.blinkCountLeft := by
    rw [h.left]
    decide
  have hpause : ¬ (0 < l.blinkCount ∧ l.continuously = true) := by
    rw [h.count]
    exact fun hpause => absurd hpause.1 (by decide)
  rw [tick]
  dsimp only
  rw [if_neg hguard, if_neg hleft, if_neg hpause, h.duration, h.startTime]

theorem Flashing.turnOff {l : Led} {start : ℕ} {duration : UInt32}
    (h : Flashing start duration l) : Flashing start duration l.turnOff := by
  rw [Led.turnOff]
  split
  · exact h
  · obtain ⟨writes, heq⟩ := refreshLed_eq false { l with active := false }
    rw [heq]
    exact ⟨h.initialized, h.count, h.left, h.duration, h.startTime⟩

theorem reading_elapsed {start t : ℕ} (h : t < 2 ^ 32) (duration : UInt32) :
    reading (start + t) - reading start < duration ↔ t < duration.toNat := by
  rw [UInt32.lt_iff_toNat_lt, reading_sub (Nat.le_add_right start t), Nat.add_sub_cancel_left,
    Nat.mod_eq_of_lt h]

theorem Flashing.tick {l : Led} {start : ℕ} {duration : UInt32} (h : Flashing start duration l)
    (hpos : 0 < duration) {t : ℕ} (ht : t < 2 ^ 32) :
    Flashing start duration (l.tick (reading (start + t))) ∧
      ((l.tick (reading (start + t))).active = true ↔
        l.active = true ∧ duration.toNat ≤ t) := by
  cases hon : l.active with
  | false =>
      have hsame : l.tick (reading (start + t)) = l := by rw [Led.tick, if_pos (.inr hon)]
      rw [hsame, hon]
      exact ⟨h, fun h => Bool.noConfusion h, fun h => Bool.noConfusion h.1⟩
  | true =>
      rw [h.tick_eq hon]
      by_cases hearly : t < duration.toNat
      · rw [if_pos ⟨hpos, (reading_elapsed ht duration).mpr hearly⟩,
          turnOff_active h.initialized]
        exact ⟨h.turnOff, fun h => Bool.noConfusion h, fun hlate => absurd hlate.2 (by omega)⟩
      · rw [if_neg fun hboth => hearly ((reading_elapsed ht duration).mp hboth.2)]
        exact ⟨h, fun hon => ⟨rfl, by omega⟩, fun _ => hon⟩

theorem Flashing.ticks {start : ℕ} {duration : UInt32} (hpos : 0 < duration) {ticks : List ℕ} :
    ∀ {l : Led}, Flashing start duration l → (∀ t ∈ ticks, t < 2 ^ 32) →
      ((ticks.foldl (fun l t => l.tick (reading (start + t))) l).active = true ↔
        l.active = true ∧ ∀ t ∈ ticks, duration.toNat ≤ t) := by
  induction ticks with
  | nil =>
      intro l _ _
      simp
  | cons t ticks ih =>
      intro l h hticks
      obtain ⟨hstays, hon⟩ := h.tick hpos (hticks t List.mem_cons_self)
      rw [List.foldl_cons, ih hstays fun u hu => hticks u (List.mem_cons_of_mem _ hu), hon,
        List.forall_mem_cons, and_assoc]

theorem ticks_active {l : Led} (hinit : l.initialized = true) (hoff : l.active = false)
    {duration : UInt32} (hpos : 0 < duration) (start : ℕ) {ticks : List ℕ}
    (hticks : ∀ t ∈ ticks, t < 2 ^ 32) :
    (l.flashTicks start duration ticks).active = true ↔
      ∀ t ∈ ticks, duration.toNat ≤ t := by
  obtain ⟨hflashing, hon⟩ := flash_flashing hinit hoff start duration
  rw [flashTicks, hflashing.ticks hpos hticks, hon]
  exact and_iff_right rfl

/-- **A flash with a duration lasts it exactly where no tick follows.** -/
theorem lasts_iff {l : Led} (hinit : l.initialized = true) (hoff : l.active = false)
    {duration : UInt32} (hpos : 0 < duration) (start : ℕ) {ticks : List ℕ}
    (hticks : ∀ t ∈ ticks, t < 2 ^ 32) :
    l.Lasts start duration ticks ↔ ticks = [] := by
  constructor
  · intro hlasts
    cases ticks with
    | nil => rfl
    | cons t after =>
        -- the first tick goes wrong already
        have hone : ∀ u ∈ [t], u < 2 ^ 32 := by
          intro u hu
          rw [List.mem_singleton.mp hu]
          exact hticks t List.mem_cons_self
        have hfirst := hlasts [] t after rfl (fun u hu => by cases hu)
        rw [List.nil_append, ticks_active hinit hoff hpos start hone,
          List.forall_mem_singleton] at hfirst
        omega
  · rintro rfl before t after heq
    exact absurd heq (List.append_ne_nil_of_right_ne_nil _ (List.cons_ne_nil _ _)).symm

/-- A hundred milliseconds: a tick in time turns the LED off, a late one leaves it on. -/
theorem flash_inverted :
    ¬ ({ pin := 2 : Led }.begin.Lasts 0 100 [50]) ∧
      ¬ ({ pin := 2 : Led }.begin.Lasts 0 100 [100]) := by
  constructor
  · intro hlasts
    exact absurd (hlasts [] 50 [] rfl (fun u hu => by cases hu)) (by decide)
  · intro hlasts
    exact absurd (hlasts [] 100 [] rfl (fun u hu => by cases hu)) (by decide)

theorem lasts_iff_three_ticks :
    { pin := 2 : Led }.begin.Lasts (2 ^ 32 - 10) 100 [20, 99, 100] ↔ [20, 99, 100] = [] :=
  lasts_iff rfl rfl (by decide) _ (by decide)

end Led

end EspIot
