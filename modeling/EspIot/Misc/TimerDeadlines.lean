/-
# `EspIot.Misc.TimerDeadlines` — timers and a counter that wraps around

`handle_timers` asks `(now - entry.created_at) < entry.interval` in 32 bits, where the time that
passes has none.  Here the clock is a natural number, started anywhere, and `millis()` shows it
modulo 2 ^ 32.  The main program adds timers while no pass is running; the callbacks call
`handle_timers` again and do nothing else to the class.

Each visit of an active slot is recorded: the timer that is in it, the time, whether it fired.

    a timeout        fires in the first visit at its deadline or later, and in no other
    an interval      fires in each visit that comes an interval after its last firing

while every visit comes less than 2 ^ 32 - 1 ms after the `created_at` of its timer (`InTime`).
The interval of a timeout whose callback is running is 2 ^ 32 - 1, so none of these visits runs it
again.
-/
import EspIot.Lib.Clock
import EspIot.Lib.Lists
import EspIot.Lib.Run
import EspIot.Misc.Timer
import Mathlib.Data.List.Induction

namespace EspIot

open Lib

/-- A timer as it was added, in time that does not wrap around. -/
structure DatedTimer where
  repeats : Bool
  interval : UInt32
  addedAt : ℕ
deriving DecidableEq

/-- A pass looks at the slot of the timer with this number. -/
structure TimerVisit where
  timer : ℕ
  time : ℕ
  fired : Bool
deriving DecidableEq

/-! ## When timers are to fire -/

/-- The time of the last firing, or the time given where there is none. -/
def lastFiring (start : ℕ) (visits : List TimerVisit) : ℕ :=
  visits.foldl (fun last visit => if visit.fired then visit.time else last) start

/-- A visit fires exactly if it is the first one at the deadline or later. -/
def FiresOnce (deadline : ℕ) (visits : List TimerVisit) : Prop :=
  ∀ before visit after, visits = before ++ visit :: after →
    (visit.fired = true ↔ deadline ≤ visit.time ∧ ∀ earlier ∈ before, earlier.time < deadline)

/-- A visit fires exactly if the interval has passed since the last firing. -/
def FiresRepeatedly (interval start : ℕ) (visits : List TimerVisit) : Prop :=
  ∀ before visit after, visits = before ++ visit :: after →
    (visit.fired = true ↔ lastFiring start before + interval ≤ visit.time)

/-- The interval lies between any two firings. -/
def FiresApart (interval : ℕ) (visits : List TimerVisit) : Prop :=
  (visits.filter (·.fired)).Pairwise fun earlier later => earlier.time + interval ≤ later.time

namespace DatedTimer

def deadline (timer : DatedTimer) : ℕ := timer.addedAt + timer.interval.toNat

/-- What `created_at` stands for. -/
def created (timer : DatedTimer) (visits : List TimerVisit) : ℕ :=
  if timer.repeats then lastFiring timer.addedAt visits else timer.addedAt

def OnTime (timer : DatedTimer) (visits : List TimerVisit) : Prop :=
  if timer.repeats then
    FiresRepeatedly timer.interval.toNat timer.addedAt visits ∧
      FiresApart timer.interval.toNat visits
  else FiresOnce timer.deadline visits

end DatedTimer

/-! ## The machine -/

/-- A `Timer` in a run, the time, the timers in the order they were added, and the visits. -/
structure TimedTimers (Fn : Type*) where
  run : TimerRun Fn := {}
  time : ℕ
  timers : List DatedTimer := []
  visits : List TimerVisit := []

/-- What happens, with the time that passes before `millis()` is read. -/
inductive TimedTimerEvent (Fn : Type*)
  /-- the main program adds a timer -/
  | add (ticks : ℕ) (callback : Fn) (interval : UInt32) (repeats : Bool) (parameter : ℕ)
      (memory : Bool)
  /-- the main program or a callback calls `handle_timers` -/
  | handle
  | visit (ticks : ℕ)
  | ret (stale : Bool)

namespace TimedTimers

variable {Fn : Type*}

def visitsOf (s : TimedTimers Fn) (k : ℕ) : List TimerVisit :=
  s.visits.filter fun visit => visit.timer == k

/-- What the pass on top is about to find, if there is a timer in its slot. -/
def visited (s : TimedTimers Fn) (time : ℕ) : Option TimerVisit :=
  match s.run.frames with
  | .pass i :: _ =>
      match s.run.timer.entries[i]?, s.run.ledger.owner i with
      | some entry, some k => some ⟨k, time, Timer.due entry (reading time)⟩
      | _, _ => none
  | _ => none

def step (s : TimedTimers Fn) : TimedTimerEvent Fn → Option (TimedTimers Fn)
  | .add ticks callback interval repeats parameter memory =>
      if s.run.frames.isEmpty then
        let time := s.time + ticks
        some { s with
          run := s.run.add callback interval repeats parameter (reading time) memory
          time
          timers :=
            match (s.run.timer.add callback interval repeats parameter (reading time) memory).2 with
            | some _ => s.timers ++ [{ repeats, interval, addedAt := time }]
            | none => s.timers }
      else none
  | .handle => (s.run.step .handle).map fun run => { s with run }
  | .visit ticks =>
      let time := s.time + ticks
      (s.run.step (.visit (reading time))).map fun run =>
        { s with run, time, visits := s.visits ++ (s.visited time).toList }
  | .ret stale => (s.run.step (.ret stale)).map fun run => { s with run }

/-- A timer is visited less than 2 ^ 32 - 1 ms after its `created_at`. -/
def InTime (s : TimedTimers Fn) : TimedTimerEvent Fn → Prop
  | .visit ticks => ∀ visit timer, s.visited (s.time + ticks) = some visit →
      s.timers[visit.timer]? = some timer →
      visit.time < timer.created (s.visitsOf visit.timer) + (2 ^ 32 - 1)
  | _ => True

end TimedTimers

/-! ## One more visit -/

theorem lastFiring_concat (start : ℕ) (visits : List TimerVisit) (visit : TimerVisit) :
    lastFiring start (visits ++ [visit]) =
      if visit.fired then visit.time else lastFiring start visits := by
  rw [lastFiring, List.foldl_concat]
  rfl

theorem firesOnce_concat {deadline : ℕ} {visits : List TimerVisit} {visit : TimerVisit} :
    FiresOnce deadline (visits ++ [visit]) ↔ FiresOnce deadline visits ∧
      (visit.fired = true ↔ deadline ≤ visit.time ∧ ∀ earlier ∈ visits, earlier.time < deadline) :=
  forall_split_concat

theorem firesRepeatedly_concat {interval start : ℕ} {visits : List TimerVisit}
    {visit : TimerVisit} :
    FiresRepeatedly interval start (visits ++ [visit]) ↔
      FiresRepeatedly interval start visits ∧
        (visit.fired = true ↔ lastFiring start visits + interval ≤ visit.time) :=
  forall_split_concat

theorem FiresOnce.fired_iff {deadline : ℕ} {visits : List TimerVisit}
    (h : FiresOnce deadline visits) :
    (∃ visit ∈ visits, visit.fired = true) ↔ ∃ visit ∈ visits, deadline ≤ visit.time := by
  induction visits using List.reverseRecOn with
  | nil => simp
  | append_singleton visits last ih =>
      obtain ⟨hvisits, hlast⟩ := firesOnce_concat.mp h
      constructor
      · rintro ⟨visit, hmem, hfired⟩
        rcases List.mem_append.mp hmem with hold | hnew
        · obtain ⟨due, hdue, hle⟩ := (ih hvisits).mp ⟨visit, hold, hfired⟩
          exact ⟨due, List.mem_append_left _ hdue, hle⟩
        · rw [List.mem_singleton.mp hnew] at hfired
          exact ⟨last, by simp, (hlast.mp hfired).1⟩
      · rintro ⟨visit, hmem, hle⟩
        by_cases hearlier : ∃ due ∈ visits, deadline ≤ due.time
        · obtain ⟨fired, hfired, htrue⟩ := (ih hvisits).mpr hearlier
          exact ⟨fired, List.mem_append_left _ hfired, htrue⟩
        · -- the last visit is the first due one
          have hnone : ∀ earlier ∈ visits, earlier.time < deadline := by
            intro earlier hearly
            by_contra hnot
            exact hearlier ⟨earlier, hearly, Nat.le_of_not_lt hnot⟩
          have hvisit : visit = last := by
            rcases List.mem_append.mp hmem with hold | hnew
            · exact absurd hle (Nat.not_le.mpr (hnone visit hold))
            · exact List.mem_singleton.mp hnew
          exact ⟨last, by simp, hlast.mpr ⟨hvisit ▸ hle, hnone⟩⟩

theorem le_lastFiring (start : ℕ) {visits : List TimerVisit}
    (hsorted : visits.Pairwise fun earlier later => earlier.time ≤ later.time) :
    ∀ visit ∈ visits, visit.fired = true → visit.time ≤ lastFiring start visits := by
  induction visits using List.reverseRecOn with
  | nil =>
      intro visit hmem
      cases hmem
  | append_singleton visits last ih =>
      obtain ⟨hvisits, -, hle⟩ := List.pairwise_append.mp hsorted
      intro visit hmem hfired
      rw [lastFiring_concat]
      rcases List.mem_append.mp hmem with hold | hnew
      · split
        · exact hle visit hold last (by simp)
        · exact ih hvisits visit hold hfired
      · rw [List.mem_singleton.mp hnew] at hfired ⊢
        rw [if_pos hfired]

theorem FiresApart.concat {interval start : ℕ} {visits : List TimerVisit} {visit : TimerVisit}
    (h : FiresApart interval visits)
    (hsorted : visits.Pairwise fun earlier later => earlier.time ≤ later.time)
    (hvisit : visit.fired = true → lastFiring start visits + interval ≤ visit.time) :
    FiresApart interval (visits ++ [visit]) := by
  rw [FiresApart, List.filter_append, List.pairwise_append]
  refine ⟨h, ?_, ?_⟩
  · exact (List.pairwise_singleton ..).sublist List.filter_sublist
  · intro earlier hearlier later hlater
    obtain ⟨hmem, hfired⟩ := List.mem_filter.mp hearlier
    obtain ⟨hlast, hdue⟩ := List.mem_filter.mp hlater
    rw [List.mem_singleton.mp hlast] at hdue ⊢
    have hle := le_lastFiring start hsorted earlier hmem hfired
    have := hvisit hdue
    omega

namespace DatedTimer

theorem created_nil (timer : DatedTimer) : timer.created [] = timer.addedAt := by
  rw [created]
  split <;> rfl

theorem onTime_nil (timer : DatedTimer) : timer.OnTime [] := by
  have hsplit : ∀ before (visit : TimerVisit) after, [] ≠ before ++ visit :: after := by simp
  rw [OnTime]
  split
  · exact ⟨fun _ _ _ heq => absurd heq (hsplit _ _ _), List.Pairwise.nil⟩
  · exact fun _ _ _ heq => absurd heq (hsplit _ _ _)

/-- The timer is to fire in a visit at this time, after these. -/
def Due (timer : DatedTimer) (visits : List TimerVisit) (time : ℕ) : Prop :=
  if timer.repeats then lastFiring timer.addedAt visits + timer.interval.toNat ≤ time
  else timer.deadline ≤ time ∧ ∀ earlier ∈ visits, earlier.time < timer.deadline

theorem OnTime.concat {timer : DatedTimer} {visits : List TimerVisit} {visit : TimerVisit}
    (h : timer.OnTime visits)
    (hsorted : visits.Pairwise fun earlier later => earlier.time ≤ later.time)
    (hvisit : visit.fired = true ↔ timer.Due visits visit.time) :
    timer.OnTime (visits ++ [visit]) := by
  rw [OnTime] at h ⊢
  rw [Due] at hvisit
  split at h
  · rename_i hrepeats
    rw [if_pos hrepeats] at hvisit ⊢
    obtain ⟨hrepeatedly, hapart⟩ := h
    exact ⟨firesRepeatedly_concat.mpr ⟨hrepeatedly, hvisit⟩, hapart.concat hsorted hvisit.mp⟩
  · rename_i honce
    rw [if_neg honce] at hvisit ⊢
    exact firesOnce_concat.mpr ⟨h, hvisit⟩

def intervalNow (timer : DatedTimer) (visits : List TimerVisit) : UInt32 :=
  if !timer.repeats && visits.any (·.fired) then 0xFFFFFFFF else timer.interval

/-- A slot holds the timer as it is after these visits. -/
structure InSlot (timer : DatedTimer) (visits : List TimerVisit) {Fn : Type*}
    (entry : TimerEntry Fn) : Prop where
  repeats : entry.repeats = timer.repeats
  createdAt : entry.createdAt = reading (timer.created visits)
  interval : entry.interval = timer.intervalNow visits

variable {Fn : Type*} {timer : DatedTimer} {visits : List TimerVisit} {entry : TimerEntry Fn}

theorem due_iff_elapsed {created time : ℕ} (hactive : entry.active = true)
    (hcreated : entry.createdAt = reading created) (hle : created ≤ time)
    (hlt : time < created + (2 ^ 32 - 1)) :
    Timer.due entry (reading time) = true ↔ created + entry.interval.toNat ≤ time := by
  have helapsed : (reading time - reading created).toNat = time - created := by
    rw [reading_sub hle]
    exact Nat.mod_eq_of_lt (by omega)
  rw [Timer.due, hactive, hcreated, Bool.true_and, Bool.not_eq_true', decide_eq_false_iff_not,
    UInt32.lt_iff_toNat_lt, helapsed]
  omega

/-- **The test of a visit in time says whether the timer is to fire.** -/
theorem InSlot.due_iff (h : timer.InSlot visits entry) (hactive : entry.active = true)
    (honTime : timer.OnTime visits) {time : ℕ} (hle : timer.created visits ≤ time)
    (hlt : time < timer.created visits + (2 ^ 32 - 1)) :
    Timer.due entry (reading time) = true ↔ timer.Due visits time := by
  rw [due_iff_elapsed hactive h.createdAt hle hlt, h.interval, Due, intervalNow]
  rw [created] at hle hlt ⊢
  rw [OnTime] at honTime
  cases hrepeats : timer.repeats with
  | true => simp
  | false =>
      simp only [hrepeats, Bool.false_eq_true, if_false] at hle hlt honTime ⊢
      have hfired := honTime.fired_iff
      by_cases hany : ∃ visit ∈ visits, visit.fired = true
      · -- the interval is that of a running timeout
        rw [if_pos (by simpa using hany)]
        obtain ⟨visit, hmem, hdue⟩ := hfired.mp hany
        refine iff_of_false ?_ ?_
        · show ¬ timer.addedAt + 4294967295 ≤ time
          omega
        · rintro ⟨-, hnone⟩
          exact absurd hdue (Nat.not_le.mpr (hnone visit hmem))
      · rw [if_neg (by simpa using hany)]
        refine (and_iff_left ?_).symm
        intro earlier hmem
        by_contra hnot
        exact hany (hfired.mpr ⟨earlier, hmem, Nat.le_of_not_lt hnot⟩)

theorem InSlot.concat (h : timer.InSlot visits entry) (visit : TimerVisit) :
    timer.InSlot (visits ++ [visit])
      (if visit.fired then Timer.arm entry (reading visit.time) else entry) := by
  obtain ⟨hrepeats, hcreated, hinterval⟩ := h
  rw [created] at hcreated
  rw [intervalNow] at hinterval
  cases hfired : visit.fired with
  | false =>
      simp only [Bool.false_eq_true, if_false]
      refine ⟨hrepeats, ?_, ?_⟩
      · rw [hcreated, created, lastFiring_concat, hfired]
        rfl
      · rw [hinterval, intervalNow]
        simp [hfired]
  | true =>
      simp only [if_true]
      refine ⟨by rw [Timer.arm_repeats, hrepeats], ?_, ?_⟩
      · rw [created, lastFiring_concat, hfired, Timer.arm, hrepeats]
        cases hr : timer.repeats with
        | true => rfl
        | false =>
            rw [hr] at hcreated
            exact hcreated
      · rw [intervalNow, Timer.arm, hrepeats]
        cases hr : timer.repeats with
        | true =>
            rw [hr] at hinterval
            exact hinterval
        | false => simp [hfired]

theorem created_concat_le {visit : TimerVisit} (h : timer.created visits ≤ visit.time) :
    timer.created (visits ++ [visit]) ≤ visit.time := by
  rw [created] at h ⊢
  split at h
  · rename_i hrepeats
    rw [if_pos hrepeats, lastFiring_concat]
    split
    · exact Nat.le_refl _
    · exact h
  · rename_i honce
    rw [if_neg honce]
    exact h

end DatedTimer

end EspIot
