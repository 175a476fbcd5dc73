/-
# `EspIot.Async.Waiting` — `wait` beside the calls that settle the promise

The one call that blocks: a task reads the flag until it is set or the time is up, while the
other calls take their steps.  Each read of the flag and of the clock is a step of its own.  How
long a `delay` takes is open, whatever `delay_interval` asks for, and so is how long a task that
could go on is kept from it.

    enter ── finished ──▶ true
      └──▶ begin ──▶ test ── finished ───▶ leave ──▶ the flag as it is now
                      ▲ └──▶ compare ── time is up ──▲
                      │         └── in time ──▶ delay
                      └──────────────────────────┘

Nothing is locked, so the promise may be settled between the last look at the clock and the
answer; what the answer says is true all the same.
-/
import EspIot.Async.Settlement
import EspIot.Lib.Clock

namespace EspIot

open Lib

/-- Where a call of `wait` stands: before a read, in its delay, or back with an answer. -/
inductive WaitPlace
  | enter
  | begin
  | test
  | compare
  | delay
  | leave
  | returned (finished : Bool)
deriving DecidableEq

/-- A call of `wait(timeout, …)` with its `start`, when it was made and when it last took a step. -/
structure PromiseWaiter where
  timeout : UInt32
  place : WaitPlace := .enter
  start : UInt32 := 0
  called : ℕ
  stepped : ℕ
deriving DecidableEq

namespace PromiseWaiter

def wait (timeout : UInt32) (now : ℕ) : PromiseWaiter :=
  { timeout, called := now, stepped := now }

/-- One step of the call, by what the flag and the clock show. -/
def next (finished : Bool) (now : ℕ) (w : PromiseWaiter) : PromiseWaiter :=
  match w.place with
  | .enter => { w with place := if finished then .returned true else .begin, stepped := now }
  | .begin => { w with place := .test, start := reading now, stepped := now }
  | .test => { w with place := if finished then .leave else .compare, stepped := now }
  | .compare =>
      { w with
        place := if w.timeout = 0 ∨ reading now - w.start < w.timeout then .delay else .leave
        stepped := now }
  | .delay => { w with place := .test, stepped := now }
  | .leave => { w with place := .returned finished, stepped := now }
  | .returned _ => w

/-- The call has a timeout, and it has passed. -/
def Expired (w : PromiseWaiter) (now : ℕ) : Prop :=
  w.timeout ≠ 0 ∧ w.called + w.timeout.toNat ≤ now

def Waiting (w : PromiseWaiter) : Prop := ∀ finished, w.place ≠ .returned finished

instance (w : PromiseWaiter) (now : ℕ) : Decidable (w.Expired now) :=
  inferInstanceAs (Decidable (_ ∧ _))

instance (w : PromiseWaiter) : Decidable w.Waiting :=
  inferInstanceAs (Decidable (∀ _ : Bool, _))

end PromiseWaiter

/-- A promise with the calls on it, those that wait for it, the time, and when it was finished. -/
structure PromiseWait (V K : Type*) where
  promise : PromiseRun V K
  waiters : List PromiseWaiter := []
  now : ℕ
  settledAt : Option ℕ := none
deriving DecidableEq

/-- Another party takes a step, `wait` is called, a call of it takes a step, time passes. -/
inductive PromiseWaitEvent
  | promise (e : PromiseEvent)
  | wait (timeout : UInt32)
  | waiter (i : ℕ)
  | elapse (ms : ℕ)
deriving DecidableEq

namespace PromiseWait

variable {V K : Type*}

def start (calls : List (PromiseCall V K)) (now : ℕ) : PromiseWait V K :=
  { promise := .start calls, now }

def step (s : PromiseWait V K) : PromiseWaitEvent → Option (PromiseWait V K)
  | .promise e =>
      (s.promise.step e).map fun promise =>
        { s with
          promise
          settledAt := s.settledAt.or (if promise.promise.finished then some s.now else none) }
  | .wait timeout => some { s with waiters := s.waiters ++ [.wait timeout s.now] }
  | .waiter i =>
      match s.waiters[i]? with
      | some w =>
          some { s with waiters := s.waiters.set i (w.next s.promise.promise.finished s.now) }
      | none => none
  | .elapse ms => some { s with now := s.now + ms }

/-- The time that is kept is that of the flag. -/
structure Dated (s : PromiseWait V K) : Prop where
  finished : s.settledAt.isSome = s.promise.promise.finished
  past : ∀ t ∈ s.settledAt, t ≤ s.now

theorem Dated.start (calls : List (PromiseCall V K)) (now : ℕ) : Dated (start calls now) :=
  ⟨rfl, nofun⟩

theorem Dated.step (s : PromiseWait V K) (e : PromiseWaitEvent) (s' : PromiseWait V K)
    (h : Dated s) (hs : s.step e = some s') : Dated s' := by
  cases e with
  | promise e =>
      obtain ⟨p, hp, rfl⟩ := Option.map_eq_some_iff.mp hs
      have hkeeps : s.promise.promise.finished = true → p.promise.finished = true :=
        fun hf => (PromiseRun.step_final _ e p hp hf).1
      cases hsettled : s.settledAt with
      | some t =>
          have hf : p.promise.finished = true := hkeeps (by rw [← h.finished, hsettled]; rfl)
          exact ⟨hf.symm, fun t' ht' => h.past t' (hsettled.trans ht')⟩
      | none =>
          refine ⟨?_, ?_⟩
          · show (if p.promise.finished then some s.now else none).isSome = p.promise.finished
            cases p.promise.finished <;> rfl
          · intro t ht
            change t ∈ if p.promise.finished then some s.now else none at ht
            split at ht <;> cases ht
            exact Nat.le_refl _
  | wait timeout => cases hs; exact ⟨h.finished, h.past⟩
  | waiter i =>
      simp only [PromiseWait.step] at hs
      split at hs <;> cases hs
      exact ⟨h.finished, h.past⟩
  | elapse ms =>
      cases hs
      exact ⟨h.finished, fun t ht => Nat.le_add_right_of_le (h.past t ht)⟩

/-- What a step has to keep of the calls of `wait`, party by party: the promise is settled, a
call is made, a call takes a step, time passes. -/
theorem forall_waiters {Q : ℕ → Option ℕ → PromiseWaiter → Prop} {s s' : PromiseWait V K}
    {e : PromiseWaitEvent} (hdated : Dated s) (hs : s.step e = some s')
    (hsettle : ∀ w, s.settledAt = none → Q s.now none w → Q s.now (some s.now) w)
    (hwait : ∀ timeout, Q s.now s.settledAt (.wait timeout s.now))
    (hnext : ∀ w ∈ s.waiters, Q s.now s.settledAt w →
      Q s.now s.settledAt (w.next s.settledAt.isSome s.now))
    (helapse : ∀ ms w, Q s.now s.settledAt w → Q (s.now + ms) s.settledAt w)
    (h : ∀ w ∈ s.waiters, Q s.now s.settledAt w) : ∀ w ∈ s'.waiters, Q s'.now s'.settledAt w := by
  cases e with
  | promise e =>
      obtain ⟨p, hp, rfl⟩ := Option.map_eq_some_iff.mp hs
      intro w hw
      have hQ := h w hw
      show Q s.now (s.settledAt.or _) w
      cases hsettled : s.settledAt with
      | some t => rwa [hsettled] at hQ
      | none =>
          rw [hsettled] at hQ
          cases p.promise.finished with
          | true => exact hsettle w hsettled hQ
          | false => exact hQ
  | wait timeout =>
      cases hs
      intro w hw
      rcases List.mem_append.mp hw with hw | hw
      · exact h w hw
      · rw [List.mem_singleton.mp hw]
        exact hwait timeout
  | waiter i =>
      simp only [PromiseWait.step] at hs
      split at hs <;> cases hs
      rename_i w₀ hi
      intro w hw
      have hw₀ := List.mem_of_getElem? hi
      rcases List.mem_or_eq_of_mem_set hw with hw | rfl
      · exact h w hw
      · rw [← hdated.finished]
        exact hnext w₀ hw₀ (h w₀ hw₀)
  | elapse ms =>
      cases hs
      exact fun w hw => helapse ms w (h w hw)

/-! ## What the answer says -/

/-- What a call knows, by where it stands. -/
def Knows (now : ℕ) (settledAt : Option ℕ) (w : PromiseWaiter) : WaitPlace → Prop
  | .enter | .begin => True
  | .test | .compare | .delay =>
      ∃ begun, w.called ≤ begun ∧ begun ≤ now ∧ w.start = reading begun
  | .leave => settledAt.isSome = true ∨ w.Expired now
  | .returned true => settledAt.isSome = true
  | .returned false => w.Expired now ∧ ∀ t ∈ settledAt, w.called + w.timeout.toNat ≤ t

/-- The answer is true: `true` is said of a finished promise, and `false` after the timeout, which
the promise has let pass. -/
def Truthful (s : PromiseWait V K) (w : PromiseWaiter) : Prop :=
  match w.place with
  | .returned true => s.promise.promise.finished = true
  | .returned false => w.timeout ≠ 0 ∧ w.called + w.timeout.toNat ≤ s.now ∧
      ∀ t ∈ s.settledAt, w.called + w.timeout.toNat ≤ t
  | _ => True

theorem Knows.truthful {s : PromiseWait V K} {w : PromiseWaiter} (hdated : Dated s)
    (h : Knows s.now s.settledAt w w.place) : s.Truthful w := by
  rw [Truthful]
  split
  · next hplace =>
      rw [hplace] at h
      exact hdated.finished.symm.trans h
  · next hplace =>
      rw [hplace] at h
      exact ⟨h.1.1, h.1.2, h.2⟩
  · trivial

theorem Knows.settle {now : ℕ} {w : PromiseWaiter} {place : WaitPlace}
    (h : Knows now none w place) : Knows now (some now) w place := by
  cases place with
  | leave => exact .inl rfl
  | returned finished =>
      cases finished with
      | true => exact rfl
      | false =>
          refine ⟨h.1, fun t ht => ?_⟩
          cases ht
          exact h.1.2
  | _ => exact h

theorem Knows.elapse {now : ℕ} {settledAt : Option ℕ} {w : PromiseWaiter} {place : WaitPlace}
    (h : Knows now settledAt w place) (ms : ℕ) : Knows (now + ms) settledAt w place := by
  have hexpired (h : w.Expired now) : w.Expired (now + ms) :=
    ⟨h.1, Nat.le_add_right_of_le h.2⟩
  cases place with
  | enter | begin => exact h
  | test | compare | delay =>
      obtain ⟨begun, hcalled, hbegun, hstart⟩ := h
      exact ⟨begun, hcalled, Nat.le_add_right_of_le hbegun, hstart⟩
  | leave => exact h.imp_right hexpired
  | returned finished =>
      cases finished with
      | true => exact h
      | false => exact ⟨hexpired h.1, h.2⟩

theorem expired_of_reading {now begun : ℕ} {w : PromiseWaiter} (hcalled : w.called ≤ begun)
    (hbegun : begun ≤ now) (hstart : w.start = reading begun)
    (hup : ¬ (w.timeout = 0 ∨ reading now - w.start < w.timeout)) : w.Expired now := by
  obtain ⟨hzero, hle⟩ := not_or.mp hup
  rw [hstart, UInt32.not_lt, UInt32.le_iff_toNat_le] at hle
  have hpassed := reading_sub_le hbegun
  refine ⟨hzero, ?_⟩
  omega

theorem Knows.next {now : ℕ} {settledAt : Option ℕ} {w : PromiseWaiter}
    (hcalled : w.called ≤ now) (h : Knows now settledAt w w.place) :
    Knows now settledAt (w.next settledAt.isSome now) (w.next settledAt.isSome now).place := by
  rw [PromiseWaiter.next]
  split
  all_goals rename_i hplace; rw [hplace] at h
  · show Knows now settledAt _ (if settledAt.isSome then .returned true else .begin)
    split
    · assumption
    · trivial
  · exact ⟨now, hcalled, Nat.le_refl _, rfl⟩
  · show Knows now settledAt _ (if settledAt.isSome then .leave else .compare)
    split
    · exact .inl ‹_›
    · exact h
  · obtain ⟨begun, hbegun, hnow, hstart⟩ := h
    show Knows now settledAt _ (if _ then .delay else .leave)
    split
    · exact ⟨begun, hbegun, hnow, hstart⟩
    · exact .inr (expired_of_reading hbegun hnow hstart ‹_›)
  · exact h
  · show Knows now settledAt _ (.returned settledAt.isSome)
    cases settledAt with
    | some t => exact rfl
    | none =>
        -- the promise is not finished, so it was the clock that ended the loop
        exact ⟨h.resolve_left nofun, nofun⟩
  · rw [hplace]
    exact h

/-- The invariant: every call was made by now and knows what its place says. -/
structure Telling (s : PromiseWait V K) : Prop where
  dated : Dated s
  waiters : ∀ w ∈ s.waiters, w.called ≤ s.now ∧ Knows s.now s.settledAt w w.place

@[simp] theorem next_called (finished : Bool) (now : ℕ) (w : PromiseWaiter) :
    (w.next finished now).called = w.called := by
  rw [PromiseWaiter.next]
  split <;> rfl

@[simp] theorem next_timeout (finished : Bool) (now : ℕ) (w : PromiseWaiter) :
    (w.next finished now).timeout = w.timeout := by
  rw [PromiseWaiter.next]
  split <;> rfl

theorem Telling.step (s : PromiseWait V K) (e : PromiseWaitEvent) (s' : PromiseWait V K)
    (h : Telling s) (hs : s.step e = some s') : Telling s' where
  dated := h.dated.step s e s' hs
  waiters := by
    refine forall_waiters (Q := fun now settledAt w =>
      w.called ≤ now ∧ Knows now settledAt w w.place) h.dated hs ?_ ?_ ?_ ?_ h.waiters
    · intro w _ hw
      exact ⟨hw.1, hw.2.settle⟩
    · intro timeout
      exact ⟨Nat.le_refl _, trivial⟩
    · intro w _ hw
      exact ⟨by rw [next_called]; exact hw.1, hw.2.next hw.1⟩
    · intro ms w hw
      exact ⟨Nat.le_add_right_of_le hw.1, hw.2.elapse ms⟩

/-- **A wait tells the truth.**  Whatever steps the tasks take and in whatever order, each answer
`true` is given of a promise that is finished, and each answer `false` by a call whose timeout,
counted in true time from the call, is over and has passed without the promise being finished. -/
theorem wait_truthful (calls : List (PromiseCall V K)) (now : ℕ) (es : List PromiseWaitEvent) :
    Always step (fun s => ∀ w ∈ s.waiters, s.Truthful w) (start calls now) es := by
  refine Always.of_each (I := Telling) (C := fun _ _ => True) ?_ ?_ ?_ ?_
  · intro s h w hw
    exact (h.waiters w hw).2.truthful h.dated
  · intro s e s' h _ hs
    exact h.step s e s' hs
  · exact ⟨.start calls now, nofun⟩
  · exact Each.of_forall fun _ _ _ => trivial

/-! ## How long it takes -/

/-- No call of `wait` is kept from its next step for longer than `gap`. -/
def Served (gap : ℕ) (s : PromiseWait V K) : Prop :=
  ∀ w ∈ s.waiters, w.Waiting → s.now ≤ w.stepped + gap

instance (gap : ℕ) (s : PromiseWait V K) : Decidable (Served gap s) :=
  inferInstanceAs (Decidable (∀ w ∈ s.waiters, w.Waiting → s.now ≤ w.stepped + gap))

/-- The steps to the answer once the promise is finished. -/
def stepsLeft : WaitPlace → ℕ
  | .returned _ => 0
  | .enter | .leave => 1
  | .test => 2
  | .begin | .delay => 3
  | .compare => 4

/-- A call that waits for a finished promise is as near to its answer as its steps since. -/
def Noticing (gap now : ℕ) (settledAt : Option ℕ) (w : PromiseWaiter) : Prop :=
  w.stepped ≤ now ∧ (w.Waiting → ∀ t ∈ settledAt,
    w.stepped + stepsLeft w.place * gap ≤ max t w.called + 4 * gap)

/-- Where a call with a timeout stands by the clock. -/
def OnTime (gap now : ℕ) (w : PromiseWaiter) : WaitPlace → Prop
  | .enter => w.stepped ≤ w.called
  | .begin => w.stepped ≤ w.called + gap
  | .test => Looping 1
  | .compare => Looping 2
  | .delay => Looping 0
  | .leave => w.stepped ≤ w.called + w.timeout.toNat + 5 * gap
  | .returned _ => True
where
  /-- In the loop, `steps` after a look at the clock that found the call in time. -/
  Looping (steps : ℕ) : Prop :=
    ∃ begun, w.start = reading begun ∧ begun ≤ now ∧ begun ≤ w.called + 2 * gap ∧
      w.stepped ≤ begun + w.timeout.toNat + steps * gap

/-- The call comes back in time: within four steps of the settlement, with `true` unless the
timeout was over before, and within six of its timeout. -/
structure InTime (gap : ℕ) (s : PromiseWait V K) (w : PromiseWaiter) : Prop where
  settled : ∀ t ∈ s.settledAt, max t w.called + 4 * gap < s.now →
    ∃ finished, w.place = .returned finished ∧
      (w.timeout = 0 ∨ t < w.called + w.timeout.toNat → finished = true)
  expired : w.timeout ≠ 0 → w.timeout.toNat + 3 * gap < 2 ^ 32 →
    w.called + w.timeout.toNat + 6 * gap < s.now → ∃ finished, w.place = .returned finished

theorem Noticing.settle {gap now : ℕ} {w : PromiseWaiter} (h : Noticing gap now none w) :
    Noticing gap now (some now) w := by
  refine ⟨h.1, fun _ t ht => ?_⟩
  cases ht
  have hleft : stepsLeft w.place ≤ 4 := by
    cases w.place <;> simp [stepsLeft]
  exact Nat.add_le_add (h.1.trans (Nat.le_max_left _ _)) (Nat.mul_le_mul_right gap hleft)

theorem Noticing.wait (gap now : ℕ) (settledAt : Option ℕ) (timeout : UInt32) :
    Noticing gap now settledAt (.wait timeout now) := by
  refine ⟨Nat.le_refl _, fun _ t _ => ?_⟩
  show now + 1 * gap ≤ max t now + 4 * gap
  omega

theorem stepsLeft_next {w : PromiseWaiter} (now : ℕ) (hwaiting : w.Waiting) :
    stepsLeft (w.next true now).place + 1 ≤ stepsLeft w.place := by
  rw [PromiseWaiter.next]
  split
  all_goals rename_i hplace; rw [hplace]
  · exact Nat.le_refl _
  · exact Nat.le_refl _
  · exact Nat.le_refl _
  · show stepsLeft (if _ then .delay else .leave) + 1 ≤ 4
    split <;> decide
  · exact Nat.le_refl _
  · exact Nat.le_refl _
  · exact absurd hplace (hwaiting _)

theorem next_stepped {w : PromiseWaiter} (finished : Bool) (now : ℕ) (hwaiting : w.Waiting) :
    (w.next finished now).stepped = now := by
  rw [PromiseWaiter.next]
  split
  case h_7 hplace => exact absurd hplace (hwaiting _)
  all_goals rfl

theorem next_returned {w : PromiseWaiter} (finished : Bool) (now : ℕ) {answer : Bool}
    (hplace : w.place = .returned answer) : w.next finished now = w := by
  rw [PromiseWaiter.next, hplace]

theorem waiting_or_returned (w : PromiseWaiter) :
    w.Waiting ∨ ∃ finished, w.place = .returned finished := by
  rw [Classical.or_iff_not_imp_right]
  exact fun h finished hplace => h ⟨finished, hplace⟩

theorem Noticing.next {gap now : ℕ} {settledAt : Option ℕ} {w : PromiseWaiter}
    (hserved : w.Waiting → now ≤ w.stepped + gap) (h : Noticing gap now settledAt w) :
    Noticing gap now settledAt (w.next settledAt.isSome now) := by
  rcases waiting_or_returned w with hwaiting | ⟨answer, hplace⟩
  · refine ⟨Nat.le_of_eq (next_stepped _ now hwaiting), fun _ t ht => ?_⟩
    rw [next_stepped _ now hwaiting, next_called]
    have hleft := stepsLeft_next now hwaiting
    have hnow := hserved hwaiting
    have hstepped := h.2 hwaiting t ht
    cases ht
    calc now + stepsLeft (w.next true now).place * gap
        ≤ w.stepped + (stepsLeft (w.next true now).place + 1) * gap := by
          rw [Nat.succ_mul]
          omega
      _ ≤ w.stepped + stepsLeft w.place * gap :=
          Nat.add_le_add_left (Nat.mul_le_mul_right gap hleft) _
      _ ≤ max t w.called + 4 * gap := hstepped
  · rw [next_returned _ now hplace]
    exact h

theorem in_time_of_reading {now begun : ℕ} {w : PromiseWaiter} (hzero : w.timeout ≠ 0)
    (hbegun : begun ≤ now) (hstart : w.start = reading begun) (hturn : now < begun + 2 ^ 32)
    (hin : w.timeout = 0 ∨ reading now - w.start < w.timeout) :
    now ≤ begun + w.timeout.toNat := by
  have hlt := hin.resolve_left hzero
  rw [hstart, UInt32.lt_iff_toNat_lt, reading_sub hbegun,
    Nat.mod_eq_of_lt (Nat.sub_lt_left_of_lt_add hbegun hturn)] at hlt
  omega

theorem OnTime.next {gap now : ℕ} {w : PromiseWaiter} (finished : Bool) (hzero : w.timeout ≠ 0)
    (hturn : w.timeout.toNat + 3 * gap < 2 ^ 32) (hserved : w.Waiting → now ≤ w.stepped + gap)
    (h : OnTime gap now w w.place) :
    OnTime gap now (w.next finished now) (w.next finished now).place := by
  rcases waiting_or_returned w with hwaiting | ⟨answer, hplace⟩
  case inr =>
    rw [next_returned _ now hplace]
    exact h
  have hnow := hserved hwaiting
  rw [PromiseWaiter.next]
  split
  all_goals rename_i hplace; rw [hplace] at h
  · have hentered : w.stepped ≤ w.called := h
    show OnTime gap now _ (if finished then .returned true else .begin)
    split
    · trivial
    · show now ≤ w.called + gap
      omega
  · have hbegan : w.stepped ≤ w.called + gap := h
    refine ⟨now, rfl, Nat.le_refl _, ?_, ?_⟩
    · show now ≤ w.called + 2 * gap
      omega
    · show now ≤ now + w.timeout.toNat + 1 * gap
      omega
  · obtain ⟨begun, hstart, hbegun, hcalled, hstepped⟩ := h
    show OnTime gap now _ (if finished then .leave else .compare)
    split
    · show now ≤ w.called + w.timeout.toNat + 5 * gap
      omega
    · refine ⟨begun, hstart, hbegun, hcalled, ?_⟩
      show now ≤ begun + w.timeout.toNat + 2 * gap
      omega
  · obtain ⟨begun, hstart, hbegun, hcalled, hstepped⟩ := h
    show OnTime gap now _ (if _ then .delay else .leave)
    split
    · rename_i hin
      have hpassed : now < begun + 2 ^ 32 := by omega
      have hin_time := in_time_of_reading hzero hbegun hstart hpassed hin
      exact ⟨begun, hstart, hbegun, hcalled, Nat.le_add_right_of_le hin_time⟩
    · show now ≤ w.called + w.timeout.toNat + 5 * gap
      omega
  · obtain ⟨begun, hstart, hbegun, hcalled, hstepped⟩ := h
    refine ⟨begun, hstart, hbegun, hcalled, ?_⟩
    show now ≤ begun + w.timeout.toNat + 1 * gap
    omega
  · trivial
  · exact absurd hplace (hwaiting _)

theorem OnTime.elapse {gap now : ℕ} {w : PromiseWaiter} {place : WaitPlace}
    (h : OnTime gap now w place) (ms : ℕ) : OnTime gap (now + ms) w place := by
  have hlooping {steps : ℕ} (h : OnTime.Looping gap now w steps) :
      OnTime.Looping gap (now + ms) w steps := by
    obtain ⟨begun, hstart, hbegun, hcalled, hstepped⟩ := h
    exact ⟨begun, hstart, Nat.le_add_right_of_le hbegun, hcalled, hstepped⟩
  cases place with
  | enter | begin | leave | returned _ => exact h
  | test | compare | delay => exact hlooping h

/-- The invariant of a run in which the calls of `wait` get their turns. -/
structure Keeping (gap : ℕ) (s : PromiseWait V K) : Prop where
  dated : Dated s
  waiters : ∀ w ∈ s.waiters, Noticing gap s.now s.settledAt w ∧
    (w.timeout ≠ 0 → w.timeout.toNat + 3 * gap < 2 ^ 32 → OnTime gap s.now w w.place)

theorem Keeping.step {gap : ℕ} (s : PromiseWait V K) (e : PromiseWaitEvent)
    (s' : PromiseWait V K) (h : Keeping gap s) (hserved : Served gap s)
    (hs : s.step e = some s') : Keeping gap s' where
  dated := h.dated.step s e s' hs
  waiters := by
    refine forall_waiters (Q := fun now settledAt w => Noticing gap now settledAt w ∧
      (w.timeout ≠ 0 → w.timeout.toNat + 3 * gap < 2 ^ 32 → OnTime gap now w w.place))
      h.dated hs ?_ ?_ ?_ ?_ h.waiters
    · intro w _ hw
      exact ⟨hw.1.settle, hw.2⟩
    · intro timeout
      exact ⟨.wait gap s.now s.settledAt timeout, fun _ _ => Nat.le_refl _⟩
    · intro w hmem hw
      refine ⟨hw.1.next (hserved w hmem), ?_⟩
      rw [next_timeout]
      exact fun hzero hturn => (hw.2 hzero hturn).next _ hzero hturn (hserved w hmem)
    · intro ms w hw
      exact ⟨⟨Nat.le_add_right_of_le hw.1.1, hw.1.2⟩, fun hzero hturn =>
        (hw.2 hzero hturn).elapse ms⟩

theorem OnTime.bound {gap now : ℕ} {w : PromiseWaiter} (hwaiting : w.Waiting)
    (h : OnTime gap now w w.place) : w.stepped ≤ w.called + w.timeout.toNat + 5 * gap := by
  cases hplace : w.place with
  | enter | begin =>
      rw [hplace] at h
      simp only [OnTime] at h
      omega
  | leave =>
      rw [hplace] at h
      exact h
  | test | compare | delay =>
      rw [hplace] at h
      obtain ⟨begun, -, -, hcalled, hstepped⟩ := h
      omega
  | returned answer => exact absurd hplace (hwaiting answer)

theorem Keeping.inTime {gap : ℕ} {s : PromiseWait V K} (h : Keeping gap s) (htelling : Telling s)
    (hserved : Served gap s) {w : PromiseWaiter} (hmem : w ∈ s.waiters) : InTime gap s w where
  settled := by
    intro t ht hlate
    rcases waiting_or_returned w with hwaiting | ⟨finished, hplace⟩
    · have hnow := hserved w hmem hwaiting
      have hstepped := (h.waiters w hmem).1.2 hwaiting t ht
      have hleft : 1 ≤ stepsLeft w.place :=
        Nat.le_of_add_left_le (stepsLeft_next s.now hwaiting)
      have hgap : 1 * gap ≤ stepsLeft w.place * gap := Nat.mul_le_mul_right gap hleft
      omega
    · refine ⟨finished, hplace, fun hsoon => ?_⟩
      have hknows := (htelling.waiters w hmem).2
      rw [hplace] at hknows
      cases finished with
      | true => rfl
      | false =>
          have hlet := hknows.2 t ht
          rcases hsoon with hzero | hsoon
          · exact absurd hzero hknows.1.1
          · omega
  expired := by
    intro hzero hturn hlate
    rcases waiting_or_returned w with hwaiting | hreturned
    · have hnow := hserved w hmem hwaiting
      have hstepped := OnTime.bound hwaiting ((h.waiters w hmem).2 hzero hturn)
      omega
    · exact hreturned

/-- **A wait comes back in time.**  Where no call of `wait` is kept from its next step for longer
than `gap`, each is answered within four gaps of the settlement of the promise, with `true` unless
its timeout was over before; and one with a timeout within six gaps of it, provided the clock does
not turn around meanwhile. -/
theorem wait_in_time (calls : List (PromiseCall V K)) (now gap : ℕ) (es : List PromiseWaitEvent)
    {s : PromiseWait V K} (hserved : Always step (Served gap) (start calls now) es)
    (hrun : run step (start calls now) es = some s) : ∀ w ∈ s.waiters, InTime gap s w := by
  have hkeeping : Keeping gap s := by
    refine run_always_invariant (C := fun _ => True) ?_ ?_ hserved (fun _ _ => trivial) hrun
    · intro s e s' h hP _ _ hs
      exact h.step s e s' hP hs
    · exact ⟨.start calls now, nofun⟩
  have htelling : Telling s :=
    run_invariant Telling.step ⟨.start calls now, nofun⟩ hrun
  exact fun w hmem => hkeeping.inTime htelling (hserved.last hrun) hmem

/-- Two calls wait across the turn of the clock: one gives up, and the other sees the promise
settled after that. -/
theorem wait_in_time_two :
    ∃ s : PromiseWait ℕ ℕ, run step (start [.setSuccess 1] (2 ^ 32 - 50))
        [.wait 100, .wait 0, .waiter 0, .waiter 0, .waiter 1, .waiter 1, .elapse 60, .waiter 0,
          .waiter 0, .waiter 1, .waiter 0, .elapse 60, .waiter 1, .waiter 0, .waiter 0, .waiter 0,
          .promise (.thread 0), .promise (.thread 0), .waiter 1, .waiter 1, .waiter 1,
          .elapse 1000] = some s ∧
      ∀ w ∈ s.waiters, InTime 60 s w := by
  have hsome : (run (step (V := ℕ) (K := ℕ)) (start [.setSuccess 1] (2 ^ 32 - 50))
      [.wait 100, .wait 0, .waiter 0, .waiter 0, .waiter 1, .waiter 1, .elapse 60, .waiter 0,
        .waiter 0, .waiter 1, .waiter 0, .elapse 60, .waiter 1, .waiter 0, .waiter 0, .waiter 0,
        .promise (.thread 0), .promise (.thread 0), .waiter 1, .waiter 1, .waiter 1,
        .elapse 1000]).isSome = true := by decide +kernel
  obtain ⟨s, hs⟩ := Option.isSome_iff_exists.mp hsome
  exact ⟨s, hs, wait_in_time _ _ 60 _ (by decide +kernel) hs⟩

end PromiseWait

end EspIot
