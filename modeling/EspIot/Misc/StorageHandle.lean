/-
# `EspIot.Misc.StorageHandle` — whether `_save_timer_id` names the commit timer

A timer id is a slot index and a slot is reused as soon as it is free, so the
handle must be reset whenever its slot is freed.  Two of the ways to free it do
not: `force_save` clears the timer and keeps the handle, and a return from the
callback of another timer may clear the slot (`Misc.TimerRuns`).

`Placed` needs no care at all: a commit timer can only be in the slot the handle
names.  `Exact` is the converse as well, and `handle_exact_iff` says that a run
keeps it exactly when it takes neither of the two ways.
-/
import EspIot.Misc.Storage

namespace EspIot

open Lib

def IsCommit (entry : TimerEntry StorageFn) : Prop := entry.callback = some .commit

namespace StorageRun

variable {f : StorageFormat}

/-- Slot `i` of the timer is active and holds the commit callback. -/
def Committing (s : StorageRun f) (i : ℕ) : Prop := s.timer.timer.Has IsCommit i

/-- A commit timer is a timeout, in the slot the handle names, and the handle names a slot. -/
structure Placed (s : StorageRun f) : Prop where
  only : ∀ i, s.Committing i → s.saveTimerId = some i
  once : ∀ i, ¬ s.timer.timer.Has (fun entry => IsCommit entry ∧ entry.repeats = true) i
  bound : ∀ i, s.saveTimerId = some i → i < s.timer.timer.entries.length

/-- **The handle is exact**, and nobody's timer has been cleared in its name. -/
def Exact (s : StorageRun f) : Prop :=
  (s.isPendingCommit = true ↔ ∃ i, s.saveTimerId = some i ∧ s.Committing i) ∧ s.stolen = []

theorem Exact.committing {s : StorageRun f} (h : Exact s) {i : ℕ} (hi : s.saveTimerId = some i) :
    s.Committing i := by
  obtain ⟨j, hj, hc⟩ := h.1.mp (by rw [isPendingCommit, hi]; rfl)
  rw [hi] at hj
  cases hj
  exact hc

theorem exact_of {s : StorageRun f} (h : ∀ i, s.saveTimerId = some i → s.Committing i)
    (hs : s.stolen = []) : Exact s := by
  refine ⟨⟨?_, ?_⟩, hs⟩
  · intro hp
    obtain ⟨i, hi⟩ := Option.isSome_iff_exists.mp hp
    exact ⟨i, hi, h i hi⟩
  · rintro ⟨i, hi, -⟩
    rw [isPendingCommit, hi]
    rfl

theorem placed_initial (mounted : Bool) (data : Vector UInt8 f.size) (file : Option (List UInt8)) :
    Placed ({ mounted, data, file } : StorageRun f) where
  only _ h := absurd h.lt (Nat.not_lt_zero _)
  once _ h := absurd h.lt (Nat.not_lt_zero _)
  bound _ h := by cases h

/-! ## What the operations do to the commit timer -/

theorem Placed.add {s : StorageRun f} (h : Placed s) (callback : StorageFn)
    (hcb : callback ≠ .commit) (interval : UInt32) (repeats : Bool) (parameter : ℕ) (now : UInt32)
    (memory : Bool) :
    Placed { s with timer := s.timer.add callback interval repeats parameter now memory } ∧
      ∀ i, Committing { s with
        timer := s.timer.add callback interval repeats parameter now memory } i ↔
          s.Committing i := by
  have hno : ∀ c : StorageFn, c ≠ .commit → ¬ some c = some StorageFn.commit :=
    fun c hc heq => hc (Option.some.inj heq)
  have hc : ∀ i, Committing { s with
      timer := s.timer.add callback interval repeats parameter now memory } i ↔
        s.Committing i := by
    intro i
    show Timer.Has (s.timer.add callback interval repeats parameter now memory).timer _ _ ↔ _
    rw [TimerRun.add_timer, Timer.has_add]
    exact or_iff_left fun h => hno callback hcb h.2
  refine ⟨⟨fun i hi => h.only i ((hc i).mp hi), fun i hi => ?_, fun i hi => ?_⟩, hc⟩
  · rw [TimerRun.add_timer, Timer.has_add] at hi
    rcases hi with hi | ⟨-, hi, -⟩
    · exact h.once i hi
    · exact hno callback hcb hi
  · rw [TimerRun.add_timer]
    exact Nat.lt_of_lt_of_le (h.bound i hi) (Timer.add_length_le ..)

theorem Placed.cleared {s : StorageRun f} (h : Placed s) (i : ℕ) (timer : TimerRun StorageFn)
    (htimer : timer.timer = s.timer.timer.clear i) :
    Placed { s with timer := timer } ∧
      ∀ j, Committing { s with timer := timer } j ↔ j ≠ i ∧ s.Committing j := by
  have hc : ∀ j, Committing { s with timer := timer } j ↔ j ≠ i ∧ s.Committing j := by
    intro j
    show Timer.Has timer.timer _ _ ↔ _
    rw [htimer]
    exact s.timer.timer.has_clear i IsCommit j
  refine ⟨⟨fun j hj => h.only j ((hc j).mp hj).2, fun j hj => ?_, fun j hj => ?_⟩, hc⟩
  · simp only [htimer, Timer.has_clear] at hj
    exact h.once j hj.2
  · rw [htimer, Timer.clear_length]
    exact h.bound j hj

theorem Placed.clearSaveTimer {s : StorageRun f} (h : Placed s) :
    Placed s.clearSaveTimer ∧ (∀ i, ¬ s.clearSaveTimer.Committing i) ∧
      s.clearSaveTimer.saveTimerId = s.saveTimerId := by
  cases hid : s.saveTimerId with
  | none =>
      have hsame : s.clearSaveTimer = s := by simp only [StorageRun.clearSaveTimer, hid]
      rw [hsame]
      refine ⟨h, ?_, hid⟩
      intro i hi
      rw [h.only i hi] at hid
      cases hid
  | some i =>
      obtain ⟨hp, hc⟩ := h.cleared i (s.timer.clear i) rfl
      have heq : s.clearSaveTimer = { s with
          timer := s.timer.clear i
          stolen := s.stolen ++ (s.timer.timer.entries[i]?.toList.filter foreign) } := by
        simp only [StorageRun.clearSaveTimer, hid]
      rw [heq]
      refine ⟨⟨hp.only, hp.once, hp.bound⟩, ?_, hid⟩
      intro j hj
      obtain ⟨hne, hold⟩ := (hc j).mp hj
      rw [h.only j hold] at hid
      exact hne (Option.some.inj hid)

theorem commitImpl_timer (s : StorageRun f) (entry : UInt8) :
    (s.commitImpl entry).timer = s.timer ∧ (s.commitImpl entry).saveTimerId = s.saveTimerId ∧
      (s.commitImpl entry).stolen = s.stolen := by
  show (if !s.mounted then s else _).timer = _ ∧ _
  rw [commitImpl]
  split <;> exact ⟨rfl, rfl, rfl⟩

theorem Placed.commitImpl {s : StorageRun f} (h : Placed s) (entry : UInt8) :
    Placed (s.commitImpl entry) := by
  obtain ⟨ht, hid, -⟩ := s.commitImpl_timer entry
  refine ⟨?_, ?_, ?_⟩
  · intro i hi
    rw [hid]
    exact h.only i (by rwa [Committing, ht] at hi)
  · rw [ht]
    exact h.once
  · rw [ht, hid]
    exact h.bound

theorem Placed.forceSave {s : StorageRun f} (h : Placed s) (entry : UInt8) :
    Placed (s.forceSave entry) ∧ (∀ i, ¬ (s.forceSave entry).Committing i) ∧
      (s.forceSave entry).saveTimerId = s.saveTimerId := by
  obtain ⟨hp, hnone, hid⟩ := h.clearSaveTimer
  obtain ⟨ht, hid', -⟩ := s.clearSaveTimer.commitImpl_timer entry
  refine ⟨hp.commitImpl entry, fun i hi => hnone i ?_, hid'.trans hid⟩
  rwa [Committing, StorageRun.forceSave, ht] at hi

theorem Placed.save {s : StorageRun f} (h : Placed s) (hm : s.mounted = true) (now : UInt32)
    (memory : Bool) :
    Placed (s.save now memory) ∧
      ∀ i, (s.save now memory).Committing i ↔ (s.save now memory).saveTimerId = some i := by
  obtain ⟨hp, hnone, -⟩ := h.clearSaveTimer
  have heq : s.save now memory = { s.clearSaveTimer with
      timer := s.clearSaveTimer.timer.add .commit storageSaveInterval false 0 now memory
      saveTimerId := (s.clearSaveTimer.timer.timer.add .commit storageSaveInterval false 0 now
        memory).2 } := by
    simp [StorageRun.save, hm]
  rw [heq]
  have hc : ∀ i, Committing { s.clearSaveTimer with
      timer := s.clearSaveTimer.timer.add .commit storageSaveInterval false 0 now memory
      saveTimerId := (s.clearSaveTimer.timer.timer.add .commit storageSaveInterval false 0 now
        memory).2 } i ↔ (s.clearSaveTimer.timer.timer.add .commit storageSaveInterval false 0 now
        memory).2 = some i := by
    intro i
    show Timer.Has (s.clearSaveTimer.timer.add .commit storageSaveInterval false 0 now
      memory).timer _ _ ↔ _
    rw [TimerRun.add_timer, Timer.has_add]
    constructor
    · rintro (hi | ⟨hi, -⟩)
      · exact absurd hi (hnone i)
      · exact hi
    · intro hi
      exact .inr ⟨hi, rfl⟩
  refine ⟨⟨fun i hi => (hc i).mp hi, fun i hi => ?_, fun i hi => ?_⟩, hc⟩
  · rw [TimerRun.add_timer, Timer.has_add] at hi
    rcases hi with hi | ⟨-, -, hi⟩
    · exact hp.once i hi
    · cases hi
  · exact ((hc i).mpr hi).lt

theorem save_unmounted {s : StorageRun f} (hm : s.mounted = false) (now : UInt32) (memory : Bool) :
    s.save now memory = s := by
  simp [StorageRun.save, hm]

/-- What a pass does in one slot: nothing to the entries; or it fires another user's callback; or
it fires the commit, and then the handle is reset and the slot is free. -/
theorem visit_cases {s s' : StorageRun f} {now : UInt32} {byte : UInt8}
    (h : s.visit now byte = some s') :
    (∃ timer : TimerRun StorageFn, s.commitDue now = false ∧ s' = { s with timer } ∧
      timer.timer = s.timer.timer) ∨
    (∃ (timer : TimerRun StorageFn) (i : ℕ) (entry : TimerEntry StorageFn),
      s.commitDue now = false ∧ s' = { s with timer } ∧ s.timer.timer.entries[i]? = some entry ∧
      timer.timer = { s.timer.timer with
        entries := s.timer.timer.entries.set i (Timer.arm entry now) }) ∨
    (∃ (timer : TimerRun StorageFn) (i : ℕ) (entry : TimerEntry StorageFn)
      (rest : List (TimerFrame StorageFn)), s.commitDue now = true ∧
      s.timer.timer.entries[i]? = some entry ∧ entry.active = true ∧ IsCommit entry ∧
      timer.timer = { s.timer.timer with
        entries := s.timer.timer.entries.set i (Timer.arm entry now) } ∧
      s' = { ({ s with saveTimerId := none } : StorageRun f).commitImpl byte with
        timer := timer.finish i s.timer.timer.generation false rest }) := by
  obtain ⟨timer, ht, hs'⟩ := Option.bind_eq_some_iff.mp h
  obtain ⟨i, rest, hframes, hcases⟩ := TimerRun.step_visit ht
  have hdue : s.commitDue now = (s.timer.timer.entries[i]?).any fun entry =>
      Timer.due entry now && entry.callback == some .commit := by
    rw [commitDue, hframes]
  rcases hcases with ⟨hnone, rfl⟩ | ⟨entry, he, ⟨hready, rfl⟩ | ⟨hidle, rfl⟩⟩
  · rw [hnone] at hdue
    rw [hdue] at hs'
    cases hs'
    exact .inl ⟨_, hdue, rfl, rfl⟩
  · rw [he, Option.any_some] at hdue
    by_cases hcb : entry.callback = some .commit
    · rw [hready, hcb] at hdue
      rw [hdue] at hs'
      cases hs'
      have hact : entry.active = true := by
        rw [Timer.due, Bool.and_eq_true] at hready
        exact hready.1
      exact .inr (.inr ⟨s.timer.fire i entry now rest, i, entry, rest, hdue, he, hact, hcb,
        rfl, rfl⟩)
    · rw [beq_eq_false_iff_ne.mpr hcb, Bool.and_false] at hdue
      rw [hdue] at hs'
      cases hs'
      exact .inr (.inl ⟨s.timer.fire i entry now rest, i, entry, hdue, rfl, he, rfl⟩)
  · rw [he, Option.any_some, hidle, Bool.false_and] at hdue
    rw [hdue] at hs'
    cases hs'
    exact .inl ⟨_, hdue, rfl, rfl⟩

/-! ## What a step does to the commit timer -/

/-- The storage is as it was, and so is what commits it. -/
def Undisturbed (s s' : StorageRun f) : Prop :=
  ∃ timer : TimerRun StorageFn, s' = { s with timer } ∧
    ∀ i, s'.Committing i ↔ s.Committing i

theorem Placed.same_timer {s : StorageRun f} (h : Placed s) {timer : TimerRun StorageFn}
    (ht : timer.timer = s.timer.timer) :
    Placed { s with timer } ∧ Undisturbed s { s with timer } := by
  refine ⟨⟨?_, ?_, ?_⟩, timer, rfl, ?_⟩
  · intro i hi
    exact h.only i (by rwa [Committing, ht] at hi)
  · show ∀ i, ¬ timer.timer.Has _ i
    rw [ht]
    exact h.once
  · show ∀ i, s.saveTimerId = some i → i < timer.timer.entries.length
    rw [ht]
    exact h.bound
  · intro i
    show timer.timer.Has IsCommit i ↔ _
    rw [ht]
    rfl

theorem Placed.armed {s : StorageRun f} (h : Placed s) {timer : TimerRun StorageFn} {i : ℕ}
    {entry : TimerEntry StorageFn} {now : UInt32} (he : s.timer.timer.entries[i]? = some entry)
    (ht : timer.timer = { s.timer.timer with
      entries := s.timer.timer.entries.set i (Timer.arm entry now) }) :
    Placed { s with timer } ∧ Undisturbed s { s with timer } := by
  have hcommit : IsCommit (Timer.arm entry now) ↔ IsCommit entry := by
    rw [IsCommit, Timer.arm_callback]
    rfl
  have hc : ∀ j, Committing { s with timer } j ↔ s.Committing j := by
    intro j
    show timer.timer.Has IsCommit j ↔ _
    rw [ht]
    exact Timer.has_arm he now hcommit j
  refine ⟨⟨?_, ?_, ?_⟩, timer, rfl, hc⟩
  · intro j hj
    exact h.only j ((hc j).mp hj)
  · intro j hj
    have hrepeats : (IsCommit (Timer.arm entry now) ∧ (Timer.arm entry now).repeats = true) ↔
        (IsCommit entry ∧ entry.repeats = true) := by
      rw [hcommit, Timer.arm_repeats]
    refine h.once j ((Timer.has_arm he now hrepeats j).mp ?_)
    rwa [ht] at hj
  · intro j hj
    rw [ht]
    show j < (s.timer.timer.entries.set i _).length
    rw [List.length_set]
    exact h.bound j hj

theorem Placed.step_add {s s' : StorageRun f} (h : Placed s) {n : ℕ} {interval : UInt32}
    {repeats : Bool} {parameter : ℕ} {now : UInt32} {memory : Bool}
    (hs : s.step (.add n interval repeats parameter now memory) = some s') :
    Placed s' ∧ Undisturbed s s' := by
  simp only [step] at hs
  split at hs
  · cases hs
    obtain ⟨hp, hc⟩ := h.add (.other n) (fun h => by cases h) interval repeats
      parameter now memory
    exact ⟨hp, _, rfl, hc⟩
  · cases hs

theorem Placed.step_clear {s s' : StorageRun f} (h : Placed s) {i : ℕ}
    (hs : s.step (.clear i) = some s') : Placed s' ∧ Undisturbed s s' := by
  simp only [step] at hs
  split at hs
  · rename_i hown
    cases hs
    obtain ⟨hp, hc⟩ := h.cleared i (s.timer.clear i) rfl
    refine ⟨hp, _, rfl, fun j => (hc j).trans (and_iff_right_of_imp ?_)⟩
    -- it is not a timer of its own that would commit
    rintro ⟨entry, he, -, hcommit⟩ rfl
    rw [Bool.and_eq_true, he, Option.any_some, foreign, Bool.and_eq_true, bne_iff_ne] at hown
    exact hown.2.2 hcommit
  · cases hs

theorem Placed.step_handle {s s' : StorageRun f} (h : Placed s)
    (hs : s.step .handle = some s') : Placed s' ∧ Undisturbed s s' := by
  obtain ⟨timer, ht, rfl⟩ := Option.map_eq_some_iff.mp hs
  refine h.same_timer ?_
  rcases TimerRun.step_handle ht with rfl | rfl
  · rfl
  · rfl

theorem Placed.step_visit {s s' : StorageRun f} (h : Placed s) {now : UInt32} {byte : UInt8}
    (hs : s.step (.visit now byte) = some s') :
    Placed s' ∧ (s.commitDue now = false ∧ Undisturbed s s' ∨ s.commitDue now = true ∧ ∃ timer,
      s' = { ({ s with saveTimerId := none } : StorageRun f).commitImpl byte with timer }) := by
  rcases visit_cases hs with ⟨timer, hdue, rfl, ht⟩ | ⟨timer, i, entry, hdue, rfl, he, ht⟩ |
    ⟨timer, i, entry, rest, hdue, he, hact, hcommit, ht, rfl⟩
  · obtain ⟨hp, hu⟩ := h.same_timer ht
    exact ⟨hp, .inl ⟨hdue, hu⟩⟩
  · obtain ⟨hp, hu⟩ := h.armed he ht
    exact ⟨hp, .inl ⟨hdue, hu⟩⟩
  · refine ⟨?_, .inr ⟨hdue, _, rfl⟩⟩
    obtain ⟨hp, -⟩ := h.armed he ht
    have hi : s.Committing i := ⟨entry, he, hact, hcommit⟩
    -- a commit timer is a timeout, so the pass clears its slot
    have honce : entry.repeats = false := by
      by_contra hrep
      exact h.once i ⟨entry, he, hact, hcommit, by simpa using hrep⟩
    have hafter : timer.timer.repeatAfter i s.timer.timer.generation false = false := by
      have hlt : i < s.timer.timer.entries.length := (List.getElem?_eq_some_iff.mp he).1
      rw [ht, Timer.repeatAfter, if_pos rfl, List.getElem?_set_self hlt]
      exact (Timer.arm_repeats entry now).trans honce
    have hfinish : (timer.finish i s.timer.timer.generation false rest).timer =
        timer.timer.clear i := by
      rw [TimerRun.finish, hafter]
      rfl
    obtain ⟨hcleared, hc⟩ := hp.cleared i _ hfinish
    have hnone : ∀ j, ¬ Timer.Has
        (timer.finish i s.timer.timer.generation false rest).timer IsCommit j := by
      intro j hj
      obtain ⟨hne, hold⟩ := (hc j).mp hj
      have hnamed := hp.only j hold
      rw [show ({ s with timer } : StorageRun f).saveTimerId = s.saveTimerId from rfl,
        h.only i hi] at hnamed
      exact hne (Option.some.inj hnamed).symm
    obtain ⟨-, hid, -⟩ := commitImpl_timer ({ s with saveTimerId := none } : StorageRun f) byte
    refine ⟨fun j hj => absurd hj (hnone j), hcleared.once, fun j hj => ?_⟩
    rw [hid] at hj
    cases hj

/-- The slot that the pass clears when the callback on top returns. -/
def clearedOnReturn (s : StorageRun f) (stale : Bool) : Option ℕ :=
  match s.timer.frames with
  | .running i generation _ _ :: _ =>
      if s.timer.timer.repeatAfter i generation stale then none else some i
  | _ => none

theorem Placed.step_ret {s s' : StorageRun f} (h : Placed s) {stale : Bool}
    (hs : s.step (.ret stale) = some s') :
    Placed s' ∧ ∃ timer : TimerRun StorageFn, s' = { s with timer } ∧
      ∀ j, s'.Committing j ↔ s.clearedOnReturn stale ≠ some j ∧ s.Committing j := by
  obtain ⟨timer, ht, rfl⟩ := Option.map_eq_some_iff.mp hs
  obtain ⟨i, generation, _, _, rest, hframes, rfl⟩ := TimerRun.step_ret ht
  rw [clearedOnReturn, hframes]
  dsimp only
  cases hrep : s.timer.timer.repeatAfter i generation stale with
  | true =>
      have hfinish : (s.timer.finish i generation stale rest).timer = s.timer.timer := by
        rw [TimerRun.finish, hrep]
        rfl
      obtain ⟨hp, timer, -, hc⟩ := h.same_timer hfinish
      refine ⟨hp, _, rfl, fun j => (hc j).trans ?_⟩
      simp
  | false =>
      have hfinish : (s.timer.finish i generation stale rest).timer = s.timer.timer.clear i := by
        rw [TimerRun.finish, hrep]
        rfl
      obtain ⟨hp, hc⟩ := h.cleared i _ hfinish
      refine ⟨hp, _, rfl, fun j => (hc j).trans ?_⟩
      simp [eq_comm]

/-! ## The handle -/

/-- The step frees no slot behind the back of the handle. -/
def KeepsHandle (s : StorageRun f) : StorageEvent f → Prop
  | .forceSave _ | .restart .. => s.saveTimerId = none
  | .ret stale => ∀ i, s.saveTimerId = some i → s.clearedOnReturn stale ≠ some i
  | _ => True

theorem Exact.clearSaveTimer {s : StorageRun f} (h : Exact s) : s.clearSaveTimer.stolen = [] := by
  cases hid : s.saveTimerId with
  | none =>
      simp only [StorageRun.clearSaveTimer, hid]
      exact h.2
  | some i =>
      obtain ⟨entry, he, -, hcommit⟩ := h.committing hid
      have hown : foreign entry = false := by
        rw [foreign, show entry.callback = some .commit from hcommit]
        simp
      simp only [StorageRun.clearSaveTimer, hid, he, Option.toList_some, List.filter_cons, hown,
        Bool.false_eq_true, if_false, List.filter_nil, List.append_nil]
      exact h.2

theorem Exact.undisturbed {s s' : StorageRun f} (h : Exact s) (hu : Undisturbed s s') :
    Exact s' := by
  obtain ⟨timer, rfl, hc⟩ := hu
  exact exact_of (fun i hi => (hc i).mpr (h.committing hi)) h.2

theorem exact_of_none {s : StorageRun f} (hid : s.saveTimerId = none) (hs : s.stolen = []) :
    Exact s :=
  exact_of (fun i hi => by rw [hid] at hi; cases hi) hs

theorem Exact.save {s : StorageRun f} (hp : Placed s) (h : Exact s) (now : UInt32)
    (memory : Bool) : Placed (s.save now memory) ∧ Exact (s.save now memory) := by
  cases hm : s.mounted with
  | false =>
      rw [save_unmounted hm]
      exact ⟨hp, h⟩
  | true =>
      obtain ⟨hp', hc⟩ := hp.save hm now memory
      refine ⟨hp', exact_of (fun i hi => (hc i).mpr hi) ?_⟩
      simp only [StorageRun.save, hm]
      exact h.clearSaveTimer

theorem Exact.saveChanges {s : StorageRun f} (hp : Placed s) (h : Exact s) (now : UInt32)
    (memory : Bool) : Placed (s.saveChanges now memory) ∧ Exact (s.saveChanges now memory) := by
  rw [StorageRun.saveChanges]
  split
  · exact h.save hp now memory
  · exact ⟨hp, h⟩

theorem forceSave_of_none {s : StorageRun f} (hid : s.saveTimerId = none) (entry : UInt8) :
    s.forceSave entry = s.commitImpl entry := by
  rw [StorageRun.forceSave, StorageRun.clearSaveTimer, hid]

theorem Placed.not_exact_forceSave {s : StorageRun f} (h : Placed s)
    (hid : s.saveTimerId ≠ none) (entry : UInt8) : ¬ Exact (s.forceSave entry) := by
  intro hexact
  obtain ⟨-, hnone, hsame⟩ := h.forceSave entry
  obtain ⟨i, hi⟩ := Option.ne_none_iff_exists'.mp hid
  exact hnone i (hexact.committing (hsame.trans hi))

theorem exact_step {s s' : StorageRun f} {e : StorageEvent f} (hI : Placed s ∧ Exact s)
    (hkeeps : KeepsHandle s e) (hs : s.step e = some s') : Placed s' ∧ Exact s' := by
  obtain ⟨hp, h⟩ := hI
  cases e with
  | change data now memory =>
      simp only [step] at hs
      split at hs
      · cases hs
        exact Exact.saveChanges (s := { s with data, changed := true })
          ⟨hp.only, hp.once, hp.bound⟩ ⟨h.1, h.2⟩ now memory
      · cases hs
  | save now memory =>
      simp only [step] at hs
      split at hs
      · cases hs
        exact h.save hp now memory
      · cases hs
  | reset now memory =>
      simp only [step] at hs
      split at hs
      · cases hs
        exact Exact.save (s := { s with data := f.default, changed := true })
          ⟨hp.only, hp.once, hp.bound⟩ ⟨h.1, h.2⟩ now memory
      · cases hs
  | forceSave entry =>
      simp only [step] at hs
      split at hs
      · cases hs
        rw [forceSave_of_none hkeeps]
        obtain ⟨-, hid, hstolen⟩ := s.commitImpl_timer entry
        exact ⟨hp.commitImpl entry, exact_of_none (hid.trans hkeeps) (hstolen.trans h.2)⟩
      · cases hs
  | restart now memory entry =>
      simp only [step] at hs
      split at hs
      · cases hs
        have hidle : s.isPendingCommit = false := by
          rw [isPendingCommit, show s.saveTimerId = none from hkeeps]
          rfl
        rw [restart, hidle]
        obtain ⟨hp', hc⟩ := hp.add .restart (fun h => by cases h) restartDelay false
          0 now memory
        exact ⟨hp', h.undisturbed ⟨_, rfl, hc⟩⟩
      · cases hs
  | add n interval repeats parameter now memory =>
      obtain ⟨hp', hu⟩ := hp.step_add hs
      exact ⟨hp', h.undisturbed hu⟩
  | clear timerId =>
      obtain ⟨hp', hu⟩ := hp.step_clear hs
      exact ⟨hp', h.undisturbed hu⟩
  | handle =>
      obtain ⟨hp', hu⟩ := hp.step_handle hs
      exact ⟨hp', h.undisturbed hu⟩
  | visit now entry =>
      obtain ⟨hp', ⟨-, hu⟩ | ⟨-, timer, rfl⟩⟩ := hp.step_visit hs
      · exact ⟨hp', h.undisturbed hu⟩
      · obtain ⟨-, hid, hstolen⟩ :=
          commitImpl_timer ({ s with saveTimerId := none } : StorageRun f) entry
        exact ⟨hp', exact_of_none hid (hstolen.trans h.2)⟩
  | ret stale =>
      obtain ⟨hp', timer, rfl, hc⟩ := hp.step_ret hs
      exact ⟨hp', exact_of (fun i hi => (hc i).mpr ⟨hkeeps i hi, h.committing hi⟩) h.2⟩

theorem not_exact_step {s s' : StorageRun f} {e : StorageEvent f} (hI : Placed s ∧ Exact s)
    (hbad : ¬ KeepsHandle s e) (hs : s.step e = some s') : ¬ Exact s' := by
  obtain ⟨hp, h⟩ := hI
  cases e with
  | forceSave entry =>
      simp only [step] at hs
      split at hs
      · cases hs
        exact hp.not_exact_forceSave hbad entry
      · cases hs
  | restart now memory entry =>
      simp only [step] at hs
      split at hs
      · cases hs
        have hpending : s.isPendingCommit = true := Option.ne_none_iff_isSome.mp hbad
        rw [restart, hpending, if_pos rfl]
        obtain ⟨-, hc⟩ := (hp.forceSave entry).1.add .restart (fun h => by cases h)
          restartDelay false 0 now memory
        intro hexact
        refine hp.not_exact_forceSave hbad entry (exact_of ?_ hexact.2)
        intro i hi
        exact (hc i).mp (hexact.committing hi)
      · cases hs
  | ret stale =>
      obtain ⟨hp', timer, rfl, hc⟩ := hp.step_ret hs
      intro hexact
      refine hbad ?_
      intro i hi hcleared
      exact ((hc i).mp (hexact.committing hi)).1 hcleared
  | change | save | reset | add | clear | handle | visit => exact absurd trivial hbad

/-- **`_save_timer_id` is exact in every state of a run exactly when `force_save` is never called
while a commit is pending and no return from another callback clears the slot it names**; until
then nobody else's timer is cleared in its name. -/
theorem handle_exact_iff (mounted : Bool) (data : Vector UInt8 f.size)
    (file : Option (List UInt8)) (es : List (StorageEvent f)) :
    Always step Exact ({ mounted, data, file } : StorageRun f) es ↔
      Each step KeepsHandle { mounted, data, file } es :=
  always_iff_each (fun _ h => h.2) (fun _ _ _ => exact_step) (fun _ _ _ => not_exact_step)
    ⟨placed_initial mounted data file, exact_of_none rfl rfl⟩

def byteFormat : StorageFormat where
  size := 1
  default := #v[0]

/-- A commit is pending when `force_save` is called, and another user gets its slot: the handle
is wrong, and the next `save` clears the timer of the other user. -/
theorem handle_stale_after_forceSave :
    let s : StorageRun byteFormat := { mounted := true, data := #v[1], file := none }
    let es : List (StorageEvent byteFormat) :=
      [.save 0 true, .forceSave 0, .add 7 1000 false 0 0 true, .save 0 true]
    ¬ Always step Exact s es ∧
      (run step s es).map (fun s => s.stolen.map (·.callback)) = some [some (.other 7)] := by
  refine ⟨?_, by decide⟩
  intro h
  have hafter := ((h.2 _ rfl).2 _ rfl).head
  obtain ⟨i, hi, entry, he, hact, -⟩ := hafter.1.mp rfl
  cases hi
  cases he
  cases hact

end StorageRun

end EspIot
