/-
# `EspIot.Misc.TimerDeadlineRuns` — every timer fires when it is to

The invariant of a run (`Dated`) says of each timer that it has fired when it was to, and of each
slot that it holds its timer as the visits so far have left it.  A visit in time asks the slot what
the timer is to do (`DatedTimer.InSlot.due_iff`); a return clears only what has fired, because the
callbacks leave the array alone; a new timer takes a free slot.
-/
import EspIot.Misc.TimerDeadlines
import EspIot.Misc.TimerRuns
import EspIot.Misc.TimerSlots
import EspIot.Misc.TimerStale

namespace EspIot

open Lib

/-! ## Steps -/

namespace TimerRun

variable {Fn : Type*}

/-- The callback on the stack is that of an interval timer, or its slot is free or holds a timeout
that has fired. -/
def Returns (s : TimerRun Fn) (i : ℕ) : Prop :=
  (∃ entry, s.timer.entries[i]? = some entry ∧ entry.repeats = true) ∨ s.FreeOrDone i

theorem Returns.fire {s : TimerRun Fn} {i j : ℕ} {entry : TimerEntry Fn}
    (he : s.timer.entries[i]? = some entry) (h : s.Returns j) (now : UInt32)
    (rest : List (TimerFrame Fn)) : (s.fire i entry now rest).Returns j := by
  have hset : ∀ e, s.timer.entries[j]? = some e →
      ∃ e', (s.fire i entry now rest).timer.entries[j]? = some e' ∧ e'.repeats = e.repeats ∧
        e'.active = e.active := by
    intro e hj
    by_cases hij : i = j
    · subst hij
      rw [he] at hj
      cases hj
      exact ⟨_, List.getElem?_set_self (List.getElem?_eq_some_iff.mp he).1,
        Timer.arm_repeats .., Timer.arm_active ..⟩
    · exact ⟨e, (List.getElem?_set_ne hij).trans hj, rfl, rfl⟩
  rcases h with ⟨e, hj, hrepeats⟩ | hlive | ⟨k, a, ho, ha, honce, hfired⟩
  · obtain ⟨e', hj', hrepeats', -⟩ := hset e hj
    exact .inl ⟨e', hj', hrepeats'.trans hrepeats⟩
  · refine .inr (.inl ?_)
    cases hj : s.timer.entries[j]? with
    | none =>
        have hnone : (s.fire i entry now rest).timer.entries[j]? = none := by
          rw [List.getElem?_eq_none_iff] at hj ⊢
          exact (List.length_set ..).symm ▸ hj
        rw [live, hnone]
        rfl
    | some e =>
        obtain ⟨e', hj', -, hactive⟩ := hset e hj
        rw [live, hj', Option.any_some, hactive]
        exact live_false hlive e hj
  · exact .inr (.inr ⟨k, a, ho, ha, honce, by simp [TimerRun.fire, hfired]⟩)

theorem Returns.clear {s : TimerRun Fn} {i j : ℕ} (h : s.Returns j)
    (frames : List (TimerFrame Fn)) :
    Returns { timer := s.timer.clear i, frames,
              ledger := { s.ledger with owner := Function.update s.ledger.owner i none } } j := by
  by_cases hij : j = i
  · subst hij
    refine .inr (.inl ?_)
    have hfree : ¬ (s.timer.clear j).Has (fun _ => True) j := by
      rw [Timer.has_clear]
      exact fun hne => hne.1 rfl
    by_contra hlive
    rw [Bool.not_eq_false] at hlive
    obtain ⟨e, he, hactive⟩ : ∃ e, (s.timer.clear j).entries[j]? = some e ∧ e.active = true := by
      simpa [live, Option.any_eq_true] using hlive
    exact hfree ⟨e, he, hactive, trivial⟩
  · have heq : (s.timer.clear i).entries[j]? = s.timer.entries[j]? := by
      rcases s.timer.clear_cases i with ⟨hsame, -⟩ | ⟨_, -, -, hset⟩
      · rw [hsame]
      · rw [hset]
        exact List.getElem?_set_ne (Ne.symm hij)
    rcases h with ⟨e, he, hrepeats⟩ | hlive | ⟨k, a, ho, hdone⟩
    · exact .inl ⟨e, heq.trans he, hrepeats⟩
    · refine .inr (.inl ?_)
      rw [live, heq]
      exact hlive
    · exact .inr (.inr ⟨k, a, (Function.update_of_ne hij ..).trans ho, hdone⟩)

end TimerRun

namespace TimedTimers

variable {Fn : Type*}

structure Dated (s : TimedTimers Fn) : Prop where
  kept : TimerRun.Kept s.run
  counted : s.run.timer.Counted
  current : TimerRun.Current s.run
  added : s.run.ledger.added.map (·.repeats) = s.timers.map (·.repeats)
  uncleared : ∀ k, s.run.ledger.cleared k = false
  fired : ∀ k, s.run.ledger.fired k = true → ∃ visit ∈ s.visitsOf k, visit.fired = true
  returns : ∀ i generation callback parameter,
    .running i generation callback parameter ∈ s.run.frames → s.run.Returns i
  slots : ∀ i k (timer : DatedTimer) entry,
    s.run.ledger.owner i = some k → s.timers[k]? = some timer →
    s.run.timer.entries[i]? = some entry → timer.InSlot (s.visitsOf k) entry
  past : ∀ k (timer : DatedTimer), s.timers[k]? = some timer → timer.created (s.visitsOf k) ≤ s.time
  known : ∀ visit ∈ s.visits, visit.timer < s.timers.length ∧ visit.time ≤ s.time
  sorted : s.visits.Pairwise fun earlier later => earlier.time ≤ later.time
  onTime : ∀ k (timer : DatedTimer), s.timers[k]? = some timer → timer.OnTime (s.visitsOf k)

theorem Dated.reframe {s : TimedTimers Fn} (h : Dated s) {frames : List (TimerFrame Fn)}
    (time : ℕ) (hframes : ∀ i generation callback parameter,
      .running i generation callback parameter ∈ frames →
        .running i generation callback parameter ∈ s.run.frames) (htime : s.time ≤ time) :
    Dated { s with run := { s.run with frames }, time } where
  kept := h.kept
  counted := h.counted
  current := h.current.of_subset rfl hframes
  added := h.added
  uncleared := h.uncleared
  fired := h.fired
  returns i generation callback parameter hmem :=
    h.returns i generation callback parameter (hframes _ _ _ _ hmem)
  slots := h.slots
  past k timer hk := Nat.le_trans (h.past k timer hk) htime
  known visit hmem := ⟨(h.known visit hmem).1, Nat.le_trans (h.known visit hmem).2 htime⟩
  sorted := h.sorted
  onTime := h.onTime

theorem Dated.repeats_eq {s : TimedTimers Fn} (h : Dated s) {k : ℕ} {timer : DatedTimer}
    {a : AddedTimer Fn} (hk : s.timers[k]? = some timer)
    (ha : s.run.ledger.added[k]? = some a) : timer.repeats = a.repeats := by
  have heq : (s.timers.map (·.repeats))[k]? = (s.run.ledger.added.map (·.repeats))[k]? := by
    rw [h.added]
  rw [List.getElem?_map, List.getElem?_map, hk, ha] at heq
  exact Option.some.inj heq

theorem Dated.length_eq {s : TimedTimers Fn} (h : Dated s) :
    s.run.ledger.added.length = s.timers.length := by
  simpa using congrArg List.length h.added

theorem Dated.owned {s : TimedTimers Fn} (h : Dated s) {i k : ℕ}
    (ho : s.run.ledger.owner i = some k) :
    ∃ a timer entry, s.run.ledger.added[k]? = some a ∧ a.id = i ∧ s.timers[k]? = some timer ∧
      timer.repeats = a.repeats ∧ s.run.timer.entries[i]? = some entry ∧ entry.active = true ∧
      timer.InSlot (s.visitsOf k) entry := by
  obtain ⟨a, ha, hid, ⟨-, entry, he, hm⟩, -⟩ := h.kept.owner i k ho
  rw [hid] at he
  have hlt : k < s.timers.length := h.length_eq ▸ (List.getElem?_eq_some_iff.mp ha).1
  have hk := List.getElem?_eq_getElem hlt
  exact ⟨a, _, entry, ha, hid, hk, h.repeats_eq hk ha, he, hm.active,
    h.slots i k _ entry ho hk he⟩

theorem Dated.slot_eq {s : TimedTimers Fn} (h : Dated s) {i j k : ℕ}
    (hi : s.run.ledger.owner i = some k) (hj : s.run.ledger.owner j = some k) : i = j := by
  obtain ⟨a, _, _, ha, hid, -⟩ := h.owned hi
  obtain ⟨b, _, _, hb, hbid, -⟩ := h.owned hj
  rw [ha] at hb
  cases hb
  exact hid.symm.trans hbid

/-! ## One more visit

A pass is at slot `i`, which holds a timer; it may have fired it. -/

section Visited

variable {s : TimedTimers Fn} {run : TimerRun Fn} {i : ℕ} {timer : DatedTimer}
  {entry : TimerEntry Fn} {visit : TimerVisit}

theorem visitsOf_self (s : TimedTimers Fn) (run : TimerRun Fn) (visit : TimerVisit) :
    visitsOf { s with run, time := visit.time, visits := s.visits ++ [visit] } visit.timer =
      s.visitsOf visit.timer ++ [visit] := by
  simp [visitsOf]

theorem visitsOf_other (s : TimedTimers Fn) (run : TimerRun Fn) {k : ℕ} (hk : k ≠ visit.timer) :
    visitsOf { s with run, time := visit.time, visits := s.visits ++ [visit] } k =
      s.visitsOf k := by
  simp [visitsOf, hk.symm]

theorem mem_visitsOf_concat {k : ℕ} {old : TimerVisit} (h : old ∈ s.visitsOf k) :
    old ∈ visitsOf { s with run, time := visit.time, visits := s.visits ++ [visit] } k := by
  rw [visitsOf, List.filter_append]
  exact List.mem_append_left _ h

theorem Dated.slots_visited (h : Dated s) (ho : s.run.ledger.owner i = some visit.timer)
    (hk : s.timers[visit.timer]? = some timer) (he : s.run.timer.entries[i]? = some entry)
    {j l : ℕ} {other : DatedTimer} {now : TimerEntry Fn} (hl : s.run.ledger.owner j = some l)
    (hother : s.timers[l]? = some other)
    (hnow : (s.run.timer.entries.set i
      (if visit.fired then Timer.arm entry (reading visit.time) else entry))[j]? = some now) :
    other.InSlot
      (visitsOf { s with run, time := visit.time, visits := s.visits ++ [visit] } l) now := by
  by_cases hji : j = i
  · subst hji
    rw [ho] at hl
    cases hl
    rw [hk] at hother
    cases hother
    rw [List.getElem?_set_self (List.getElem?_eq_some_iff.mp he).1] at hnow
    cases hnow
    rw [visitsOf_self]
    exact (h.slots j _ timer entry ho hk he).concat visit
  · have hne : l ≠ visit.timer := by
      rintro rfl
      exact hji (h.slot_eq hl ho)
    rw [List.getElem?_set_ne (Ne.symm hji)] at hnow
    rw [visitsOf_other s run hne]
    exact h.slots j l other now hl hother hnow

theorem Dated.past_visited (h : Dated s) (hle : s.time ≤ visit.time) {k : ℕ} {other : DatedTimer}
    (hk : s.timers[k]? = some other) :
    other.created (visitsOf { s with run, time := visit.time, visits := s.visits ++ [visit] } k) ≤
      visit.time := by
  have hcreated := Nat.le_trans (h.past k other hk) hle
  by_cases hne : k = visit.timer
  · subst hne
    rw [visitsOf_self]
    exact DatedTimer.created_concat_le hcreated
  · rw [visitsOf_other s run hne]
    exact hcreated

theorem Dated.onTime_visited (h : Dated s) (ho : s.run.ledger.owner i = some visit.timer)
    (hk : s.timers[visit.timer]? = some timer) (he : s.run.timer.entries[i]? = some entry)
    (hle : s.time ≤ visit.time) (hdue : visit.fired = Timer.due entry (reading visit.time))
    (hin : visit.time < timer.created (s.visitsOf visit.timer) + (2 ^ 32 - 1)) {k : ℕ}
    {other : DatedTimer} (hother : s.timers[k]? = some other) :
    other.OnTime
      (visitsOf { s with run, time := visit.time, visits := s.visits ++ [visit] } k) := by
  by_cases hne : k = visit.timer
  · subst hne
    rw [hk] at hother
    cases hother
    rw [visitsOf_self]
    have hactive : entry.active = true := by
      obtain ⟨_, _, entry', -, -, -, -, he', hactive, -⟩ := h.owned ho
      rw [he] at he'
      cases he'
      exact hactive
    have hcreated := Nat.le_trans (h.past _ timer hk) hle
    refine (h.onTime _ timer hk).concat (h.sorted.sublist List.filter_sublist) ?_
    rw [hdue]
    exact (h.slots i _ timer entry ho hk he).due_iff hactive (h.onTime _ timer hk) hcreated hin
  · rw [visitsOf_other s run hne]
    exact h.onTime k other hother

theorem Dated.visited (h : Dated s) (visit : TimerVisit)
    (ho : s.run.ledger.owner i = some visit.timer) (hk : s.timers[visit.timer]? = some timer)
    (he : s.run.timer.entries[i]? = some entry) (hle : s.time ≤ visit.time)
    (hdue : visit.fired = Timer.due entry (reading visit.time))
    (hin : visit.time < timer.created (s.visitsOf visit.timer) + (2 ^ 32 - 1))
    (hkept : TimerRun.Kept run) (hcurrent : TimerRun.Current run)
    (hcounted : run.timer.Counted)
    (hentries : run.timer.entries = s.run.timer.entries.set i
      (if visit.fired then Timer.arm entry (reading visit.time) else entry))
    (hledger : run.ledger = { s.run.ledger with fired := run.ledger.fired })
    (hfired : ∀ k, run.ledger.fired k = true →
      s.run.ledger.fired k = true ∨ k = visit.timer ∧ visit.fired = true)
    (hreturns : ∀ i generation callback parameter,
      .running i generation callback parameter ∈ run.frames → run.Returns i) :
    Dated { s with run, time := visit.time, visits := s.visits ++ [visit] } := by
  refine ⟨hkept, hcounted, hcurrent, ?_, ?_, ?_, hreturns, ?_, ?_, ?_, ?_, ?_⟩
  · rw [hledger]
    exact h.added
  · rw [hledger]
    exact h.uncleared
  · intro k hk
    rcases hfired k hk with hold | ⟨rfl, hnew⟩
    · obtain ⟨old, hmem, hf⟩ := h.fired k hold
      exact ⟨old, mem_visitsOf_concat hmem, hf⟩
    · rw [visitsOf_self]
      exact ⟨visit, List.mem_append_right _ List.mem_cons_self, hnew⟩
  · rw [hledger, hentries]
    intro j l other now hl hother hnow
    exact h.slots_visited ho hk he hl hother hnow
  · exact fun k other hother => h.past_visited hle hother
  · intro v hmem
    rcases List.mem_append.mp hmem with hold | hnew
    · exact ⟨(h.known v hold).1, Nat.le_trans (h.known v hold).2 hle⟩
    · rw [List.mem_singleton.mp hnew]
      exact ⟨(List.getElem?_eq_some_iff.mp hk).1, Nat.le_refl _⟩
  · refine List.pairwise_append.mpr ⟨h.sorted, List.pairwise_singleton .., ?_⟩
    intro earlier hearlier later hlater
    rw [List.mem_singleton.mp hlater]
    exact Nat.le_trans (h.known earlier hearlier).2 hle
  · exact fun k other hother => h.onTime_visited ho hk he hle hdue hin hother

end Visited

theorem visited_some {s : TimedTimers Fn} {i k : ℕ} {rest : List (TimerFrame Fn)}
    {entry : TimerEntry Fn} (hf : s.run.frames = .pass i :: rest)
    (he : s.run.timer.entries[i]? = some entry) (ho : s.run.ledger.owner i = some k) (time : ℕ) :
    s.visited time = some ⟨k, time, Timer.due entry (reading time)⟩ := by
  simp [TimedTimers.visited, hf, he, ho]

theorem Dated.fire {s : TimedTimers Fn} (h : Dated s) {i k time : ℕ}
    {rest : List (TimerFrame Fn)} {entry : TimerEntry Fn} {timer : DatedTimer}
    (hrest : ∀ j generation callback parameter,
      .running j generation callback parameter ∈ rest →
        .running j generation callback parameter ∈ s.run.frames)
    (he : s.run.timer.entries[i]? = some entry) (ho : s.run.ledger.owner i = some k)
    (hk : s.timers[k]? = some timer) (hle : s.time ≤ time)
    (hdue : Timer.due entry (reading time) = true)
    (hin : time < timer.created (s.visitsOf k) + (2 ^ 32 - 1))
    (hkept : TimerRun.Kept (s.run.fire i entry (reading time) rest))
    (hcurrent : TimerRun.Current (s.run.fire i entry (reading time) rest)) :
    Dated { s with
      run := s.run.fire i entry (reading time) rest
      time
      visits := s.visits ++ [⟨k, time, Timer.due entry (reading time)⟩] } := by
  obtain ⟨a, timer', entry', ha, -, hk', hrepeats, he', -, hslot⟩ := h.owned ho
  rw [hk] at hk'
  cases hk'
  rw [he] at he'
  cases he'
  refine h.visited ⟨k, time, _⟩ ho hk he hle rfl hin hkept hcurrent (h.counted.arm he _) ?_ rfl
    ?_ ?_
  · show _ = s.run.timer.entries.set i (if Timer.due entry _ then _ else _)
    rw [if_pos hdue]
    rfl
  · intro j hj
    rcases Bool.or_eq_true_iff.mp hj with hold | hnew
    · exact .inl hold
    · rw [ho] at hnew
      exact .inr ⟨(Option.some.inj (beq_iff_eq.mp hnew)).symm, hdue⟩
  · intro j generation callback parameter hmem
    rcases List.mem_cons.mp hmem with hnew | hold
    · cases hnew
      cases hr : entry.repeats with
      | true => exact TimerRun.Returns.fire he (.inl ⟨entry, he, hr⟩) _ rest
      | false =>
          refine .inr (.inr ⟨k, a, ho, ha, ?_, ?_⟩)
          · rw [← hrepeats, ← hslot.repeats, hr]
          · simp [TimerRun.fire, ho]
    · exact (h.returns j generation callback parameter (hrest _ _ _ _ hold)).fire he _ rest

theorem Dated.not_due {s : TimedTimers Fn} (h : Dated s) {i : ℕ} {entry : TimerEntry Fn}
    (he : s.run.timer.entries[i]? = some entry) (ho : s.run.ledger.owner i = none)
    (now : UInt32) : Timer.due entry now = false := by
  cases hactive : entry.active with
  | false => rw [Timer.due, hactive, Bool.false_and]
  | true =>
      obtain ⟨k, hk⟩ := h.kept.active i entry he hactive
      rw [ho] at hk
      cases hk

theorem Dated.visit {s s' : TimedTimers Fn} (h : Dated s) {ticks : ℕ}
    (hin : s.InTime (.visit ticks)) (hs : s.step (.visit ticks) = some s') : Dated s' := by
  obtain ⟨run, hrun, rfl⟩ := Option.map_eq_some_iff.mp hs
  have hle : s.time ≤ s.time + ticks := Nat.le_add_right ..
  obtain ⟨i, rest, hf, hcases⟩ := TimerRun.step_visit hrun
  have hrest : ∀ j generation callback parameter,
      .running j generation callback parameter ∈ rest →
        .running j generation callback parameter ∈ s.run.frames := by
    intro j generation callback parameter hmem
    rw [hf]
    exact List.mem_cons_of_mem _ hmem
  have hnext : ∀ j generation callback parameter,
      .running j generation callback parameter ∈ TimerFrame.pass (i + 1) :: rest →
        .running j generation callback parameter ∈ s.run.frames := by
    intro j generation callback parameter hmem
    exact hrest _ _ _ _ (by simpa using hmem)
  rcases hcases with ⟨hnone, rfl⟩ | ⟨entry, he, hcases⟩
  · -- the pass is over
    have hvisited : s.visited (s.time + ticks) = none := by
      simp [TimedTimers.visited, hf, hnone]
    rw [hvisited, Option.toList_none, List.append_nil]
    exact h.reframe _ hrest hle
  · cases ho : s.run.ledger.owner i with
    | none =>
        have hvisited : s.visited (s.time + ticks) = none := by
          simp [TimedTimers.visited, hf, he, ho]
        rcases hcases with ⟨hdue, -⟩ | ⟨-, rfl⟩
        · rw [h.not_due he ho] at hdue
          cases hdue
        · rw [hvisited, Option.toList_none, List.append_nil]
          exact h.reframe _ hnext hle
    | some k =>
        obtain ⟨_, timer, _, -, -, hk, -⟩ := h.owned ho
        have hvisited := visited_some hf he ho (s.time + ticks)
        have hlate := hin _ timer hvisited hk
        rw [hvisited, Option.toList_some]
        rcases hcases with ⟨hdue, rfl⟩ | ⟨hnot, rfl⟩
        · refine h.fire hrest he ho hk hle hdue hlate ?_ ?_
          · exact TimerRun.Kept.step _ (.visit _) _ h.kept trivial hrun
          · exact TimerRun.Current.step _ (.visit _) _ h.current trivial hrun
        · refine h.visited ⟨k, _, _⟩ ho hk he hle rfl hlate h.kept
            (h.current.of_subset rfl hnext) h.counted ?_ rfl (fun _ hj => .inl hj) ?_
          · show _ = s.run.timer.entries.set i (if Timer.due entry _ then _ else _)
            rw [hnot, if_neg Bool.false_ne_true]
            obtain ⟨hi, rfl⟩ := List.getElem?_eq_some_iff.mp he
            exact (List.set_getElem_self hi).symm
          · intro j generation callback parameter hmem
            exact h.returns j generation callback parameter (hnext _ _ _ _ hmem)

theorem Dated.handle {s s' : TimedTimers Fn} (h : Dated s) (hs : s.step .handle = some s') :
    Dated s' := by
  obtain ⟨run, hrun, rfl⟩ := Option.map_eq_some_iff.mp hs
  rcases TimerRun.step_handle hrun with rfl | rfl
  · exact h
  · exact h.reframe s.time (fun _ _ _ _ hmem => by simpa using hmem) (Nat.le_refl _)

theorem Dated.ret {s s' : TimedTimers Fn} (h : Dated s) {stale : Bool}
    (hs : s.step (.ret stale) = some s') : Dated s' := by
  obtain ⟨run, hrun, rfl⟩ := Option.map_eq_some_iff.mp hs
  obtain ⟨i, generation, callback, parameter, rest, hf, rfl⟩ := TimerRun.step_ret hrun
  have hrest : ∀ j g c p, .running j g c p ∈ TimerFrame.pass (i + 1) :: rest →
      .running j g c p ∈ s.run.frames := by
    intro j g c p hmem
    rw [hf]
    exact List.mem_cons_of_mem _ (by simpa using hmem)
  have htop : .running i generation callback parameter ∈ s.run.frames := by
    rw [hf]
    exact List.mem_cons_self
  have hgeneration := h.current i generation callback parameter htop
  have hreturns := h.returns i generation callback parameter htop
  by_cases hrepeat : s.run.timer.repeatAfter i generation stale = true
  · rw [TimerRun.finish, if_pos hrepeat]
    exact h.reframe s.time hrest (Nat.le_refl _)
  · -- the reference is to the current array, so the slot holds no interval timer
    have hdone : s.run.FreeOrDone i := by
      refine hreturns.resolve_left ?_
      rintro ⟨entry, he, hentry⟩
      refine hrepeat ?_
      rw [Timer.repeatAfter, if_pos hgeneration, he]
      exact hentry
    have hkept := TimerRun.Kept.step _ (.ret stale) _ h.kept
      (by simp only [TimerRun.CleanReturn, hf]; exact .inr hdone) hrun
    have hcurrent := TimerRun.Current.step _ (.ret stale) _ h.current trivial hrun
    rw [TimerRun.finish, if_neg hrepeat] at hkept hcurrent ⊢
    refine ⟨hkept, h.counted.clear i, hcurrent, h.added, h.uncleared, h.fired, ?_, ?_, h.past,
      h.known, h.sorted, h.onTime⟩
    · intro j g c p hmem
      exact (h.returns j g c p (hrest j g c p hmem)).clear _
    · intro j k timer entry ho hk he
      change Function.update s.run.ledger.owner i none j = some k at ho
      have hji : j ≠ i := by
        rintro rfl
        rw [Function.update_self] at ho
        cases ho
      rw [Function.update_of_ne hji] at ho
      refine h.slots j k timer entry ho hk ?_
      rcases s.run.timer.clear_cases i with ⟨hsame, -⟩ | ⟨_, -, -, hset⟩
      · rwa [hsame] at he
      · rwa [hset, List.getElem?_set_ne (Ne.symm hji)] at he

/-! ## One more timer

The main program adds it while no pass is running; the array may have grown. -/

section Added

variable {s : TimedTimers Fn} {run : TimerRun Fn}

theorem Dated.visitsOf_new (h : Dated s) : s.visitsOf s.timers.length = [] := by
  rw [visitsOf, List.filter_eq_nil_iff]
  intro visit hmem
  have hlt := (h.known visit hmem).1
  rw [beq_iff_eq]
  omega

theorem Dated.entry_grown (h : Dated s) {g : Timer Fn} {memory : Bool}
    (hg : g = s.run.timer ∨ g = s.run.timer.grow memory) {i k : ℕ}
    (ho : s.run.ledger.owner i = some k) : g.entries[i]? = s.run.timer.entries[i]? := by
  obtain ⟨_, _, entry, -, -, -, -, he, -⟩ := h.owned ho
  rcases hg with rfl | rfl
  · rfl
  · exact Timer.grow_prefix _ _ (List.getElem?_eq_some_iff.mp he).1

theorem Dated.counted_grown (h : Dated s) {g : Timer Fn} {memory : Bool}
    (hg : g = s.run.timer ∨ g = s.run.timer.grow memory) : g.Counted := by
  rcases hg with rfl | rfl
  · exact h.counted
  · exact h.counted.grow memory

theorem Dated.refused (h : Dated s) {g : Timer Fn} {memory : Bool}
    (hg : g = s.run.timer ∨ g = s.run.timer.grow memory) (hframes : s.run.frames = [])
    (hkept : TimerRun.Kept { s.run with timer := g }) {time : ℕ} (hle : s.time ≤ time) :
    Dated { s with run := { s.run with timer := g }, time } := by
  refine ⟨hkept, h.counted_grown hg, ?_, h.added, h.uncleared, h.fired, ?_, ?_, ?_, ?_, h.sorted,
    h.onTime⟩
  · intro i generation callback parameter hmem
    rw [hframes] at hmem
    cases hmem
  · intro i generation callback parameter hmem
    rw [hframes] at hmem
    cases hmem
  · intro i k timer entry ho hk he
    rw [h.entry_grown hg ho] at he
    exact h.slots i k timer entry ho hk he
  · exact fun k timer hk => Nat.le_trans (h.past k timer hk) hle
  · exact fun visit hmem => ⟨(h.known visit hmem).1, Nat.le_trans (h.known visit hmem).2 hle⟩

theorem Dated.taken (h : Dated s) {g : Timer Fn} {memory : Bool}
    (hg : g = s.run.timer ∨ g = s.run.timer.grow memory) (timer : DatedTimer)
    (added : AddedTimer Fn) {i : ℕ} {entry : TimerEntry Fn} (hle : s.time ≤ timer.addedAt)
    (hi : i < g.entries.length) (hslot : timer.InSlot [] entry)
    (hrepeats : added.repeats = timer.repeats) (hkept : TimerRun.Kept run)
    (hcounted : run.timer.Counted) (hframes : run.frames = [])
    (hentries : run.timer.entries = g.entries.set i entry)
    (hledger : run.ledger = { s.run.ledger with
      added := s.run.ledger.added ++ [added]
      owner := Function.update s.run.ledger.owner i (some s.timers.length) }) :
    Dated { s with run, time := timer.addedAt, timers := s.timers ++ [timer] } := by
  refine ⟨hkept, hcounted, ?_, ?_, ?_, ?_, ?_, ?_, ?_, ?_, h.sorted, ?_⟩
  · intro j generation callback parameter hmem
    rw [hframes] at hmem
    cases hmem
  · rw [hledger, List.map_append, List.map_append, h.added, List.map_singleton,
      List.map_singleton, hrepeats]
  · rw [hledger]
    exact h.uncleared
  · rw [hledger]
    exact h.fired
  · intro j generation callback parameter hmem
    rw [hframes] at hmem
    cases hmem
  · rw [hledger, hentries]
    intro j k other now ho hk hnow
    change Function.update s.run.ledger.owner i (some s.timers.length) j = some k at ho
    by_cases hji : j = i
    · subst hji
      rw [Function.update_self] at ho
      obtain rfl := Option.some.inj ho
      rw [List.getElem?_set_self hi] at hnow
      obtain rfl := Option.some.inj hnow
      rw [List.getElem?_concat_length] at hk
      obtain rfl := Option.some.inj hk
      exact h.visitsOf_new.symm ▸ hslot
    · rw [Function.update_of_ne hji] at ho
      rw [List.getElem?_set_ne (Ne.symm hji), h.entry_grown hg ho] at hnow
      obtain ⟨_, known, _, -, -, hknown, -⟩ := h.owned ho
      rw [List.getElem?_append_left (List.getElem?_eq_some_iff.mp hknown).1] at hk
      exact h.slots j k other now ho hk hnow
  · intro k other hk
    rcases getElem?_concat_cases hk with hold | ⟨rfl, rfl⟩
    · exact Nat.le_trans (h.past k other hold) hle
    · show other.created (s.visitsOf _) ≤ _
      rw [h.visitsOf_new, DatedTimer.created_nil]
  · intro visit hmem
    obtain ⟨hlt, htime⟩ := h.known visit hmem
    refine ⟨?_, Nat.le_trans htime hle⟩
    rw [List.length_append]
    omega
  · intro k other hk
    rcases getElem?_concat_cases hk with hold | ⟨rfl, rfl⟩
    · exact h.onTime k other hold
    · show other.OnTime (s.visitsOf _)
      rw [h.visitsOf_new]
      exact DatedTimer.onTime_nil _

theorem Dated.add {s' : TimedTimers Fn} (h : Dated s) {ticks : ℕ} {callback : Fn}
    {interval : UInt32} {repeats : Bool} {parameter : ℕ} {memory : Bool}
    (hs : s.step (.add ticks callback interval repeats parameter memory) = some s') :
    Dated s' := by
  simp only [step] at hs
  split at hs
  · rename_i hempty
    cases hs
    have hframes : s.run.frames = [] := List.isEmpty_iff.mp hempty
    have hkept := h.kept.add callback interval repeats parameter (reading (s.time + ticks)) memory
    have hle : s.time ≤ s.time + ticks := Nat.le_add_right ..
    obtain ⟨g, hg, hadd⟩ :=
      s.run.timer.add_cases callback interval repeats parameter (reading (s.time + ticks)) memory
    rw [TimerRun.add] at hkept ⊢
    rcases hadd with hadd | ⟨i, old, hfree, hinactive, hadd⟩
    · rw [hadd] at hkept ⊢
      exact h.refused hg hframes hkept hle
    · rw [hadd] at hkept ⊢
      refine h.taken hg { repeats, interval, addedAt := s.time + ticks }
        { id := i, repeats, callback, parameter } hle
        (List.getElem?_eq_some_iff.mp hfree).1 ?_ rfl hkept
        ((h.counted_grown hg).take hfree hinactive rfl) hframes rfl ?_
      · exact ⟨rfl, by rw [DatedTimer.created_nil], by simp [DatedTimer.intervalNow]⟩
      · rw [← h.length_eq]
  · cases hs

end Added

theorem Dated.step (s : TimedTimers Fn) (e : TimedTimerEvent Fn) (s' : TimedTimers Fn)
    (h : Dated s) (hin : s.InTime e) (hs : s.step e = some s') : Dated s' := by
  cases e with
  | add ticks callback interval repeats parameter memory => exact h.add hs
  | handle => exact h.handle hs
  | visit ticks => exact h.visit hin hs
  | ret stale => exact h.ret hs

theorem Dated.init (start : ℕ) : Dated ({ time := start } : TimedTimers Fn) where
  kept := TimerRun.Kept.init
  counted := rfl
  current _ _ _ _ hmem := by cases hmem
  added := rfl
  uncleared _ := rfl
  fired _ hfired := by cases hfired
  returns _ _ _ _ hmem := by cases hmem
  slots _ _ _ _ ho := by cases ho
  past _ _ hk := by cases hk
  known _ hmem := by cases hmem
  sorted := List.Pairwise.nil
  onTime _ _ hk := by cases hk

/-- Timer `k` is in a slot, where each pass visits it. -/
def Waiting (s : TimedTimers Fn) (k : ℕ) : Prop :=
  ∃ i, s.run.ledger.owner i = some k ∧ s.run.live i = true

theorem Dated.waiting {s : TimedTimers Fn} (h : Dated s) {k : ℕ} {timer : DatedTimer}
    (hk : s.timers[k]? = some timer)
    (hdue : timer.repeats = true ∨ ∀ visit ∈ s.visitsOf k, visit.fired = false) : s.Waiting k := by
  have hlt : k < s.run.ledger.added.length := h.length_eq ▸ (List.getElem?_eq_some_iff.mp hk).1
  have ha := List.getElem?_eq_getElem hlt
  rcases h.kept.notLost k _ ha with ⟨ho, entry, he, hm⟩ | hcleared | ⟨honce, hfired⟩
  · refine ⟨_, ho, ?_⟩
    rw [TimerRun.live, he]
    exact hm.active
  · rw [h.uncleared] at hcleared
    cases hcleared
  · obtain ⟨visit, hmem, hvisit⟩ := h.fired k hfired
    rcases hdue with hrepeats | hnone
    · rw [h.repeats_eq hk ha, honce] at hrepeats
      cases hrepeats
    · rw [hnone visit hmem] at hvisit
      cases hvisit

end TimedTimers

end EspIot
