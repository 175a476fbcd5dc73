/-
# `EspIot.Async.SystemTimer` — the timers that fire on a task of their own

`set_timeout` pushes a timer under the spinlock; `timer_task` runs pass after
pass of `process_pending_tasks`, which takes the first timer off under the same
spinlock and calls it outside.  The clock is read again for every check, so a
pass goes on as long as something has become due.

    idle ──▶ processing ──nothing due──▶ idle
    processing ──taken off──▶ holding ──called──▶ running
    running ──more was due──▶ processing,  running ──nothing was due──▶ idle

A callback is known by the number of the `set_timeout` call that accepted it.
The clock is an `int64_t` of microseconds, so no sum of milliseconds wraps.
-/
import EspIot.Lib.PriorityQueue
import EspIot.Lib.Run
import Mathlib.Data.Multiset.Range
import Mathlib.Data.Multiset.MapFold
import Mathlib.Algebra.Order.Group.Multiset

namespace EspIot

open Lib

/-- `SystemTimer::TimerTask` -/
structure SystemTimerEntry where
  timeoutAt : ℕ
  callback : ℕ
deriving DecidableEq, Repr

/-- Where `timer_task` stands.  `hasPending` is what the second check of `process_pending_tasks`
has found. -/
inductive SystemTimerTask
  /-- not created -/
  | absent
  /-- between two passes -/
  | idle
  /-- before the section of `process_pending_tasks` -/
  | processing
  /-- past that section, with the timer that was taken off -/
  | holding (timer : SystemTimerEntry) (hasPending : Bool)
  /-- inside `callback()` -/
  | running (hasPending : Bool)
deriving DecidableEq, Repr

/-- The callback that is off the queue and not called yet. -/
def SystemTimerTask.inHand : SystemTimerTask → Multiset ℕ
  | holding timer _ => {timer.callback}
  | _ => 0

/-- `SystemTimer` over a queue, its task, the clock, and what has happened: when each accepted
callback was to time out, the callbacks called and when, the timers taken off with what stayed
queued.  `check` is the last clock reading of the pass with what was queued then, `passes` are
those of the passes that have ended. -/
structure SystemTimer (pq : PriorityQueue SystemTimerEntry SystemTimerEntry.timeoutAt) where
  initialized : Bool := false
  timers : pq.Queue := pq.empty
  task : SystemTimerTask := .absent
  micros : ℕ := 0
  accepted : List ℕ := []
  called : List (ℕ × ℕ) := []
  taken : List (SystemTimerEntry × Multiset SystemTimerEntry) := []
  check : ℕ × Multiset SystemTimerEntry := (0, 0)
  passes : List (ℕ × Multiset SystemTimerEntry) := []

/-- Time passes; `set_timeout` is called, with a callback or with `nullptr`, and a task is created
or not where one is needed; `timer_task` takes its next step, in which `between` microseconds pass
between two clock readings. -/
inductive SystemTimerEvent
  | elapse (micros : ℕ)
  | setTimeout (timeout : UInt32) (isNull started : Bool)
  | task (between : ℕ)

namespace SystemTimer

variable {pq : PriorityQueue SystemTimerEntry SystemTimerEntry.timeoutAt}

def millis64 (s : SystemTimer pq) : ℕ := s.micros / 1000

def push (timeout : UInt32) (s : SystemTimer pq) : SystemTimer pq :=
  let timeoutAt := s.millis64 + timeout.toNat
  { s with
    timers := pq.push { timeoutAt, callback := s.accepted.length } s.timers
    accepted := s.accepted ++ [timeoutAt] }

def setTimeout (timeout : UInt32) (isNull started : Bool) (s : SystemTimer pq) :
    Bool × SystemTimer pq :=
  if isNull then (false, s)
  else if s.initialized then (true, s.push timeout)
  else if started then (true, { s with initialized := true, task := .idle }.push timeout)
  else (false, s)

def hasPendingTask (s : SystemTimer pq) : Bool :=
  match pq.top s.timers with
  | none => false
  | some timer => timer.timeoutAt < s.millis64

/-- The check is the last one of the pass so far.  On an empty queue the clock is not read. -/
def checked (s : SystemTimer pq) : SystemTimer pq :=
  { s with
    check := (if (pq.top s.timers).isSome then s.millis64 else s.check.1, pq.elements s.timers) }

def endPass (s : SystemTimer pq) : SystemTimer pq :=
  { s with task := .idle, passes := s.passes ++ [s.check] }

/-- The first timer is moved out and popped; the clock is read next when `between` microseconds
have passed. -/
def take (timer : SystemTimerEntry) (between : ℕ) (s : SystemTimer pq) : SystemTimer pq :=
  { s with
    timers := pq.pop s.timers
    micros := s.micros + between
    taken := s.taken ++ [(timer, pq.elements (pq.pop s.timers))] }

/-- The section of `process_pending_tasks`. -/
def processPendingTasks (between : ℕ) (s : SystemTimer pq) : SystemTimer pq :=
  let s := s.checked
  match pq.top s.timers with
  | none => s.endPass
  | some timer =>
      if timer.timeoutAt < s.millis64 then
        let s := s.take timer between
        { s.checked with task := .holding timer s.hasPendingTask }
      else s.endPass

/-- The next step of `timer_task`; `none` while it does not exist. -/
def runTask (between : ℕ) (s : SystemTimer pq) : Option (SystemTimer pq) :=
  match s.task with
  | .absent => none
  | .idle => some { s with task := .processing, check := (0, 0) }
  | .processing => some (s.processPendingTasks between)
  | .holding timer hasPending =>
      some { s with
        task := .running hasPending, called := s.called ++ [(timer.callback, s.millis64)] }
  | .running hasPending => some (if hasPending then { s with task := .processing } else s.endPass)

def step (s : SystemTimer pq) : SystemTimerEvent → Option (SystemTimer pq)
  | .elapse micros => some { s with micros := s.micros + micros }
  | .setTimeout timeout isNull started => some (s.setTimeout timeout isNull started).2
  | .task between => s.runTask between

/-- **Each accepted callback is called once at most, and only after its time; what is taken off was
to time out first; and a pass ends on a check that found nothing due.** -/
structure Fires (s : SystemTimer pq) : Prop where
  once : (s.called.map Prod.fst).Nodup
  late : ∀ x ∈ s.called, ∃ timeoutAt, s.accepted[x.1]? = some timeoutAt ∧ timeoutAt < x.2
  order : ∀ x ∈ s.taken, ∀ timer ∈ x.2, x.1.timeoutAt ≤ timer.timeoutAt
  passes : ∀ x ∈ s.passes, ∀ timer ∈ x.2, ¬ timer.timeoutAt < x.1

/-! ## The invariant -/

/-- Every accepted callback is in exactly one place, and what is off the queue was due. -/
structure Inv (s : SystemTimer pq) : Prop where
  places : (pq.elements s.timers).map SystemTimerEntry.callback + s.task.inHand +
    (s.called.map Prod.fst : List ℕ) = Multiset.range s.accepted.length
  times : ∀ timer ∈ pq.elements s.timers,
    s.accepted[timer.callback]? = some timer.timeoutAt
  due : ∀ timer hasPending, s.task = .holding timer hasPending →
    s.accepted[timer.callback]? = some timer.timeoutAt ∧ timer.timeoutAt < s.millis64
  nothingDue : (∃ timer, s.task = .holding timer false) ∨ s.task = .running false →
    ∀ timer ∈ s.check.2, ¬ timer.timeoutAt < s.check.1
  late : ∀ x ∈ s.called, ∃ timeoutAt, s.accepted[x.1]? = some timeoutAt ∧ timeoutAt < x.2
  order : ∀ x ∈ s.taken, ∀ timer ∈ x.2, x.1.timeoutAt ≤ timer.timeoutAt
  passes : ∀ x ∈ s.passes, ∀ timer ∈ x.2, ¬ timer.timeoutAt < x.1
  created : s.task ≠ .absent → s.initialized = true

theorem inv_initial : Inv ({} : SystemTimer pq) where
  places := by
    show (pq.elements pq.empty).map SystemTimerEntry.callback + 0 + 0 = Multiset.range 0
    rw [pq.elements_empty]
    rfl
  times timer h := by
    have hempty : timer ∈ pq.elements pq.empty := h
    rw [pq.elements_empty] at hempty
    exact absurd hempty (Multiset.notMem_zero timer)
  due timer hasPending h := by cases h
  nothingDue h := by
    rcases h with ⟨timer, h⟩ | h
    · cases h
    · cases h
  late x h := by cases h
  order x h := by cases h
  passes x h := by cases h
  created h := absurd rfl h

theorem Inv.fires {s : SystemTimer pq} (h : Inv s) : Fires s := by
  refine ⟨?_, h.late, h.order, h.passes⟩
  have hle : ((s.called.map Prod.fst : List ℕ) : Multiset ℕ) ≤
      Multiset.range s.accepted.length := by
    rw [← h.places]
    exact Multiset.le_add_left _ _
  exact Multiset.coe_nodup.mp (Multiset.nodup_of_le hle (Multiset.nodup_range _))

/-! ## Steps -/

theorem Inv.push {s : SystemTimer pq} (h : Inv s) (timeout : UInt32) : Inv (s.push timeout) := by
  have hkeep : ∀ {k t : ℕ}, s.accepted[k]? = some t →
      (s.accepted ++ [s.millis64 + timeout.toNat])[k]? = some t := by
    intro k t hk
    rw [List.getElem?_append_left (List.getElem?_eq_some_iff.mp hk).1]
    exact hk
  refine ⟨?_, ?_, ?_, h.nothingDue, ?_, h.order, h.passes, h.created⟩
  · show (pq.elements (pq.push _ s.timers)).map _ + s.task.inHand +
      ((s.called.map Prod.fst : List ℕ) : Multiset ℕ) =
        Multiset.range (s.accepted ++ [_]).length
    rw [pq.elements_push, Multiset.map_cons, Multiset.cons_add, Multiset.cons_add, h.places,
      List.length_append, List.length_singleton, Multiset.range_succ]
  · intro timer htimer
    have htimer' : timer ∈ pq.elements (pq.push _ s.timers) := htimer
    rw [pq.elements_push] at htimer'
    rcases Multiset.mem_cons.mp htimer' with rfl | hold
    · exact List.getElem?_concat_length
    · exact hkeep (h.times timer hold)
  · intro timer hasPending htask
    obtain ⟨haccepted, hdue⟩ := h.due timer hasPending htask
    exact ⟨hkeep haccepted, hdue⟩
  · intro x hx
    obtain ⟨timeoutAt, haccepted, hlate⟩ := h.late x hx
    exact ⟨timeoutAt, hkeep haccepted, hlate⟩

theorem Inv.setTimeout {s : SystemTimer pq} (h : Inv s) (timeout : UInt32)
    (isNull started : Bool) : Inv (s.setTimeout timeout isNull started).2 := by
  rw [SystemTimer.setTimeout]
  split
  · exact h
  split
  · exact h.push timeout
  split
  · rename_i hnot _
    have habsent : s.task = .absent := by
      by_contra htask
      exact hnot (h.created htask)
    have hplaces := h.places
    rw [habsent] at hplaces
    have hcreated : Inv { s with initialized := true, task := .idle } := by
      refine ⟨hplaces, h.times, ?_, ?_, h.late, h.order, h.passes, fun _ => rfl⟩
      · intro timer hasPending htask
        cases htask
      · rintro (⟨timer, htask⟩ | htask)
        · cases htask
        · cases htask
    exact hcreated.push timeout
  · exact h

theorem hasPendingTask_eq_false {s : SystemTimer pq} (h : s.hasPendingTask = false) :
    ∀ timer ∈ s.checked.check.2, ¬ timer.timeoutAt < s.checked.check.1 := by
  intro timer htimer
  rw [hasPendingTask] at h
  show ¬ timer.timeoutAt < (if (pq.top s.timers).isSome then s.millis64 else s.check.1)
  cases htop : pq.top s.timers with
  | none =>
      have hnone : timer ∈ pq.elements s.timers := htimer
      rw [pq.top_none _ htop] at hnone
      exact absurd hnone (Multiset.notMem_zero timer)
  | some first =>
      rw [htop] at h
      have hfirst := of_decide_eq_false h
      have hle := pq.top_le _ _ htop timer htimer
      rw [if_pos (by rfl)]
      omega

theorem Inv.endPass {s : SystemTimer pq} (h : Inv s) (hhand : s.task.inHand = 0)
    (htask : s.task ≠ .absent)
    (hcheck : ∀ timer ∈ s.check.2, ¬ timer.timeoutAt < s.check.1) : Inv s.endPass := by
  refine ⟨?_, h.times, ?_, ?_, h.late, h.order, ?_, fun _ => h.created htask⟩
  · have hplaces := h.places
    rw [hhand] at hplaces
    exact hplaces
  · intro timer hasPending htask
    cases htask
  · rintro (⟨timer, htask⟩ | htask)
    · cases htask
    · cases htask
  · intro x hx
    rcases List.mem_append.mp hx with hold | hnew
    · exact h.passes x hold
    · rw [List.mem_singleton.mp hnew]
      exact hcheck

theorem Inv.checked {s : SystemTimer pq} (h : Inv s) (htask : s.task = .processing) :
    Inv s.checked := by
  refine ⟨h.places, h.times, h.due, ?_, h.late, h.order, h.passes, h.created⟩
  rintro (⟨timer, hholding⟩ | hrunning)
  · have hbad : s.task = .holding timer false := hholding
    rw [htask] at hbad
    cases hbad
  · have hbad : s.task = .running false := hrunning
    rw [htask] at hbad
    cases hbad

theorem Inv.processPendingTasks {s : SystemTimer pq} (h : Inv s) (htask : s.task = .processing)
    (between : ℕ) : Inv (s.processPendingTasks between) := by
  have hhand : s.task.inHand = 0 := by rw [htask]; rfl
  have hexists : s.task ≠ .absent := by
    rw [htask]
    intro habsent
    cases habsent
  have hchecked := h.checked htask
  rw [SystemTimer.processPendingTasks]
  show Inv (match pq.top s.timers with | none => _ | some timer => _)
  cases htop : pq.top s.timers with
  | none =>
      have hnone : s.hasPendingTask = false := by rw [hasPendingTask, htop]
      exact hchecked.endPass hhand hexists (hasPendingTask_eq_false hnone)
  | some timer =>
      dsimp only
      split
      · rename_i hdue
        have helements := pq.elements_pop _ _ htop
        have hmem : timer ∈ pq.elements s.timers := by
          rw [helements]
          exact Multiset.mem_cons_self timer _
        refine ⟨?_, ?_, ?_, ?_, h.late, ?_, h.passes, fun _ => h.created hexists⟩
        · have hplaces := h.places
          rw [hhand, helements, Multiset.map_cons, add_zero] at hplaces
          show (pq.elements (pq.pop s.timers)).map SystemTimerEntry.callback + {timer.callback} +
            ((s.called.map Prod.fst : List ℕ) : Multiset ℕ) = Multiset.range s.accepted.length
          rw [← hplaces, Multiset.add_comm _ {timer.callback}, Multiset.singleton_add]
        · intro other hother
          refine h.times other ?_
          rw [helements]
          exact Multiset.mem_cons_of_mem hother
        · intro other hasPending hother
          cases hother
          refine ⟨h.times timer hmem, ?_⟩
          have hlater : s.micros / 1000 ≤ (s.micros + between) / 1000 :=
            Nat.div_le_div_right (Nat.le_add_right _ _)
          exact lt_of_lt_of_le hdue hlater
        · rintro (⟨other, hother⟩ | hother)
          · have hpending := (SystemTimerTask.holding.inj hother).2
            exact hasPendingTask_eq_false hpending
          · cases hother
        · intro x hx
          rcases List.mem_append.mp hx with hold | hnew
          · exact h.order x hold
          · rw [List.mem_singleton.mp hnew]
            intro other hother
            exact pq.pop_le htop hother
      · rename_i hnotDue
        have hnone : s.hasPendingTask = false := by
          rw [hasPendingTask, htop]
          exact decide_eq_false hnotDue
        exact hchecked.endPass hhand hexists (hasPendingTask_eq_false hnone)

theorem Inv.process {s : SystemTimer pq} (h : Inv s) (hhand : s.task.inHand = 0)
    (htask : s.task ≠ .absent) (check : ℕ × Multiset SystemTimerEntry) :
    Inv { s with task := .processing, check } := by
  refine ⟨?_, h.times, ?_, ?_, h.late, h.order, h.passes, fun _ => h.created htask⟩
  · have hplaces := h.places
    rw [hhand] at hplaces
    exact hplaces
  · intro timer hasPending hholding
    cases hholding
  · rintro (⟨timer, hholding⟩ | hrunning)
    · cases hholding
    · cases hrunning

theorem Inv.call {s : SystemTimer pq} (h : Inv s) {timer : SystemTimerEntry} {hasPending : Bool}
    (htask : s.task = .holding timer hasPending) :
    Inv { s with
      task := .running hasPending, called := s.called ++ [(timer.callback, s.millis64)] } := by
  have hexists : s.task ≠ .absent := by
    rw [htask]
    nofun
  have hplaces := h.places
  rw [htask] at hplaces
  obtain ⟨haccepted, hdue⟩ := h.due timer hasPending htask
  refine ⟨?_, h.times, ?_, ?_, ?_, h.order, h.passes, fun _ => h.created hexists⟩
  · show (pq.elements s.timers).map _ + 0 + _ = _
    rw [← hplaces, List.map_append, ← Multiset.coe_add]
    show _ + 0 + (_ + ({timer.callback} : Multiset ℕ)) = _ + {timer.callback} + _
    rw [add_zero, add_comm _ ({timer.callback} : Multiset ℕ), add_assoc]
  · intro other hasPending' hholding
    cases hholding
  · rintro (⟨other, hholding⟩ | hrunning)
    · cases hholding
    · have hpending := SystemTimerTask.running.inj hrunning
      refine h.nothingDue (.inl ⟨timer, ?_⟩)
      rw [htask, hpending]
  · intro x hx
    rcases List.mem_append.mp hx with hold | hnew
    · exact h.late x hold
    · rw [List.mem_singleton.mp hnew]
      exact ⟨timer.timeoutAt, haccepted, hdue⟩

theorem Inv.runTask {s t : SystemTimer pq} (h : Inv s) {between : ℕ}
    (ht : s.runTask between = some t) : Inv t := by
  rw [SystemTimer.runTask] at ht
  cases htask : s.task with
  | absent =>
      rw [htask] at ht
      cases ht
  | idle =>
      rw [htask] at ht
      cases ht
      exact h.process (by rw [htask]; rfl) (by rw [htask]; nofun) (0, 0)
  | processing =>
      rw [htask] at ht
      cases ht
      exact h.processPendingTasks htask between
  | holding timer hasPending =>
      rw [htask] at ht
      cases ht
      exact h.call htask
  | running hasPending =>
      rw [htask] at ht
      cases ht
      split
      · exact h.process (by rw [htask]; rfl) (by rw [htask]; nofun) s.check
      · rename_i hpending
        have hfalse : hasPending = false := Bool.eq_false_iff.mpr hpending
        refine h.endPass (by rw [htask]; rfl) (by rw [htask]; nofun) (h.nothingDue (.inr ?_))
        rw [htask, hfalse]

theorem Inv.step {s t : SystemTimer pq} {e : SystemTimerEvent} (h : Inv s)
    (ht : step s e = some t) : Inv t := by
  cases e with
  | elapse micros =>
      cases ht
      refine ⟨h.places, h.times, ?_, h.nothingDue, h.late, h.order, h.passes, h.created⟩
      intro timer hasPending htask
      obtain ⟨haccepted, hdue⟩ := h.due timer hasPending htask
      have hlater : s.micros / 1000 ≤ (s.micros + micros) / 1000 :=
        Nat.div_le_div_right (Nat.le_add_right _ _)
      exact ⟨haccepted, lt_of_lt_of_le hdue hlater⟩
  | setTimeout timeout isNull started =>
      cases ht
      exact h.setTimeout timeout isNull started
  | task between => exact h.runTask ht

/-- **Whatever is pushed while timers run, from a callback or from elsewhere, every accepted
callback is called once at most and never early, the timers are taken off in the order of their
times, and a pass leaves nothing due behind.** -/
theorem fires_once_in_order (es : List SystemTimerEvent) :
    Always step Fires ({} : SystemTimer pq) es := by
  refine Always.of_each (fun _ => Inv.fires) ?_ inv_initial (Each.of_forall (fun _ _ _ => trivial))
  intro s e s' h _ ht
  exact h.step ht

/-- Two timers are pushed, the later one first. -/
theorem fires_once_in_order_two :
    let es : List SystemTimerEvent :=
      [.setTimeout 9 false true, .setTimeout 5 false true, .elapse 20000] ++
        List.replicate 7 (.task 0)
    Always step Fires ({} : SystemTimer (.sorted _ _)) es ∧
      ∃ s, run step ({} : SystemTimer (.sorted _ _)) es = some s ∧ s.called = [(1, 20), (0, 20)] :=
  ⟨fires_once_in_order _, _, rfl, rfl⟩

end SystemTimer

end EspIot
