/-
# `EspIot.Async.Dispatcher` — the queue, the notification and the task that drains it

`Dispatcher::dispatch` pushes a function and notifies the dispatcher task inside
one spinlock section; `dispatcher_task` waits for the notification, then calls
`process_pending_tasks` until it answers that nothing is left.  That answer is
computed inside the section that takes a function off the queue, before the
function runs, so it may be out of date when the loop looks at it: what was
dispatched meanwhile is then found only because it left the notification set.

    waiting ──notified──▶ pending ──take──▶ holding ──call──▶ running
    pending ──nothing queued──▶ waiting
    running ──empty──▶ waiting,  running ──not empty──▶ pending

The notification is a flag: a notification sets it, the wait clears it.  A dispatch whose
notification fails is to be taken back, and it is taken back at the wrong end of the queue.
-/
import EspIot.Lib.Run

namespace EspIot

variable {Fn : Type*}

/-- Where `dispatcher_task` stands.  `empty` is the local of `process_pending_tasks`, read when
the function was taken. -/
inductive DispatcherTask (Fn : Type*)
  /-- not created -/
  | absent
  /-- in `xTaskNotifyWaitIndexed` -/
  | waiting
  /-- before the section of `process_pending_tasks` -/
  | pending
  /-- past that section, with the function that was taken -/
  | holding (callback : Fn) (empty : Bool)
  /-- inside `callback()` -/
  | running (empty : Bool)
deriving DecidableEq, Repr

namespace DispatcherTask

/-- The function that is off the queue and not called yet. -/
def inHand : DispatcherTask Fn → List Fn
  | holding callback _ => [callback]
  | _ => []

/-- The `empty` that decides whether the loop goes on to the wait. -/
def willWait : DispatcherTask Fn → Bool
  | waiting => true
  | holding _ empty => empty
  | running empty => empty
  | _ => false

end DispatcherTask

/-- The static members of `Dispatcher`, the task with its notification flag, and three logs: what
`dispatch` accepted, what was taken off the queue to be run, what was called. -/
structure Dispatcher (Fn : Type*) where
  initialized : Bool := false
  dispatched : List Fn := []
  notified : Bool := false
  task : DispatcherTask Fn := .absent
  accepted : List Fn := []
  started : List Fn := []
  called : List Fn := []
deriving DecidableEq, Repr

/-- What can happen next.  `inISR`, `created` and `success` are the answers of `xIsInISR`,
`xTaskCreatePinnedToCore` and `xTaskNotify`. -/
inductive DispatcherEvent (Fn : Type*)
  | begin (inISR created : Bool)
  | dispatch (inISR created success : Bool) (fn : Fn)
  /-- the dispatcher task takes its next step -/
  | task

namespace Dispatcher

/-- `Dispatcher::begin`, with its answer. -/
def begin (inISR created : Bool) (d : Dispatcher Fn) : Bool × Dispatcher Fn :=
  if inISR then (false, d)
  else if d.initialized then (true, d)
  else if created then (true, { d with initialized := true, task := .waiting })
  else (false, d)

/-- The section of `Dispatcher::dispatch`.  A notification that fails takes the front of the queue
off again, whatever it is. -/
def push (success : Bool) (fn : Fn) (d : Dispatcher Fn) : Bool × Dispatcher Fn :=
  if success then
    (true, { d with
      dispatched := d.dispatched ++ [fn], notified := true, accepted := d.accepted ++ [fn] })
  else (false, { d with dispatched := (d.dispatched ++ [fn]).tail })

def dispatch (inISR created success : Bool) (fn : Fn) (d : Dispatcher Fn) : Bool × Dispatcher Fn :=
  if d.initialized then d.push success fn
  else
    match d.begin inISR created with
    | (true, d') => d'.push success fn
    | (false, d') => (false, d')

/-- The next step of `dispatcher_task`, the wait, the section of `process_pending_tasks`, the call
of what it took, and the end of that call; `none` while it is blocked or does not exist. -/
def runTask (d : Dispatcher Fn) : Option (Dispatcher Fn) :=
  match d.task with
  | .absent => none
  | .waiting => if d.notified then some { d with notified := false, task := .pending } else none
  | .pending =>
      match d.dispatched with
      | [] => some { d with task := .waiting }
      | callback :: rest =>
          some { d with
            dispatched := rest, task := .holding callback rest.isEmpty,
            started := d.started ++ [callback] }
  | .holding callback empty =>
      some { d with task := .running empty, called := d.called ++ [callback] }
  | .running empty => some { d with task := if empty then .waiting else .pending }

def step (d : Dispatcher Fn) : DispatcherEvent Fn → Option (Dispatcher Fn)
  | .begin inISR created => some (d.begin inISR created).2
  | .dispatch inISR created success fn => some (d.dispatch inISR created success fn).2
  | .task => d.runTask

def Notifies : DispatcherEvent Fn → Prop
  | .dispatch _ _ success _ => success = true
  | _ => True

/-! ## What one step keeps -/

/-- The queue, the flag and the position of the loop, tied together. -/
structure Inv (d : Dispatcher Fn) : Prop where
  /-- A task that is on its way to the wait without a notification leaves nothing behind. -/
  noLostWakeUp : d.task.willWait = true → d.notified = false → d.dispatched = []
  /-- Nothing is queued before the task exists. -/
  noTask : d.task = .absent → d.dispatched = []
  initialized : d.initialized = true ↔ d.task ≠ .absent
  fifo : d.started ++ d.dispatched = d.accepted
  handed : d.called ++ d.task.inHand = d.started

theorem inv_initial : Inv ({} : Dispatcher Fn) where
  noLostWakeUp _ _ := rfl
  noTask _ := rfl
  initialized := by simp
  fifo := rfl
  handed := rfl

variable {d d' : Dispatcher Fn}

theorem Inv.begin (h : Inv d) (inISR created : Bool) : Inv (d.begin inISR created).2 := by
  rw [Dispatcher.begin]
  split
  · exact h
  split
  · exact h
  split
  · -- the task is created in front of an empty queue
    rename_i hinit _
    have habsent : d.task = .absent := by
      by_contra hne
      exact hinit (h.initialized.mpr hne)
    have hempty : d.dispatched = [] := h.noTask habsent
    exact
      { noLostWakeUp := fun _ _ => hempty
        noTask := fun _ => hempty
        initialized := by simp
        fifo := h.fifo
        handed := by simpa [habsent, DispatcherTask.inHand] using h.handed }
  · exact h

theorem Inv.push (h : Inv d) (hinit : d.initialized = true) (fn : Fn) :
    Inv (d.push true fn).2 where
  noLostWakeUp _ hflag := by simp [Dispatcher.push] at hflag
  noTask habsent := absurd habsent (h.initialized.mp hinit)
  initialized := h.initialized
  fifo := by
    show d.started ++ (d.dispatched ++ [fn]) = d.accepted ++ [fn]
    rw [← List.append_assoc, h.fifo]
  handed := h.handed

theorem begin_initialized (inISR created : Bool) (h : (d.begin inISR created).1 = true) :
    (d.begin inISR created).2.initialized = true := by
  cases inISR <;> cases created <;> cases hinit : d.initialized <;>
    simp_all [Dispatcher.begin]

theorem Inv.dispatch (h : Inv d) (inISR created : Bool) (fn : Fn) :
    Inv (d.dispatch inISR created true fn).2 := by
  rw [Dispatcher.dispatch]
  split
  · rename_i hinit
    exact h.push hinit fn
  · have hb := h.begin inISR created
    have hi := begin_initialized (d := d) inISR created
    generalize d.begin inISR created = r at hb hi ⊢
    obtain ⟨ok, d'⟩ := r
    cases ok with
    | true => exact hb.push (hi rfl) fn
    | false => exact hb

/-- A step of the task that leaves the queue alone: what has to be shown of the new position. -/
theorem Inv.moved (h : Inv d) {t : DispatcherTask Fn} {flag : Bool} {calls : List Fn}
    (htask : d.task ≠ .absent) (ht : t ≠ .absent)
    (hwait : t.willWait = true → flag = false → d.dispatched = [])
    (hcalls : calls ++ t.inHand = d.started) :
    Inv { d with task := t, notified := flag, called := calls } where
  noLostWakeUp := hwait
  noTask habsent := absurd habsent ht
  initialized := ⟨fun _ => ht, fun _ => h.initialized.mpr htask⟩
  fifo := h.fifo
  handed := hcalls

/-- The section that takes a function: `empty` says whether anything is left at that moment. -/
theorem Inv.taken (h : Inv d) {callback : Fn} {rest : List Fn} (htask : d.task = .pending)
    (hq : d.dispatched = callback :: rest) :
    Inv { d with
      dispatched := rest, task := .holding callback rest.isEmpty,
      started := d.started ++ [callback] } where
  noLostWakeUp hempty _ := by simpa [DispatcherTask.willWait] using hempty
  noTask habsent := by cases habsent
  initialized := by simpa [htask] using h.initialized
  fifo := by
    show (d.started ++ [callback]) ++ rest = d.accepted
    rw [List.append_assoc, ← h.fifo, hq]
    rfl
  handed := by simpa [htask, DispatcherTask.inHand] using h.handed

theorem Inv.runTask (h : Inv d) (hr : d.runTask = some d') : Inv d' := by
  have hlog := h.handed
  rw [Dispatcher.runTask] at hr
  split at hr
  · cases hr
  · -- the wait ends: the flag is consumed, the queue is looked at next
    rename_i htask
    split at hr <;> cases hr
    refine h.moved (by simp [htask]) (by simp) ?_ ?_
    · intro hwait
      cases hwait
    · simpa [htask, DispatcherTask.inHand] using hlog
  · rename_i htask
    split at hr
    · rename_i hempty
      cases hr
      refine h.moved (by simp [htask]) (by simp) (fun _ _ => hempty) ?_
      simpa [htask, DispatcherTask.inHand] using hlog
    · rename_i callback rest hq
      cases hr
      exact h.taken htask hq
  · rename_i callback empty htask
    cases hr
    refine h.moved (by simp [htask]) (by simp) ?_ ?_
    · intro hwait
      exact h.noLostWakeUp (by simpa [htask, DispatcherTask.willWait] using hwait)
    · simpa [htask, DispatcherTask.inHand] using hlog
  · -- the answer of `process_pending_tasks` is the one it had when the function was taken
    rename_i empty htask
    cases hr
    refine h.moved (by simp [htask]) (by cases empty <;> simp) (fun hwait => ?_) ?_
    · cases empty with
      | true => exact h.noLostWakeUp (by simp [htask, DispatcherTask.willWait])
      | false => cases hwait
    · cases empty <;> simpa [htask, DispatcherTask.inHand] using hlog

theorem Inv.step {e : DispatcherEvent Fn} (h : Inv d) (he : Notifies e)
    (hs : d.step e = some d') : Inv d' := by
  cases e with
  | begin inISR created =>
      cases hs
      exact h.begin inISR created
  | dispatch inISR created success fn =>
      have hok : success = true := he
      cases hs
      rw [hok]
      exact h.dispatch inISR created fn
  | task => exact h.runTask hs

theorem inv_run {es : List (DispatcherEvent Fn)} (hes : ∀ e ∈ es, Notifies e)
    (h : Lib.run step {} es = some d) : Inv d :=
  Lib.run_invariant_of (fun _ _ _ hI hC hs => Inv.step hI hC hs) hes inv_initial h

/-! ## Every run -/

/-- Whoever dispatches and whenever, also from a running callback: a task that is blocked in the
wait leaves no function in the queue; and the functions started, followed by the queue, are the
functions dispatched, in their order.  Each function is started when it is taken off the queue, and
the next step of the task calls it. -/
theorem fifo_without_lost_wakeUp (es : List (DispatcherEvent Fn)) (hes : ∀ e ∈ es, Notifies e)
    (h : Lib.run step {} es = some d) :
    (d.task = .waiting → d.notified = false → d.dispatched = []) ∧
      d.started ++ d.dispatched = d.accepted ∧
      d.called ++ d.task.inHand = d.started := by
  have hI := inv_run hes h
  refine ⟨?_, hI.fifo, hI.handed⟩
  intro htask hflag
  exact hI.noLostWakeUp (by simp [htask, DispatcherTask.willWait]) hflag

/-- A function dispatched while the last one runs: `process_pending_tasks` still answers that
nothing is left, and the notification brings the task back. -/
theorem fifo_without_lost_wakeUp_late :
    ∃ d : Dispatcher ℕ,
      Lib.run step {} [.dispatch false true true 7, .task, .task, .task,
        .dispatch false true true 8, .task, .task, .task, .task, .task] = some d ∧
      d.called = [7, 8] ∧ d.task = .waiting ∧ d.notified = false ∧
      (d.task = .waiting → d.notified = false → d.dispatched = []) ∧
      d.started ++ d.dispatched = d.accepted ∧ d.called ++ d.task.inHand = d.started := by
  refine ⟨_, rfl, rfl, rfl, rfl, fifo_without_lost_wakeUp
    [.dispatch false true true 7, .task, .task, .task,
      .dispatch false true true 8, .task, .task, .task, .task, .task] ?_ rfl⟩
  simp [Notifies]

/-! ## A refused dispatch -/

/-- A call of `dispatch` that answers `false` leaves the queue as it was. -/
def RefusedUnchanged (d : Dispatcher Fn) (inISR created success : Bool) (fn : Fn) : Prop :=
  (d.dispatch inISR created success fn).1 = false →
    (d.dispatch inISR created success fn).2.dispatched = d.dispatched

/-- The task does not exist and cannot be created. -/
def Unstartable (d : Dispatcher Fn) (inISR created : Bool) : Prop :=
  d.initialized = false ∧ (inISR = true ∨ created = false)

/-- The task is notified, or cannot be created; or there is nothing in the queue but what is
dispatched, so that it makes no difference which end the rollback takes from. -/
def RollsBack (d : Dispatcher Fn) (inISR created success : Bool) (fn : Fn) : Prop :=
  success = true ∨ d.Unstartable inISR created ∨ ∀ f ∈ d.dispatched, f = fn

/-- The functions started, called or in hand, and the queue behind them are the functions accepted,
in their order: none of these is dropped, and no other is run. -/
def InOrder (d : Dispatcher Fn) : Prop :=
  d.started ++ d.dispatched = d.accepted ∧ d.called ++ d.task.inHand = d.started

def RollsBackAt (d : Dispatcher Fn) : DispatcherEvent Fn → Prop
  | .dispatch inISR created success fn => d.RollsBack inISR created success fn
  | _ => True

theorem append_eq_cons_iff (l : List Fn) (fn : Fn) :
    ∀ a, l ++ [fn] = a :: l ↔ a = fn ∧ ∀ f ∈ l, f = fn := by
  induction l with
  | nil => simp [eq_comm]
  | cons b l ih =>
      intro a
      rw [List.cons_append, List.cons.injEq, ih b, List.forall_mem_cons]
      constructor
      · rintro ⟨rfl, rfl, hl⟩
        exact ⟨rfl, rfl, hl⟩
      · rintro ⟨rfl, rfl, hl⟩
        exact ⟨rfl, rfl, hl⟩

theorem push_pop_iff (l : List Fn) (fn : Fn) : (l ++ [fn]).tail = l ↔ ∀ f ∈ l, f = fn := by
  cases l with
  | nil => simp
  | cons a l =>
      rw [List.cons_append, List.tail_cons, append_eq_cons_iff, List.forall_mem_cons]

theorem dispatch_unstartable {inISR created : Bool} (h : d.Unstartable inISR created)
    (success : Bool) (fn : Fn) : d.dispatch inISR created success fn = (false, d) := by
  obtain ⟨hinit, hbegin⟩ := h
  have hfails : d.begin inISR created = (false, d) := by
    rcases hbegin with rfl | rfl
    · rfl
    · cases inISR <;> simp [begin, hinit]
  rw [dispatch, if_neg (by simp [hinit]), hfails]

theorem dispatch_push {inISR created : Bool} (h : ¬ d.Unstartable inISR created)
    (success : Bool) (fn : Fn) :
    ∃ d₀, (d₀ = d ∨ d₀ = (d.begin inISR created).2) ∧
      d.dispatch inISR created success fn = d₀.push success fn := by
  cases hinit : d.initialized with
  | true => exact ⟨d, .inl rfl, by rw [dispatch, if_pos hinit]⟩
  | false =>
      obtain ⟨hisr, hcreated⟩ : inISR = false ∧ created = true := by
        simpa [Unstartable, hinit] using h
      subst hisr hcreated
      exact ⟨_, .inr rfl, by simp [dispatch, begin, hinit]⟩

theorem begin_queue (inISR created : Bool) :
    (d.begin inISR created).2.dispatched = d.dispatched ∧
      (d.begin inISR created).2.started = d.started ∧
      (d.begin inISR created).2.accepted = d.accepted := by
  rw [begin]
  split
  · exact ⟨rfl, rfl, rfl⟩
  split
  · exact ⟨rfl, rfl, rfl⟩
  split <;> exact ⟨rfl, rfl, rfl⟩

theorem dispatch_refused {inISR created : Bool} (h : ¬ d.Unstartable inISR created) (fn : Fn) :
    ∃ d₀, (d₀ = d ∨ d₀ = (d.begin inISR created).2) ∧ d₀.dispatched = d.dispatched ∧
      d₀.started = d.started ∧ d₀.accepted = d.accepted ∧
      d.dispatch inISR created false fn =
        (false, { d₀ with dispatched := (d.dispatched ++ [fn]).tail }) := by
  obtain ⟨d₀, hd₀, heq⟩ := dispatch_push h false fn
  have hqueue : d₀.dispatched = d.dispatched ∧ d₀.started = d.started ∧
      d₀.accepted = d.accepted := by
    rcases hd₀ with rfl | rfl
    · exact ⟨rfl, rfl, rfl⟩
    · exact begin_queue inISR created
  obtain ⟨hq, hs, ha⟩ := hqueue
  refine ⟨d₀, hd₀, hq, hs, ha, ?_⟩
  rw [heq, push, if_neg (by simp), hq]

theorem refusedUnchanged_iff (d : Dispatcher Fn) (inISR created success : Bool) (fn : Fn) :
    d.RefusedUnchanged inISR created success fn ↔ d.RollsBack inISR created success fn := by
  rw [RefusedUnchanged, RollsBack]
  by_cases hstart : d.Unstartable inISR created
  · refine iff_of_true ?_ (.inr (.inl hstart))
    intro _
    rw [dispatch_unstartable hstart]
  · cases success with
    | true =>
        obtain ⟨d₀, -, heq⟩ := dispatch_push hstart true fn
        refine iff_of_true ?_ (.inl rfl)
        intro hrefused
        rw [heq] at hrefused
        cases hrefused
    | false =>
        obtain ⟨d₀, -, -, -, -, heq⟩ := dispatch_refused hstart fn
        rw [heq]
        simp [hstart, push_pop_iff]

theorem Inv.rolledBack (h : Inv d) {inISR created success : Bool} {fn : Fn}
    (hr : d.RollsBack inISR created success fn) :
    Inv (d.dispatch inISR created success fn).2 := by
  by_cases hstart : d.Unstartable inISR created
  · rw [dispatch_unstartable hstart]
    exact h
  · cases success with
    | true => exact h.dispatch inISR created fn
    | false =>
        have hsame : ∀ f ∈ d.dispatched, f = fn :=
          (hr.resolve_left (by simp)).resolve_left hstart
        obtain ⟨d₀, hd₀, hq, -, -, heq⟩ := dispatch_refused hstart fn
        rw [heq, (push_pop_iff _ _).mpr hsame, ← hq]
        rcases hd₀ with rfl | rfl
        · exact h
        · exact h.begin inISR created

theorem InOrder.not_of_dropped (h : InOrder d) {inISR created success : Bool} {fn : Fn}
    (hr : ¬ d.RollsBack inISR created success fn) :
    ¬ InOrder (d.dispatch inISR created success fn).2 := by
  obtain ⟨hsuccess, hrest⟩ := not_or.mp hr
  obtain ⟨hstart, hother⟩ := not_or.mp hrest
  rw [Bool.not_eq_true] at hsuccess
  subst hsuccess
  obtain ⟨d₀, -, -, hs, ha, heq⟩ := dispatch_refused hstart fn
  rw [heq]
  rintro ⟨horder, -⟩
  have hfront : d.started ++ (d.dispatched ++ [fn]).tail = d.started ++ d.dispatched := by
    rw [h.1, ← ha, ← hs]
    exact horder
  exact hother ((push_pop_iff _ _).mp (List.append_cancel_left hfront))

/-- **A refused dispatch leaves the queue as it was, whatever the queue holds, and over a whole run
no accepted function is dropped and no refused one run, exactly when each dispatch is notified,
comes before the task exists, or finds nothing else in the queue.** -/
theorem refused_iff_rollsBack :
    (∀ (d : Dispatcher Fn) inISR created success fn,
      d.RefusedUnchanged inISR created success fn ↔ d.RollsBack inISR created success fn) ∧
    ∀ es, Lib.Always step InOrder ({} : Dispatcher Fn) es ↔ Lib.Each step RollsBackAt {} es := by
  refine ⟨refusedUnchanged_iff, ?_⟩
  intro es
  refine Lib.always_iff_each (I := Inv) (fun d h => ⟨h.fifo, h.handed⟩) ?_ ?_ inv_initial
  · intro d e d' h hc hs
    cases e with
    | begin inISR created =>
        cases hs
        exact h.begin inISR created
    | dispatch inISR created success fn =>
        cases hs
        exact h.rolledBack hc
    | task => exact h.runTask hs
  · intro d e d' h hc hs
    cases e with
    | dispatch inISR created success fn =>
        cases hs
        exact InOrder.not_of_dropped ⟨h.fifo, h.handed⟩ hc
    | begin inISR created => exact absurd trivial hc
    | task => exact absurd trivial hc

/-- A dispatch is refused while one function is queued: that one is dropped, and the refused one is
in its place. -/
theorem refused_drops_front :
    ∃ d : Dispatcher ℕ, Lib.run step {} [.dispatch false true true 7] = some d ∧
      d.dispatched = [7] ∧
      (d.dispatch false true false 8).1 = false ∧
      (d.dispatch false true false 8).2.dispatched = [8] ∧
      ¬ d.RefusedUnchanged false true false 8 := by
  refine ⟨_, rfl, rfl, rfl, rfl, ?_⟩
  intro h
  exact absurd (h rfl) (by decide)

end Dispatcher

end EspIot
