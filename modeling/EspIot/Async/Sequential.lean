/-
# `EspIot.Async.Sequential` — `PromiseBase::sequential` and the loop it stands for

    sequential                                    the loop
      first.on_finished(step)                       prev = first
    step, called when prev has finished             while has_next_fn(await prev)
      has_next_fn(prev)?                              prev = fn(prev)
        next = fn(prev), next.on_finished(step)     return prev
      or the result is set to what prev shows

A step is a closure: the future it waits for and the two functions, copied with the state they have
by then.  It is handed over to a promise, from there to the dispatcher, and from there, in a new
copy, to the next promise.  (`std::move(first)` leaves `first` as it was: `FutureBase` declares a
destructor, and so can only be copied.)

As in `Async.Racing` a step of the machine is one spinlock section or one unlocked block, the
promises are settled by anyone at any time, and anyone sets callbacks on them and on the result.
-/
import EspIot.Async.Racing
import Mathlib.Data.Multiset.Filter
import Mathlib.Data.Multiset.OrderedMonoid

namespace EspIot

open Lib

/-- `has_next_fn` and `fn`.  Each has a state of its own, which is copied with it; it is called with
a future and what that shows, and `world` is whatever else it looks at. -/
structure SequentialFns (ι V H F W : Type*) where
  hasNext : H → W → Option ι → Option (Outcome V) → Bool × H
  fn : F → W → Option ι → Option (Outcome V) → Option ι × F

/-- A call of one of the functions, and its answer. -/
inductive SequentialCall (ι W : Type*)
  | hasNext (prev : Option ι) (world : W) (answer : Bool)
  | fn (prev : Option ι) (world : W) (next : Option ι)
deriving DecidableEq

/-- The closure of `_sequential_step`, but for the result. -/
structure SequentialClosure (ι H F : Type*) where
  prev : Option ι
  hasNext : H
  fn : F
deriving DecidableEq

/-! ## The loop -/

/-- The loop waits for `prev`; there is to be another step; there is none. -/
inductive SequentialPoint
  | waiting
  | more
  | last
deriving DecidableEq, Repr

/-- The variables of the loop and where it stands. -/
structure SequentialLoop (ι H F : Type*) extends SequentialClosure ι H F where
  point : SequentialPoint := .waiting

namespace SequentialLoop

variable {ι V H F W : Type*} [DecidableEq ι]

/-- The next call of the loop, where the futures show what they do. -/
def step (fns : SequentialFns ι V H F W) (shown : Option ι → Option (Outcome V))
    (l : SequentialLoop ι H F) : SequentialCall ι W → Option (SequentialLoop ι H F)
  | .hasNext prev world answer =>
      let (more, hasNext) := fns.hasNext l.hasNext world l.prev (shown l.prev)
      if l.point = .waiting ∧ (shown l.prev).isSome ∧ prev = l.prev ∧ answer = more then
        some { l with hasNext, point := if more then .more else .last }
      else none
  | .fn prev world next =>
      let (future, fn) := fns.fn l.fn world l.prev (shown l.prev)
      if l.point = .more ∧ (shown l.prev).isSome ∧ prev = l.prev ∧ next = future then
        some { l with prev := future, fn, point := .waiting }
      else none

section Step
variable {fns : SequentialFns ι V H F W} {shown : Option ι → Option (Outcome V)}
  {l : SequentialLoop ι H F} {o : Outcome V} {world : W}

theorem step_hasNext (hpoint : l.point = .waiting) (ho : shown l.prev = some o) {more : Bool}
    {hasNext : H} (hanswer : fns.hasNext l.hasNext world l.prev (shown l.prev) = (more, hasNext)) :
    step fns shown l (.hasNext l.prev world more) =
      some { l with hasNext, point := if more then .more else .last } := by
  have hsome : (shown l.prev).isSome = true := by
    rw [ho]
    rfl
  simp only [step, hanswer, and_true]
  exact if_pos ⟨hpoint, hsome⟩

theorem step_fn (hpoint : l.point = .more) (ho : shown l.prev = some o) {next : Option ι} {fn : F}
    (hanswer : fns.fn l.fn world l.prev (shown l.prev) = (next, fn)) :
    step fns shown l (.fn l.prev world next) =
      some { l with prev := next, fn, point := .waiting } := by
  have hsome : (shown l.prev).isSome = true := by
    rw [ho]
    rfl
  simp only [step, hanswer, and_true]
  exact if_pos ⟨hpoint, hsome⟩

end Step

theorem step_mono {fns : SequentialFns ι V H F W} {shown shown' : Option ι → Option (Outcome V)}
    (h : ∀ p o, shown p = some o → shown' p = some o) {l l' : SequentialLoop ι H F}
    {call : SequentialCall ι W} (hs : step fns shown l call = some l') :
    step fns shown' l call = some l' := by
  have hprev : (shown l.prev).isSome = true → shown' l.prev = shown l.prev := by
    intro hsome
    obtain ⟨o, ho⟩ := Option.isSome_iff_exists.mp hsome
    rw [ho]
    exact h _ _ ho
  cases call with
  | hasNext prev world answer =>
      simp only [step] at hs ⊢
      split at hs
      · rename_i hcond
        rw [hprev hcond.2.1, if_pos hcond]
        exact hs
      · cases hs
  | fn prev world next =>
      simp only [step] at hs ⊢
      split at hs
      · rename_i hcond
        rw [hprev hcond.2.1, if_pos hcond]
        exact hs
      · cases hs

theorem run_mono {fns : SequentialFns ι V H F W} {shown shown' : Option ι → Option (Outcome V)}
    (h : ∀ p o, shown p = some o → shown' p = some o) {calls : List (SequentialCall ι W)} :
    ∀ {l l' : SequentialLoop ι H F}, run (step fns shown) l calls = some l' →
      run (step fns shown') l calls = some l' := by
  induction calls with
  | nil =>
      intro l l' hrun
      exact hrun
  | cons call calls ih =>
      intro l l' hrun
      obtain ⟨m, hcall, hrest⟩ := run_cons_some hrun
      exact (run_cons (step_mono h hcall) calls).trans (ih hrest)

end SequentialLoop

/-! ## The machine -/

/-- The callback of a step, or one of somebody else. -/
inductive SequentialCallback (ι H F : Type*)
  | step (closure : SequentialClosure ι H F)
  | other
deriving DecidableEq

/-- What the dispatcher runs: the callback of a step, called with `success` and before
`has_next_fn`, the callback before `fn`, or the call on a promise that it ends with. -/
inductive SequentialTask (ι V H F : Type*)
  | hasNext (success : Bool) (closure : SequentialClosure ι H F)
  | fn (closure : SequentialClosure ι H F)
  | call (promise : Option ι) (thread : PromiseThread V (SequentialCallback ι H F))

/-- The promises, where `none` is the result, the calls of others on them, the dispatcher with its
queue, the call of `first.on_finished`, `none` when `sequential` has returned; then the calls of the
two functions so far, and what the result has shown each time it was settled. -/
structure Sequence (ι V H F W : Type*) where
  promises : Option ι → Promise V (SequentialCallback ι H F) := fun _ => {}
  threads : List (Option ι × PromiseThread V (SequentialCallback ι H F)) := []
  queue : List (Option ι × SequentialCallback ι H F) := []
  caller : Option (Option ι × PromiseThread V (SequentialCallback ι H F))
  dispatcher : Option (SequentialTask ι V H F) := none
  log : List (SequentialCall ι W) := []
  settled : List (Outcome V) := []

/-- Somebody settles a future or sets a callback; one of these calls, the caller or the dispatcher
takes its next step, with what a function that it calls looks at. -/
inductive SequenceEvent (ι V W : Type*)
  | settle (future : ι) (outcome : Outcome V)
  | onFinished (promise : Option ι)
  | thread (n : ℕ)
  | caller
  | dispatcher (world : W)

namespace Sequence

variable {ι V H F W : Type*}

/-- `sequential(first, has_next_fn, fn)` is called. -/
def start (first : ι) (hasNext : H) (fn : F) : Sequence ι V H F W where
  caller := some (some first, .onFinished (.step ⟨some first, hasNext, fn⟩))

def shown (s : Sequence ι V H F W) (promise : Option ι) : Option (Outcome V) :=
  (s.promises promise).ended

/-- What the last step sets: `set_success(prev.result())`, `set_success()` or `set_error()`. -/
def outcome (s : Sequence ι V H F W) (prev : Option ι) (success : Bool) : Outcome V :=
  if success then .success (s.promises prev).result else .error

def going (promise : Option ι) : PromiseThread V (SequentialCallback ι H F) →
    Option (Option ι × PromiseThread V (SequentialCallback ι H F))
  | .done => none
  | thread => some (promise, thread)

/-- `sequential` has returned, nothing is queued or run by the dispatcher, and nobody who has
settled a promise is yet to dispatch its callbacks. -/
def Quiet (s : Sequence ι V H F W) : Prop :=
  s.caller = none ∧ s.queue = [] ∧ s.dispatcher = none ∧
    ∀ x ∈ s.threads, x.2 ≠ .onPromiseFinished

instance [DecidableEq ι] [DecidableEq V] [DecidableEq H] [DecidableEq F] (s : Sequence ι V H F W) :
    Decidable s.Quiet :=
  inferInstanceAs (Decidable (_ ∧ _ ∧ _ ∧ _))

variable [DecidableEq ι]

/-- The next section of a call on `promise`. -/
def callSection (promise : Option ι) (thread : PromiseThread V (SequentialCallback ι H F))
    (s : Sequence ι V H F W) : Sequence ι V H F W :=
  let p := s.promises promise
  let p' := (thread.next p).2.1
  { s with
    promises := Function.update s.promises promise p'
    queue := s.queue ++ (thread.next p).2.2.map (promise, ·)
    settled :=
      if promise = none ∧ p.finished = false ∧ p'.finished = true then s.settled ++ [p'.outcome]
      else s.settled }

def after (promise : Option ι) (thread : PromiseThread V (SequentialCallback ι H F))
    (s : Sequence ι V H F W) : PromiseThread V (SequentialCallback ι H F) :=
  (thread.next (s.promises promise)).1

def stepCaller (s : Sequence ι V H F W) : Option (Sequence ι V H F W) :=
  match s.caller with
  | none => none
  | some (promise, thread) =>
      some { s.callSection promise thread with caller := going promise (s.after promise thread) }

variable (fns : SequentialFns ι V H F W)

def stepDispatcher (world : W) (s : Sequence ι V H F W) : Option (Sequence ι V H F W) :=
  match s.dispatcher with
  | none =>
      match s.queue with
      | [] => none
      | (_, .other) :: queue => some { s with queue }
      | (promise, .step closure) :: queue =>
          some { s with
            queue, dispatcher := some (.hasNext (s.promises promise).success closure) }
  | some (.hasNext success closure) =>
      let (more, hasNext) := fns.hasNext closure.hasNext world closure.prev (s.shown closure.prev)
      some { s with
        log := s.log ++ [.hasNext closure.prev world more]
        dispatcher :=
          if more then some (.fn { closure with hasNext })
          else some (.call none (s.outcome closure.prev success).thread) }
  | some (.fn closure) =>
      let (next, fn) := fns.fn closure.fn world closure.prev (s.shown closure.prev)
      some { s with
        log := s.log ++ [.fn closure.prev world next]
        dispatcher := some (.call next (.onFinished (.step { closure with prev := next, fn }))) }
  | some (.call promise thread) =>
      some { s.callSection promise thread with
        dispatcher := (going promise (s.after promise thread)).map fun call =>
          .call call.1 call.2 }

def step (s : Sequence ι V H F W) : SequenceEvent ι V W → Option (Sequence ι V H F W)
  | .settle future outcome =>
      some { s with threads := s.threads ++ [(some future, outcome.thread)] }
  | .onFinished promise =>
      some { s with threads := s.threads ++ [(promise, .onFinished .other)] }
  | .thread n =>
      match s.threads[n]? with
      | none => none
      | some (promise, thread) =>
          some { s.callSection promise thread with
            threads := s.threads.set n (promise, s.after promise thread) }
  | .caller => s.stepCaller
  | .dispatcher world => s.stepDispatcher fns world

/-! ## What is to hold -/

/-- **The functions have been called as the loop calls them, on futures that show what they show;
the result is settled once at most, as what the last future shows and after the loop has ended; and
when nothing is left to do the loop has ended and it is settled, or a step is not.** -/
def RunsLoop (first : ι) (hasNext : H) (fn : F) (s : Sequence ι V H F W) : Prop :=
  ∃ l : SequentialLoop ι H F,
    run (SequentialLoop.step fns s.shown) { prev := some first, hasNext, fn } s.log = some l ∧
    s.settled = (s.shown none).toList ∧
    (∀ o, s.shown none = some o → l.point = .last ∧ s.shown l.prev = some o) ∧
    (s.Quiet → l.point = .last ∧ (s.shown none).isSome = true ∨
      l.point = .waiting ∧ s.shown l.prev = none)

/-- A party takes its next step; nobody begins anything new. -/
def Own (world : W) (e : SequenceEvent ι V W) : Prop :=
  e = .caller ∨ e = .dispatcher world ∨ ∃ n, e = .thread n

/-- What a call on a promise has before it. -/
def ahead : PromiseThread V (SequentialCallback ι H F) → ℕ
  | .setSuccess _ => 3
  | .finish _ | .onFinished _ => 2
  | .onPromiseFinished | .dispatchNow _ => 1
  | .done => 0

def aheadOf : Option (Option ι × PromiseThread V (SequentialCallback ι H F)) → ℕ
  | none => 0
  | some (_, thread) => ahead thread

/-- What the dispatcher has before it of the call on a promise that a task ends with. -/
def aheadOfTask : Option (SequentialTask ι V H F) → ℕ
  | some (.call _ thread) => ahead thread
  | _ => 0

/-- What the parties have before them, and then the queue. -/
def work (s : Sequence ι V H F W) : ℕ × ℕ :=
  ((s.threads.map fun x => ahead x.2).sum + aheadOf s.caller + aheadOfTask s.dispatcher,
    s.queue.length)

/-- One of the functions has been called, or there is less to do. -/
def Advances (s t : Sequence ι V H F W) : Prop :=
  (∃ call, t.log = s.log ++ [call]) ∨
    t.log = s.log ∧ Prod.Lex (· < ·) (· < ·) t.work s.work

/-- **Whatever is stepped next goes on, or had nothing to do; and the parties go on until nothing is
left to do, or to the next call of a function.** -/
structure GoesOn (world : W) (s : Sequence ι V H F W) : Prop where
  advances : ∀ e t, Own world e → s.step fns e = some t → t = s ∨ s.Advances t
  reaches : ∃ es t, (∀ e ∈ es, Own world e) ∧ run (step fns) s es = some t ∧
    (t.Quiet ∨ ∃ call, t.log = s.log ++ [call])

/-! ## The closures of the steps -/

section Closures

omit [DecidableEq ι]

def closureOf : SequentialCallback ι H F → Option (SequentialClosure ι H F)
  | .step closure => some closure
  | .other => none

def closures (callbacks : List (SequentialCallback ι H F)) :
    Multiset (SequentialClosure ι H F) :=
  Multiset.filterMap closureOf callbacks

theorem mem_closures {closure : SequentialClosure ι H F}
    {callbacks : List (SequentialCallback ι H F)} :
    closure ∈ closures callbacks ↔ .step closure ∈ callbacks := by
  rw [closures, Multiset.mem_filterMap]
  constructor
  · rintro ⟨callback, hmem, heq⟩
    cases callback with
    | step c =>
        cases heq
        exact hmem
    | other => cases heq
  · intro hmem
    exact ⟨_, hmem, rfl⟩

theorem closures_next (p : Promise V (SequentialCallback ι H F))
    (thread : PromiseThread V (SequentialCallback ι H F)) :
    closures (thread.next p).1.holding + closures (thread.next p).2.1.onFinishedCallbacks +
      closures (thread.next p).2.2 =
        closures thread.holding + closures p.onFinishedCallbacks := by
  have hplaces := congrArg (Multiset.filterMap closureOf)
    (PromiseThread.next_places p thread)
  rwa [Multiset.filterMap_add, Multiset.filterMap_add, Multiset.filterMap_add] at hplaces

/-- The closures that a call on a promise holds. -/
def held (call : Option (Option ι × PromiseThread V (SequentialCallback ι H F))) :
    Multiset (SequentialClosure ι H F) :=
  match call with
  | none => 0
  | some (_, thread) => closures thread.holding

theorem held_going (promise : Option ι) (thread : PromiseThread V (SequentialCallback ι H F)) :
    held (going promise thread) = closures thread.holding := by
  cases thread <;> rfl

/-- The closures that the dispatcher holds for a step to come. -/
def heldByTask (task : Option (SequentialTask ι V H F)) : Multiset (SequentialClosure ι H F) :=
  match task with
  | none => 0
  | some (.hasNext _ closure) => {closure}
  | some (.fn _) => 0
  | some (.call _ thread) => closures thread.holding

theorem heldByTask_going (promise : Option ι)
    (thread : PromiseThread V (SequentialCallback ι H F)) :
    heldByTask ((going promise thread).map fun call => .call call.1 call.2) =
      closures thread.holding := by
  cases thread <;> rfl

/-- The closures registered on a promise. -/
def registered (s : Sequence ι V H F W) (promise : Option ι) :
    Multiset (SequentialClosure ι H F) :=
  closures (s.promises promise).onFinishedCallbacks

def queued (s : Sequence ι V H F W) : Multiset (SequentialClosure ι H F) :=
  closures (s.queue.map Prod.snd)

end Closures

/-! ## One section -/

section Section
variable {s : Sequence ι V H F W} {p : Option ι}
  {thread : PromiseThread V (SequentialCallback ι H F)}

theorem callSection_promises (p : Option ι)
    (thread : PromiseThread V (SequentialCallback ι H F)) (s : Sequence ι V H F W) :
    (s.callSection p thread).promises =
      Function.update s.promises p (thread.next (s.promises p)).2.1 := rfl

@[simp] theorem callSection_caller (p : Option ι)
    (thread : PromiseThread V (SequentialCallback ι H F)) (s : Sequence ι V H F W) :
    (s.callSection p thread).caller = s.caller := rfl

@[simp] theorem callSection_dispatcher (p : Option ι)
    (thread : PromiseThread V (SequentialCallback ι H F)) (s : Sequence ι V H F W) :
    (s.callSection p thread).dispatcher = s.dispatcher := rfl

theorem callSection_self :
    (s.callSection p thread).promises p = (thread.next (s.promises p)).2.1 := by
  rw [callSection_promises, Function.update_self]

theorem callSection_of_ne {q : Option ι} (h : q ≠ p) :
    (s.callSection p thread).promises q = s.promises q := by
  rw [callSection_promises, Function.update_of_ne h]

theorem callSection_shown {q : Option ι} {o : Outcome V} (h : s.shown q = some o) :
    (s.callSection p thread).shown q = some o := by
  by_cases hq : q = p
  · subst hq
    rw [shown, callSection_self, PromiseThread.next_ended (Promise.ended_eq_some.mp h).1]
    exact h
  · rw [shown, callSection_of_ne hq]
    exact h

theorem callSection_finished {q : Option ι} (h : (s.promises q).finished = true) :
    ((s.callSection p thread).promises q).finished = true ∧
      ((s.callSection p thread).promises q).success = (s.promises q).success := by
  by_cases hq : q = p
  · subst hq
    rw [callSection_self]
    obtain ⟨hf, hs, -⟩ := PromiseThread.next_keeps h thread
    exact ⟨hf, hs⟩
  · rw [callSection_of_ne hq]
    exact ⟨h, rfl⟩

/-- A section leaves the closures where they are, or hands them on: to the promise, to the queue, to
the rest of the call. -/
theorem callSection_closures {q : Option ι} (helse : ∀ r, r ≠ q → s.registered r = 0)
    (hholding : p = q ∨ closures thread.holding = 0) :
    (∀ r, r ≠ q → (s.callSection p thread).registered r = 0) ∧
      (s.callSection p thread).registered q + (s.callSection p thread).queued +
          closures (s.after p thread).holding =
        s.registered q + s.queued + closures thread.holding := by
  have hnext := closures_next (s.promises p) thread
  have hqueued : (s.callSection p thread).queued =
      s.queued + closures (thread.next (s.promises p)).2.2 := by
    show closures ((s.queue ++ (thread.next (s.promises p)).2.2.map (p, ·)).map Prod.snd) = _
    have hsnd : Prod.snd ∘ (p, ·) = (id : SequentialCallback ι H F → _) := rfl
    rw [List.map_append, List.map_map, hsnd, List.map_id, closures, ← Multiset.coe_add,
      Multiset.filterMap_add]
    rfl
  rw [hqueued]
  by_cases hpq : p = q
  · subst hpq
    have hself : (s.callSection p thread).registered p =
        closures (thread.next (s.promises p)).2.1.onFinishedCallbacks := by
      rw [registered, callSection_self]
    refine ⟨?_, ?_⟩
    · intro r hr
      rw [registered, callSection_of_ne hr]
      exact helse r hr
    · calc (s.callSection p thread).registered p +
              (s.queued + closures (thread.next (s.promises p)).2.2) +
              closures (s.after p thread).holding
        _ = s.queued + (closures (thread.next (s.promises p)).1.holding +
              closures (thread.next (s.promises p)).2.1.onFinishedCallbacks +
              closures (thread.next (s.promises p)).2.2) := by
            rw [hself, after]
            abel
        _ = s.registered p + s.queued + closures thread.holding := by
            rw [hnext, registered]
            abel
  · have hzero := hholding.resolve_left hpq
    have hregistered : closures (s.promises p).onFinishedCallbacks = 0 := helse p hpq
    rw [hzero, hregistered, add_zero, AddLeftCancelMonoid.add_eq_zero,
      AddLeftCancelMonoid.add_eq_zero] at hnext
    obtain ⟨⟨hafter, hself⟩, hdispatched⟩ := hnext
    refine ⟨?_, ?_⟩
    · intro r hr
      by_cases hrp : r = p
      · subst hrp
        rw [registered, callSection_self]
        exact hself
      · rw [registered, callSection_of_ne hrp]
        exact helse r hr
    · simp only [hdispatched, after, hafter, hzero, add_zero, registered]
      rw [callSection_of_ne (Ne.symm hpq)]

/-- What is queued after a section was queued before, or the section has dispatched it; the promise
has finished. -/
theorem mem_callSection_queue {x : Option ι × SequentialCallback ι H F}
    (hafter : thread.afterFinish = true → (s.promises p).finished = true)
    (hx : x ∈ (s.callSection p thread).queue) :
    x ∈ s.queue ∨ x.1 = p ∧ x.2 ∈ (thread.next (s.promises p)).2.2 ∧
      ((s.callSection p thread).promises p).finished = true := by
  rcases List.mem_append.mp hx with hold | hnew
  · exact .inl hold
  · obtain ⟨callback, hc, rfl⟩ := List.mem_map.mp hnew
    exact .inr ⟨rfl, hc, (callSection_finished
      (hafter (PromiseThread.next_dispatched hc))).1⟩

theorem callSection_result (hp : p ≠ none ∨ thread.settles = false) :
    (s.callSection p thread).shown none = s.shown none ∧
      (s.callSection p thread).settled = s.settled ∧
      ((s.callSection p thread).promises none).result = (s.promises none).result := by
  by_cases hnone : p = none
  · subst hnone
    have hunsettling := hp.resolve_left (fun h => h rfl)
    obtain ⟨hfinished, -, hresult⟩ := PromiseThread.next_shows (p := s.promises none) hunsettling
    refine ⟨?_, ?_, ?_⟩
    · rw [shown, shown, callSection_self, PromiseThread.next_ended_of_unsettling hunsettling]
    · refine if_neg ?_
      rintro ⟨-, hunfinished, hnow⟩
      rw [hfinished, hunfinished] at hnow
      cases hnow
    · rw [callSection_self]
      exact hresult
  · refine ⟨?_, if_neg fun h => hnone h.1, ?_⟩
    · rw [shown, callSection_of_ne (Ne.symm hnone)]
      rfl
    · rw [callSection_of_ne (Ne.symm hnone)]

theorem callSection_settled (h : s.settled = (s.shown none).toList) :
    (s.callSection p thread).settled = ((s.callSection p thread).shown none).toList := by
  by_cases hp : p = none
  · subst hp
    rw [shown, callSection_self]
    exact PromiseThread.next_noted thread h (and_iff_right rfl)
  · have hother : p ≠ none ∨ thread.settles = false := .inl hp
    have hshown : (s.callSection p thread).shown none = s.shown none :=
      (callSection_result hother).1
    have hsettled : (s.callSection p thread).settled = s.settled := (callSection_result hother).2.1
    rw [hsettled, hshown]
    exact h

end Section

end Sequence

end EspIot
