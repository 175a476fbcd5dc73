/-
# `EspIot.Async.Future` — futures, their combinators and the dispatcher

All promises of a program with the dispatcher's queue of tasks.  The closures that the
library hands to `on_finished` are the constructors of `FutureCallback`, with what each
captures; a user function is known by the number of the call it was given to, and what it
returns comes with the task that calls it.

    then        chained promise ◀── thenFuture / thenValue on the future
    on_error    chained promise ◀── onError on the future
                    fn(self) returned ret_future ──▶ forward on ret_future
    finally     the future itself, doFinally on it
    all         result promise ◀── all on every member, one count_left for them

A promise that nobody has touched is as `create()` makes it, so creating one only takes the
number of the call.  `finally` creates a promise that it never uses.
-/
import EspIot.Async.Promise
import Mathlib.Data.List.Count
import Mathlib.Data.Prod.Basic
import Mathlib.Logic.Function.Basic

namespace EspIot

namespace Outcome

variable {V : Type*}

/-- `set_success()` for a promise of `void`, `set_success(result)` otherwise. -/
def asType (isVoid : Bool) : Outcome V → Outcome V
  | success value => success (if isVoid then none else value)
  | error => error

@[simp] theorem asType_error (isVoid : Bool) : (error : Outcome V).asType isVoid = error := rfl

@[simp] theorem asType_ok (isVoid : Bool) (o : Outcome V) : (o.asType isVoid).ok = o.ok := by
  cases o <;> rfl

end Outcome

/-! ## A promise between whole calls -/

namespace Promise

variable {V K : Type*}

/-- What a promise shows once it is finished. -/
def ended (p : Promise V K) : Option (Outcome V) :=
  if p.finished then some p.outcome else none

/-- An unfinished promise has no result yet, a finished one no callback left. -/
structure Sound (p : Promise V K) : Prop where
  result : p.finished = false → p.result = none
  drained : p.finished = true → p.onFinishedCallbacks = []

theorem Sound.start : ({} : Promise V K).Sound := ⟨fun _ => rfl, fun h => by cases h⟩

theorem Sound.onFinished {p : Promise V K} (h : p.Sound) (callback : K) :
    (p.onFinished callback).2.Sound := by
  cases hf : p.finished with
  | true => simpa [Promise.onFinished, hf] using h
  | false => exact ⟨by simpa [Promise.onFinished, hf, register] using h.result,
      by simp [Promise.onFinished, hf, register]⟩

theorem Sound.settle {p : Promise V K} (h : p.Sound) (o : Outcome V) : (p.settle o).2.Sound := by
  cases hf : p.finished with
  | true => rwa [settle_finished o hf]
  | false =>
      rw [settle_unfinished o hf]
      exact ⟨by simp, fun _ => rfl⟩

@[simp] theorem ended_onFinished (p : Promise V K) (callback : K) :
    (p.onFinished callback).2.ended = p.ended := by
  cases hf : p.finished <;> simp [Promise.onFinished, hf, register, ended]

theorem ended_settle {p : Promise V K} (h : p.Sound) (o : Outcome V) :
    (p.settle o).2.ended = some (p.ended.getD o) := by
  cases hf : p.finished with
  | true => simp [settle_finished o hf, ended, hf]
  | false =>
      rw [settle_unfinished o hf]
      cases o with
      | success v => cases v <;> simp [ended, outcome, hf, h.result hf]
      | error => simp [ended, outcome, hf]

theorem ended_isSome (p : Promise V K) : p.ended.isSome = p.finished := by
  cases hf : p.finished <;> simp [ended, hf]

theorem not_finished {p : Promise V K} (h : p.ended = none) : p.finished = false := by
  rw [← ended_isSome]
  exact congrArg Option.isSome h

theorem ended_eq_some {p : Promise V K} {o : Outcome V} :
    p.ended = some o ↔ p.finished = true ∧ p.outcome = o := by
  simp [ended]

theorem outcome_ok (p : Promise V K) : p.outcome.ok = p.success := by
  cases hs : p.success <;> simp [outcome, hs]

theorem finished_of_mem_onFinished {p : Promise V K} {callback k : K}
    (h : k ∈ (p.onFinished callback).1) : (p.onFinished callback).2.finished = true := by
  cases hf : p.finished with
  | true => simp [Promise.onFinished, hf]
  | false => simp [Promise.onFinished, hf] at h

theorem finished_settle (p : Promise V K) (o : Outcome V) : (p.settle o).2.finished = true := by
  cases hf : p.finished with
  | true => rw [settle_finished o hf, hf]
  | false => rw [settle_unfinished o hf]

end Promise

/-! ## The state -/

/-- A promise from outside, or the one that the `n`-th call of a combinator creates. -/
inductive PromiseId (ι : Type*)
  | source (i : ι)
  | derived (n : Nat)
deriving DecidableEq

/-- The closures given to `on_finished`, with what they capture. -/
inductive FutureCallback (ι : Type*)
  | thenFuture (self : PromiseId ι) (fn : Nat) (isVoid : Bool) (chained : PromiseId ι)
  | thenValue (self : PromiseId ι) (fn : Nat) (chained : PromiseId ι)
  | onError (self : PromiseId ι) (fn : Nat) (isVoid : Bool) (chained : PromiseId ι)
  | forward (retFuture : PromiseId ι) (isVoid : Bool) (chained : PromiseId ι)
  | doFinally (self : PromiseId ι) (fn : Nat)
  | all (countLeft : Nat) (resultPromise : PromiseId ι)
deriving DecidableEq

namespace FutureCallback

variable {ι : Type*}

/-- The user function a callback calls, and the future it is called with. -/
def userFn (success : Bool) : FutureCallback ι → Option (Nat × PromiseId ι)
  | thenFuture self fn _ _ => if success then some (fn, self) else none
  | thenValue self fn _ => if success then some (fn, self) else none
  | onError self fn _ _ => if success then none else some (fn, self)
  | doFinally self fn => some (fn, self)
  | _ => none

def target : FutureCallback ι → Option (PromiseId ι)
  | thenFuture _ _ _ chained => some chained
  | thenValue _ _ chained => some chained
  | onError _ _ _ chained => some chained
  | forward _ _ chained => some chained
  | doFinally _ _ => none
  | all _ resultPromise => some resultPromise

end FutureCallback

/-- The promises, the `count_left` cells, the tasks of the dispatcher, the number of combinator
calls so far and the user functions called so far.  Between whole calls every promise is sound
and the promise of a task is finished. -/
structure Futures (ι V : Type*) where
  promises : PromiseId ι → Promise V (FutureCallback ι)
  countLeft : Nat → Nat
  dispatched : List (PromiseId ι × FutureCallback ι)
  calls : Nat
  called : List Nat
  sound : ∀ p, (promises p).Sound
  queued : ∀ task ∈ dispatched, (promises task.1).finished = true

namespace Futures

variable {ι V : Type*}

def start : Futures ι V where
  promises _ := {}
  countLeft _ := 0
  dispatched := []
  calls := 0
  called := []
  sound _ := Promise.Sound.start
  queued := by simp

def ended (s : Futures ι V) (p : PromiseId ι) : Option (Outcome V) := (s.promises p).ended

/-- What `chained_promise` is settled with when `future` has succeeded. -/
def passed (s : Futures ι V) (future : PromiseId ι) (isVoid : Bool) : Outcome V :=
  (Outcome.success (s.promises future).result).asType isVoid

theorem ended_of_finished {s : Futures ι V} {p : PromiseId ι}
    (h : (s.promises p).finished = true) : s.ended p = some (s.promises p).outcome :=
  Promise.ended_eq_some.mpr ⟨h, rfl⟩

theorem passed_eq {s : Futures ι V} {future : PromiseId ι} (isVoid : Bool)
    (h : (s.promises future).success = true) :
    s.passed future isVoid = (s.promises future).outcome.asType isVoid := by
  rw [passed, Promise.outcome, if_pos h]

variable [DecidableEq ι]

def onPromise (s : Futures ι V) (p : PromiseId ι)
    (r : List (FutureCallback ι) × Promise V (FutureCallback ι)) (hsound : r.2.Sound)
    (hfinished : (s.promises p).finished = true → r.2.finished = true)
    (hdispatched : ∀ callback ∈ r.1, r.2.finished = true) : Futures ι V where
  __ := s
  promises := Function.update s.promises p r.2
  dispatched := s.dispatched ++ r.1.map (Prod.mk p)
  sound q := by
    rcases eq_or_ne q p with rfl | hne
    · rwa [Function.update_self]
    · rw [Function.update_of_ne hne]
      exact s.sound q
  queued task htask := by
    rcases List.mem_append.mp htask with hold | hnew
    · rcases eq_or_ne task.1 p with heq | hne
      · rw [heq, Function.update_self]
        exact hfinished (heq ▸ s.queued task hold)
      · rw [Function.update_of_ne hne]
        exact s.queued task hold
    · obtain ⟨callback, hmem, rfl⟩ := List.mem_map.mp hnew
      rw [Function.update_self]
      exact hdispatched callback hmem

def onFinished (s : Futures ι V) (p : PromiseId ι) (callback : FutureCallback ι) :
    Futures ι V :=
  s.onPromise p ((s.promises p).onFinished callback) ((s.sound p).onFinished callback)
    (fun h => by simp [Promise.onFinished, h]) (fun _ h => Promise.finished_of_mem_onFinished h)

/-- `set_success` or `set_error`. -/
def settle (s : Futures ι V) (p : PromiseId ι) (o : Outcome V) : Futures ι V :=
  s.onPromise p ((s.promises p).settle o) ((s.sound p).settle o)
    (fun _ => Promise.finished_settle ..) (fun _ _ => Promise.finished_settle ..)

/-- The user function given to call `fn` is called. -/
def call (s : Futures ι V) (fn : Nat) : Futures ι V :=
  { s with called := s.called ++ [fn] }

/-! ## Callbacks and tasks -/

/-- `callback(success)`.  `returned` or `value` is what the user function returns, if one is
called. -/
def invoke (s : Futures ι V) (success : Bool) (returned : PromiseId ι) (value : Option V) :
    FutureCallback ι → Futures ι V
  | .thenFuture _ fn isVoid chained =>
      if success then (s.call fn).onFinished returned (.forward returned isVoid chained)
      else s.settle chained .error
  | .thenValue _ fn chained =>
      if success then (s.call fn).settle chained (.success value)
      else s.settle chained .error
  | .onError self fn isVoid chained =>
      if success then s.settle chained (s.passed self isVoid)
      else (s.call fn).onFinished returned (.forward returned isVoid chained)
  | .forward retFuture isVoid chained =>
      if success then s.settle chained (s.passed retFuture isVoid)
      else s.settle chained .error
  | .doFinally _ fn => s.call fn
  | .all countLeft resultPromise =>
      if (s.promises resultPromise).finished then s
      else if success = false then s.settle resultPromise .error
      else
        let left := s.countLeft countLeft - 1
        let s := { s with countLeft := Function.update s.countLeft countLeft left }
        if left = 0 then s.settle resultPromise (.success none) else s

/-- The oldest task, taken off the queue. -/
def pop (s : Futures ι V) : Option ((PromiseId ι × FutureCallback ι) × Futures ι V) :=
  match h : s.dispatched with
  | [] => none
  | task :: rest => some (task,
      { s with
        dispatched := rest
        queued := fun task htask => s.queued task (h ▸ List.mem_cons_of_mem _ htask) })

/-- `process_pending_tasks`: the oldest task runs. -/
def processPendingTasks (s : Futures ι V) (returned : PromiseId ι) (value : Option V) :
    Option (Futures ι V) :=
  s.pop.map fun ((p, callback), s') =>
    s'.invoke (s'.promises p).success returned value callback

/-! ## Combinators -/

/-- The promise the next combinator call creates. -/
def create (s : Futures ι V) : PromiseId ι × Futures ι V :=
  (.derived s.calls, { s with calls := s.calls + 1 })

/-- The future of a promise from outside. -/
def ofSource (s : Futures ι V) (i : ι) : PromiseId ι × Futures ι V :=
  (.source i, s.create.2)

/-- `Future::successful` and `Future::errored`. -/
def settled (s : Futures ι V) (o : Outcome V) : PromiseId ι × Futures ι V :=
  let (promise, s') := s.create
  (promise, s'.settle promise o)

def thenFuture (s : Futures ι V) (isVoid : Bool) (future : PromiseId ι) :
    PromiseId ι × Futures ι V :=
  let (chained, s') := s.create
  (chained, s'.onFinished future (.thenFuture future s.calls isVoid chained))

def thenValue (s : Futures ι V) (future : PromiseId ι) : PromiseId ι × Futures ι V :=
  let (chained, s') := s.create
  (chained, s'.onFinished future (.thenValue future s.calls chained))

def onError (s : Futures ι V) (isVoid : Bool) (future : PromiseId ι) :
    PromiseId ι × Futures ι V :=
  let (chained, s') := s.create
  (chained, s'.onFinished future (.onError future s.calls isVoid chained))

def doFinally (s : Futures ι V) (future : PromiseId ι) : PromiseId ι × Futures ι V :=
  let (_, s') := s.create
  (future, s'.onFinished future (.doFinally future s.calls))

def all (s : Futures ι V) (collection : List (PromiseId ι)) : PromiseId ι × Futures ι V :=
  let (resultPromise, s') := s.create
  match collection with
  | [] => (resultPromise, s'.settle resultPromise .error)
  | [future] => (future, s')
  | _ =>
      if collection.any fun future =>
          (s.promises future).finished && !(s.promises future).success then
        (resultPromise, s'.settle resultPromise .error)
      else if collection.all fun future => (s.promises future).finished then
        (resultPromise, s'.settle resultPromise (.success none))
      else
        let s' := { s' with
          countLeft := Function.update s.countLeft s.calls collection.length }
        (resultPromise, collection.foldl
          (fun t future => t.onFinished future (.all s.calls resultPromise)) s')

/-! ## What a call does -/

/-- How often a callback waits at a promise or for the dispatcher. -/
def pending (s : Futures ι V) (x : PromiseId ι × FutureCallback ι) : Nat :=
  (s.promises x.1).onFinishedCallbacks.count x.2 + s.dispatched.count x

section Effects
variable (s : Futures ι V) (p q : PromiseId ι) (callback : FutureCallback ι) (o : Outcome V)

@[simp] theorem calls_onFinished : (s.onFinished p callback).calls = s.calls := rfl
@[simp] theorem called_onFinished : (s.onFinished p callback).called = s.called := rfl
@[simp] theorem countLeft_onFinished : (s.onFinished p callback).countLeft = s.countLeft := rfl
@[simp] theorem calls_settle : (s.settle p o).calls = s.calls := rfl
@[simp] theorem called_settle : (s.settle p o).called = s.called := rfl
@[simp] theorem countLeft_settle : (s.settle p o).countLeft = s.countLeft := rfl

@[simp] theorem ended_onFinished : (s.onFinished p callback).ended q = s.ended q := by
  simp only [ended, onFinished, onPromise]
  rcases eq_or_ne q p with rfl | hne
  · simp
  · rw [Function.update_of_ne hne]

theorem ended_settle_self : (s.settle p o).ended p = some ((s.ended p).getD o) := by
  simp [ended, settle, onPromise, Promise.ended_settle (s.sound p)]

theorem ended_settle_of_ne {p q : PromiseId ι} (h : q ≠ p) :
    (s.settle p o).ended q = s.ended q := by
  simp [ended, settle, onPromise, Function.update_of_ne h]

/-- A result after a promise was settled is the new one, of that promise, or an old one. -/
theorem ended_of_settle {p q : PromiseId ι} {a : Outcome V}
    (h : (s.settle p o).ended q = some a) : (q = p ∧ a = o) ∨ s.ended q = some a := by
  rcases eq_or_ne q p with rfl | hne
  · rw [ended_settle_self] at h
    cases hopen : s.ended q with
    | none =>
        rw [hopen] at h
        cases h
        exact .inl ⟨rfl, rfl⟩
    | some old =>
        rw [hopen] at h
        exact .inr h
  · rw [ended_settle_of_ne _ _ hne] at h
    exact .inr h

theorem count_map_task (l : List (FutureCallback ι)) (x : PromiseId ι × FutureCallback ι) :
    (l.map (Prod.mk p)).count x = if x.1 = p then l.count x.2 else 0 := by
  obtain ⟨q, c⟩ := x
  rcases eq_or_ne q p with rfl | hne
  · rw [if_pos rfl]
    exact List.count_map_of_injective l _ (Prod.mk_right_injective q) c
  · rw [if_neg hne, List.count_eq_zero]
    intro hmem
    obtain ⟨_, _, heq⟩ := List.mem_map.mp hmem
    exact hne (congrArg Prod.fst heq).symm

/-- A call that leaves `n` more of a callback between the promise and what it dispatches. -/
theorem pending_onPromise {p : PromiseId ι}
    {r : List (FutureCallback ι) × Promise V (FutureCallback ι)} (hsound : r.2.Sound)
    (hfinished : (s.promises p).finished = true → r.2.finished = true)
    (hdispatched : ∀ callback ∈ r.1, r.2.finished = true) {n : FutureCallback ι → Nat}
    (hcount : ∀ c, r.1.count c + r.2.onFinishedCallbacks.count c =
      (s.promises p).onFinishedCallbacks.count c + n c)
    (x : PromiseId ι × FutureCallback ι) :
    (s.onPromise p r hsound hfinished hdispatched).pending x =
      s.pending x + if x.1 = p then n x.2 else 0 := by
  simp only [pending, onPromise, List.count_append, count_map_task]
  rcases eq_or_ne x.1 p with heq | hne
  · have := hcount x.2
    rw [if_pos heq, if_pos heq, heq, Function.update_self]
    omega
  · rw [if_neg hne, if_neg hne, Function.update_of_ne hne]
    omega

theorem pending_onFinished (x : PromiseId ι × FutureCallback ι) :
    (s.onFinished p callback).pending x = s.pending x + [(p, callback)].count x := by
  have hcount : ∀ c, ((s.promises p).onFinished callback).1.count c +
      ((s.promises p).onFinished callback).2.onFinishedCallbacks.count c =
        (s.promises p).onFinishedCallbacks.count c + [callback].count c := by
    intro c
    cases hf : (s.promises p).finished
    · simp [Promise.onFinished, Promise.register, hf]
    · simp [Promise.onFinished, hf, Nat.add_comm]
  rw [onFinished, pending_onPromise _ _ _ _ hcount, ← count_map_task]
  rfl

theorem pending_settle (x : PromiseId ι × FutureCallback ι) :
    (s.settle p o).pending x = s.pending x := by
  have hcount : ∀ c, ((s.promises p).settle o).1.count c +
      ((s.promises p).settle o).2.onFinishedCallbacks.count c =
        (s.promises p).onFinishedCallbacks.count c + 0 := by
    intro c
    cases hf : (s.promises p).finished
    · simp [Promise.settle_unfinished o hf]
    · simp [Promise.settle_finished o hf]
  rw [settle, pending_onPromise _ _ _ _ hcount, ite_self, Nat.add_zero]

end Effects

theorem pop_some {s s' : Futures ι V} {task : PromiseId ι × FutureCallback ι}
    (h : s.pop = some (task, s')) :
    s.dispatched.head? = some task ∧ (s.promises task.1).finished = true ∧
      s'.promises = s.promises ∧ s'.countLeft = s.countLeft ∧ s'.calls = s.calls ∧
      s'.called = s.called ∧ ∀ x, s.pending x = s'.pending x + [task].count x := by
  rw [pop] at h
  split at h
  · cases h
  · rename_i head rest heq
    cases h
    refine ⟨by rw [heq]; rfl, s.queued task (heq ▸ List.mem_cons_self), rfl, rfl, rfl, rfl, ?_⟩
    intro x
    simp only [pending, heq, List.count_cons, List.count_nil]
    omega

theorem ended_mono_settle {s : Futures ι V} {q : PromiseId ι} {a : Outcome V} (p : PromiseId ι)
    (o : Outcome V) (h : s.ended q = some a) : (s.settle p o).ended q = some a := by
  rcases eq_or_ne q p with rfl | hne
  · rw [ended_settle_self, h, Option.getD_some]
  · rw [ended_settle_of_ne _ _ hne, h]

theorem onFinished_waits {s : Futures ι V} {p : PromiseId ι} (h : s.ended p = none)
    (callback : FutureCallback ι) :
    (s.onFinished p callback).dispatched = s.dispatched ∧
      ∀ q, q ≠ p → (s.onFinished p callback).promises q = s.promises q := by
  refine ⟨?_, fun q hq => Function.update_of_ne hq ..⟩
  have hfinished : (s.promises p).finished = false := Promise.not_finished h
  simp [onFinished, onPromise, Promise.onFinished, hfinished]

theorem settle_dispatches {s : Futures ι V} {p : PromiseId ι}
    (h : (s.promises p).finished = false) (o : Outcome V) :
    (s.settle p o).dispatched =
        s.dispatched ++ (s.promises p).onFinishedCallbacks.map (Prod.mk p) ∧
      ((s.settle p o).promises p).success = o.ok ∧
      ∀ q, q ≠ p → (s.settle p o).promises q = s.promises q := by
  refine ⟨?_, ?_, fun q hq => Function.update_of_ne hq ..⟩
  · simp [settle, onPromise, Promise.settle_unfinished o h]
  · simp [settle, onPromise, Promise.settle_unfinished o h]

omit [DecidableEq ι] in
theorem pop_cons {s : Futures ι V} {task : PromiseId ι × FutureCallback ι}
    {rest : List (PromiseId ι × FutureCallback ι)} (h : s.dispatched = task :: rest) :
    ∃ s', s.pop = some (task, s') ∧ s'.dispatched = rest ∧ s'.promises = s.promises := by
  rw [pop]
  split
  · rename_i hnil
    rw [hnil] at h
    cases h
  · rename_i head rest' hcons
    rw [hcons] at h
    cases h
    exact ⟨_, rfl, rfl, rfl⟩

omit [DecidableEq ι] in
theorem pop_of_head {s : Futures ι V} {task : PromiseId ι × FutureCallback ι}
    (h : s.dispatched.head? = some task) : ∃ s', s.pop = some (task, s') := by
  obtain ⟨rest, hrest⟩ := List.head?_eq_some_iff.mp h
  obtain ⟨s', hpop, -⟩ := pop_cons hrest
  exact ⟨s', hpop⟩

theorem ended_mono_invoke {s : Futures ι V} {q : PromiseId ι} {a : Outcome V}
    (h : s.ended q = some a) (success : Bool) (returned : PromiseId ι) (value : Option V)
    (callback : FutureCallback ι) :
    (s.invoke success returned value callback).ended q = some a := by
  cases callback with
  | thenFuture self fn isVoid chained =>
      cases success
      · exact ended_mono_settle _ _ h
      · exact (ended_onFinished ..).trans h
  | thenValue self fn chained => cases success <;> exact ended_mono_settle _ _ h
  | onError self fn isVoid chained =>
      cases success
      · exact (ended_onFinished ..).trans h
      · exact ended_mono_settle _ _ h
  | forward retFuture isVoid chained => cases success <;> exact ended_mono_settle _ _ h
  | doFinally self fn => exact h
  | all countLeft resultPromise =>
      simp only [invoke]
      split
      · exact h
      · split
        · exact ended_mono_settle _ _ h
        · split
          · exact ended_mono_settle _ _ h
          · exact h

theorem all_of_two_le (s : Futures ι V) {collection : List (PromiseId ι)}
    (h : 2 ≤ collection.length) :
    s.all collection =
      if collection.any fun future =>
          (s.promises future).finished && !(s.promises future).success then
        (.derived s.calls, s.create.2.settle (.derived s.calls) .error)
      else if collection.all fun future => (s.promises future).finished then
        (.derived s.calls, s.create.2.settle (.derived s.calls) (.success none))
      else
        (.derived s.calls, collection.foldl
          (fun t future => t.onFinished future (.all s.calls (.derived s.calls)))
          { s.create.2 with
            countLeft := Function.update s.countLeft s.calls collection.length }) := by
  match collection with
  | _ :: _ :: _ => rfl
  | [_] => simp at h
  | [] => simp at h

theorem foldl_onFinished (callback : FutureCallback ι) (l : List (PromiseId ι))
    (s : Futures ι V) :
    (l.foldl (fun s p => s.onFinished p callback) s).calls = s.calls ∧
      (l.foldl (fun s p => s.onFinished p callback) s).called = s.called ∧
      (l.foldl (fun s p => s.onFinished p callback) s).countLeft = s.countLeft ∧
      (∀ q, (l.foldl (fun s p => s.onFinished p callback) s).ended q = s.ended q) ∧
      ∀ x, (l.foldl (fun s p => s.onFinished p callback) s).pending x =
        s.pending x + (l.map fun p => (p, callback)).count x := by
  induction l generalizing s with
  | nil => exact ⟨rfl, rfl, rfl, fun _ => rfl, fun _ => rfl⟩
  | cons p l ih =>
      obtain ⟨hcalls, hcalled, hleft, hended, hpending⟩ := ih (s.onFinished p callback)
      refine ⟨hcalls, hcalled, hleft, ?_, ?_⟩
      · intro q
        rw [List.foldl_cons, hended, ended_onFinished]
      · intro x
        rw [List.foldl_cons, hpending, pending_onFinished, List.map_cons, Nat.add_assoc,
          ← List.count_append, List.singleton_append]

theorem ended_invoke_of_ne {s : Futures ι V} {q : PromiseId ι} {callback : FutureCallback ι}
    (h : callback.target ≠ some q) (success : Bool) (returned : PromiseId ι) (value : Option V) :
    (s.invoke success returned value callback).ended q = s.ended q := by
  have hne : ∀ {chained}, callback.target = some chained → q ≠ chained := by
    rintro chained hc rfl
    exact h hc
  cases callback with
  | thenFuture self fn isVoid chained =>
      cases success
      · exact ended_settle_of_ne _ _ (hne rfl)
      · exact ended_onFinished ..
  | thenValue self fn chained => cases success <;> exact ended_settle_of_ne _ _ (hne rfl)
  | onError self fn isVoid chained =>
      cases success
      · exact ended_onFinished ..
      · exact ended_settle_of_ne _ _ (hne rfl)
  | forward retFuture isVoid chained =>
      cases success <;> exact ended_settle_of_ne _ _ (hne rfl)
  | doFinally self fn => rfl
  | all countLeft resultPromise =>
      simp only [invoke]
      split
      · rfl
      · split
        · exact ended_settle_of_ne _ _ (hne rfl)
        · split
          · exact ended_settle_of_ne _ _ (hne rfl)
          · rfl

theorem called_invoke (s : Futures ι V) (success : Bool) (returned : PromiseId ι)
    (value : Option V) (callback : FutureCallback ι) :
    (s.invoke success returned value callback).called =
      s.called ++ ((callback.userFn success).map Prod.fst).toList := by
  cases callback with
  | thenFuture self fn isVoid chained =>
      cases success <;> simp [invoke, FutureCallback.userFn, call]
  | thenValue self fn chained => cases success <;> simp [invoke, FutureCallback.userFn, call]
  | onError self fn isVoid chained =>
      cases success <;> simp [invoke, FutureCallback.userFn, call]
  | forward retFuture isVoid chained => cases success <;> simp [invoke, FutureCallback.userFn]
  | doFinally self fn => simp [invoke, FutureCallback.userFn, call]
  | all countLeft resultPromise =>
      simp only [invoke, FutureCallback.userFn, Option.map_none, Option.toList_none,
        List.append_nil]
      split
      · rfl
      · split
        · rfl
        · split <;> rfl

theorem called_all (s : Futures ι V) (collection : List (PromiseId ι)) :
    (s.all collection).2.called = s.called := by
  match collection with
  | [] => rfl
  | [_] => rfl
  | _ :: _ :: _ =>
      rw [all_of_two_le _ (by simp)]
      split
      · rfl
      · split
        · rfl
        · exact (foldl_onFinished ..).2.1

theorem ended_source_all (s : Futures ι V) (collection : List (PromiseId ι)) (i : ι) :
    (s.all collection).2.ended (.source i) = s.ended (.source i) := by
  match collection with
  | [] => exact ended_settle_of_ne s.create.2 _ (by simp)
  | [_] => rfl
  | _ :: _ :: _ =>
      rw [all_of_two_le _ (by simp)]
      split
      · exact ended_settle_of_ne s.create.2 _ (by simp)
      · split
        · exact ended_settle_of_ne s.create.2 _ (by simp)
        · exact (foldl_onFinished ..).2.2.2.1 _

theorem ended_mono_all {s : Futures ι V} {q : PromiseId ι} {a : Outcome V}
    (collection : List (PromiseId ι)) (h : s.ended q = some a) :
    (s.all collection).2.ended q = some a := by
  match collection with
  | [] => exact ended_mono_settle (s := s.create.2) _ _ h
  | [_] => exact h
  | p :: p' :: rest =>
      rw [all_of_two_le _ (by simp)]
      split
      · exact ended_mono_settle (s := s.create.2) _ _ h
      · split
        · exact ended_mono_settle (s := s.create.2) _ _ h
        · exact ((foldl_onFinished ..).2.2.2.1 q).trans h

theorem pending_of_finished {s : Futures ι V} (hempty : s.dispatched = []) {p : PromiseId ι}
    (hp : (s.ended p).isSome = true) (callback : FutureCallback ι) :
    s.pending (p, callback) = 0 := by
  rw [ended, Promise.ended_isSome] at hp
  simp [pending, hempty, (s.sound p).drained hp]

end Futures

end EspIot
