/-
# `EspIot.Async.Racing` — `with_timeout` and `any`, section by section

Both create a result promise and let several parties settle it, each after a look at
`finished()` that may be out of date when it acts.

    with_timeout   set_timeout ──▶ on_finished(future) ──▶ returned
    any            scan for a finished one ──▶ on_finished(each) ──▶ returned

    timer          armed ──▶ check ──▶ set_error ──▶ fired
    dispatcher     task taken off ──▶ check ──▶ set_success / set_error ──▶ next task

A step is one spinlock section or one unlocked block, as in `Async.Settlement`: the sections
of the setter that a party is in are `PromiseThread`s.  The promises of the collection are
settled by anyone at any time, and anyone registers callbacks on them and on the result.
-/
import EspIot.Async.Future
import EspIot.Async.Settlement

namespace EspIot

open Lib

/-- Where a call of `set_success(value)`, `set_success()` or `set_error()` begins. -/
def Outcome.thread {V K : Type*} : Outcome V → PromiseThread V K
  | .success (some value) => .setSuccess value
  | .success none => .finish true
  | .error => .finish false

namespace PromiseThread

variable {V K : Type*} {p : Promise V K} {th : PromiseThread V K}

theorem next_ended (h : p.finished = true) (th : PromiseThread V K) :
    (th.next p).2.1.ended = p.ended := by
  obtain ⟨hfinished, hsuccess, hresult⟩ := next_keeps h th
  rw [Promise.ended, Promise.ended, Promise.outcome, Promise.outcome, h, hfinished, hsuccess,
    hresult]

theorem next_ended_of_unsettling (h : th.settles = false) : (th.next p).2.1.ended = p.ended := by
  obtain ⟨hfinished, hsuccess, hresult⟩ := next_shows (p := p) h
  rw [Promise.ended, Promise.ended, Promise.outcome, Promise.outcome, hfinished, hsuccess, hresult]

theorem next_noted (th : PromiseThread V K) {noted : List (Outcome V)}
    (h : noted = p.ended.toList) {settles : Prop} [Decidable settles]
    (hsettles : settles ↔ p.finished = false ∧ (th.next p).2.1.finished = true) :
    (if settles then noted ++ [(th.next p).2.1.outcome] else noted) =
      (th.next p).2.1.ended.toList := by
  cases hf : p.finished with
  | true =>
      have hnot : ¬ settles := fun hs => Bool.noConfusion (hf.symm.trans (hsettles.mp hs).1)
      rw [if_neg hnot, h, next_ended hf]
  | false =>
      rw [Promise.ended, hf] at h
      cases hf' : (th.next p).2.1.finished with
      | true =>
          rw [if_pos (hsettles.mpr ⟨hf, hf'⟩), h, Promise.ended, hf']
          rfl
      | false =>
          have hnot : ¬ settles := fun hs => Bool.noConfusion (hf'.symm.trans (hsettles.mp hs).2)
          rw [if_neg hnot, h, Promise.ended, hf']
          rfl

end PromiseThread

/-- `FutureBase::with_timeout(future, timeout)` or `PromiseBase::any(collection)`. -/
inductive RaceKind (ι : Type*)
  | withTimeout (future : ι) (timeout : ℕ)
  | any (collection : List ι)
deriving DecidableEq, Repr

/-- The futures that a callback is set on. -/
def RaceKind.collection {ι : Type*} : RaceKind ι → List ι
  | withTimeout future _ => [future]
  | any collection => collection

/-- The callback that both give to `on_finished`, or one of somebody else. -/
inductive RaceCallback
  | race
  | other
deriving DecidableEq, Repr

/-- What is returned: one of the futures given, `successful()` or `errored()`, the result. -/
inductive RaceFuture (ι : Type*)
  | member (future : ι)
  | already (success : Bool)
  | result
deriving DecidableEq, Repr

/-- Where the call of `with_timeout` or `any` stands; `on` is inside `future.on_finished`. -/
inductive RaceCaller (ι V : Type*)
  | setTimeout
  | scan (left : List ι)
  | on (thread : PromiseThread V RaceCallback) (future : ι) (left : List ι)
  | returned (future : RaceFuture ι)
deriving DecidableEq

/-- The timer of `with_timeout`, with its callback. -/
inductive RaceTimer (V : Type*)
  | unset
  | armed
  | check
  | set (thread : PromiseThread V RaceCallback)
  | fired
deriving DecidableEq

def RaceTimer.hasFired {V : Type*} : RaceTimer V → Bool
  | unset | armed => false
  | check | set _ | fired => true

/-- What the dispatcher runs: the callback, called for `promise` with `success`, or the setter it
has called. -/
inductive RaceTask (ι V : Type*)
  | check (promise : Option ι) (success : Bool)
  | set (thread : PromiseThread V RaceCallback)
deriving DecidableEq

/-- The promises, where `none` is the result, the calls of others on them, the dispatcher with
its queue, and what the result has shown each time it was settled. -/
structure Race (ι V : Type*) where
  kind : RaceKind ι
  promises : Option ι → Promise V RaceCallback := fun _ => {}
  threads : List (Option ι × PromiseThread V RaceCallback) := []
  queue : List (Option ι × RaceCallback) := []
  caller : RaceCaller ι V
  timer : RaceTimer V := .unset
  dispatcher : Option (RaceTask ι V) := none
  settled : List (Outcome V) := []

/-- Somebody settles a future of the collection or sets a callback; one of these calls, the caller,
the timer or the dispatcher takes its next step. -/
inductive RaceEvent (ι V : Type*)
  | settle (future : ι) (outcome : Outcome V)
  | onFinished (promise : Option ι)
  | thread (n : ℕ)
  | caller
  | timer
  | dispatcher
deriving DecidableEq

namespace Race

variable {ι V : Type*}

/-- The shortcuts in front of `with_timeout` and `any`. -/
def start (kind : RaceKind ι) : Race ι V where
  kind
  caller :=
    match kind with
    | .withTimeout future timeout => if timeout = 0 then .returned (.member future) else .setTimeout
    | .any [] => .returned (.already false)
    | .any [future] => .returned (.member future)
    | .any collection => .scan collection

/-- `for (auto &future: collection) future.on_finished(…)`, then the return. -/
def register : List ι → RaceCaller ι V
  | [] => .returned .result
  | future :: left => .on (.onFinished .race) future left

/-- What the callback sets, for a future of the collection that has finished. -/
def outcome (s : Race ι V) (promise : Option ι) (success : Bool) : Outcome V :=
  if success then
    match s.kind with
    | .withTimeout .. => .success (s.promises promise).result
    | .any _ => .success none
  else .error

def endedOf (s : Race ι V) (promise : Option ι) : Option (Outcome V) :=
  (s.promises promise).ended

def ended (s : Race ι V) : RaceFuture ι → Option (Outcome V)
  | .member future => s.endedOf (some future)
  | .already success => some (if success then .success none else .error)
  | .result => s.endedOf none

variable [DecidableEq ι]

/-- The next section of a call on `promise`. -/
def callSection (promise : Option ι) (thread : PromiseThread V RaceCallback) (s : Race ι V) :
    Race ι V :=
  let p := s.promises promise
  let p' := (thread.next p).2.1
  { s with
    promises := Function.update s.promises promise p'
    queue := s.queue ++ (thread.next p).2.2.map (promise, ·)
    settled :=
      if promise = none ∧ p.finished = false ∧ p'.finished = true then s.settled ++ [p'.outcome]
      else s.settled }

def after (promise : Option ι) (thread : PromiseThread V RaceCallback) (s : Race ι V) :
    PromiseThread V RaceCallback :=
  (thread.next (s.promises promise)).1

def stepCaller (s : Race ι V) : Option (Race ι V) :=
  match s.caller with
  | .setTimeout => some { s with timer := .armed, caller := register s.kind.collection }
  | .scan [] => some { s with caller := register s.kind.collection }
  | .scan (future :: left) =>
      let p := s.promises (some future)
      some { s with
        caller := if p.finished then .returned (.already p.success) else .scan left }
  | .on thread future left =>
      some { s.callSection (some future) thread with
        caller :=
          match s.after (some future) thread with
          | .done => register left
          | next => .on next future left }
  | .returned _ => none

def stepTimer (s : Race ι V) : Option (Race ι V) :=
  match s.timer with
  | .unset => none
  | .armed => some { s with timer := .check }
  | .check =>
      some { s with timer := if (s.promises none).finished then .fired else .set (.finish false) }
  | .set thread =>
      some { s.callSection none thread with
        timer :=
          match s.after none thread with
          | .done => .fired
          | next => .set next }
  | .fired => none

def stepDispatcher (s : Race ι V) : Option (Race ι V) :=
  match s.dispatcher with
  | none =>
      match s.queue with
      | [] => none
      | (_, .other) :: queue => some { s with queue }
      | (promise, .race) :: queue =>
          some { s with
            queue, dispatcher := some (.check promise (s.promises promise).success) }
  | some (.check promise success) =>
      some { s with
        dispatcher :=
          if (s.promises none).finished then none
          else some (.set (s.outcome promise success).thread) }
  | some (.set thread) =>
      some { s.callSection none thread with
        dispatcher :=
          match s.after none thread with
          | .done => none
          | next => some (.set next) }

def step (s : Race ι V) : RaceEvent ι V → Option (Race ι V)
  | .settle future outcome =>
      some { s with threads := s.threads ++ [(some future, outcome.thread)] }
  | .onFinished promise =>
      some { s with threads := s.threads ++ [(promise, .onFinished .other)] }
  | .thread n =>
      match s.threads[n]? with
      | none => none
      | some (promise, thread) =>
          some { s.callSection promise thread with
            threads := s.threads.set n (promise, s.after promise thread) }
  | .caller => s.stepCaller
  | .timer => s.stepTimer
  | .dispatcher => s.stepDispatcher

/-! ## What is to hold -/

/-- `o` is the outcome of a future of the collection that has finished, for `any` up to the value
it carries. -/
def Backed (s : Race ι V) (o : Outcome V) : Prop :=
  match s.kind with
  | .withTimeout future _ => s.endedOf (some future) = some o
  | .any collection => ∃ i ∈ collection, ∃ o', s.endedOf (some i) = some o' ∧ o'.ok = o.ok

/-- `o` is backed, or it is the error of a timer that has fired. -/
def Legitimate (s : Race ι V) (o : Outcome V) : Prop :=
  s.Backed o ∨ o = .error ∧ s.timer.hasFired = true ∧ ∃ f t, s.kind = .withTimeout f t

/-- Nothing is queued or run by the dispatcher, and nobody who has settled a promise is yet to
dispatch its callbacks. -/
def Quiet (s : Race ι V) : Prop :=
  s.queue = [] ∧ s.dispatcher = none ∧ ∀ x ∈ s.threads, x.2 ≠ .onPromiseFinished

/-- The future returned must have been settled: the timer has done its work, or a future of the
collection has finished and all that followed from it is done. -/
def Due (s : Race ι V) : Prop :=
  s.timer = .fired ∨
    s.Quiet ∧ ∃ i ∈ s.kind.collection, (s.promises (some i)).finished = true

/-- The callback is set on futures of the collection only. -/
def Fits (s : Race ι V) (promise : Option ι) (callback : RaceCallback) : Prop :=
  callback = .race → ∃ i ∈ s.kind.collection, promise = some i

/-- A call on `promise` stands where it may. -/
structure ThreadOk (s : Race ι V) (promise : Option ι) (thread : PromiseThread V RaceCallback) :
    Prop where
  holding : ∀ callback ∈ thread.holding, s.Fits promise callback
  afterFinish : thread.afterFinish = true → (s.promises promise).finished = true

/-- A task of the race is queued or running, or the result is settled. -/
def Awaited (s : Race ι V) : Prop :=
  (∃ promise, (promise, .race) ∈ s.queue) ∨
    (∃ promise success, s.dispatcher = some (.check promise success)) ∨
    (∃ thread, s.dispatcher = some (.set thread) ∧ thread.settles = true) ∨
    (s.promises none).finished = true

/-- The callback set on `i` is still registered, or it has been dispatched. -/
def Pending (s : Race ι V) (i : ι) : Prop :=
  .race ∈ (s.promises (some i)).onFinishedCallbacks ∨ s.Awaited

/-- Where the caller stands, with what it has done already. -/
def CallerOk (s : Race ι V) : RaceCaller ι V → Prop
  | .setTimeout => ∃ f t, s.kind = .withTimeout f t ∧ t ≠ 0
  | .scan left => ∃ collection, s.kind = .any collection ∧ left ⊆ collection
  | .on thread i left =>
      (∃ done, s.kind.collection = done ++ i :: left ∧ ∀ j ∈ done, s.Pending j) ∧
        (thread = .onFinished .race ∨
          thread = .dispatchNow .race ∧ (s.promises (some i)).finished = true)
  | .returned (.member i) => s.kind.collection = [i] ∧ ∀ f t, s.kind = .withTimeout f t → t = 0
  | .returned (.already success) =>
      ∃ collection, s.kind = .any collection ∧
        ∃ i ∈ collection, ∃ o, s.endedOf (some i) = some o ∧ o.ok = success
  | .returned .result => ∀ i ∈ s.kind.collection, s.Pending i

/-- Where the timer stands; there is one for a timeout above zero only. -/
structure TimerOk (s : Race ι V) (timer : RaceTimer V) : Prop where
  kind : timer ≠ .unset → ∃ f t, s.kind = .withTimeout f t ∧ t ≠ 0
  set : ∀ thread, timer = .set thread → thread = .finish false ∨
    thread = .onPromiseFinished ∧ (s.promises none).finished = true
  fired : timer = .fired → (s.promises none).finished = true

/-- What the dispatcher is about to set is the outcome of a future of the collection. -/
def SetterOk (s : Race ι V) : PromiseThread V RaceCallback → Prop
  | .setSuccess value => s.Backed (.success (some value))
  | .finish true => s.Backed (.success (s.promises none).result)
  | .finish false => s.Backed .error
  | .onPromiseFinished => (s.promises none).finished = true
  | _ => False

structure DispatcherOk (s : Race ι V) (dispatcher : Option (RaceTask ι V)) : Prop where
  check : ∀ promise success, dispatcher = some (.check promise success) →
    s.Fits promise .race ∧ (s.promises promise).finished = true ∧
      success = (s.promises promise).success
  set : ∀ thread, dispatcher = some (.set thread) → s.SetterOk thread
  /-- only the dispatcher stores a value in the result, and it is about to settle it then -/
  clean : (s.promises none).finished = false → dispatcher ≠ some (.set (.finish true)) →
    (s.promises none).result = none

structure Inv (s : Race ι V) : Prop where
  registered : ∀ p, ∀ callback ∈ (s.promises p).onFinishedCallbacks, s.Fits p callback
  queued : ∀ x ∈ s.queue, s.Fits x.1 x.2 ∧ (s.promises x.1).finished = true
  threads : ∀ x ∈ s.threads, s.ThreadOk x.1 x.2 ∧ (x.1 = none → x.2.settles = false)
  drained : ∀ i, (s.promises (some i)).finished = true →
    (s.promises (some i)).onFinishedCallbacks ≠ [] → (some i, .onPromiseFinished) ∈ s.threads
  caller : s.CallerOk s.caller
  timer : s.TimerOk s.timer
  dispatcher : s.DispatcherOk s.dispatcher
  decided : ∀ o, s.endedOf none = some o → s.Legitimate o
  once : s.settled = (s.endedOf none).toList
  unset : s.caller = .setTimeout → s.timer = .unset

omit [DecidableEq ι] in
theorem inv_start {kind : RaceKind ι} (h : kind ≠ .any []) : Inv (start (V := V) kind) := by
  have htimer : TimerOk (start (V := V) kind) .unset := by
    refine ⟨fun hne => absurd rfl hne, ?_, ?_⟩
    · intro thread hset
      cases hset
    · intro hfired
      cases hfired
  have hdispatcher : DispatcherOk (start (V := V) kind) none := by
    refine ⟨?_, ?_, fun _ _ => rfl⟩
    · intro promise success hcheck
      cases hcheck
    · intro thread hset
      cases hset
  refine ⟨?_, ?_, ?_, ?_, ?_, htimer, hdispatcher, ?_, rfl, fun _ => rfl⟩
  · intro p callback hcallback
    cases hcallback
  · intro x hx
    cases hx
  · intro x hx
    cases hx
  · intro i hfinished
    cases hfinished
  · cases kind with
    | withTimeout future timeout =>
        show CallerOk _ (if timeout = 0 then _ else _)
        split
        · rename_i hzero
          refine ⟨rfl, ?_⟩
          intro f t heq
          cases heq
          exact hzero
        · rename_i hpos
          exact ⟨future, timeout, rfl, hpos⟩
    | any collection =>
        match collection, h with
        | [], h => exact absurd rfl h
        | [future], _ =>
            refine ⟨rfl, ?_⟩
            intro f t heq
            cases heq
        | i :: j :: rest, _ => exact ⟨_, rfl, fun _ hi => hi⟩
  · intro o ho
    cases ho

/-! ## What every step keeps -/

/-- What has been shown stays, and a timer that has fired has. -/
structure Grows (s t : Race ι V) : Prop where
  kind : t.kind = s.kind
  ended : ∀ p o, s.endedOf p = some o → t.endedOf p = some o
  fired : s.timer.hasFired = true → t.timer.hasFired = true

section Grows
variable {s t : Race ι V}

omit [DecidableEq ι]

theorem Grows.finished (h : Grows s t) {p : Option ι} (hp : (s.promises p).finished = true) :
    (t.promises p).finished = true ∧ (t.promises p).success = (s.promises p).success := by
  have hended := h.ended p _ (Promise.ended_eq_some.mpr ⟨hp, rfl⟩)
  obtain ⟨hfinished, houtcome⟩ := Promise.ended_eq_some.mp hended
  refine ⟨hfinished, ?_⟩
  rw [← Promise.outcome_ok, ← Promise.outcome_ok, houtcome]

theorem Grows.fits (h : Grows s t) {p : Option ι} {callback : RaceCallback}
    (hf : s.Fits p callback) : t.Fits p callback := by
  rw [Fits, h.kind]
  exact hf

theorem Grows.backed (h : Grows s t) {o : Outcome V} (hb : s.Backed o) : t.Backed o := by
  rw [Backed] at hb ⊢
  rw [h.kind]
  cases hkind : s.kind with
  | withTimeout future timeout =>
      rw [hkind] at hb
      exact h.ended _ _ hb
  | any collection =>
      rw [hkind] at hb
      obtain ⟨i, hi, o', ho', hok⟩ := hb
      exact ⟨i, hi, o', h.ended _ _ ho', hok⟩

theorem Grows.legitimate (h : Grows s t) {o : Outcome V} (hl : s.Legitimate o) :
    t.Legitimate o := by
  rcases hl with hb | ⟨herror, hfired, f, timeout, hkind⟩
  · exact .inl (h.backed hb)
  · exact .inr ⟨herror, h.fired hfired, f, timeout, h.kind.trans hkind⟩

theorem Grows.threadOk (h : Grows s t) {p : Option ι} {thread : PromiseThread V RaceCallback}
    (hth : s.ThreadOk p thread) : t.ThreadOk p thread where
  holding callback hc := h.fits (hth.holding callback hc)
  afterFinish ha := (h.finished (hth.afterFinish ha)).1

theorem Grows.callerOk (h : Grows s t) (hp : ∀ i, s.Pending i → t.Pending i)
    {caller : RaceCaller ι V} (hc : s.CallerOk caller) : t.CallerOk caller := by
  cases caller with
  | setTimeout =>
      obtain ⟨f, timeout, hkind, hpos⟩ := hc
      exact ⟨f, timeout, h.kind.trans hkind, hpos⟩
  | scan left =>
      obtain ⟨collection, hkind, hleft⟩ := hc
      exact ⟨collection, h.kind.trans hkind, hleft⟩
  | on thread i left =>
      obtain ⟨⟨done, hcollection, hdone⟩, hthread⟩ := hc
      refine ⟨⟨done, ?_, fun j hj => hp j (hdone j hj)⟩, ?_⟩
      · rw [h.kind]
        exact hcollection
      · rcases hthread with hon | ⟨hnow, hfinished⟩
        · exact .inl hon
        · exact .inr ⟨hnow, (h.finished hfinished).1⟩
  | returned future =>
      cases future with
      | member i =>
          rw [CallerOk, h.kind]
          exact hc
      | already success =>
          obtain ⟨collection, hkind, i, hi, o, ho, hok⟩ := hc
          exact ⟨collection, h.kind.trans hkind, i, hi, o, h.ended _ _ ho, hok⟩
      | result =>
          intro i hi
          rw [h.kind] at hi
          exact hp i (hc i hi)

theorem Grows.timerOk (h : Grows s t) {timer : RaceTimer V} (ht : s.TimerOk timer) :
    t.TimerOk timer where
  kind hne := by
    rw [h.kind]
    exact ht.kind hne
  set thread hset := by
    rcases ht.set thread hset with herror | ⟨hdrain, hfinished⟩
    · exact .inl herror
    · exact .inr ⟨hdrain, (h.finished hfinished).1⟩
  fired hfired := (h.finished (ht.fired hfired)).1

theorem Grows.setterOk (h : Grows s t)
    (hresult : (t.promises none).result = (s.promises none).result)
    {thread : PromiseThread V RaceCallback} (hs : s.SetterOk thread) : t.SetterOk thread := by
  cases thread with
  | setSuccess value => exact h.backed hs
  | finish ok =>
      cases ok with
      | true =>
          show t.Backed (.success (t.promises none).result)
          rw [hresult]
          exact h.backed hs
      | false => exact h.backed hs
  | onPromiseFinished => exact (h.finished hs).1
  | onFinished callback => exact hs
  | dispatchNow callback => exact hs
  | done => exact hs

theorem Grows.dispatcherOk (h : Grows s t)
    (hresult : (t.promises none).result = (s.promises none).result)
    {dispatcher : Option (RaceTask ι V)} (hd : s.DispatcherOk dispatcher) :
    t.DispatcherOk dispatcher where
  check p success hcheck := by
    obtain ⟨hfits, hfinished, hsuccess⟩ := hd.check p success hcheck
    obtain ⟨hfinished', hsuccess'⟩ := h.finished hfinished
    exact ⟨h.fits hfits, hfinished', hsuccess.trans hsuccess'.symm⟩
  set thread hset := h.setterOk hresult (hd.set thread hset)
  clean hunfinished hne := by
    rw [hresult]
    refine hd.clean ?_ hne
    by_contra hfinished
    rw [Bool.not_eq_false] at hfinished
    rw [(h.finished hfinished).1] at hunfinished
    cases hunfinished

end Grows

/-! ## One section -/

section Section
variable {s : Race ι V} {p : Option ι} {thread : PromiseThread V RaceCallback}

theorem callSection_promises (p : Option ι) (thread : PromiseThread V RaceCallback)
    (s : Race ι V) : (s.callSection p thread).promises =
      Function.update s.promises p (thread.next (s.promises p)).2.1 := rfl

theorem callSection_self :
    (s.callSection p thread).promises p = (thread.next (s.promises p)).2.1 := by
  rw [callSection_promises, Function.update_self]

theorem callSection_of_ne {q : Option ι} (h : q ≠ p) :
    (s.callSection p thread).promises q = s.promises q := by
  rw [callSection_promises, Function.update_of_ne h]

theorem callSection_ended {q : Option ι} {o : Outcome V} (h : s.endedOf q = some o) :
    (s.callSection p thread).endedOf q = some o := by
  by_cases hq : q = p
  · subst hq
    rw [endedOf, callSection_self, PromiseThread.next_ended (Promise.ended_eq_some.mp h).1]
    exact h
  · rw [endedOf, callSection_of_ne hq]
    exact h

theorem callSection_finished {q : Option ι} (h : (s.promises q).finished = true) :
    ((s.callSection p thread).promises q).finished = true :=
  (Promise.ended_eq_some.mp (callSection_ended (Promise.ended_eq_some.mpr ⟨h, rfl⟩))).1

/-- A callback that is registered or dispatched by a section was registered, or the call had it. -/
theorem mem_of_next {p : Promise V RaceCallback} {thread : PromiseThread V RaceCallback}
    {callback : RaceCallback}
    (h : callback ∈ (thread.next p).1.holding ∨
      callback ∈ (thread.next p).2.1.onFinishedCallbacks ∨ callback ∈ (thread.next p).2.2) :
    callback ∈ thread.holding ∨ callback ∈ p.onFinishedCallbacks := by
  have hplaces := PromiseThread.next_places p thread
  have hmem : callback ∈ ((thread.next p).1.holding : Multiset RaceCallback) +
      (thread.next p).2.1.onFinishedCallbacks + (thread.next p).2.2 := by
    simp only [Multiset.mem_add, Multiset.mem_coe]
    tauto
  rw [hplaces, Multiset.mem_add] at hmem
  exact hmem

section
variable (h : s.Inv) (hthread : s.ThreadOk p thread)
include h hthread

theorem callSection_registered {q : Option ι} {callback : RaceCallback}
    (hc : callback ∈ ((s.callSection p thread).promises q).onFinishedCallbacks) :
    s.Fits q callback := by
  by_cases hq : q = p
  · subst hq
    rw [callSection_self] at hc
    rcases mem_of_next (.inr (.inl hc)) with hholding | hregistered
    · exact hthread.holding callback hholding
    · exact h.registered q callback hregistered
  · rw [callSection_of_ne hq] at hc
    exact h.registered q callback hc

theorem callSection_queued {x : Option ι × RaceCallback}
    (hx : x ∈ (s.callSection p thread).queue) :
    s.Fits x.1 x.2 ∧ ((s.callSection p thread).promises x.1).finished = true := by
  rcases List.mem_append.mp hx with hold | hnew
  · obtain ⟨hfits, hfinished⟩ := h.queued x hold
    exact ⟨hfits, callSection_finished hfinished⟩
  · obtain ⟨callback, hc, rfl⟩ := List.mem_map.mp hnew
    refine ⟨?_, ?_⟩
    · rcases mem_of_next (.inr (.inr hc)) with hholding | hregistered
      · exact hthread.holding callback hholding
      · exact h.registered p callback hregistered
    · exact callSection_finished (hthread.afterFinish (PromiseThread.next_dispatched hc))

theorem callSection_threadOk {t : Race ι V} (hg : Grows s t)
    (ht : t.promises = (s.callSection p thread).promises) :
    t.ThreadOk p (s.after p thread) where
  holding callback hc := by
    refine hg.fits ?_
    rcases mem_of_next (.inl hc) with hholding | hregistered
    · exact hthread.holding callback hholding
    · exact h.registered p callback hregistered
  afterFinish ha := by
    rw [ht, callSection_self]
    exact PromiseThread.next_afterFinish ha

omit hthread in
/-- What is registered on a finished future is about to be drained, by the call that has just
finished it or by one that stood there. -/
theorem callSection_drained {i : ι}
    (hf : ((s.callSection p thread).promises (some i)).finished = true)
    (hc : ((s.callSection p thread).promises (some i)).onFinishedCallbacks ≠ []) :
    p = some i ∧ s.after p thread = .onPromiseFinished ∨
      (some i, .onPromiseFinished) ∈ s.threads ∧ (p = some i → thread ≠ .onPromiseFinished) := by
  by_cases hp : some i = p
  · subst hp
    rw [callSection_self] at hf hc
    rcases PromiseThread.next_drained hf hc with hafter | ⟨hfinished, hcallbacks, hne⟩
    · exact .inl ⟨rfl, hafter⟩
    · exact .inr ⟨h.drained i hfinished hcallbacks, fun _ => hne⟩
  · rw [callSection_of_ne hp] at hf hc
    exact .inr ⟨h.drained i hf hc, fun heq => absurd heq.symm hp⟩

end

theorem callSection_pending {i : ι} {t : Race ι V} (hi : s.Pending i)
    (hpromises : t.promises = (s.callSection p thread).promises)
    (hqueue : t.queue = (s.callSection p thread).queue)
    (hdispatcher : (∃ promise success, s.dispatcher = some (.check promise success)) ∨
      (∃ thread, s.dispatcher = some (.set thread) ∧ thread.settles = true) → t.Awaited) :
    t.Pending i := by
  rcases hi with hregistered | ⟨q, hq⟩ | hcheck | hset | hfinished
  · by_cases hp : some i = p
    · subst hp
      rcases PromiseThread.next_registered hregistered thread with hstays | hdispatched
      · refine .inl ?_
        rw [hpromises, callSection_self]
        exact hstays
      · refine .inr (.inl ⟨some i, ?_⟩)
        rw [hqueue]
        exact List.mem_append_right _ (List.mem_map.mpr ⟨.race, hdispatched, rfl⟩)
    · refine .inl ?_
      rw [hpromises, callSection_of_ne hp]
      exact hregistered
  · refine .inr (.inl ⟨q, ?_⟩)
    rw [hqueue]
    exact List.mem_append_left _ hq
  · exact .inr (hdispatcher (.inl hcheck))
  · exact .inr (hdispatcher (.inr hset))
  · refine .inr (.inr (.inr (.inr ?_)))
    rw [hpromises]
    exact callSection_finished hfinished

theorem callSection_result (hp : p ≠ none ∨ thread.settles = false) :
    (s.callSection p thread).endedOf none = s.endedOf none ∧
      (s.callSection p thread).settled = s.settled ∧
      ((s.callSection p thread).promises none).result = (s.promises none).result := by
  by_cases hnone : p = none
  · subst hnone
    have hunsettling := hp.resolve_left (fun h => h rfl)
    obtain ⟨hfinished, -, hresult⟩ := PromiseThread.next_shows (p := s.promises none) hunsettling
    refine ⟨?_, ?_, ?_⟩
    · rw [endedOf, endedOf, callSection_self, PromiseThread.next_ended_of_unsettling hunsettling]
    · refine if_neg ?_
      rintro ⟨-, hunfinished, hnow⟩
      rw [hfinished, hunfinished] at hnow
      cases hnow
    · rw [callSection_self]
      exact hresult
  · refine ⟨?_, if_neg fun h => hnone h.1, ?_⟩
    · rw [endedOf, callSection_of_ne (Ne.symm hnone)]
      rfl
    · rw [callSection_of_ne (Ne.symm hnone)]

end Section

end Race

end EspIot
