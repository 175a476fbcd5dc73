/-
# `EspIot.Async.Promise` — a promise, section by section

The state of a `Promise<T>` and the pieces of code that touch it: the spinlock
sections of `set_success`, `set_error` and `on_finished`, and the unlocked block
`_on_promise_finished`.  `Async.Settlement` interleaves the pieces; everything
else uses `settle` and `onFinished`, a whole call run without interruption.

A callback that is dispatched becomes the task `[=, this] { callback(_success); }`:
it carries the callback and the promise and reads the flag when it runs.
-/
import Mathlib.Data.List.Basic

namespace EspIot

/-- How a promise ends.  A `Promise<void>` succeeds without a value. -/
inductive Outcome (V : Type*)
  | success (value : Option V)
  | error
deriving DecidableEq, Repr

namespace Outcome

variable {V : Type*}

def ok : Outcome V → Bool
  | success _ => true
  | error => false

def value : Outcome V → Option V
  | success v => v
  | error => none

@[simp] theorem ok_success (v : Option V) : (success v).ok = true := rfl
@[simp] theorem ok_error : (error : Outcome V).ok = false := rfl
@[simp] theorem value_success (v : Option V) : (success v).value = v := rfl
@[simp] theorem value_error : (error : Outcome V).value = none := rfl

end Outcome

/-- `PromiseBase` with the `_result` of `Promise<T>`; `none` is the initial `T {}`. -/
structure Promise (V K : Type*) where
  finished : Bool := false
  success : Bool := false
  result : Option V := none
  onFinishedCallbacks : List K := []
deriving DecidableEq

namespace Promise

variable {V K : Type*}

/-! ## The sections -/

/-- The section of `Promise<T>::set_success`: the value is stored unless finished. -/
def store (value : V) (p : Promise V K) : Promise V K :=
  if p.finished then p else { p with result := some value }

/-- The section of `PromiseBase::set_success` (`ok`) and `set_error`. -/
def finish (ok : Bool) (p : Promise V K) : Promise V K :=
  if p.finished then p else { p with finished := true, success := ok }

/-- `_on_promise_finished`: every registered callback is dispatched, in order, and the vector
is cleared. -/
def onPromiseFinished (p : Promise V K) : List K × Promise V K :=
  (p.onFinishedCallbacks, { p with onFinishedCallbacks := [] })

/-- The section of `on_finished` on an unfinished promise. -/
def register (callback : K) (p : Promise V K) : Promise V K :=
  { p with onFinishedCallbacks := p.onFinishedCallbacks ++ [callback] }

/-! ## Whole calls -/

/-- `set_success(value)`, `set_success()` or `set_error()`, with the callbacks it dispatches. -/
def settle (o : Outcome V) (p : Promise V K) : List K × Promise V K :=
  if p.finished then ([], p)
  else
    match o with
    | .success (some value) => ((p.store value).finish true).onPromiseFinished
    | .success none => (p.finish true).onPromiseFinished
    | .error => (p.finish false).onPromiseFinished

/-- `on_finished(callback)`, with what it dispatches. -/
def onFinished (callback : K) (p : Promise V K) : List K × Promise V K :=
  if p.finished then ([callback], p) else ([], p.register callback)

/-- The outcome a finished promise shows to its callbacks. -/
def outcome (p : Promise V K) : Outcome V :=
  if p.success then .success p.result else .error

theorem settle_finished {p : Promise V K} (o : Outcome V) (h : p.finished = true) :
    p.settle o = ([], p) := by
  simp [settle, h]

/-- Settling an unfinished promise dispatches what is registered and leaves the outcome. -/
theorem settle_unfinished {p : Promise V K} (o : Outcome V) (h : p.finished = false) :
    p.settle o = (p.onFinishedCallbacks,
      { finished := true, success := o.ok,
        result := match o with
          | .success (some value) => some value
          | _ => p.result,
        onFinishedCallbacks := [] }) := by
  cases o with
  | success v => cases v <;> simp [settle, h, store, finish, onPromiseFinished]
  | error => simp [settle, h, finish, onPromiseFinished]

end Promise

end EspIot
