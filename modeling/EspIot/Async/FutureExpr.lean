/-
# `EspIot.Async.FutureExpr` — what an expression of futures stands for

Expressions built from source promises with the combinators, and their outcome once the
outcomes of the sources are known.  No schedule occurs here: `Async.FutureRuns` compares it
with what the dispatcher makes of the expression.

A user function stands for what it returns, as a function of the result it is called with.
-/
import EspIot.Async.Future
import Mathlib.Data.Fintype.Basic

namespace EspIot

/-- `onErrorVoid` is the overload that returns its argument. -/
inductive FutureExpr (ι V : Type*)
  | source (i : ι)
  | settled (o : Outcome V)
  | thenFuture (isVoid : Bool) (future : FutureExpr ι V) (fn : Option V → FutureExpr ι V)
  | thenValue (future : FutureExpr ι V) (fn : Option V → Option V)
  | onError (isVoid : Bool) (future : FutureExpr ι V) (fn : FutureExpr ι V)
  | onErrorVoid (isVoid : Bool) (future : FutureExpr ι V)
  | doFinally (future : FutureExpr ι V)
  | all (n : Nat) (collection : Fin n → FutureExpr ι V)

namespace FutureExpr

variable {ι V : Type*} (σ : ι → Outcome V)

/-- The outcome of an expression: `then` passes an error through, `on_error` and `finally` a
success, and `all` succeeds when all of its members do. -/
def outcome : FutureExpr ι V → Outcome V
  | source i => σ i
  | settled o => o
  | thenFuture isVoid future fn =>
      match future.outcome with
      | .success value => ((fn value).outcome).asType isVoid
      | .error => .error
  | thenValue future fn =>
      match future.outcome with
      | .success value => .success (fn value)
      | .error => .error
  | onError isVoid future fn =>
      match future.outcome with
      | .success value => (Outcome.success value).asType isVoid
      | .error => fn.outcome.asType isVoid
  | onErrorVoid isVoid future => future.outcome.asType isVoid
  | doFinally future => future.outcome
  | all 0 _ => .error
  | all 1 collection => (collection 0).outcome
  | all (_ + 2) collection =>
      if ∀ j, ((collection j).outcome).ok = true then .success none else .error

/-- The user function of the outermost combinator is called. -/
def reached : FutureExpr ι V → Bool
  | thenFuture _ future _ => (future.outcome σ).ok
  | thenValue future _ => (future.outcome σ).ok
  | onError _ future _ => !(future.outcome σ).ok
  | onErrorVoid _ future => !(future.outcome σ).ok
  | doFinally _ => true
  | _ => false

/-- The source settles a future that the outcome of the expression depends on. -/
def Needs : FutureExpr ι V → ι → Prop
  | source j, i => i = j
  | settled _, _ => False
  | thenFuture _ future fn, i =>
      future.Needs i ∨ ∃ value, future.outcome σ = .success value ∧ (fn value).Needs i
  | thenValue future _, i => future.Needs i
  | onError _ future fn, i => future.Needs i ∨ (future.outcome σ = .error ∧ fn.Needs i)
  | onErrorVoid _ future, i => future.Needs i
  | doFinally future, i => future.Needs i
  | all _ collection, i => ∃ j, (collection j).Needs i

/-- `all` over a list of expressions. -/
def allOf (collection : List (FutureExpr ι V)) : FutureExpr ι V :=
  all collection.length collection.get

/-- The future that the user function returns, where it is called and returns one. -/
def returns : FutureExpr ι V → Option (FutureExpr ι V × Bool)
  | thenFuture isVoid future fn =>
      match future.outcome σ with
      | .success value => some (fn value, isVoid)
      | .error => none
  | onError isVoid future fn => if (future.outcome σ).ok then none else some (fn, isVoid)
  | onErrorVoid isVoid future => if (future.outcome σ).ok then none else some (future, isVoid)
  | _ => none

/-- The expression of the very future that the combinator returns. -/
def same : FutureExpr ι V → Option (FutureExpr ι V)
  | doFinally future => some future
  | all 1 collection => some (collection 0)
  | _ => none

/-- The callback that call `k` attaches to the future `q` of an expression, when it returns the
future `p`. -/
def attaches (k : Nat) (q p : PromiseId ι) :
    FutureExpr ι V → Option (FutureExpr ι V × FutureCallback ι)
  | thenFuture isVoid future _ => some (future, .thenFuture q k isVoid p)
  | thenValue future _ => some (future, .thenValue q k p)
  | onError isVoid future _ => some (future, .onError q k isVoid p)
  | onErrorVoid isVoid future => some (future, .onError q k isVoid p)
  | doFinally future => some (future, .doFinally q k)
  | _ => none

/-- The future that call `k` returns when it is attached to `q`. -/
def attached (k : Nat) (q : PromiseId ι) : FutureExpr ι V → PromiseId ι
  | doFinally _ => q
  | _ => .derived k

variable {σ} {e e' : FutureExpr ι V}

theorem forall_get_ok (collection : List (FutureExpr ι V)) :
    (∀ j, ((collection.get j).outcome σ).ok = true) ↔
      ∀ e ∈ collection, (e.outcome σ).ok = true := by
  constructor
  · intro h e he
    obtain ⟨j, rfl⟩ := List.get_of_mem he
    exact h j
  · intro h j
    exact h _ (List.get_mem ..)

theorem outcome_allOf {collection : List (FutureExpr ι V)} (h : 2 ≤ collection.length) :
    (allOf collection).outcome σ =
      if ∀ e ∈ collection, (e.outcome σ).ok = true then .success none else .error := by
  match collection with
  | e :: e' :: rest =>
      simp only [← forall_get_ok]
      rfl
  | [_] => simp at h
  | [] => simp at h

theorem allOf_ok (collection : List (FutureExpr ι V)) :
    ((allOf collection).outcome σ).ok = true ↔
      collection ≠ [] ∧ ∀ e ∈ collection, (e.outcome σ).ok = true := by
  match collection with
  | [] => simp [allOf, outcome]
  | [e] => simp [allOf, outcome]
  | e :: e' :: rest =>
      rw [outcome_allOf (by simp)]
      split
      · rename_i hall
        simpa using hall
      · rename_i hall
        simpa using hall

theorem thenValue_ok (fn : Option V → Option V) :
    ((thenValue e fn).outcome σ).ok = (e.outcome σ).ok := by
  cases ho : e.outcome σ <;> simp [outcome, ho]

theorem thenFuture_ok {isVoid : Bool} {fn : Option V → FutureExpr ι V}
    (h : (e.outcome σ).ok = true) : ((thenFuture isVoid e fn).outcome σ).ok =
      ((fn (e.outcome σ).value).outcome σ).ok := by
  cases ho : e.outcome σ <;> simp_all [outcome]

theorem outcome_returns {isVoid : Bool} (h : e.returns σ = some (e', isVoid)) :
    e.outcome σ = (e'.outcome σ).asType isVoid ∧ e.reached σ = true := by
  cases e with
  | thenFuture isVoid future fn =>
      cases ho : future.outcome σ <;> simp_all [returns, outcome, reached]
  | onError isVoid future fn =>
      cases ho : future.outcome σ <;> simp_all [returns, outcome, reached]
  | onErrorVoid isVoid future =>
      cases ho : future.outcome σ <;> simp_all [returns, outcome, reached]
  | _ => simp [returns] at h

/-- The function an attached callback calls is that of its call, with the future it is attached
to, and the outcomes reach it. -/
theorem attaches_userFn {k fn : Nat} {q p self : PromiseId ι} {callback : FutureCallback ι}
    (h : e.attaches k q p = some (e', callback))
    (hcall : callback.userFn (e'.outcome σ).ok = some (fn, self)) :
    fn = k ∧ self = q ∧ e.reached σ = true := by
  cases e with
  | doFinally future =>
      cases h
      cases hcall
      exact ⟨rfl, rfl, rfl⟩
  | thenFuture isVoid future f =>
      cases h
      cases hok : (e'.outcome σ).ok <;> rw [hok] at hcall <;> cases hcall
      exact ⟨rfl, rfl, hok⟩
  | thenValue future f =>
      cases h
      cases hok : (e'.outcome σ).ok <;> rw [hok] at hcall <;> cases hcall
      exact ⟨rfl, rfl, hok⟩
  | onError isVoid future f =>
      cases h
      cases hok : (e'.outcome σ).ok <;> rw [hok] at hcall <;> cases hcall
      exact ⟨rfl, rfl, by rw [reached, hok]; rfl⟩
  | onErrorVoid isVoid future =>
      cases h
      cases hok : (e'.outcome σ).ok <;> rw [hok] at hcall <;> cases hcall
      exact ⟨rfl, rfl, by rw [reached, hok]; rfl⟩
  | _ => cases h

theorem same_all {n : Nat} {collection : Fin n → FutureExpr ι V}
    (h : (all n collection).same = some e') : ∃ j, e' = collection j := by
  cases n with
  | zero => cases h
  | succ n =>
      cases n with
      | zero => cases h; exact ⟨0, rfl⟩
      | succ n => cases h

end FutureExpr

end EspIot
