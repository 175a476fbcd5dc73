/-
# `EspIot.Async.Settlement` — one promise under any interleaving of its calls

Any number of `set_success(v)`, `set_error` and `on_finished(cb)` calls on one
promise, each standing somewhere in its own code.  A step is one spinlock section
or one unlocked block of one call, or the dispatcher running its oldest task.

    set_success(v)   setSuccess v ── already finished ──────────────▶ done
                          └── stored ──▶ finish true ── lost ───────▶ done
                                              └── won ─▶ onPromiseFinished ─▶ done
    set_error        finish false ── lost ──────────────────────────▶ done
                          └── won ─▶ onPromiseFinished ─────────────▶ done
    on_finished(cb)  onFinished cb ── registered ───────────────────▶ done
                          └── finished ─▶ dispatchNow cb ───────────▶ done

A loser of the race may have stored its value before the winner marks the
promise, so the value of a successful promise is some caller's, not the winner's.
-/
import EspIot.Async.Promise
import EspIot.Lib.Lists
import EspIot.Lib.Run
import Mathlib.Algebra.Order.Group.Multiset
import Mathlib.Tactic.Abel

namespace EspIot

open Lib

inductive PromiseCall (V K : Type*)
  | setSuccess (value : V)
  | setError
  | onFinished (callback : K)
deriving DecidableEq

/-- Where a call stands: before one of the sections or blocks above. -/
inductive PromiseThread (V K : Type*)
  | setSuccess (value : V)
  | finish (ok : Bool)
  | onPromiseFinished
  | onFinished (callback : K)
  | dispatchNow (callback : K)
  | done
deriving DecidableEq

/-- The promise, the calls, the dispatcher's queue of tasks of this promise, and the callbacks
invoked so far with the flag each was given. -/
structure PromiseRun (V K : Type*) where
  promise : Promise V K
  threads : List (PromiseThread V K)
  queue : List K
  invoked : List (K × Bool)
deriving DecidableEq

inductive PromiseEvent
  | thread (i : Nat)
  | runTask
deriving DecidableEq

namespace PromiseCall

variable {V K : Type*}

def start : PromiseCall V K → PromiseThread V K
  | setSuccess value => .setSuccess value
  | setError => .finish false
  | onFinished callback => .onFinished callback

def callback : PromiseCall V K → List K
  | onFinished callback => [callback]
  | _ => []

def whole (p : Promise V K) : PromiseCall V K → List K × Promise V K
  | setSuccess value => p.settle (.success (some value))
  | setError => p.settle .error
  | onFinished callback => p.onFinished callback

def settles : PromiseCall V K → Bool
  | onFinished _ => false
  | _ => true

end PromiseCall

namespace PromiseThread

variable {V K : Type*}

/-- One section or block of a call: where the call stands afterwards, the promise, and what
is dispatched. -/
def next (p : Promise V K) : PromiseThread V K → PromiseThread V K × Promise V K × List K
  | setSuccess value => (if p.finished then done else finish true, p.store value, [])
  | finish ok => (if p.finished then done else onPromiseFinished, p.finish ok, [])
  | onPromiseFinished => (done, p.onPromiseFinished.2, p.onPromiseFinished.1)
  | onFinished callback =>
      if p.finished then (dispatchNow callback, p, []) else (done, p.register callback, [])
  | dispatchNow callback => (done, p, [callback])
  | done => (done, p, [])

def holding : PromiseThread V K → List K
  | onFinished callback => [callback]
  | dispatchNow callback => [callback]
  | _ => []

/-- The call has seen the promise finished, or has finished it. -/
def afterFinish : PromiseThread V K → Bool
  | onPromiseFinished => true
  | dispatchNow _ => true
  | _ => false

/-- The call may still finish the promise. -/
def settles : PromiseThread V K → Bool
  | setSuccess _ => true
  | finish _ => true
  | _ => false

/-! The sections of the setters and of `on_finished`, on a promise that is finished and on one that
is not. -/

section Sections
variable {p : Promise V K}

theorem next_setSuccess_finished (h : p.finished = true) (value : V) :
    next p (setSuccess value) = (done, p, []) := by
  rw [next, Promise.store, if_pos h, if_pos h]

theorem next_setSuccess (h : p.finished = false) (value : V) :
    next p (setSuccess value) = (finish true, { p with result := some value }, []) := by
  rw [next, Promise.store, h]
  rfl

theorem next_finish_finished (h : p.finished = true) (ok : Bool) :
    next p (finish ok) = (done, p, []) := by
  rw [next, Promise.finish, if_pos h, if_pos h]

theorem next_finish (h : p.finished = false) (ok : Bool) :
    next p (finish ok) =
      (onPromiseFinished, { p with finished := true, success := ok }, []) := by
  rw [next, Promise.finish, h]
  rfl

theorem next_onFinished_finished (h : p.finished = true) (callback : K) :
    next p (onFinished callback) = (dispatchNow callback, p, []) := by
  rw [next, if_pos h]

theorem next_onFinished (h : p.finished = false) (callback : K) :
    next p (onFinished callback) = (done, p.register callback, []) := by
  rw [next, h]
  rfl

end Sections

/-! What one section does to the callbacks, to the promise and to the call itself. -/

theorem next_places (p : Promise V K) (th : PromiseThread V K) :
    ((th.next p).1.holding : Multiset K) + (th.next p).2.1.onFinishedCallbacks +
      (th.next p).2.2 = th.holding + p.onFinishedCallbacks := by
  cases th with
  | setSuccess value =>
      cases hf : p.finished <;> simp [next, holding, Promise.store, hf]
  | finish ok =>
      cases hf : p.finished <;> simp [next, holding, Promise.finish, hf]
  | onPromiseFinished => simp [next, holding, Promise.onPromiseFinished]
  | onFinished callback =>
      cases hf : p.finished
      · simp only [next, hf, Promise.register, holding, Bool.false_eq_true, if_false,
          ← Multiset.coe_add, Multiset.coe_nil]
        abel
      · simp [next, holding, hf]
  | dispatchNow callback =>
      simp only [next, holding, Multiset.coe_nil]
      abel
  | done => simp [next, holding]

theorem next_keeps {p : Promise V K} (h : p.finished = true)
    (th : PromiseThread V K) :
    (th.next p).2.1.finished = true ∧ (th.next p).2.1.success = p.success ∧
      (th.next p).2.1.result = p.result := by
  cases th <;> simp [next, Promise.store, Promise.finish, Promise.onPromiseFinished, h]

/-- On an unfinished promise a section dispatches nothing, and a call gets past the flag only
by setting it. -/
theorem next_early {p : Promise V K} {th : PromiseThread V K} (h : p.finished = false)
    (hth : th.afterFinish = false) :
    (th.next p).2.2 = [] ∧
      ((th.next p).2.1.finished = false → (th.next p).1.afterFinish = false) := by
  cases th with
  | setSuccess value => simp [next, afterFinish, h]
  | finish ok => simp [next, Promise.finish, h]
  | onPromiseFinished | dispatchNow _ => cases hth
  | onFinished callback => simp [next, afterFinish, h]
  | done => simp [next, afterFinish]

/-- Callbacks registered on a finished promise: the call that finished it drains them next. -/
theorem next_drained {p : Promise V K} {th : PromiseThread V K}
    (hf : (th.next p).2.1.finished = true) (hc : (th.next p).2.1.onFinishedCallbacks ≠ []) :
    (th.next p).1 = onPromiseFinished ∨
      p.finished = true ∧ p.onFinishedCallbacks ≠ [] ∧ th ≠ onPromiseFinished := by
  cases th with
  | setSuccess value => cases h : p.finished <;> simp_all [next, Promise.store]
  | finish ok => cases h : p.finished <;> simp_all [next, Promise.finish]
  | onPromiseFinished => exact absurd rfl hc
  | onFinished callback => cases h : p.finished <;> simp_all [next, Promise.register]
  | dispatchNow callback => exact Or.inr ⟨hf, hc, by simp⟩
  | done => exact Or.inr ⟨hf, hc, by simp⟩

theorem next_value {p : Promise V K} {th : PromiseThread V K} {v : V}
    (h : (th.next p).2.1.result = some v) : p.result = some v ∨ th = .setSuccess v := by
  cases th with
  | setSuccess value => cases hf : p.finished <;> simp_all [next, Promise.store]
  | finish ok => cases hf : p.finished <;> simp_all [next, Promise.finish]
  | onFinished callback => cases hf : p.finished <;> simp_all [next, Promise.register]
  | onPromiseFinished | dispatchNow _ | done => exact Or.inl h

theorem next_result {p : Promise V K} {v : V} (h : p.result = some v)
    (th : PromiseThread V K) : ∃ w, (th.next p).2.1.result = some w := by
  cases th with
  | setSuccess value => cases hf : p.finished <;> simp [next, Promise.store, hf, h]
  | finish ok => cases hf : p.finished <;> simp [next, Promise.finish, hf, h]
  | onFinished callback => cases hf : p.finished <;> simp [next, Promise.register, hf, h]
  | onPromiseFinished | dispatchNow _ | done => exact ⟨v, h⟩

theorem next_stored {p : Promise V K} {th : PromiseThread V K}
    (h : (th.next p).1 = finish true ∨ (th.next p).2.1.success = true) :
    (∃ v, (th.next p).2.1.result = some v) ∨ th = finish true ∨ p.success = true := by
  cases th with
  | setSuccess value => cases hf : p.finished <;> simp_all [next, Promise.store]
  | finish ok => cases hf : p.finished <;> simp_all [next, Promise.finish]
  | onFinished callback => cases hf : p.finished <;> simp_all [next, Promise.register]
  | onPromiseFinished | dispatchNow _ | done =>
      exact Or.inr (Or.inr (h.resolve_left (by simp [next])))

theorem next_ne_setSuccess (p : Promise V K) (th : PromiseThread V K) (v : V) :
    (th.next p).1 ≠ setSuccess v := by
  cases th <;> cases hf : p.finished <;> simp [next, hf]

theorem next_settles (p : Promise V K) {th : PromiseThread V K}
    (h : th.settles = true) :
    (th.next p).2.1.finished = true ∨ (th.next p).1.settles = true := by
  cases th with
  | setSuccess value => cases hf : p.finished <;> simp [next, settles, Promise.store, hf]
  | finish ok => cases hf : p.finished <;> simp [next, Promise.finish, hf]
  | onPromiseFinished | onFinished _ | dispatchNow _ | done => cases h

theorem next_registered {p : Promise V K} {callback : K} (h : callback ∈ p.onFinishedCallbacks)
    (th : PromiseThread V K) :
    callback ∈ (th.next p).2.1.onFinishedCallbacks ∨ callback ∈ (th.next p).2.2 := by
  cases th with
  | setSuccess _ => cases hf : p.finished <;> simp [next, Promise.store, hf, h]
  | finish _ => cases hf : p.finished <;> simp [next, Promise.finish, hf, h]
  | onFinished _ => cases hf : p.finished <;> simp [next, Promise.register, hf, h]
  | onPromiseFinished => exact Or.inr h
  | dispatchNow _ | done => exact Or.inl h

theorem next_dispatched {p : Promise V K} {th : PromiseThread V K} {callback : K}
    (h : callback ∈ (th.next p).2.2) : th.afterFinish = true := by
  cases th with
  | onPromiseFinished | dispatchNow _ => rfl
  | setSuccess _ | finish _ | done => cases h
  | onFinished _ => cases hf : p.finished <;> simp [next, hf] at h

theorem next_afterFinish {p : Promise V K} {th : PromiseThread V K}
    (h : (th.next p).1.afterFinish = true) : (th.next p).2.1.finished = true := by
  cases th with
  | setSuccess _ => cases hf : p.finished <;> simp [next, afterFinish, hf] at h
  | finish _ => cases hf : p.finished <;> simp [next, afterFinish, Promise.finish, hf] at h ⊢
  | onFinished _ => cases hf : p.finished <;> simp [next, afterFinish, hf] at h ⊢
  | onPromiseFinished | dispatchNow _ | done => cases h

theorem next_shows {p : Promise V K} {th : PromiseThread V K} (h : th.settles = false) :
    (th.next p).2.1.finished = p.finished ∧ (th.next p).2.1.success = p.success ∧
      (th.next p).2.1.result = p.result := by
  cases th with
  | setSuccess _ | finish _ => cases h
  | onFinished _ => cases hf : p.finished <;> simp [next, Promise.register, hf]
  | onPromiseFinished | dispatchNow _ | done => exact ⟨rfl, rfl, rfl⟩

theorem next_unsettling {p : Promise V K} {th : PromiseThread V K} (h : th.settles = false) :
    (th.next p).1.settles = false := by
  cases th with
  | setSuccess _ | finish _ => cases h
  | onFinished _ => cases hf : p.finished <;> simp [next, settles, hf]
  | onPromiseFinished | dispatchNow _ | done => rfl

theorem next_result_eq {p : Promise V K} {th : PromiseThread V K}
    (h : ∀ value, th ≠ setSuccess value) : (th.next p).2.1.result = p.result := by
  cases th with
  | setSuccess value => exact absurd rfl (h value)
  | finish _ => cases hf : p.finished <;> simp [next, Promise.finish, hf]
  | onFinished _ => cases hf : p.finished <;> simp [next, Promise.register, hf]
  | onPromiseFinished | dispatchNow _ | done => rfl

end PromiseThread

namespace PromiseRun

variable {V K : Type*}

/-- All calls have been made and none has taken a step; one that is made later is one that
takes its first step later. -/
def start (calls : List (PromiseCall V K)) : PromiseRun V K :=
  { promise := {}, threads := calls.map PromiseCall.start, queue := [], invoked := [] }

def step (s : PromiseRun V K) : PromiseEvent → Option (PromiseRun V K)
  | .thread i =>
      match s.threads[i]? with
      | some th =>
          let (th', promise, dispatched) := th.next s.promise
          some { s with
            promise, threads := s.threads.set i th', queue := s.queue ++ dispatched }
      | none => none
  | .runTask =>
      match s.queue with
      | callback :: rest =>
          some { s with queue := rest, invoked := s.invoked ++ [(callback, s.promise.success)] }
      | [] => none

theorem step_thread {s : PromiseRun V K} {i : Nat} {th : PromiseThread V K}
    (h : s.threads[i]? = some th) :
    step s (.thread i) = some { s with
      promise := (th.next s.promise).2.1
      threads := s.threads.set i (th.next s.promise).1
      queue := s.queue ++ (th.next s.promise).2.2 } := by
  simp only [step, h]

def AllDone (s : PromiseRun V K) : Prop := ∀ th ∈ s.threads, th = .done

structure Settling (calls : List (PromiseCall V K)) (s : PromiseRun V K) : Prop where
  /-- every callback given is in exactly one place -/
  places : ((s.threads.flatMap PromiseThread.holding : List K) : Multiset K) +
    s.promise.onFinishedCallbacks + s.queue + s.invoked.map Prod.fst =
      (calls.flatMap PromiseCall.callback : List K)
  early : s.promise.finished = false →
    s.queue = [] ∧ s.invoked = [] ∧ ∀ th ∈ s.threads, th.afterFinish = false
  /-- whoever finished the promise is about to drain what is still registered -/
  drained : s.promise.finished = true → s.promise.onFinishedCallbacks ≠ [] →
    .onPromiseFinished ∈ s.threads
  flags : ∀ x ∈ s.invoked, x.2 = s.promise.success
  value : ∀ v, s.promise.result = some v → .setSuccess v ∈ calls
  stored : .finish true ∈ s.threads ∨ s.promise.success = true → ∃ v, s.promise.result = some v
  passed : ∀ v, .setSuccess v ∈ s.threads → .setSuccess v ∈ calls
  settler : (∃ c ∈ calls, c.settles = true) →
    s.promise.finished = true ∨ ∃ th ∈ s.threads, th.settles = true

theorem Settling.start (calls : List (PromiseCall V K)) : Settling calls (start calls) := by
  have hth : ∀ th ∈ calls.map PromiseCall.start, ∃ c ∈ calls, c.start = th :=
    fun th h => List.mem_map.mp h
  refine ⟨?_, ?_, ?_, ?_, ?_, ?_, ?_, ?_⟩
  · have : (calls.map PromiseCall.start).flatMap PromiseThread.holding =
        calls.flatMap PromiseCall.callback := by
      rw [List.flatMap_map]
      congr 1
      funext c
      cases c <;> rfl
    simp [PromiseRun.start, this]
  · intro _
    refine ⟨rfl, rfl, ?_⟩
    intro th h
    obtain ⟨c, -, rfl⟩ := hth th h
    cases c <;> rfl
  · intro h
    cases h
  · intro x hx
    cases hx
  · intro v hv
    cases hv
  · rintro (h | h)
    · obtain ⟨c, -, hc⟩ := hth _ h
      cases c <;> cases hc
    · cases h
  · intro v h
    obtain ⟨c, hc, hs⟩ := hth _ h
    cases c <;> cases hs
    exact hc
  · rintro ⟨c, hc, hs⟩
    refine Or.inr ⟨c.start, List.mem_map_of_mem hc, ?_⟩
    cases c <;> simp_all [PromiseCall.start, PromiseThread.settles, PromiseCall.settles]

/-! ## Steps -/

theorem Settling.thread_places {calls : List (PromiseCall V K)} {s : PromiseRun V K}
    (h : Settling calls s) {l₁ l₂ : List (PromiseThread V K)} {th : PromiseThread V K}
    (heq : s.threads = l₁ ++ th :: l₂) :
    (((l₁ ++ (th.next s.promise).1 :: l₂).flatMap PromiseThread.holding : List K) : Multiset K) +
      (th.next s.promise).2.1.onFinishedCallbacks + ↑(s.queue ++ (th.next s.promise).2.2) +
        s.invoked.map Prod.fst = (calls.flatMap PromiseCall.callback : List K) := by
  have hnext := th.next_places s.promise
  have hplaces := h.places
  rw [heq] at hplaces
  simp only [List.flatMap_append, List.flatMap_cons, ← Multiset.coe_add] at hplaces ⊢
  rw [← hplaces]
  calc _ = (l₁.flatMap PromiseThread.holding : Multiset K) + l₂.flatMap PromiseThread.holding +
          (((th.next s.promise).1.holding : Multiset K) +
            (th.next s.promise).2.1.onFinishedCallbacks + (th.next s.promise).2.2) + s.queue +
          s.invoked.map Prod.fst := by abel
    _ = _ := by rw [hnext]; abel

theorem Settling.thread {calls : List (PromiseCall V K)} {s : PromiseRun V K}
    (h : Settling calls s) {i : Nat} {th : PromiseThread V K} (hi : s.threads[i]? = some th) :
    Settling calls { s with
      promise := (th.next s.promise).2.1
      threads := s.threads.set i (th.next s.promise).1
      queue := s.queue ++ (th.next s.promise).2.2 } := by
  have hmem : th ∈ s.threads := List.mem_of_getElem? hi
  have hset {t : PromiseThread V K} (ht : t ∈ s.threads.set i (th.next s.promise).1) :
      t ∈ s.threads ∨ t = (th.next s.promise).1 := List.mem_or_eq_of_mem_set ht
  have hself : (th.next s.promise).1 ∈ s.threads.set i (th.next s.promise).1 :=
    List.mem_set (List.getElem?_eq_some_iff.mp hi).1 _
  have hunfinished (hf : (th.next s.promise).2.1.finished = false) :
      s.promise.finished = false := by
    by_contra hne
    rw [Bool.not_eq_false] at hne
    rw [(PromiseThread.next_keeps hne th).1] at hf
    cases hf
  refine ⟨?_, ?_, ?_, ?_, ?_, ?_, ?_, ?_⟩
  · obtain ⟨l₁, l₂, heq, hsplit⟩ := exists_split hi
    rw [hsplit]
    exact h.thread_places heq
  · intro hf
    obtain ⟨hq, hinv, hafter⟩ := h.early (hunfinished hf)
    obtain ⟨hd, hth⟩ := PromiseThread.next_early (hunfinished hf) (hafter th hmem)
    refine ⟨by rw [hq, hd]; rfl, hinv, ?_⟩
    intro t ht
    rcases hset ht with ht | rfl
    · exact hafter t ht
    · exact hth hf
  · intro hf hc
    rcases PromiseThread.next_drained hf hc with hth | ⟨hf, hc, hne⟩
    · rw [← hth]
      exact hself
    · exact mem_set_of_ne hi (h.drained hf hc) (Ne.symm hne)
  · intro x hx
    -- something has been invoked, so the promise is finished
    have hf : s.promise.finished = true := by
      by_contra hne
      rw [(h.early (by simpa using hne)).2.1] at hx
      cases hx
    rw [h.flags x hx, (PromiseThread.next_keeps hf th).2.1]
  · intro v hv
    rcases PromiseThread.next_value hv with hv | rfl
    · exact h.value v hv
    · exact h.passed v hmem
  · intro hs
    have hresult : .finish true ∈ s.threads ∨ s.promise.success = true →
        ∃ v, (th.next s.promise).2.1.result = some v := by
      intro hs
      obtain ⟨v, hv⟩ := h.stored hs
      exact PromiseThread.next_result hv th
    have hnext : (th.next s.promise).1 = .finish true ∨ (th.next s.promise).2.1.success = true →
        ∃ v, (th.next s.promise).2.1.result = some v := by
      intro hs
      rcases PromiseThread.next_stored hs with hv | rfl | hp
      · exact hv
      · exact hresult (Or.inl hmem)
      · exact hresult (Or.inr hp)
    rcases hs with hs | hs
    · rcases hset hs with hs | hs
      · exact hresult (Or.inl hs)
      · exact hnext (Or.inl hs.symm)
    · exact hnext (Or.inr hs)
  · intro v hv
    rcases hset hv with hv | hv
    · exact h.passed v hv
    · exact absurd hv.symm (PromiseThread.next_ne_setSuccess _ _ _)
  · intro hc
    rcases h.settler hc with hf | ⟨t, ht, hts⟩
    · exact Or.inl (PromiseThread.next_keeps hf th).1
    · by_cases hth : th.settles = true
      · exact (PromiseThread.next_settles s.promise hth).imp_right fun hn => ⟨_, hself, hn⟩
      · have hne : t ≠ th := by
          rintro rfl
          exact hth hts
        exact Or.inr ⟨t, mem_set_of_ne hi ht hne, hts⟩

theorem Settling.step {calls : List (PromiseCall V K)} (s : PromiseRun V K) (e : PromiseEvent)
    (s' : PromiseRun V K) (h : Settling calls s) (hs : s.step e = some s') :
    Settling calls s' := by
  cases e with
  | thread i =>
      simp only [PromiseRun.step] at hs
      split at hs
      · rename_i th hi
        cases hs
        exact h.thread hi
      · cases hs
  | runTask =>
      simp only [PromiseRun.step] at hs
      split at hs
      · rename_i callback rest hq
        cases hs
        obtain ⟨hplaces, hearly, hdrained, hflags, hvalue, hstored, hpassed, hsettler⟩ := h
        refine ⟨?_, ?_, hdrained, ?_, hvalue, hstored, hpassed, hsettler⟩
        · rw [← hplaces, hq]
          simp only [List.map_append, List.map_cons, List.map_nil, ← Multiset.coe_add,
            ← Multiset.cons_coe, ← Multiset.singleton_add, Multiset.coe_nil]
          abel
        · intro hf
          exact absurd (hearly hf).1 (by simp [hq])
        · intro x hx
          rcases List.mem_append.mp hx with hx | hx
          · exact hflags x hx
          · rw [List.mem_singleton.mp hx]
      · cases hs

/-- Once finished, the flags and a stored value are final. -/
def Final (s s' : PromiseRun V K) : Prop :=
  s.promise.finished = true → s'.promise.finished = true ∧
    s'.promise.success = s.promise.success ∧ s'.promise.result = s.promise.result

theorem step_final (s : PromiseRun V K) (e : PromiseEvent) (s' : PromiseRun V K)
    (hs : s.step e = some s') : Final s s' := by
  intro hf
  cases e with
  | thread i =>
      simp only [PromiseRun.step] at hs
      split at hs
      · rename_i th _
        cases hs
        exact PromiseThread.next_keeps hf th
      · cases hs
  | runTask =>
      simp only [PromiseRun.step] at hs
      split at hs <;> cases hs
      exact ⟨hf, rfl, rfl⟩

theorem run_final {es : List PromiseEvent} {s s' : PromiseRun V K}
    (h : run step s es = some s') : Final s s' := by
  refine run_rel (fun _ hf => ⟨hf, rfl, rfl⟩) ?_ step_final h
  intro a b c hab hbc hf
  obtain ⟨hfb, hsb, hrb⟩ := hab hf
  obtain ⟨hfc, hsc, hrc⟩ := hbc hfb
  exact ⟨hfc, hsc.trans hsb, hrc.trans hrb⟩

/-! ## The results -/

theorem run_whole (s : PromiseRun V K) (i : Nat) (c : PromiseCall V K)
    (h : s.threads[i]? = some c.start) :
    ∃ n, run step s (List.replicate n (.thread i)) =
      some { s with
        promise := (c.whole s.promise).2
        threads := s.threads.set i .done
        queue := s.queue ++ (c.whole s.promise).1 } := by
  have hi : i < s.threads.length := (List.getElem?_eq_some_iff.mp h).1
  have hset (th : PromiseThread V K) : (s.threads.set i th)[i]? = some th := by
    rw [List.getElem?_set_self hi]
  cases hf : s.promise.finished with
  | true =>
      cases c with
      | setSuccess value =>
          refine ⟨1, ?_⟩
          rw [List.replicate_one, run_cons (step_thread h), run_nil]
          simp [PromiseCall.start, PromiseThread.next, PromiseCall.whole, Promise.settle,
            Promise.store, hf]
      | setError =>
          refine ⟨1, ?_⟩
          rw [List.replicate_one, run_cons (step_thread h), run_nil]
          simp [PromiseCall.start, PromiseThread.next, PromiseCall.whole, Promise.settle,
            Promise.finish, hf]
      | onFinished callback =>
          refine ⟨2, ?_⟩
          rw [List.replicate_succ, List.replicate_one, run_cons (step_thread h),
            run_cons (step_thread (hset _)), run_nil]
          simp [PromiseCall.start, PromiseThread.next, PromiseCall.whole, Promise.onFinished, hf]
  | false =>
      cases c with
      | setSuccess value =>
          refine ⟨3, ?_⟩
          rw [List.replicate_succ, List.replicate_succ, List.replicate_one,
            run_cons (step_thread h), run_cons (step_thread (hset _)),
            run_cons (step_thread (by rw [List.set_set]; exact hset _)), run_nil]
          simp [PromiseCall.start, PromiseThread.next, PromiseCall.whole, Promise.settle,
            Promise.store, Promise.finish, hf]
      | setError =>
          refine ⟨2, ?_⟩
          rw [List.replicate_succ, List.replicate_one, run_cons (step_thread h),
            run_cons (step_thread (hset _)), run_nil]
          simp [PromiseCall.start, PromiseThread.next, PromiseCall.whole, Promise.settle,
            Promise.finish, hf]
      | onFinished callback =>
          refine ⟨1, ?_⟩
          rw [List.replicate_one, run_cons (step_thread h), run_nil]
          simp [PromiseCall.start, PromiseThread.next, PromiseCall.whole, Promise.onFinished, hf]

/-- **Settlement is single and complete.**  For every interleaving of the calls:
(a) once `finished` is true it stays true and neither `success` nor `result` changes again;
(b) the result of a successful promise is a value passed to some `set_success`;
(c) nothing is dispatched before `finished`, every callback is invoked with the final flag, and
when all calls have returned and one of them was a `set_success` or `set_error`, the promise is
finished and every callback given has been dispatched exactly once. -/
theorem settlement (calls : List (PromiseCall V K)) (es : List PromiseEvent)
    (s : PromiseRun V K) (hs : run step (start calls) es = some s) :
    (s.promise.finished = true → ∀ fs t, run step s fs = some t →
      t.promise.finished = true ∧ t.promise.success = s.promise.success ∧
        t.promise.result = s.promise.result) ∧
    (s.promise.success = true → ∃ v, s.promise.result = some v ∧ .setSuccess v ∈ calls) ∧
    (s.promise.finished = false → s.queue = [] ∧ s.invoked = []) ∧
    (∀ x ∈ s.invoked, x.2 = s.promise.success) ∧
    (s.AllDone → (∃ c ∈ calls, c.settles = true) → s.promise.finished = true ∧
      (s.invoked.map Prod.fst ++ s.queue).Perm (calls.flatMap PromiseCall.callback)) := by
  have h : Settling calls s := run_invariant Settling.step (Settling.start calls) hs
  refine ⟨fun hf fs t ht => run_final ht hf, ?_, ?_, h.flags, ?_⟩
  · intro hsucc
    obtain ⟨v, hv⟩ := h.stored (Or.inr hsucc)
    exact ⟨v, hv, h.value v hv⟩
  · intro hf
    exact ⟨(h.early hf).1, (h.early hf).2.1⟩
  · intro hdone hc
    have hf : s.promise.finished = true := by
      rcases h.settler hc with hf | ⟨th, hth, hsettles⟩
      · exact hf
      · rw [hdone th hth] at hsettles
        cases hsettles
    have hcallbacks : s.promise.onFinishedCallbacks = [] := by
      by_contra hne
      have := hdone _ (h.drained hf hne)
      cases this
    have hholding : s.threads.flatMap PromiseThread.holding = [] := by
      refine List.flatMap_eq_nil_iff.mpr ?_
      intro th hth
      rw [hdone th hth]
      rfl
    refine ⟨hf, Multiset.coe_eq_coe.mp ?_⟩
    rw [← h.places, hcallbacks, hholding]
    simp only [← Multiset.coe_add, Multiset.coe_nil]
    abel

/-- Two setters race and a callback is registered first: the error wins, the value is stored
and not seen, and the callback is dispatched once. -/
theorem settlement_race :
    ∃ s : PromiseRun Nat Nat,
      run step (start [.setSuccess 1, .setError, .onFinished 7])
        [.thread 2, .thread 0, .thread 1, .thread 0, .thread 1, .runTask] = some s ∧
      (s.promise.finished = true → ∀ fs t, run step s fs = some t →
        t.promise.finished = true ∧ t.promise.success = s.promise.success ∧
          t.promise.result = s.promise.result) ∧
      (s.promise.success = true →
        ∃ v, s.promise.result = some v ∧
          .setSuccess v ∈ [PromiseCall.setSuccess 1, .setError, .onFinished 7]) ∧
      (s.promise.finished = false → s.queue = [] ∧ s.invoked = []) ∧
      (∀ x ∈ s.invoked, x.2 = s.promise.success) ∧
      (s.AllDone → (∃ c ∈ [PromiseCall.setSuccess 1, .setError, .onFinished 7],
          c.settles = true) → s.promise.finished = true ∧
        (s.invoked.map Prod.fst ++ s.queue).Perm [7]) :=
  ⟨_, rfl, settlement [.setSuccess 1, .setError, .onFinished 7]
    [.thread 2, .thread 0, .thread 1, .thread 0, .thread 1, .runTask] _ rfl⟩

/-- Without a `set_success` or `set_error` a callback stays registered: all calls have returned
and it has not been dispatched. -/
theorem unsettled_not_dispatched :
    ∃ s : PromiseRun Nat Nat, run step (start [.onFinished 7]) [.thread 0] = some s ∧
      s.AllDone ∧ ¬ (s.invoked.map Prod.fst ++ s.queue).Perm [7] :=
  ⟨_, rfl, fun th hth => List.mem_singleton.mp hth, fun h => absurd h.length_eq (by decide)⟩

end PromiseRun

end EspIot
