/-
# `EspIot.Async.SequentialRuns` — every run of `sequential` is a run of its loop

The loop that stands for the calls made so far tells where the closure of the step is: registered on
the future the loop waits for, in the queue, in the caller or in the dispatcher, in one of these and
once (`Placed`).  So there is always one party that goes on, and it goes on as the loop does
(`Inv`).  It cannot go on for ever: each of its steps leaves less to do, and it stops only where
nothing is left, or at a call of a function that comes from outside (`GoesOn`).
-/
import EspIot.Async.Sequential

namespace EspIot

open Lib

/-- The closure that waits for `prev`. -/
def SequentialLoop.waitingClosure {ι H F : Type*} (l : SequentialLoop ι H F) :
    Multiset (SequentialClosure ι H F) :=
  if l.point = .waiting then {l.toSequentialClosure} else 0

theorem SequentialLoop.mem_waitingClosure {ι H F : Type*} {l : SequentialLoop ι H F}
    {closure : SequentialClosure ι H F} (h : closure ∈ l.waitingClosure) :
    l.point = .waiting ∧ closure = l.toSequentialClosure := by
  rw [waitingClosure] at h
  split at h
  · rename_i hpoint
    exact ⟨hpoint, Multiset.mem_singleton.mp h⟩
  · cases Multiset.notMem_zero _ h

theorem PromiseThread.next_holding {V K : Type*} {p : Promise V K} {thread : PromiseThread V K}
    {callback : K} (h : callback ∈ (thread.next p).1.holding) : callback ∈ thread.holding := by
  cases thread with
  | setSuccess value => cases hf : p.finished <;> simp [next, holding, hf] at h
  | finish ok => cases hf : p.finished <;> simp [next, holding, hf] at h
  | onFinished other => cases hf : p.finished <;> simp [next, holding, hf] at h ⊢; exact h
  | onPromiseFinished | dispatchNow _ | done => cases h

namespace Sequence

variable {ι V H F W : Type*}

/-! ## The invariant -/

/-- A call of somebody else on `promise` stands where it may. -/
structure ThreadOk (s : Sequence ι V H F W) (promise : Option ι)
    (thread : PromiseThread V (SequentialCallback ι H F)) : Prop where
  holding : closures thread.holding = 0
  afterFinish : thread.afterFinish = true → (s.promises promise).finished = true
  result : promise = none → thread.settles = false

structure Placed (s : Sequence ι V H F W) (l : SequentialLoop ι H F) : Prop where
  elsewhere : ∀ p, p ≠ l.prev → s.registered p = 0
  once : s.registered l.prev + s.queued + held s.caller + heldByTask s.dispatcher =
    l.waitingClosure
  finished : ∀ x ∈ s.queue, (s.promises x.1).finished = true
  called : ∀ p closure, (p, .step closure) ∈ s.queue → p = closure.prev
  threads : ∀ x ∈ s.threads, s.ThreadOk x.1 x.2
  drained : ∀ i, (s.promises (some i)).finished = true →
    (s.promises (some i)).onFinishedCallbacks ≠ [] → (some i, .onPromiseFinished) ∈ s.threads

/-- A call of `on_finished` that hands over a step. -/
def Hands (s : Sequence ι V H F W) (promise : Option ι)
    (thread : PromiseThread V (SequentialCallback ι H F)) : Prop :=
  ∃ closure, thread = .onFinished (.step closure) ∨
    thread = .dispatchNow (.step closure) ∧ (s.promises promise).finished = true

/-- What the dispatcher is about to set is what the last future shows. -/
def SetterOk (s : Sequence ι V H F W) (l : SequentialLoop ι H F) :
    PromiseThread V (SequentialCallback ι H F) → Prop
  | .setSuccess value => s.shown l.prev = some (.success (some value))
  | .finish true => s.shown l.prev = some (.success (s.promises none).result)
  | .finish false => s.shown l.prev = some .error
  | .onPromiseFinished => (s.promises none).finished = true
  | _ => False

def TaskOk (s : Sequence ι V H F W) (l : SequentialLoop ι H F) :
    Option (SequentialTask ι V H F) → Prop
  | none => l.point ≠ .more ∧ (l.point = .last → (s.promises none).finished = true)
  | some (.hasNext success closure) =>
      (s.promises closure.prev).finished = true ∧ success = (s.promises closure.prev).success
  | some (.fn closure) =>
      l.point = .more ∧ closure = l.toSequentialClosure ∧ (s.promises l.prev).finished = true
  | some (.call promise thread) =>
      l.point = .waiting ∧ promise = l.prev ∧ s.Hands promise thread ∨
        l.point = .last ∧ promise = none ∧ s.SetterOk l thread

def Shows (s t : Sequence ι V H F W) : Prop := ∀ p o, s.shown p = some o → t.shown p = some o

section Shows
variable {s t : Sequence ι V H F W} {l : SequentialLoop ι H F}

theorem Shows.finished (h : Shows s t) {p : Option ι} (hp : (s.promises p).finished = true) :
    (t.promises p).finished = true ∧ (t.promises p).success = (s.promises p).success := by
  obtain ⟨hfinished, houtcome⟩ :=
    Promise.ended_eq_some.mp (h p _ (Promise.ended_eq_some.mpr ⟨hp, rfl⟩))
  refine ⟨hfinished, ?_⟩
  rw [← Promise.outcome_ok, ← Promise.outcome_ok, houtcome]

theorem Shows.hands (h : Shows s t) {p : Option ι}
    {thread : PromiseThread V (SequentialCallback ι H F)} (hh : s.Hands p thread) :
    t.Hands p thread := by
  obtain ⟨closure, hon | ⟨hnow, hfinished⟩⟩ := hh
  · exact ⟨closure, .inl hon⟩
  · exact ⟨closure, .inr ⟨hnow, (h.finished hfinished).1⟩⟩

theorem Shows.threadOk (h : Shows s t) {p : Option ι}
    {thread : PromiseThread V (SequentialCallback ι H F)} (hth : s.ThreadOk p thread) :
    t.ThreadOk p thread where
  holding := hth.holding
  afterFinish hafter := (h.finished (hth.afterFinish hafter)).1
  result := hth.result

theorem Shows.setterOk (h : Shows s t)
    (hresult : (t.promises none).result = (s.promises none).result)
    {thread : PromiseThread V (SequentialCallback ι H F)} (hset : s.SetterOk l thread) :
    t.SetterOk l thread := by
  cases thread with
  | setSuccess value => exact h _ _ hset
  | finish ok =>
      cases ok with
      | true =>
          show t.shown l.prev = some (.success (t.promises none).result)
          rw [hresult]
          exact h _ _ hset
      | false => exact h _ _ hset
  | onPromiseFinished => exact (h.finished hset).1
  | onFinished callback => exact hset
  | dispatchNow callback => exact hset
  | done => exact hset

theorem Shows.taskOk (h : Shows s t)
    (hresult : (t.promises none).result = (s.promises none).result)
    {task : Option (SequentialTask ι V H F)} (htask : s.TaskOk l task) : t.TaskOk l task := by
  cases task with
  | none => exact ⟨htask.1, fun hlast => (h.finished (htask.2 hlast)).1⟩
  | some task =>
      cases task with
      | hasNext success closure =>
          obtain ⟨hfinished, hsuccess⟩ := htask
          exact ⟨(h.finished hfinished).1, hsuccess.trans (h.finished hfinished).2.symm⟩
      | fn closure => exact ⟨htask.1, htask.2.1, (h.finished htask.2.2).1⟩
      | call promise thread =>
          rcases htask with ⟨hpoint, hprev, hhands⟩ | ⟨hpoint, hnone, hset⟩
          · exact .inl ⟨hpoint, hprev, h.hands hhands⟩
          · exact .inr ⟨hpoint, hnone, h.setterOk hresult hset⟩

end Shows

variable [DecidableEq ι] (fns : SequentialFns ι V H F W) (l₀ : SequentialLoop ι H F)

/-- The invariant: the loop that has made the calls of the log, and everybody where it puts them. -/
structure Inv (s : Sequence ι V H F W) (l : SequentialLoop ι H F) : Prop
    extends Placed s l where
  log : run (SequentialLoop.step fns s.shown) l₀ s.log = some l
  caller : ∀ p thread, s.caller = some (p, thread) → p = l.prev ∧ s.Hands p thread
  task : s.TaskOk l s.dispatcher
  result : ∀ o, s.shown none = some o → l.point = .last ∧ s.shown l.prev = some o
  settled : s.settled = (s.shown none).toList
  /-- only the last call stores a value in the result, and it is about to settle it then -/
  clean : s.shown none = none → s.dispatcher ≠ some (.call none (.finish true)) →
    (s.promises none).result = none

variable {fns l₀} {s t : Sequence ι V H F W} {l : SequentialLoop ι H F}

/-! ## Where the closure is -/

omit [DecidableEq ι] in
theorem closures_after {p : Option ι} {thread : PromiseThread V (SequentialCallback ι H F)}
    (h : closures thread.holding = 0) : closures (s.after p thread).holding = 0 := by
  refine Multiset.eq_zero_of_forall_notMem ?_
  intro closure hmem
  have hbefore := mem_closures.mpr (PromiseThread.next_holding (mem_closures.mp hmem))
  rw [h] at hbefore
  exact Multiset.notMem_zero _ hbefore

theorem Placed.section (h : Placed s l) {p : Option ι}
    {thread : PromiseThread V (SequentialCallback ι H F)}
    (hafter : thread.afterFinish = true → (s.promises p).finished = true)
    (hholding : p = l.prev ∨ closures thread.holding = 0)
    {threads : List (Option ι × PromiseThread V (SequentialCallback ι H F))}
    {caller : Option (Option ι × PromiseThread V (SequentialCallback ι H F))}
    {dispatcher : Option (SequentialTask ι V H F)}
    (hheld : held caller + heldByTask dispatcher + closures thread.holding =
      held s.caller + heldByTask s.dispatcher + closures (s.after p thread).holding)
    (hthreads : ∀ x ∈ threads, x ∈ s.threads ∨ x = (p, s.after p thread) ∧ s.ThreadOk p thread)
    (hnow : ∀ i, p = some i → s.after p thread = .onPromiseFinished →
      (some i, .onPromiseFinished) ∈ threads)
    (hdrained : ∀ i, (some i, .onPromiseFinished) ∈ s.threads →
      (p = some i → thread ≠ .onPromiseFinished) → (some i, .onPromiseFinished) ∈ threads) :
    Placed { s.callSection p thread with threads, caller, dispatcher } l := by
  have hshows : Shows s { s.callSection p thread with threads, caller, dispatcher } :=
    fun _ _ => callSection_shown
  obtain ⟨helse, hmoved⟩ := callSection_closures h.elsewhere hholding
  have honce : (s.callSection p thread).registered l.prev + (s.callSection p thread).queued +
      held caller + heldByTask dispatcher = l.waitingClosure := by
    refine add_right_cancel (b := closures thread.holding + closures (s.after p thread).holding) ?_
    calc _ = ((s.callSection p thread).registered l.prev + (s.callSection p thread).queued +
              closures (s.after p thread).holding) +
            (held caller + heldByTask dispatcher + closures thread.holding) := by abel
      _ = (s.registered l.prev + s.queued + held s.caller + heldByTask s.dispatcher) +
            (closures thread.holding + closures (s.after p thread).holding) := by
          rw [hmoved, hheld]
          abel
      _ = _ := by rw [h.once]
  refine ⟨helse, honce, ?_, ?_, ?_, ?_⟩
  · intro x hx
    rcases mem_callSection_queue hafter hx with hold | ⟨heq, -, hfinished⟩
    · exact (callSection_finished (h.finished x hold)).1
    · show ((s.callSection p thread).promises x.1).finished = true
      rw [heq]
      exact hfinished
  · intro q closure hx
    rcases mem_callSection_queue hafter hx with hold | ⟨rfl, hdispatched, -⟩
    · exact h.called q closure hold
    · -- it is the closure that the loop waits with
      have hqueued : closure ∈ (s.callSection q thread).queued :=
        mem_closures.mpr (List.mem_map.mpr ⟨_, hx, rfl⟩)
      have hmem : closure ∈ l.waitingClosure := by
        rw [← honce]
        exact Multiset.mem_add.mpr (.inl (Multiset.mem_add.mpr (.inl
          (Multiset.mem_add.mpr (.inr hqueued)))))
      rw [(SequentialLoop.mem_waitingClosure hmem).2]
      by_contra hne
      have hnext := closures_next (s.promises q) thread
      have hregistered : closures (s.promises q).onFinishedCallbacks = 0 := h.elsewhere q hne
      rw [hholding.resolve_left hne, hregistered, add_zero, AddLeftCancelMonoid.add_eq_zero]
        at hnext
      have hclosure := mem_closures.mpr hdispatched
      rw [hnext.2] at hclosure
      exact Multiset.notMem_zero _ hclosure
  · intro x hx
    rcases hthreads x hx with hold | ⟨rfl, hth⟩
    · exact hshows.threadOk (h.threads x hold)
    · refine ⟨?_, ?_, ?_⟩
      · exact closures_after hth.holding
      · intro hpast
        show ((s.callSection p thread).promises p).finished = true
        rw [callSection_self]
        exact PromiseThread.next_afterFinish hpast
      · intro hnone
        exact PromiseThread.next_unsettling (hth.result hnone)
  · intro i hf hc
    by_cases hp : some i = p
    · subst hp
      change ((s.callSection (some i) thread).promises (some i)).finished = true at hf
      change ((s.callSection (some i) thread).promises (some i)).onFinishedCallbacks ≠ [] at hc
      rw [callSection_self] at hf hc
      rcases PromiseThread.next_drained hf hc with hafter | ⟨hfinished, hcallbacks, hne⟩
      · exact hnow i rfl hafter
      · exact hdrained i (h.drained i hfinished hcallbacks) fun _ => hne
    · change ((s.callSection p thread).promises (some i)).finished = true at hf
      change ((s.callSection p thread).promises (some i)).onFinishedCallbacks ≠ [] at hc
      rw [callSection_of_ne hp] at hf hc
      exact hdrained i (h.drained i hf hc) fun heq => absurd heq.symm hp

/-! ## Sections of calls -/

theorem Inv.section (h : Inv fns l₀ s l) {p : Option ι}
    {thread : PromiseThread V (SequentialCallback ι H F)}
    (hp : p ≠ none ∨ thread.settles = false)
    {threads : List (Option ι × PromiseThread V (SequentialCallback ι H F))}
    {caller : Option (Option ι × PromiseThread V (SequentialCallback ι H F))}
    {dispatcher : Option (SequentialTask ι V H F)}
    (hplaced : Placed { s.callSection p thread with threads, caller, dispatcher } l)
    (hcaller : ∀ t : Sequence ι V H F W, Shows s t →
      t.promises = (s.callSection p thread).promises →
      ∀ q th, caller = some (q, th) → q = l.prev ∧ t.Hands q th)
    (htask : ∀ t : Sequence ι V H F W, Shows s t →
      t.promises = (s.callSection p thread).promises → t.TaskOk l dispatcher)
    (hclean : s.dispatcher = some (.call none (.finish true)) →
      dispatcher = some (.call none (.finish true))) :
    Inv fns l₀ { s.callSection p thread with threads, caller, dispatcher } l := by
  have hshows : Shows s { s.callSection p thread with threads, caller, dispatcher } :=
    fun _ _ => callSection_shown
  obtain ⟨hshown, hsettled, hresult⟩ := callSection_result (s := s) hp
  refine ⟨hplaced, SequentialLoop.run_mono hshows h.log, hcaller _ hshows rfl,
    htask _ hshows rfl, ?_, callSection_settled h.settled, ?_⟩
  · intro o ho
    obtain ⟨hpoint, hprev⟩ := h.result o (hshown ▸ ho)
    exact ⟨hpoint, hshows _ _ hprev⟩
  · intro hnone hne
    refine hresult.trans (h.clean (hshown ▸ hnone) ?_)
    exact fun heq => hne (hclean heq)

theorem Inv.thread (h : Inv fns l₀ s l) {n : ℕ} {p : Option ι}
    {thread : PromiseThread V (SequentialCallback ι H F)}
    (hn : s.threads[n]? = some (p, thread)) :
    Inv fns l₀ { s.callSection p thread with threads := s.threads.set n (p, s.after p thread) }
      l := by
  have hth := h.threads _ (List.mem_of_getElem? hn)
  have hp : p ≠ none ∨ thread.settles = false := by
    by_cases hnone : p = none
    · exact .inr (hth.result hnone)
    · exact .inl hnone
  obtain ⟨-, -, hresult⟩ := callSection_result (s := s) hp
  refine h.section hp ?_ ?_ ?_ id
  · refine h.toPlaced.section hth.afterFinish (.inr hth.holding) ?_ ?_ ?_ ?_
    · rw [hth.holding, closures_after hth.holding]
      rfl
    · intro x hx
      exact (List.mem_or_eq_of_mem_set hx).imp id fun heq => ⟨heq, hth⟩
    · rintro i rfl hafter
      rw [hafter]
      exact List.mem_set (List.getElem?_eq_some_iff.mp hn).1 _
    · intro i hi hne
      refine mem_set_of_ne hn hi ?_
      intro heq
      obtain ⟨rfl, rfl⟩ := Prod.mk.inj heq
      exact hne rfl rfl
  · intro t hshows _ q th hcaller
    obtain ⟨hprev, hhands⟩ := h.caller q th hcaller
    exact ⟨hprev, hshows.hands hhands⟩
  · intro t hshows hpromises
    refine hshows.taskOk ?_ h.task
    rw [hpromises]
    exact hresult

omit [DecidableEq ι] in
theorem Hands.after {p : Option ι} {thread : PromiseThread V (SequentialCallback ι H F)}
    (h : s.Hands p thread) :
    s.after p thread = .done ∨
      ∃ closure, s.after p thread = .dispatchNow (.step closure) ∧
        (s.promises p).finished = true := by
  obtain ⟨closure, rfl | ⟨rfl, hfinished⟩⟩ := h
  · cases hf : (s.promises p).finished with
    | true =>
        refine .inr ⟨closure, ?_, rfl⟩
        rw [Sequence.after, PromiseThread.next_onFinished_finished hf]
    | false =>
        refine .inl ?_
        rw [Sequence.after, PromiseThread.next_onFinished hf]
  · exact .inl rfl

omit [DecidableEq ι] in
theorem Hands.going {p q : Option ι} {thread th : PromiseThread V (SequentialCallback ι H F)}
    (h : s.Hands p thread) (hshows : Shows s t)
    (hgoing : Sequence.going p (s.after p thread) = some (q, th)) : q = p ∧ t.Hands q th := by
  rcases h.after with hdone | ⟨closure, hnow, hfinished⟩
  · rw [hdone] at hgoing
    cases hgoing
  · rw [hnow] at hgoing
    cases hgoing
    exact ⟨rfl, closure, .inr ⟨rfl, (hshows.finished hfinished).1⟩⟩

omit [DecidableEq ι] in
theorem Hands.settles {p : Option ι} {thread : PromiseThread V (SequentialCallback ι H F)}
    (h : s.Hands p thread) : thread.settles = false := by
  obtain ⟨closure, rfl | ⟨rfl, -⟩⟩ := h <;> rfl

/-- One section of a call that hands the step over, by the caller or by the dispatcher. -/
theorem Placed.hands (h : Placed s l) {thread : PromiseThread V (SequentialCallback ι H F)}
    (hhands : s.Hands l.prev thread)
    {caller : Option (Option ι × PromiseThread V (SequentialCallback ι H F))}
    {dispatcher : Option (SequentialTask ι V H F)}
    (hheld : held caller + heldByTask dispatcher + closures thread.holding =
      held s.caller + heldByTask s.dispatcher + closures (s.after l.prev thread).holding) :
    Placed { s.callSection l.prev thread with caller, dispatcher } l := by
  refine h.section ?_ (.inl rfl) hheld (fun x hx => .inl hx) ?_ fun i hi _ => hi
  · intro hpast
    obtain ⟨closure, rfl | ⟨rfl, hfinished⟩⟩ := hhands
    · cases hpast
    · exact hfinished
  · intro i _ hafter
    rcases hhands.after with hdone | ⟨closure, hnow, -⟩
    · rw [hdone] at hafter
      cases hafter
    · rw [hnow] at hafter
      cases hafter

theorem Inv.stepCaller (h : Inv fns l₀ s l) (ht : s.stepCaller = some t) : Inv fns l₀ t l := by
  rw [Sequence.stepCaller] at ht
  split at ht
  · cases ht
  · rename_i p thread hcaller
    cases ht
    obtain ⟨rfl, hhands⟩ := h.caller p thread hcaller
    have hp : l.prev ≠ none ∨ thread.settles = false := .inr hhands.settles
    obtain ⟨-, -, hresult⟩ := callSection_result (s := s) hp
    refine h.section hp ?_ ?_ ?_ id
    · refine h.toPlaced.hands hhands ?_
      rw [held_going, hcaller, held, callSection_dispatcher]
      abel
    · intro t hshows _ q th hgoing
      exact hhands.going hshows hgoing
    · intro t hshows hpromises
      refine hshows.taskOk ?_ h.task
      rw [hpromises]
      exact hresult

theorem Inv.dispatcher_hands (h : Inv fns l₀ s l) (hpoint : l.point = .waiting)
    {thread : PromiseThread V (SequentialCallback ι H F)}
    (hdispatcher : s.dispatcher = some (.call l.prev thread)) (hhands : s.Hands l.prev thread) :
    Inv fns l₀ { s.callSection l.prev thread with
      dispatcher := (going l.prev (s.after l.prev thread)).map fun call => .call call.1 call.2 }
      l := by
  refine h.section (.inr hhands.settles) ?_ ?_ ?_ ?_
  · refine h.toPlaced.hands hhands ?_
    rw [heldByTask_going, hdispatcher, heldByTask, callSection_caller]
    abel
  · intro t hshows _ q th hcaller
    obtain ⟨hprev, hh⟩ := h.caller q th hcaller
    exact ⟨hprev, hshows.hands hh⟩
  · intro t hshows _
    cases hgoing : going l.prev (s.after l.prev thread) with
    | none =>
        show l.point ≠ .more ∧ _
        rw [hpoint]
        exact ⟨fun heq => (by cases heq), fun heq => (by cases heq)⟩
    | some call =>
        obtain ⟨q, th⟩ := call
        obtain ⟨rfl, hh⟩ := hhands.going hshows hgoing
        exact .inl ⟨hpoint, rfl, hh⟩
  · intro heq
    rw [hdispatcher] at heq
    have hthread : thread = .finish true := (SequentialTask.call.inj (Option.some.inj heq)).2
    have hsettles := hhands.settles
    rw [hthread] at hsettles
    cases hsettles

/-! ## The result -/

/-- A section of a setter has led from `s` to `t`, and `next` is left of the call. -/
structure Sets (s t : Sequence ι V H F W) (l : SequentialLoop ι H F)
    (next : PromiseThread V (SequentialCallback ι H F)) : Prop where
  shows : ∀ o, s.shown none = none → t.shown none = some o → s.shown l.prev = some o
  done : next = .done → (t.promises none).finished = true
  going : next ≠ .done → t.SetterOk l next
  unset : t.shown none = none → next = .finish true

omit [DecidableEq ι] in
theorem Sets.of_finished {next : PromiseThread V (SequentialCallback ι H F)}
    (hfinished : (t.promises none).finished = true)
    (hshown : ∀ o, s.shown none = none → t.shown none = some o → s.shown l.prev = some o)
    (hgoing : next ≠ .done → t.SetterOk l next) : Sets s t l next := by
  refine ⟨hshown, fun _ => hfinished, hgoing, ?_⟩
  intro hnone
  rw [Promise.not_finished hnone] at hfinished
  cases hfinished

omit [DecidableEq ι] in
theorem not_unset {p : Option ι} (hf : (s.promises p).finished = true) : s.shown p ≠ none := by
  intro hnone
  rw [Promise.not_finished hnone] at hf
  cases hf

omit [DecidableEq ι] in
theorem SetterOk.setSuccess {value : V} (hset : s.SetterOk l (.setSuccess value))
    (hshows : Shows s t) (hself : t.promises none =
      (PromiseThread.next (s.promises none) (.setSuccess value)).2.1) :
    Sets s t l (s.after none (.setSuccess value)) := by
  cases hf : (s.promises none).finished with
  | true =>
      refine Sets.of_finished (hshows.finished hf).1
        (fun o hnone _ => absurd hnone (not_unset hf)) ?_
      intro hne
      refine absurd ?_ hne
      rw [after, PromiseThread.next_setSuccess_finished hf]
  | false =>
      rw [PromiseThread.next_setSuccess hf] at hself
      rw [after, PromiseThread.next_setSuccess hf]
      refine ⟨?_, fun heq => (by cases heq), ?_, fun _ => rfl⟩
      · intro o _ ho
        have hfinished := (Promise.ended_eq_some.mp ho).1
        rw [hself] at hfinished
        exact absurd (hf.symm.trans hfinished) Bool.false_ne_true
      · intro _
        show t.shown l.prev = some (.success (t.promises none).result)
        rw [hself]
        exact hshows _ _ hset

omit [DecidableEq ι] in
theorem SetterOk.finish {ok : Bool} (hset : s.SetterOk l (.finish ok)) (hself : t.promises none =
      (PromiseThread.next (s.promises none) (.finish ok)).2.1) :
    Sets s t l (s.after none (.finish ok)) := by
  have hfinished : (t.promises none).finished = true := by
    rw [hself]
    cases hf : (s.promises none).finished with
    | true =>
        rw [PromiseThread.next_finish_finished hf]
        exact hf
    | false => rw [PromiseThread.next_finish hf]
  refine Sets.of_finished hfinished ?_ ?_
  · intro o hnone ho
    rw [shown, hself, PromiseThread.next_finish (Promise.not_finished hnone)] at ho
    cases ok with
    | true =>
        cases ho
        exact hset
    | false =>
        cases ho
        exact hset
  · intro hne
    have hafter : s.after none (.finish ok) = .onPromiseFinished := by
      cases hf : (s.promises none).finished with
      | true =>
          refine absurd ?_ hne
          rw [after, PromiseThread.next_finish_finished hf]
      | false => rw [after, PromiseThread.next_finish hf]
    rw [hafter]
    exact hfinished

theorem SetterOk.section {thread : PromiseThread V (SequentialCallback ι H F)}
    (hset : s.SetterOk l thread) (hshows : Shows s t)
    (hpromises : t.promises = (s.callSection none thread).promises) :
    Sets s t l (s.after none thread) := by
  have hself : t.promises none = (thread.next (s.promises none)).2.1 := by
    rw [hpromises, callSection_self]
  cases thread with
  | setSuccess value => exact hset.setSuccess hshows hself
  | finish ok => exact hset.finish hself
  | onPromiseFinished =>
      have hf : (s.promises none).finished = true := hset
      exact Sets.of_finished (hshows.finished hf).1
        (fun o hnone _ => absurd hnone (not_unset hf)) fun hne => absurd rfl hne
  | onFinished callback => exact hset.elim
  | dispatchNow callback => exact hset.elim
  | done => exact hset.elim

omit [DecidableEq ι] in
theorem SetterOk.holding {thread : PromiseThread V (SequentialCallback ι H F)}
    (hset : s.SetterOk l thread) : thread.holding = [] := by
  cases thread with
  | setSuccess value => rfl
  | finish ok => rfl
  | onPromiseFinished => rfl
  | onFinished callback => exact hset.elim
  | dispatchNow callback => exact hset.elim
  | done => rfl

omit [DecidableEq ι] in
theorem SetterOk.thread {o : Outcome V} (ho : s.shown l.prev = some o)
    (hclean : (s.promises none).result = none) : s.SetterOk l o.thread := by
  cases o with
  | success value =>
      cases value with
      | some value => exact ho
      | none =>
          show s.shown l.prev = some (.success (s.promises none).result)
          rw [hclean]
          exact ho
  | error => exact ho

theorem Inv.dispatcher_sets (h : Inv fns l₀ s l) (hpoint : l.point = .last)
    {thread : PromiseThread V (SequentialCallback ι H F)}
    (hdispatcher : s.dispatcher = some (.call none thread)) (hset : s.SetterOk l thread) :
    Inv fns l₀ { s.callSection none thread with
      dispatcher := (going none (s.after none thread)).map fun call => .call call.1 call.2 } l := by
  have hshows : Shows s { s.callSection none thread with
      dispatcher := (going none (s.after none thread)).map fun call => .call call.1 call.2 } :=
    fun _ _ => callSection_shown
  have hsets := hset.section hshows rfl
  have hholding : closures thread.holding = 0 := by
    rw [hset.holding]
    rfl
  refine ⟨?_, SequentialLoop.run_mono hshows h.log, ?_, ?_, ?_, callSection_settled h.settled, ?_⟩
  · refine h.toPlaced.section ?_ (.inr hholding) ?_ (fun x hx => .inl hx)
      (fun i hi _ => by cases hi) fun i hi _ => hi
    · intro hpast
      cases thread with
      | onPromiseFinished => exact hset
      | setSuccess _ | finish _ | onFinished _ | done => cases hpast
      | dispatchNow _ => exact hset.elim
    · rw [heldByTask_going, hdispatcher, heldByTask, callSection_caller]
      abel
  · intro q th hcaller
    obtain ⟨hprev, hhands⟩ := h.caller q th hcaller
    exact ⟨hprev, hshows.hands hhands⟩
  · show TaskOk _ l ((going none (s.after none thread)).map _)
    cases hafter : s.after none thread with
    | done =>
        refine ⟨?_, fun _ => hsets.done hafter⟩
        rw [hpoint]
        intro heq
        cases heq
    | setSuccess _ | finish _ | onPromiseFinished | onFinished _ | dispatchNow _ =>
        refine .inr ⟨hpoint, rfl, ?_⟩
        rw [← hafter]
        refine hsets.going ?_
        rw [hafter]
        intro heq
        cases heq
  · intro o ho
    refine ⟨hpoint, ?_⟩
    cases hold : s.shown none with
    | none => exact hshows _ _ (hsets.shows o hold ho)
    | some o' =>
        have heq := (hshows _ _ hold).symm.trans ho
        cases heq
        exact hshows _ _ (h.result _ hold).2
  · intro hnone hne
    refine absurd ?_ hne
    show (going none (s.after none thread)).map _ = _
    rw [hsets.unset hnone]
    rfl

/-! ## The step -/

theorem Inv.pop_other (h : Inv fns l₀ s l) {p : Option ι}
    {queue : List (Option ι × SequentialCallback ι H F)}
    (hqueue : s.queue = (p, .other) :: queue) : Inv fns l₀ { s with queue } l := by
  have hmem : ∀ x ∈ queue, x ∈ s.queue := by
    intro x hx
    rw [hqueue]
    exact List.mem_cons_of_mem _ hx
  have hshows : Shows s { s with queue } := fun _ _ ho => ho
  have hqueued : queued { s with queue } = s.queued := by
    rw [queued, queued, hqueue]
    rfl
  refine ⟨⟨h.elsewhere, ?_, fun x hx => h.finished x (hmem x hx),
    fun q c hx => h.called q c (hmem _ hx), fun x hx => hshows.threadOk (h.threads x hx),
    h.drained⟩, h.log, h.caller, hshows.taskOk rfl h.task, h.result, h.settled, h.clean⟩
  rw [hqueued]
  exact h.once

theorem Inv.pop_step (h : Inv fns l₀ s l) (hidle : s.dispatcher = none) {p : Option ι}
    {closure : SequentialClosure ι H F} {queue : List (Option ι × SequentialCallback ι H F)}
    (hqueue : s.queue = (p, .step closure) :: queue) :
    Inv fns l₀ { s with
      queue, dispatcher := some (.hasNext (s.promises p).success closure) } l := by
  have hmem : ∀ x ∈ queue, x ∈ s.queue := by
    intro x hx
    rw [hqueue]
    exact List.mem_cons_of_mem _ hx
  have hfirst : (p, .step closure) ∈ s.queue := by
    rw [hqueue]
    exact List.mem_cons_self
  obtain rfl := h.called p closure hfirst
  have hshows : Shows s { s with
      queue, dispatcher := some (.hasNext (s.promises closure.prev).success closure) } :=
    fun _ _ ho => ho
  have hqueued : s.queued = {closure} + closures (queue.map Prod.snd) := by
    rw [queued, hqueue]
    rfl
  refine ⟨⟨h.elsewhere, ?_, fun x hx => h.finished x (hmem x hx),
    fun q c hx => h.called q c (hmem _ hx), fun x hx => hshows.threadOk (h.threads x hx),
    h.drained⟩, h.log, h.caller, ⟨h.finished _ hfirst, rfl⟩, h.result, h.settled, ?_⟩
  · rw [← h.once, hqueued, hidle]
    show s.registered l.prev + closures (queue.map Prod.snd) + held s.caller + {closure} =
      s.registered l.prev + ({closure} + closures (queue.map Prod.snd)) + held s.caller + 0
    abel
  · intro hnone _
    refine h.clean hnone ?_
    rw [hidle]
    intro heq
    cases heq

omit [DecidableEq ι] in
/-- The closure that the dispatcher holds is the one the loop waits with, and nobody else has it. -/
theorem Placed.alone (h : Placed s l) {closure : SequentialClosure ι H F}
    (hheld : heldByTask s.dispatcher = {closure}) :
    l.point = .waiting ∧ closure = l.toSequentialClosure ∧
      s.registered l.prev = 0 ∧ s.queued = 0 ∧ held s.caller = 0 := by
  have honce := h.once
  rw [hheld] at honce
  have hmem : closure ∈ l.waitingClosure := by
    rw [← honce]
    exact Multiset.mem_add.mpr (.inr (Multiset.mem_singleton_self _))
  obtain ⟨hpoint, rfl⟩ := SequentialLoop.mem_waitingClosure hmem
  rw [SequentialLoop.waitingClosure, if_pos hpoint, add_eq_right, AddLeftCancelMonoid.add_eq_zero,
    AddLeftCancelMonoid.add_eq_zero] at honce
  exact ⟨hpoint, rfl, honce.1.1, honce.1.2, honce.2⟩

omit [DecidableEq ι] in
theorem Placed.nowhere (h : Placed s l) (hpoint : l.point ≠ .waiting) :
    (∀ p, s.registered p = 0) ∧ s.queued = 0 ∧ held s.caller = 0 := by
  have honce := h.once
  rw [SequentialLoop.waitingClosure, if_neg hpoint, AddLeftCancelMonoid.add_eq_zero,
    AddLeftCancelMonoid.add_eq_zero, AddLeftCancelMonoid.add_eq_zero] at honce
  refine ⟨?_, honce.1.1.2, honce.1.2⟩
  intro p
  by_cases hp : p = l.prev
  · rw [hp]
    exact honce.1.1.1
  · exact h.elsewhere p hp

omit [DecidableEq ι] in
theorem shown_of_finished {p : Option ι} (hp : (s.promises p).finished = true) :
    s.shown p = some (s.promises p).outcome :=
  Promise.ended_eq_some.mpr ⟨hp, rfl⟩

theorem Inv.unset (h : Inv fns l₀ s l) (hpoint : l.point ≠ .last) : s.shown none = none := by
  cases hnone : s.shown none with
  | none => rfl
  | some o => exact absurd (h.result o hnone).1 hpoint

theorem Inv.returned (h : Inv fns l₀ s l) (hheld : held s.caller = 0) : s.caller = none := by
  cases hcaller : s.caller with
  | none => rfl
  | some call =>
      obtain ⟨p, thread⟩ := call
      obtain ⟨-, closure, hthread⟩ := h.caller p thread hcaller
      rw [hcaller] at hheld
      have hmem : closure ∈ closures thread.holding := by
        rw [mem_closures]
        rcases hthread with rfl | ⟨rfl, -⟩
        · exact List.mem_singleton.mpr rfl
        · exact List.mem_singleton.mpr rfl
      rw [show closures thread.holding = 0 from hheld] at hmem
      cases Multiset.notMem_zero _ hmem

theorem Inv.call_hasNext (h : Inv fns l₀ s l) {success : Bool} {closure : SequentialClosure ι H F}
    (hdispatcher : s.dispatcher = some (.hasNext success closure)) {world : W} {more : Bool}
    {hasNext : H}
    (hanswer : fns.hasNext closure.hasNext world closure.prev (s.shown closure.prev) =
      (more, hasNext)) :
    Inv fns l₀ { s with
        log := s.log ++ [.hasNext closure.prev world more]
        dispatcher :=
          if more then some (.fn { closure with hasNext })
          else some (.call none (s.outcome closure.prev success).thread) }
      { l with hasNext, point := if more then .more else .last } := by
  have htask := h.task
  rw [hdispatcher] at htask
  obtain ⟨hfinished, rfl⟩ := htask
  have hholds : heldByTask s.dispatcher = {closure} := by
    rw [hdispatcher]
    rfl
  obtain ⟨hpoint, rfl, hregistered, hqueued, hheld⟩ := h.toPlaced.alone hholds
  have hended := shown_of_finished hfinished
  have hunset : s.shown none = none := by
    refine h.unset ?_
    rw [hpoint]
    intro heq
    cases heq
  have hclean : (s.promises none).result = none := by
    refine h.clean hunset ?_
    rw [hdispatcher]
    intro heq
    cases heq
  have hset : s.SetterOk l (s.outcome l.prev (s.promises l.prev).success).thread :=
    SetterOk.thread hended hclean
  have hshows : Shows s { s with
      log := s.log ++ [.hasNext l.prev world more]
      dispatcher :=
        if more then some (.fn { l.toSequentialClosure with hasNext })
        else some (.call none (s.outcome l.prev (s.promises l.prev).success).thread) } :=
    fun _ _ ho => ho
  refine ⟨⟨h.elsewhere, ?_, h.finished, h.called, fun x hx => hshows.threadOk (h.threads x hx),
    h.drained⟩, ?_, ?_, ?_, ?_, h.settled, fun _ _ => hclean⟩
  · show s.registered l.prev + s.queued + held s.caller + heldByTask _ = _
    rw [hregistered, hqueued, hheld]
    cases more with
    | true => rfl
    | false =>
        rw [SequentialLoop.waitingClosure, if_neg (by simp)]
        show 0 + 0 + 0 + closures (Outcome.thread _).holding = 0
        rw [hset.holding]
        rfl
  · refine (run_append_of h.log _).trans ?_
    exact run_cons (SequentialLoop.step_hasNext hpoint hended hanswer) []
  · intro p thread hcaller
    rw [h.returned hheld] at hcaller
    cases hcaller
  · cases more with
    | true => exact ⟨rfl, rfl, hfinished⟩
    | false => exact .inr ⟨rfl, rfl, hset⟩
  · intro o ho
    have hnone : s.shown none = some o := ho
    rw [hunset] at hnone
    cases hnone

theorem Inv.call_fn (h : Inv fns l₀ s l) {closure : SequentialClosure ι H F}
    (hdispatcher : s.dispatcher = some (.fn closure)) {world : W} {next : Option ι} {fn : F}
    (hanswer : fns.fn closure.fn world closure.prev (s.shown closure.prev) = (next, fn)) :
    Inv fns l₀ { s with
        log := s.log ++ [.fn closure.prev world next]
        dispatcher := some (.call next (.onFinished (.step { closure with prev := next, fn }))) }
      { l with prev := next, fn, point := .waiting } := by
  have htask := h.task
  rw [hdispatcher] at htask
  obtain ⟨hpoint, rfl, hfinished⟩ := htask
  have hwaits : l.point ≠ .waiting := by
    rw [hpoint]
    intro heq
    cases heq
  obtain ⟨hregistered, hqueued, hheld⟩ := h.toPlaced.nowhere hwaits
  have hended := shown_of_finished hfinished
  have hshows : Shows s { s with
      log := s.log ++ [.fn l.prev world next]
      dispatcher := some (.call next
        (.onFinished (.step { l.toSequentialClosure with prev := next, fn }))) } :=
    fun _ _ ho => ho
  refine ⟨⟨fun p _ => hregistered p, ?_, h.finished, h.called,
    fun x hx => hshows.threadOk (h.threads x hx), h.drained⟩, ?_, ?_, ?_, ?_, h.settled, ?_⟩
  · show s.registered next + s.queued + held s.caller + closures [_] = _
    rw [hregistered, hqueued, hheld]
    rfl
  · refine (run_append_of h.log _).trans ?_
    exact run_cons (SequentialLoop.step_fn hpoint hended hanswer) []
  · intro p thread hcaller
    rw [h.returned hheld] at hcaller
    cases hcaller
  · exact .inl ⟨rfl, rfl, _, .inl rfl⟩
  · intro o ho
    have hlast := (h.result o ho).1
    rw [hpoint] at hlast
    cases hlast
  · intro hnone _
    refine h.clean hnone ?_
    rw [hdispatcher]
    intro heq
    cases heq

theorem Inv.stepDispatcher (h : Inv fns l₀ s l) {world : W}
    (ht : s.stepDispatcher fns world = some t) : ∃ l', Inv fns l₀ t l' := by
  rw [Sequence.stepDispatcher] at ht
  split at ht
  · rename_i hidle
    split at ht
    · cases ht
    · rename_i p queue hqueue
      cases ht
      exact ⟨l, h.pop_other hqueue⟩
    · rename_i p closure queue hqueue
      cases ht
      exact ⟨l, h.pop_step hidle hqueue⟩
  · rename_i success closure hdispatcher
    cases hanswer : fns.hasNext closure.hasNext world closure.prev (s.shown closure.prev) with
    | mk more hasNext =>
        rw [hanswer] at ht
        cases ht
        exact ⟨_, h.call_hasNext hdispatcher hanswer⟩
  · rename_i closure hdispatcher
    cases hanswer : fns.fn closure.fn world closure.prev (s.shown closure.prev) with
    | mk next fn =>
        rw [hanswer] at ht
        cases ht
        exact ⟨_, h.call_fn hdispatcher hanswer⟩
  · rename_i p thread hdispatcher
    cases ht
    have htask := h.task
    rw [hdispatcher] at htask
    rcases htask with ⟨hpoint, rfl, hhands⟩ | ⟨hpoint, rfl, hset⟩
    · exact ⟨l, h.dispatcher_hands hpoint hdispatcher hhands⟩
    · exact ⟨l, h.dispatcher_sets hpoint hdispatcher hset⟩

omit [DecidableEq ι] in
theorem Placed.call (h : Placed s l) {p : Option ι}
    {thread : PromiseThread V (SequentialCallback ι H F)} (hth : s.ThreadOk p thread) :
    Placed { s with threads := s.threads ++ [(p, thread)] } l := by
  have hshows : Shows s { s with threads := s.threads ++ [(p, thread)] } := fun _ _ ho => ho
  refine ⟨h.elsewhere, h.once, h.finished, h.called, ?_, ?_⟩
  · intro x hx
    rcases List.mem_append.mp hx with hold | hnew
    · exact hshows.threadOk (h.threads x hold)
    · rw [List.mem_singleton.mp hnew]
      exact hshows.threadOk hth
  · intro i hf hc
    exact List.mem_append_left _ (h.drained i hf hc)

theorem Inv.call (h : Inv fns l₀ s l) {p : Option ι}
    {thread : PromiseThread V (SequentialCallback ι H F)} (hth : s.ThreadOk p thread) :
    Inv fns l₀ { s with threads := s.threads ++ [(p, thread)] } l :=
  have hshows : Shows s { s with threads := s.threads ++ [(p, thread)] } := fun _ _ ho => ho
  ⟨h.toPlaced.call hth, h.log, h.caller, hshows.taskOk rfl h.task, h.result, h.settled, h.clean⟩

theorem Inv.step {e : SequenceEvent ι V W} (h : Inv fns l₀ s l) (ht : s.step fns e = some t) :
    ∃ l', Inv fns l₀ t l' := by
  cases e with
  | settle future outcome =>
      cases ht
      refine ⟨l, h.call ?_⟩
      cases outcome with
      | success value =>
          cases value with
          | some value => exact ⟨rfl, fun hpast => (by cases hpast), fun hnone => (by cases hnone)⟩
          | none => exact ⟨rfl, fun hpast => (by cases hpast), fun hnone => (by cases hnone)⟩
      | error => exact ⟨rfl, fun hpast => (by cases hpast), fun hnone => (by cases hnone)⟩
  | onFinished promise =>
      cases ht
      exact ⟨l, h.call ⟨rfl, fun hpast => (by cases hpast), fun _ => rfl⟩⟩
  | thread n =>
      rw [Sequence.step] at ht
      split at ht
      · cases ht
      · rename_i p thread hn
        cases ht
        exact ⟨l, h.thread hn⟩
  | caller => exact ⟨l, h.stepCaller ht⟩
  | dispatcher world => exact h.stepDispatcher ht

theorem Inv.start (first : ι) (hasNext : H) (fn : F) :
    Inv fns { prev := some first, hasNext, fn }
      (start first hasNext fn : Sequence ι V H F W) { prev := some first, hasNext, fn } := by
  refine ⟨⟨fun _ _ => rfl, rfl, ?_, ?_, ?_, ?_⟩, rfl, ?_, ?_, ?_, rfl, fun _ _ => rfl⟩
  · intro x hx
    cases hx
  · intro p closure hx
    cases hx
  · intro x hx
    cases hx
  · intro i hf
    cases hf
  · intro p thread hcaller
    cases hcaller
    exact ⟨rfl, _, .inl rfl⟩
  · exact ⟨fun heq => (by cases heq), fun heq => (by cases heq)⟩
  · intro o ho
    cases ho

/-! ## The loop -/

theorem Inv.runsLoop {first : ι} {hasNext : H} {fn : F}
    (h : Inv fns { prev := some first, hasNext, fn } s l) :
    RunsLoop fns first hasNext fn s := by
  refine ⟨l, h.log, h.settled, h.result, ?_⟩
  rintro ⟨hcaller, hqueue, hidle, hthreads⟩
  have htask := h.task
  rw [hidle] at htask
  obtain ⟨hmore, hlast⟩ := htask
  cases hpoint : l.point with
  | more => exact absurd hpoint hmore
  | last =>
      refine .inl ⟨rfl, ?_⟩
      rw [Option.isSome_iff_exists]
      exact ⟨_, shown_of_finished (hlast hpoint)⟩
  | waiting =>
      refine .inr ⟨rfl, ?_⟩
      -- the step is registered, for it is nowhere else
      have honce := h.once
      rw [hcaller, hidle, queued, hqueue, SequentialLoop.waitingClosure, if_pos hpoint] at honce
      have hregistered : s.registered l.prev = {l.toSequentialClosure} := by
        rw [← honce]
        show _ = _ + 0 + 0 + 0
        abel
      cases hshown : s.shown l.prev with
      | none => rfl
      | some o =>
          cases hprev : l.prev with
          | none =>
              rw [hprev, h.unset ?_] at hshown
              · cases hshown
              · rw [hpoint]
                intro heq
                cases heq
          | some i =>
              rw [hprev] at hshown hregistered
              have hcallbacks : (s.promises (some i)).onFinishedCallbacks ≠ [] := by
                intro hnil
                rw [registered, hnil] at hregistered
                exact Multiset.singleton_ne_zero _ hregistered.symm
              exact absurd rfl (hthreads _
                (h.drained i (Promise.ended_eq_some.mp hshown).1 hcallbacks))

/-! ## What is left to do -/

section Advance
variable {p : Option ι} {thread : PromiseThread V (SequentialCallback ι H F)}

omit [DecidableEq ι] in
theorem aheadOf_going : aheadOf (going p thread) = ahead thread := by
  cases thread <;> rfl

omit [DecidableEq ι] in
theorem aheadOfTask_going :
    aheadOfTask ((going p thread).map fun call => .call call.1 call.2) = ahead thread := by
  cases thread <;> rfl

omit [DecidableEq ι] in
theorem ahead_after (s : Sequence ι V H F W) (p : Option ι) (h : thread ≠ .done) :
    ahead (s.after p thread) < ahead thread := by
  cases thread with
  | done => exact absurd rfl h
  | setSuccess _ =>
      rw [after, PromiseThread.next]
      split
      · exact Nat.zero_lt_succ 2
      · exact Nat.lt_succ_self 2
  | finish _ | onFinished _ =>
      rw [after, PromiseThread.next]
      split
      all_goals simp [ahead]
  | onPromiseFinished | dispatchNow _ => exact Nat.zero_lt_one

theorem callSection_done (s : Sequence ι V H F W) (p : Option ι) :
    s.callSection p .done = s := by
  have hpromises : (s.callSection p .done).promises = s.promises := Function.update_eq_self _ _
  have hqueue : (s.callSection p .done).queue = s.queue := List.append_nil _
  have hsettled : (s.callSection p .done).settled = s.settled := (callSection_result (.inr rfl)).2.1
  calc s.callSection p .done
    _ = { s with
          promises := (s.callSection p .done).promises
          queue := (s.callSection p .done).queue
          settled := (s.callSection p .done).settled } := rfl
    _ = s := by rw [hpromises, hqueue, hsettled]

theorem Advances.section {threads : List (Option ι × PromiseThread V (SequentialCallback ι H F))}
    {caller : Option (Option ι × PromiseThread V (SequentialCallback ι H F))}
    {dispatcher : Option (SequentialTask ι V H F)}
    (hless : (threads.map fun x => ahead x.2).sum + aheadOf caller + aheadOfTask dispatcher <
      s.work.1) :
    s.Advances { s.callSection p thread with threads, caller, dispatcher } :=
  .inr ⟨rfl, .left _ _ hless⟩

theorem advances_thread {n : ℕ} (hn : s.threads[n]? = some (p, thread)) (hne : thread ≠ .done) :
    s.Advances { s.callSection p thread with
      threads := s.threads.set n (p, s.after p thread) } := by
  have hget : (s.threads.map fun x => ahead x.2)[n]? = some (ahead thread) := by
    rw [List.getElem?_map, hn]
    rfl
  refine Advances.section ?_
  rw [List.map_set]
  exact Nat.add_lt_add_right
    (Nat.add_lt_add_right (sum_set_lt hget (ahead_after s p hne)) _) _

theorem step_thread {n : ℕ} (ht : s.step fns (.thread n) = some t) : t = s ∨ s.Advances t := by
  rw [Sequence.step] at ht
  split at ht
  · cases ht
  · rename_i p thread hn
    cases ht
    by_cases hdone : thread = .done
    · subst hdone
      left
      obtain ⟨hlt, hget⟩ := List.getElem?_eq_some_iff.mp hn
      have hset : s.threads.set n (p, s.after p .done) = s.threads := by
        have hself : (p, s.after p .done) = s.threads[n] := hget.symm
        rw [hself, List.set_getElem_self]
      rw [callSection_done, hset]
    · exact .inr (advances_thread hn hdone)

omit [DecidableEq ι] in
theorem Hands.ne_done (h : s.Hands p thread) : thread ≠ .done := by
  obtain ⟨closure, rfl | ⟨rfl, -⟩⟩ := h
  · intro heq
    cases heq
  · intro heq
    cases heq

theorem Inv.advances_caller (h : Inv fns l₀ s l) (ht : s.stepCaller = some t) : s.Advances t := by
  rw [Sequence.stepCaller] at ht
  split at ht
  · cases ht
  · rename_i p thread hcaller
    cases ht
    obtain ⟨-, hhands⟩ := h.caller p thread hcaller
    refine Advances.section ?_
    rw [aheadOf_going, work, hcaller]
    exact Nat.add_lt_add_right (Nat.add_lt_add_left (ahead_after s p hhands.ne_done) _) _

theorem Inv.advances_dispatcher (h : Inv fns l₀ s l) {world : W}
    (ht : s.stepDispatcher fns world = some t) : s.Advances t := by
  rw [Sequence.stepDispatcher] at ht
  split at ht
  · rename_i hidle
    split at ht
    · cases ht
    · rename_i p queue hqueue
      cases ht
      refine .inr ⟨rfl, .right _ ?_⟩
      rw [hqueue]
      exact Nat.lt_succ_self _
    · rename_i p closure queue hqueue
      cases ht
      refine .inr ⟨rfl, ?_⟩
      rw [work, work, hidle, hqueue]
      exact .right _ (Nat.lt_succ_self _)
  · cases ht
    exact .inl ⟨_, rfl⟩
  · cases ht
    exact .inl ⟨_, rfl⟩
  · rename_i p thread hdispatcher
    cases ht
    have hne : thread ≠ .done := by
      have htask := h.task
      rw [hdispatcher] at htask
      rcases htask with ⟨-, -, hhands⟩ | ⟨-, -, hset⟩
      · exact hhands.ne_done
      · rintro rfl
        exact hset
    refine Advances.section ?_
    rw [aheadOfTask_going, work, hdispatcher]
    exact Nat.add_lt_add_left (ahead_after s p hne) _

theorem Inv.step_advances (h : Inv fns l₀ s l) {world : W} {e : SequenceEvent ι V W}
    (hown : Own world e) (ht : s.step fns e = some t) : t = s ∨ s.Advances t := by
  rcases hown with rfl | rfl | ⟨n, rfl⟩
  · exact .inr (h.advances_caller ht)
  · exact .inr (h.advances_dispatcher ht)
  · exact step_thread ht

theorem Inv.enabled (h : Inv fns l₀ s l) (world : W) (hquiet : ¬ s.Quiet) :
    ∃ e t, Own world e ∧ s.step fns e = some t ∧ s.Advances t := by
  by_cases hcaller : s.caller = none
  · by_cases hqueue : s.dispatcher = none ∧ s.queue = []
    · have hthread : ∃ x ∈ s.threads, x.2 = .onPromiseFinished := by
        by_contra hnone
        exact hquiet ⟨hcaller, hqueue.2, hqueue.1, fun x hx heq => hnone ⟨x, hx, heq⟩⟩
      obtain ⟨⟨p, thread⟩, hx, rfl⟩ := hthread
      obtain ⟨n, hn⟩ := List.mem_iff_getElem?.mp hx
      refine ⟨.thread n, _, .inr (.inr ⟨n, rfl⟩), ?_, advances_thread hn (fun heq => by cases heq)⟩
      rw [Sequence.step, hn]
    · cases hd : s.stepDispatcher fns world with
      | some t => exact ⟨.dispatcher world, t, .inr (.inl rfl), hd, h.advances_dispatcher hd⟩
      | none =>
          refine absurd ?_ hqueue
          rw [Sequence.stepDispatcher] at hd
          split at hd
          · rename_i hidle
            split at hd
            · rename_i hempty
              exact ⟨hidle, hempty⟩
            all_goals cases hd
          all_goals cases hd
  · obtain ⟨⟨p, thread⟩, hcall⟩ := Option.ne_none_iff_exists'.mp hcaller
    have hs : s.stepCaller = some { s.callSection p thread with
        caller := going p (s.after p thread) } := by
      rw [Sequence.stepCaller, hcall]
    exact ⟨.caller, _, .inl rfl, hs, h.advances_caller hs⟩

end Advance

theorem Inv.goesOn (h : Inv fns l₀ s l) (world : W) : GoesOn fns world s where
  advances _ _ hown ht := h.step_advances hown ht
  reaches := by
    have hwork : WellFounded (Prod.Lex (· < ·) (· < ·) : ℕ × ℕ → ℕ × ℕ → Prop) :=
      WellFounded.prod_lex Nat.lt_wfRel.wf Nat.lt_wfRel.wf
    refine exists_run_of_decreasing (I := fun t => t.log = s.log ∧ ∃ l, Inv fns l₀ t l) hwork work
      ?_ ⟨rfl, l, h⟩
    rintro t ⟨hlog, l, ht⟩ hgoal
    obtain ⟨e, u, hown, hu, ⟨call, hcall⟩ | ⟨hsame, hless⟩⟩ :=
      ht.enabled world fun hquiet => hgoal (.inl hquiet)
    · exact ⟨e, u, hown, hu, .inl (.inr ⟨call, hlog ▸ hcall⟩)⟩
    · exact ⟨e, u, hown, hu, .inr ⟨⟨hsame.trans hlog, ht.step hu⟩, hless⟩⟩

/-- **`sequential` is its loop.**  Whatever the first future and the two functions, whatever the
steps come to, and in whatever order futures are settled and tasks run: in every state passed
through, the calls made are those of the loop, the result is what the loop returns, and the parties
go on to the next call or until there is nothing left to do. -/
theorem runs_loop (fns : SequentialFns ι V H F W) (first : ι) (hasNext : H) (fn : F)
    (es : List (SequenceEvent ι V W)) :
    Always (step fns)
      (fun s => RunsLoop fns first hasNext fn s ∧ ∀ world, GoesOn fns world s)
      (start first hasNext fn) es := by
  refine Always.of_each (I := fun s => ∃ l, Inv fns { prev := some first, hasNext, fn } s l)
    (C := fun _ _ => True) ?_ ?_ ⟨_, Inv.start first hasNext fn⟩
    (Each.of_forall fun _ _ _ => trivial)
  · rintro s ⟨l, h⟩
    exact ⟨h.runsLoop, h.goesOn⟩
  · rintro s e t ⟨l, h⟩ - ht
    exact h.step ht

/-- `has_next_fn` says yes and then no, and `fn` returns another future. -/
def yesThenNo : SequentialFns ℕ ℕ Bool Unit Unit where
  hasNext more _ _ _ := (more, false)
  fn _ _ _ _ := (some 1, ())

/-- A value for the first future, an error for the second, and what follows from each. -/
def twoSteps : List (SequenceEvent ℕ ℕ Unit) :=
  [.caller,
    .settle 0 (.success (some 5)), .thread 0, .thread 0, .thread 0,
    .dispatcher (), .dispatcher (), .dispatcher (), .dispatcher (),
    .settle 1 .error, .thread 1, .thread 1,
    .dispatcher (), .dispatcher (), .dispatcher (), .dispatcher ()]

theorem runs_loop_two_steps :
    ∃ s, run (step yesThenNo) (start 0 true ()) twoSteps = some s ∧
      s.log = [.hasNext (some 0) () true, .fn (some 0) () (some 1), .hasNext (some 1) () false] ∧
      s.settled = [.error] ∧ s.Quiet ∧ RunsLoop yesThenNo 0 true () s ∧
      GoesOn yesThenNo () s := by
  have hrun : (run (step yesThenNo) (start 0 true ()) twoSteps).map
      (fun s => (s.log, s.settled, decide s.Quiet)) =
        some ([.hasNext (some 0) () true, .fn (some 0) () (some 1), .hasNext (some 1) () false],
          [.error], true) := by decide +kernel
  obtain ⟨s, hs, hends⟩ := Option.map_eq_some_iff.mp hrun
  obtain ⟨hlog, hends⟩ := Prod.mk.inj hends
  obtain ⟨hsettled, hquiet⟩ := Prod.mk.inj hends
  obtain ⟨hloop, hgoes⟩ := (runs_loop yesThenNo 0 true () twoSteps).last hs
  exact ⟨s, hs, hlog, hsettled, of_decide_eq_true hquiet, hloop, hgoes ()⟩

end Sequence

end EspIot
