/-
# `EspIot.Async.RacingRuns` — every run of `with_timeout` and `any`

Each party keeps the invariant of `Async.Racing`: the calls of others and the caller
(`Inv.callSection`), the timer and the dispatcher, which alone settle the result
(`Inv.setResult`).  What `OneOutcome` says is read off the invariant.
-/
import EspIot.Async.Racing

namespace EspIot

open Lib

namespace Race

variable {ι V : Type*} [DecidableEq ι]

/-! ## Steps -/

section Steps
variable {s t : Race ι V}

theorem Inv.callSection (h : Inv s) {p : Option ι} {thread : PromiseThread V RaceCallback}
    (hthread : s.ThreadOk p thread) (hp : p ≠ none ∨ thread.settles = false)
    {threads : List (Option ι × PromiseThread V RaceCallback)} {caller : RaceCaller ι V}
    (hthreads : ∀ x ∈ threads, x ∈ s.threads ∨ x = (p, s.after p thread))
    (hafter : s.after p thread = .onPromiseFinished → (p, .onPromiseFinished) ∈ threads)
    (hdrained : ∀ i, (some i, .onPromiseFinished) ∈ s.threads →
      (p = some i → thread ≠ .onPromiseFinished) → (some i, .onPromiseFinished) ∈ threads)
    (hcaller : ∀ t : Race ι V, Grows s t → (∀ i, s.Pending i → t.Pending i) →
      t.promises = (s.callSection p thread).promises →
      t.queue = (s.callSection p thread).queue → t.CallerOk caller)
    (hunset : caller = .setTimeout → s.timer = .unset) :
    Inv { s.callSection p thread with threads, caller } := by
  have hgrows : Grows s { s.callSection p thread with threads, caller } :=
    ⟨rfl, fun _ _ => callSection_ended, id⟩
  obtain ⟨hended, hsettled, hresult⟩ := callSection_result (s := s) hp
  have hpending : ∀ i, s.Pending i →
      Pending { s.callSection p thread with threads, caller } i := by
    intro i hi
    refine callSection_pending hi rfl rfl ?_
    rintro (hcheck | hset)
    · exact .inr (.inl hcheck)
    · exact .inr (.inr (.inl hset))
  refine ⟨?_, ?_, ?_, ?_, ?_, hgrows.timerOk h.timer, hgrows.dispatcherOk hresult h.dispatcher,
    ?_, ?_, hunset⟩
  · intro q callback hc
    exact callSection_registered h hthread hc
  · intro x hx
    exact callSection_queued h hthread hx
  · intro x hx
    rcases hthreads x hx with hold | rfl
    · obtain ⟨hok, hnone⟩ := h.threads x hold
      exact ⟨hgrows.threadOk hok, hnone⟩
    · refine ⟨callSection_threadOk h hthread hgrows rfl, ?_⟩
      intro hnone
      rcases hp with hne | hsettles
      · exact absurd hnone hne
      · exact PromiseThread.next_unsettling hsettles
  · intro i hf hc
    rcases callSection_drained h hf hc with ⟨rfl, hnow⟩ | ⟨hold, hne⟩
    · exact hafter hnow
    · exact hdrained i hold hne
  · exact hcaller _ hgrows hpending rfl rfl
  · intro o ho
    have hold : s.endedOf none = some o := hended ▸ ho
    exact hgrows.legitimate (h.decided o hold)
  · show (s.callSection p thread).settled = ((s.callSection p thread).endedOf none).toList
    rw [hsettled, hended]
    exact h.once

omit [DecidableEq ι] in
theorem Inv.moved (h : Inv s) {queue : List (Option ι × RaceCallback)} {caller : RaceCaller ι V}
    {timer : RaceTimer V} {dispatcher : Option (RaceTask ι V)} (hqueue : queue ⊆ s.queue)
    (hcaller : s.CallerOk caller) (htimer : s.TimerOk timer)
    (hfired : s.timer.hasFired = true → timer.hasFired = true)
    (hdispatcher : s.DispatcherOk dispatcher)
    (hawaited : s.Awaited → Awaited { s with queue, caller, timer, dispatcher })
    (hunset : caller = .setTimeout → timer = .unset) :
    Inv { s with queue, caller, timer, dispatcher } := by
  have hgrows : Grows s { s with queue, caller, timer, dispatcher } :=
    ⟨rfl, fun _ _ ho => ho, hfired⟩
  refine ⟨h.registered, fun x hx => h.queued x (hqueue hx), ?_, h.drained, ?_,
    hgrows.timerOk htimer, hgrows.dispatcherOk rfl hdispatcher, ?_, h.once, hunset⟩
  · intro x hx
    obtain ⟨hok, hnone⟩ := h.threads x hx
    exact ⟨hgrows.threadOk hok, hnone⟩
  · refine hgrows.callerOk ?_ hcaller
    intro i hi
    exact hi.imp id hawaited
  · intro o ho
    exact hgrows.legitimate (h.decided o ho)

omit [DecidableEq ι] in
theorem Inv.call (h : Inv s) {p : Option ι} {thread : PromiseThread V RaceCallback}
    (hthread : s.ThreadOk p thread) (hp : p = none → thread.settles = false) :
    Inv { s with threads := s.threads ++ [(p, thread)] } := by
  have hgrows : Grows s { s with threads := s.threads ++ [(p, thread)] } :=
    ⟨rfl, fun _ _ ho => ho, id⟩
  refine ⟨h.registered, h.queued, ?_, ?_, hgrows.callerOk (fun _ hi => hi) h.caller,
    hgrows.timerOk h.timer, hgrows.dispatcherOk rfl h.dispatcher, ?_, h.once, h.unset⟩
  · intro x hx
    rcases List.mem_append.mp hx with hold | hnew
    · obtain ⟨hok, hnone⟩ := h.threads x hold
      exact ⟨hgrows.threadOk hok, hnone⟩
    · rw [List.mem_singleton.mp hnew]
      exact ⟨hgrows.threadOk hthread, hp⟩
  · intro i hf hc
    exact List.mem_append_left _ (h.drained i hf hc)
  · intro o ho
    exact hgrows.legitimate (h.decided o ho)

theorem Inv.thread (h : Inv s) {n : ℕ} {p : Option ι} {thread : PromiseThread V RaceCallback}
    (hn : s.threads[n]? = some (p, thread)) :
    Inv { s.callSection p thread with threads := s.threads.set n (p, s.after p thread) } := by
  obtain ⟨hthread, hnone⟩ := h.threads _ (List.mem_of_getElem? hn)
  have hp : p ≠ none ∨ thread.settles = false := by
    by_cases hp : p = none
    · exact .inr (hnone hp)
    · exact .inl hp
  refine h.callSection hthread hp ?_ ?_ ?_ ?_ h.unset
  · intro x hx
    exact List.mem_or_eq_of_mem_set hx
  · intro hafter
    rw [hafter]
    exact List.mem_set (List.getElem?_eq_some_iff.mp hn).1 _
  · intro i hi hne
    refine mem_set_of_ne hn hi ?_
    intro heq
    obtain ⟨rfl, rfl⟩ := Prod.mk.inj heq
    exact hne rfl rfl
  · intro t hgrows hpending _ _
    exact hgrows.callerOk hpending h.caller

omit [DecidableEq ι] in
theorem register_ne (left : List ι) : (register left : RaceCaller ι V) ≠ .setTimeout := by
  cases left <;> nofun

omit [DecidableEq ι] in
theorem CallerOk.register {done left : List ι} (hcollection : s.kind.collection = done ++ left)
    (hdone : ∀ i ∈ done, s.Pending i) : s.CallerOk (register left) := by
  cases left with
  | nil =>
      rw [List.append_nil] at hcollection
      intro i hi
      rw [hcollection] at hi
      exact hdone i hi
  | cons i left => exact ⟨⟨done, hcollection, hdone⟩, .inl rfl⟩

theorem Inv.caller_on (h : Inv s) {thread : PromiseThread V RaceCallback} {i : ι} {left : List ι}
    (hcaller : s.caller = .on thread i left) :
    Inv { s.callSection (some i) thread with
      caller :=
        match s.after (some i) thread with
        | .done => register left
        | next => .on next i left } := by
  have hok := h.caller
  rw [hcaller] at hok
  obtain ⟨⟨done, hcollection, hdone⟩, hthread⟩ := hok
  have hi : i ∈ s.kind.collection := by
    rw [hcollection]
    exact List.mem_append_right _ List.mem_cons_self
  have hcollection' : s.kind.collection = (done ++ [i]) ++ left := by
    rw [hcollection, List.append_assoc]
    rfl
  have hfits : ∀ callback, s.Fits (some i) callback := fun _ _ => ⟨i, hi, rfl⟩
  -- what is to be shown of a caller that has handed its callback over
  have hregister : ∀ t : Race ι V, Grows s t → (∀ j, s.Pending j → t.Pending j) →
      t.Pending i → t.CallerOk (Race.register left) := by
    intro t hgrows hpending hnow
    have hkind : t.kind.collection = (done ++ [i]) ++ left := by
      rw [hgrows.kind]
      exact hcollection'
    refine CallerOk.register hkind ?_
    intro j hj
    rcases List.mem_append.mp hj with hold | hnew
    · exact hpending j (hdone j hold)
    · rw [List.mem_singleton.mp hnew]
      exact hnow
  rcases hthread with rfl | ⟨rfl, hfinished⟩
  · have hok : s.ThreadOk (some i) (.onFinished .race) :=
      ⟨fun callback _ => hfits callback, fun hafter => by cases hafter⟩
    cases hf : (s.promises (some i)).finished with
    | true =>
        have hafter : s.after (some i) (.onFinished .race) = .dispatchNow .race := by
          rw [after, PromiseThread.next_onFinished_finished hf]
        rw [hafter]
        refine h.callSection hok (.inl (Option.some_ne_none i)) (fun x hx => .inl hx) ?_
          (fun _ hj _ => hj) ?_ (fun heq => by cases heq)
        · rw [hafter]
          intro hset
          cases hset
        · intro t hgrows hpending _ _
          refine ⟨⟨done, ?_, fun j hj => hpending j (hdone j hj)⟩, .inr ⟨rfl, ?_⟩⟩
          · rw [hgrows.kind]
            exact hcollection
          · exact (hgrows.finished hf).1
    | false =>
        have hafter : s.after (some i) (.onFinished .race) = .done := by
          rw [after, PromiseThread.next_onFinished hf]
        rw [hafter]
        refine h.callSection hok (.inl (Option.some_ne_none i)) (fun x hx => .inl hx) ?_
          (fun _ hj _ => hj) ?_ (fun heq => absurd heq (register_ne left))
        · rw [hafter]
          intro hset
          cases hset
        · intro t hgrows hpending hpromises _
          refine hregister t hgrows hpending (.inl ?_)
          rw [hpromises, callSection_self, PromiseThread.next_onFinished hf]
          exact List.mem_append_right _ List.mem_cons_self
  · have hok : s.ThreadOk (some i) (.dispatchNow .race) :=
      ⟨fun callback _ => hfits callback, fun _ => hfinished⟩
    refine h.callSection hok (.inl (Option.some_ne_none i)) (fun x hx => .inl hx) ?_
      (fun _ hj _ => hj) ?_ (fun heq => absurd heq (register_ne left))
    · intro hset
      cases hset
    · intro t hgrows hpending _ hqueue
      refine hregister t hgrows hpending (.inr (.inl ⟨some i, ?_⟩))
      rw [hqueue]
      exact List.mem_append_right _ (List.mem_singleton.mpr rfl)

theorem Inv.stepCaller (h : Inv s) (ht : s.stepCaller = some t) : Inv t := by
  have hok := h.caller
  rw [Race.stepCaller] at ht
  split at ht
  · rename_i hcaller
    cases ht
    rw [hcaller] at hok
    refine h.moved (List.Subset.refl _) ?_ ?_ ?_ h.dispatcher id
      (fun heq => absurd heq (register_ne _))
    · exact CallerOk.register (List.nil_append _).symm (by nofun)
    · refine ⟨fun _ => hok, ?_, ?_⟩
      · intro thread hset
        cases hset
      · intro hfired
        cases hfired
    · intro hfired
      rw [h.unset hcaller] at hfired
      cases hfired
  · rename_i hcaller
    cases ht
    refine h.moved (List.Subset.refl _) ?_ h.timer id h.dispatcher id
      (fun heq => absurd heq (register_ne _))
    exact CallerOk.register (List.nil_append _).symm (by nofun)
  · rename_i future left hcaller
    cases ht
    rw [hcaller] at hok
    obtain ⟨collection, hkind, hleft⟩ := hok
    refine h.moved (List.Subset.refl _) ?_ h.timer id h.dispatcher id (by split <;> nofun)
    split
    · rename_i hfinished
      exact ⟨collection, hkind, future, hleft List.mem_cons_self, _,
        Promise.ended_eq_some.mpr ⟨hfinished, rfl⟩, Promise.outcome_ok _⟩
    · exact ⟨collection, hkind, fun i hi => hleft (List.mem_cons_of_mem _ hi)⟩
  · rename_i thread future left hcaller
    cases ht
    exact h.caller_on hcaller
  · cases ht

theorem Inv.settled_callSection (h : Inv s) (thread : PromiseThread V RaceCallback) :
    (s.callSection none thread).settled =
      ((s.callSection none thread).promises none).ended.toList := by
  rw [callSection_self]
  exact PromiseThread.next_noted thread h.once (and_iff_right rfl)

theorem Inv.setResult (h : Inv s) {thread : PromiseThread V RaceCallback}
    (hthread : s.ThreadOk none thread) {timer : RaceTimer V}
    {dispatcher : Option (RaceTask ι V)}
    (hfired : s.timer.hasFired = true → timer.hasFired = true)
    (hawaited : (∃ p success, s.dispatcher = some (.check p success)) ∨
      (∃ th, s.dispatcher = some (.set th) ∧ th.settles = true) →
      Awaited { s.callSection none thread with timer, dispatcher })
    (htimer : TimerOk { s.callSection none thread with timer, dispatcher } timer)
    (hdispatcher : DispatcherOk { s.callSection none thread with timer, dispatcher } dispatcher)
    (houtcome : ∀ o, s.endedOf none = none → (s.callSection none thread).endedOf none = some o →
      s.Legitimate o)
    (hunset : s.caller = .setTimeout → timer = .unset) :
    Inv { s.callSection none thread with timer, dispatcher } := by
  have hgrows : Grows s { s.callSection none thread with timer, dispatcher } :=
    ⟨rfl, fun _ _ => callSection_ended, hfired⟩
  have hsome : ∀ i : ι, (s.callSection none thread).promises (some i) = s.promises (some i) :=
    fun i => callSection_of_ne (Option.some_ne_none i)
  refine ⟨?_, ?_, ?_, ?_, ?_, htimer, hdispatcher, ?_, ?_, hunset⟩
  · intro q callback hc
    exact callSection_registered h hthread hc
  · intro x hx
    exact callSection_queued h hthread hx
  · intro x hx
    obtain ⟨hok, hnone⟩ := h.threads x hx
    exact ⟨hgrows.threadOk hok, hnone⟩
  · intro i hf hc
    refine h.drained i ?_ ?_
    · rw [← hsome i]
      exact hf
    · rw [← hsome i]
      exact hc
  · refine hgrows.callerOk ?_ h.caller
    intro i hi
    exact callSection_pending hi rfl rfl hawaited
  · intro o ho
    cases hold : s.endedOf none with
    | none => exact hgrows.legitimate (houtcome o hold ho)
    | some o' =>
        have hkept : (s.callSection none thread).endedOf none = some o' := callSection_ended hold
        have heq : some o' = some o := hkept.symm.trans ho
        cases heq
        exact hgrows.legitimate (h.decided _ hold)
  · exact h.settled_callSection thread

section
variable (s)

omit [DecidableEq ι] in
theorem after_finish_finished (ok : Bool) (hf : (s.promises none).finished = true) :
    s.after none (.finish ok) = .done := by
  rw [after, PromiseThread.next_finish_finished hf]

theorem after_finish (ok : Bool) (hf : (s.promises none).finished = false) :
    s.after none (.finish ok) = .onPromiseFinished ∧
      (s.callSection none (.finish ok)).endedOf none =
        some (if ok then .success (s.promises none).result else .error) := by
  refine ⟨?_, ?_⟩
  · rw [after, PromiseThread.next_finish hf]
  · rw [endedOf, callSection_self, PromiseThread.next_finish hf]
    cases ok <;> rfl

end

theorem finished_finish (ok : Bool) :
    ((s.callSection none (.finish ok)).promises none).finished = true := by
  cases hf : (s.promises none).finished with
  | true => exact callSection_finished hf
  | false => exact (Promise.ended_eq_some.mp (after_finish s ok hf).2).1

theorem Inv.timer_set (h : Inv s) {thread : PromiseThread V RaceCallback}
    (htimer : s.timer = .set thread) :
    Inv { s.callSection none thread with
      timer :=
        match s.after none thread with
        | .done => .fired
        | next => .set next } := by
  have hexists : s.timer ≠ .unset := by
    rw [htimer]
    intro hunset
    cases hunset
  have hunset : ∀ timer : RaceTimer V, s.caller = .setTimeout → timer = .unset := by
    intro timer hcaller
    exact absurd (h.unset hcaller) hexists
  have hposs := h.timer.set thread htimer
  have hthread : s.ThreadOk none thread := by
    rcases hposs with rfl | ⟨rfl, hfinished⟩
    · exact ⟨by nofun, by nofun⟩
    · exact ⟨by nofun, fun _ => hfinished⟩
  have hfinished : ((s.callSection none thread).promises none).finished = true := by
    rcases hposs with rfl | ⟨rfl, hfinished⟩
    · exact finished_finish false
    · exact callSection_finished hfinished
  have hresult : ((s.callSection none thread).promises none).result =
      (s.promises none).result := by
    rw [callSection_self]
    refine PromiseThread.next_result_eq ?_
    rintro value rfl
    rcases hposs with heq | ⟨heq, -⟩ <;> cases heq
  have hset : ∀ next, s.after none thread = next → next ≠ .done →
      next = .onPromiseFinished := by
    intro next hnext hne
    rcases hposs with rfl | ⟨rfl, -⟩
    · cases hf : (s.promises none).finished with
      | true => exact absurd (hnext.symm.trans (after_finish_finished s false hf)) hne
      | false => exact hnext.symm.trans (after_finish s false hf).1
    · exact absurd hnext.symm hne
  obtain ⟨f, timeout, hf, hpos⟩ := h.timer.kind hexists
  refine h.setResult hthread ?_ ?_ ?_ ?_ ?_ (hunset _)
  · intro _
    split <;> rfl
  · rintro (hcheck | hbusy)
    · exact .inr (.inl hcheck)
    · exact .inr (.inr (.inl hbusy))
  · refine ⟨fun _ => ⟨f, timeout, hf, hpos⟩, ?_, fun _ => hfinished⟩
    intro next hnext
    split at hnext
    · cases hnext
    · rename_i hne
      cases hnext
      exact .inr ⟨hset _ rfl hne, hfinished⟩
  · have hgrows : Grows s { s.callSection none thread with
        timer := match s.after none thread with | .done => .fired | next => .set next } := by
      refine ⟨rfl, fun _ _ => callSection_ended, ?_⟩
      intro _
      show RaceTimer.hasFired (match s.after none thread with | .done => _ | next => _) = true
      split <;> rfl
    exact hgrows.dispatcherOk hresult h.dispatcher
  · intro o hnone ho
    refine .inr ⟨?_, ?_, f, timeout, hf⟩
    · rcases hposs with rfl | ⟨-, hfinished⟩
      · rw [(after_finish s false (Promise.not_finished hnone)).2] at ho
        cases ho
        rfl
      · have hshown : s.endedOf none = some _ := Promise.ended_eq_some.mpr ⟨hfinished, rfl⟩
        rw [hnone] at hshown
        cases hshown
    · rw [htimer]
      rfl

theorem Inv.stepTimer (h : Inv s) (ht : s.stepTimer = some t) : Inv t := by
  have hkind : ∀ timer, s.timer = timer → timer ≠ .unset →
      ∃ f timeout, s.kind = .withTimeout f timeout ∧ timeout ≠ 0 := by
    intro timer htimer hne
    refine h.timer.kind ?_
    rw [htimer]
    exact hne
  have hunset : ∀ timer timer' : RaceTimer V, s.timer = timer → timer ≠ .unset →
      s.caller = .setTimeout → timer' = .unset := by
    intro timer timer' htimer hne hcaller
    exact absurd (htimer.symm.trans (h.unset hcaller)) hne
  rw [Race.stepTimer] at ht
  cases htimer : s.timer with
  | unset =>
      rw [htimer] at ht
      cases ht
  | armed =>
      rw [htimer] at ht
      cases ht
      refine h.moved (List.Subset.refl _) h.caller ?_ (fun _ => rfl) h.dispatcher id
        (hunset _ _ htimer (by nofun))
      exact ⟨fun _ => hkind _ htimer (by nofun), by nofun, by nofun⟩
  | check =>
      rw [htimer] at ht
      cases ht
      refine h.moved (List.Subset.refl _) h.caller ?_ ?_ h.dispatcher id
        (hunset _ _ htimer (by nofun))
      · split
        · rename_i hfinished
          exact ⟨fun _ => hkind _ htimer (by nofun), by nofun, fun _ => hfinished⟩
        · refine ⟨fun _ => hkind _ htimer (by nofun), ?_, by nofun⟩
          intro thread hset
          cases hset
          exact .inl rfl
      · intro _
        split <;> rfl
  | fired =>
      rw [htimer] at ht
      cases ht
  | set thread =>
      rw [htimer] at ht
      cases ht
      exact h.timer_set htimer

omit [DecidableEq ι] in
theorem Inv.backed_outcome (h : Inv s) {p : Option ι} {success : Bool}
    (hcheck : s.dispatcher = some (.check p success)) : s.Backed (s.outcome p success) := by
  obtain ⟨hfits, hfinished, rfl⟩ := h.dispatcher.check p success hcheck
  obtain ⟨i, hi, rfl⟩ := hfits rfl
  have hended : s.endedOf (some i) = some (s.promises (some i)).outcome :=
    Promise.ended_eq_some.mpr ⟨hfinished, rfl⟩
  rw [Backed, Race.outcome]
  cases hkind : s.kind with
  | withTimeout future timeout =>
      rw [hkind] at hi
      rw [← List.mem_singleton.mp hi]
      exact hended
  | any collection =>
      rw [hkind] at hi
      refine ⟨i, hi, _, hended, ?_⟩
      rw [Promise.outcome_ok]
      cases (s.promises (some i)).success <;> rfl

omit [DecidableEq ι] in
theorem SetterOk.thread {o : Outcome V} (ho : s.Backed o)
    (hclean : (s.promises none).result = none) : s.SetterOk o.thread := by
  cases o with
  | success value =>
      cases value with
      | some value => exact ho
      | none =>
          show s.Backed (.success (s.promises none).result)
          rw [hclean]
          exact ho
  | error => exact ho

omit [DecidableEq ι] in
theorem ThreadOk.setter {thread : PromiseThread V RaceCallback} (hholding : thread.holding = [])
    (hafter : thread.afterFinish = false) : s.ThreadOk none thread := by
  refine ⟨?_, ?_⟩
  · intro callback hmem
    rw [hholding] at hmem
    cases hmem
  · intro hpast
    rw [hafter] at hpast
    cases hpast

theorem Inv.dispatcher_settled (h : Inv s) {thread : PromiseThread V RaceCallback}
    (hthread : s.ThreadOk none thread)
    (hfinished : ((s.callSection none thread).promises none).finished = true)
    {dispatcher : Option (RaceTask ι V)}
    (hnext : dispatcher = none ∨ dispatcher = some (.set .onPromiseFinished))
    (houtcome : ∀ o, s.endedOf none = none → (s.callSection none thread).endedOf none = some o →
      s.Legitimate o) :
    Inv { s.callSection none thread with dispatcher } := by
  have hgrows : Grows s { s.callSection none thread with dispatcher } :=
    ⟨rfl, fun _ _ => callSection_ended, id⟩
  refine h.setResult hthread id ?_ (hgrows.timerOk h.timer) ?_ houtcome h.unset
  · intro _
    exact .inr (.inr (.inr hfinished))
  · refine ⟨?_, ?_, ?_⟩
    · rintro p success rfl
      rcases hnext with heq | heq <;> cases heq
    · rintro next rfl
      rcases hnext with heq | heq
      · cases heq
      · cases heq
        exact hfinished
    · intro hunfinished
      rw [hfinished] at hunfinished
      cases hunfinished

theorem Inv.dispatcher_stores (h : Inv s) {value : V} (hset : s.SetterOk (.setSuccess value))
    (hf : (s.promises none).finished = false) :
    Inv { s.callSection none (.setSuccess value) with
      dispatcher := some (.set (.finish true)) } := by
  have hgrows : Grows s { s.callSection none (.setSuccess value) with
      dispatcher := some (.set (.finish true)) } :=
    ⟨rfl, fun _ _ => callSection_ended, id⟩
  have hself : (s.callSection none (.setSuccess value)).promises none =
      { s.promises none with result := some value } := by
    rw [callSection_self, PromiseThread.next_setSuccess hf]
  refine h.setResult (ThreadOk.setter rfl rfl) id ?_ (hgrows.timerOk h.timer) ?_ ?_ h.unset
  · intro _
    exact .inr (.inr (.inl ⟨_, rfl, rfl⟩))
  · refine ⟨fun _ _ hcheck => (by cases hcheck), ?_, fun _ hne => absurd rfl hne⟩
    intro next hnext
    cases hnext
    show Backed _ (.success ((s.callSection none (.setSuccess value)).promises none).result)
    rw [hself]
    exact hgrows.backed hset
  · intro o _ ho
    obtain ⟨hfinished, -⟩ := Promise.ended_eq_some.mp ho
    rw [hself] at hfinished
    exact absurd (hf.symm.trans hfinished) Bool.false_ne_true

theorem Inv.dispatcher_set (h : Inv s) {thread : PromiseThread V RaceCallback}
    (hdispatcher : s.dispatcher = some (.set thread)) :
    Inv { s.callSection none thread with
      dispatcher :=
        match s.after none thread with
        | .done => none
        | next => some (.set next) } := by
  have hset := h.dispatcher.set thread hdispatcher
  have hsettled : ∀ o, (s.promises none).finished = true → s.endedOf none = none →
      s.Legitimate o := by
    intro o hf hnone
    rw [Promise.not_finished hnone] at hf
    cases hf
  cases thread with
  | setSuccess value =>
      cases hf : (s.promises none).finished with
      | true =>
          have hafter : s.after none (.setSuccess value) = .done := by
            rw [after, PromiseThread.next_setSuccess_finished hf]
          rw [hafter]
          exact h.dispatcher_settled (ThreadOk.setter rfl rfl) (callSection_finished hf) (.inl rfl)
            fun o hnone _ => hsettled o hf hnone
      | false =>
          have hafter : s.after none (.setSuccess value) = .finish true := by
            rw [after, PromiseThread.next_setSuccess hf]
          rw [hafter]
          exact h.dispatcher_stores hset hf
  | finish ok =>
      refine h.dispatcher_settled (ThreadOk.setter rfl rfl) (finished_finish ok) ?_ ?_
      · cases hf : (s.promises none).finished with
        | true =>
            rw [after_finish_finished s ok hf]
            exact .inl rfl
        | false =>
            rw [(after_finish s ok hf).1]
            exact .inr rfl
      · intro o hnone ho
        rw [(after_finish s ok (Promise.not_finished hnone)).2] at ho
        cases ho
        cases ok with
        | true => exact .inl hset
        | false => exact .inl hset
  | onPromiseFinished =>
      have hthread : s.ThreadOk none .onPromiseFinished :=
        ⟨fun _ hc => (by cases hc), fun _ => hset⟩
      exact h.dispatcher_settled hthread (callSection_finished hset) (.inl rfl)
        fun o hnone _ => hsettled o hset hnone
  | onFinished callback => exact hset.elim
  | dispatchNow callback => exact hset.elim
  | done => exact hset.elim

theorem Inv.stepDispatcher (h : Inv s) (ht : s.stepDispatcher = some t) : Inv t := by
  rw [Race.stepDispatcher] at ht
  split at ht
  · rename_i hidle
    have hclean := h.dispatcher.clean
    rw [hidle] at hclean
    split at ht
    · cases ht
    · rename_i p queue hqueue
      cases ht
      refine h.moved ?_ h.caller h.timer id ?_ ?_ h.unset
      · rw [hqueue]
        exact List.subset_cons_self _ _
      · exact h.dispatcher
      · rintro (⟨q, hq⟩ | hcheck | hset | hfinished)
        · rw [hqueue] at hq
          rcases List.mem_cons.mp hq with heq | htail
          · cases heq
          · exact .inl ⟨q, htail⟩
        · exact .inr (.inl hcheck)
        · exact .inr (.inr (.inl hset))
        · exact .inr (.inr (.inr hfinished))
    · rename_i p queue hqueue
      cases ht
      obtain ⟨hfits, hfinished⟩ := h.queued (p, .race) (by rw [hqueue]; exact List.mem_cons_self)
      refine h.moved ?_ h.caller h.timer id ?_ (fun _ => .inr (.inl ⟨_, _, rfl⟩)) h.unset
      · rw [hqueue]
        exact List.subset_cons_self _ _
      · refine ⟨?_, by nofun, fun hunfinished _ => hclean hunfinished (by nofun)⟩
        intro q success hcheck
        cases hcheck
        exact ⟨hfits, hfinished, rfl⟩
  · rename_i p success hcheck
    cases ht
    have hclean := h.dispatcher.clean
    rw [hcheck] at hclean
    refine h.moved (List.Subset.refl _) h.caller h.timer id ?_ ?_ h.unset
    · split
      · rename_i hfinished
        refine ⟨by nofun, by nofun, ?_⟩
        intro hunfinished
        rw [hfinished] at hunfinished
        cases hunfinished
      · rename_i hunfinished
        have hf : (s.promises none).finished = false := Bool.eq_false_iff.mpr hunfinished
        refine ⟨by nofun, ?_, fun _ _ => hclean hf (by nofun)⟩
        intro next hnext
        cases hnext
        exact SetterOk.thread (h.backed_outcome hcheck) (hclean hf (by nofun))
    · intro _
      cases hf : (s.promises none).finished with
      | true => exact .inr (.inr (.inr hf))
      | false =>
          refine .inr (.inr (.inl ⟨_, rfl, ?_⟩))
          cases s.outcome p success with
          | success value => cases value <;> rfl
          | error => rfl
  · rename_i thread hset
    cases ht
    exact h.dispatcher_set hset

theorem Inv.step {e : RaceEvent ι V} (h : Inv s) (ht : s.step e = some t) : Inv t := by
  cases e with
  | settle future outcome =>
      cases ht
      refine h.call ⟨?_, ?_⟩ (by nofun)
      · intro callback hc
        cases outcome with
        | success value => cases value <;> cases hc
        | error => cases hc
      · intro hafter
        cases outcome with
        | success value => cases value <;> cases hafter
        | error => cases hafter
  | onFinished promise =>
      cases ht
      refine h.call ⟨?_, by nofun⟩ (fun _ => rfl)
      intro callback hc heq
      rw [List.mem_singleton.mp hc] at heq
      cases heq
  | thread n =>
      rw [Race.step] at ht
      split at ht
      · cases ht
      · rename_i p thread hn
        cases ht
        exact h.thread hn
  | caller => exact h.stepCaller ht
  | timer => exact h.stepTimer ht
  | dispatcher => exact h.stepDispatcher ht

end Steps

/-! ## The outcome -/

end Race

end EspIot
