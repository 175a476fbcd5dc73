/-
# `EspIot.Async.FutureRuns` — expressions of futures under every schedule

A combinator call keeps the invariant, too: it meets futures that are unfinished, finished, or
finished with their callbacks still in the queue.  So every run keeps it, and when the queue is
empty, induction on the expression of a future shows that it is finished as soon as the sources
it needs are settled, whatever the order was.
-/
import EspIot.Async.FutureSystem

namespace EspIot

open Lib

namespace FutureSystem

variable {ι V : Type*} [DecidableEq ι]

section Kept
variable {σ : ι → Outcome V} {s : FutureSystem ι V}

/-! ## Building -/

/-- A combinator is called: it has settled nothing but its own promise, and attached `owed`. -/
theorem Kept.extend (h : Kept σ s) (owed : List (PromiseId ι × FutureCallback ι))
    {g : Futures ι V} {p : PromiseId ι} {e : FutureExpr ι V}
    (hcalls : g.calls = s.futures.calls + 1)
    (hcalled : g.called = s.futures.called)
    (hleft : ∀ j, j ≠ s.built.length → g.countLeft j = s.futures.countLeft j)
    (hp : p = .derived s.built.length ∨ e.outcome σ = s.want σ p ∧
      ∀ n, p = .derived n → n < s.built.length)
    (hended : ∀ q, g.ended q = s.futures.ended q ∨
      (q = .derived s.built.length ∧ g.ended q = some (e.outcome σ)))
    (howner : ∀ x ∈ owed, x.2.owner = some s.built.length)
    (hpending : ∀ x, g.pending x = s.futures.pending x + owed.count x)
    (hlink : Link σ { futures := g, built := s.built ++ [(p, e)] } s.built.length p e owed 0) :
    Kept σ { futures := g, built := s.built ++ [(p, e)] } := by
  have hlength : (s.built ++ [(p, e)]).length = s.built.length + 1 := by simp
  have hself : (FutureSystem.mk g (s.built ++ [(p, e)])).want σ (.derived s.built.length) =
      e.outcome σ := want_derived (List.getElem?_concat_length ..)
  refine h.change (k := s.built.length) (List.prefix_append ..)
    (by rw [hlength, hcalls, h.length]) (by rw [hlength]; exact Nat.lt_succ_self _)
    (fun j q e' hj => ?_) (fun q => ?_) (fun j _ => by rw [hcalled]) hleft (fun x hx => ?_)
    fun q e' hk => ?_
  · rcases getElem?_concat_cases hj with hj | ⟨rfl, heq⟩
    · exact Or.inl hj
    · cases heq
      refine Or.inr ⟨rfl, ?_⟩
      rw [hlength]
      rcases hp with rfl | ⟨heq, hlt⟩
      · exact ⟨fun n hn => by cases hn; exact Nat.lt_succ_self _, hself.symm⟩
      · exact ⟨fun n hn => Nat.lt_succ_of_lt (hlt n hn),
          heq.trans (want_of_known (List.prefix_append ..) hlt).symm⟩
  · rcases hended q with heq | ⟨rfl, heq⟩
    · exact Or.inl heq
    · exact Or.inr ⟨rfl, heq.trans (congrArg some hself.symm)⟩
  · rw [hpending, List.count_eq_zero.mpr fun hm => hx (howner x hm), Nat.add_zero]
  · rw [List.getElem?_concat_length] at hk
    cases hk
    -- nobody has called a function of the new call, and nothing of it is pending
    have hzero : g.called.count s.built.length = 0 := by
      rw [hcalled]
      exact List.count_eq_zero.mpr fun hm => absurd (h.called _ hm) (Nat.lt_irrefl _)
    refine ⟨owed, by rw [hzero]; exact hlink, ?_⟩
    intro x hx
    have hnone : s.futures.pending x = 0 := by
      refine Nat.eq_zero_of_not_pos ?_
      intro hpos
      obtain ⟨k, hk, hown⟩ := h.owned x hpos
      rw [hx] at hown
      cases hown
      exact absurd hk (Nat.lt_irrefl _)
    rw [hpending, hnone, Nat.zero_add]

theorem Kept.attach (h : Kept σ s) {q : PromiseId ι} {e future : FutureExpr ι V}
    {callback : FutureCallback ι} (hq : (q, future) ∈ s.built) {k : Nat}
    (hk : s.built.length = k)
    (he : e.attaches k q (e.attached k q) = some (future, callback)) :
    Kept σ { futures := s.futures.create.2.onFinished q callback,
             built := s.built ++ [(e.attached k q, e)] } := by
  subst hk
  refine h.extend [(q, callback)] rfl rfl (fun _ _ => rfl) ?_ (fun r => Or.inl ?_) ?_
    (fun x => Futures.pending_onFinished ..)
    (.waiting q future callback he rfl (List.mem_append_left _ hq))
  · cases e with
    | doFinally future' =>
        cases he
        exact Or.inr ⟨h.outcome _ hq, h.below _ hq⟩
    | _ => exact Or.inl rfl
  · exact Futures.ended_onFinished ..
  · intro x hx
    rw [List.mem_singleton.mp hx]
    exact FutureExpr.attaches_owner he

theorem Kept.settled (h : Kept σ s) {e : FutureExpr ι V} {o : Outcome V}
    (he : e.outcome σ = o) (hreached : e.reached σ = false) {k : Nat} (hk : s.built.length = k) :
    Kept σ { futures := s.futures.create.2.settle (.derived k) o,
             built := s.built ++ [(.derived k, e)] } := by
  subst hk he
  have hself : (s.futures.create.2.settle (.derived s.built.length) (e.outcome σ)).ended
      (.derived s.built.length) = some (e.outcome σ) := by
    rw [Futures.ended_settle_self]
    change some ((s.futures.ended (.derived s.built.length)).getD _) = _
    rw [h.fresh _ (Nat.le_refl _), Option.getD_none]
  refine h.extend [] rfl rfl (fun _ _ => rfl) (Or.inl rfl) (fun q => ?_) (by simp)
    (fun x => Futures.pending_settle ..) ?_
  · rcases eq_or_ne q (.derived s.built.length) with rfl | hne
    · exact Or.inr ⟨rfl, hself⟩
    · exact Or.inl (Futures.ended_settle_of_ne _ _ hne)
  · have hlink : Link σ
        { futures := s.futures.create.2.settle (.derived s.built.length) (e.outcome σ),
          built := s.built ++ [(.derived s.built.length, e)] }
        s.built.length (.derived s.built.length) e [] (e.reached σ).toNat :=
      .finished (by rw [hself]; rfl)
    simpa [hreached] using hlink

theorem Kept.allTwo (h : Kept σ s) {members : List (PromiseId ι × FutureExpr ι V)}
    (hmembers : ∀ m ∈ members, m ∈ s.built) (hlength : 2 ≤ members.length) :
    Kept σ { futures := (s.futures.all (members.map Prod.fst)).2,
             built := s.built ++
              [((s.futures.all (members.map Prod.fst)).1, .allOf (members.map Prod.snd))] } := by
  have hout : (FutureExpr.allOf (members.map Prod.snd)).outcome σ =
      if ∀ x ∈ members, (x.2.outcome σ).ok = true then .success none else .error := by
    rw [FutureExpr.outcome_allOf (by simpa using hlength)]
    simp only [List.forall_mem_map]
  have hreached : (FutureExpr.allOf (members.map Prod.snd)).reached σ = false := rfl
  have hfinished : ∀ x ∈ members, (s.futures.promises x.1).finished = true →
      (s.futures.promises x.1).success = (x.2.outcome σ).ok := by
    intro x hx hfin
    rw [← Promise.outcome_ok, h.ended _ _ (Futures.ended_of_finished hfin),
      h.outcome _ (hmembers x hx)]
  rw [Futures.all_of_two_le _ (by simpa using hlength)]
  split
  · rename_i hany
    refine h.settled (hout.trans (if_neg ?_)) hreached h.length
    intro hall
    obtain ⟨q, hq, hfail⟩ := List.any_eq_true.mp hany
    obtain ⟨x, hx, rfl⟩ := List.mem_map.mp hq
    rw [Bool.and_eq_true, Bool.not_eq_true'] at hfail
    rw [hfinished x hx hfail.1, hall x hx] at hfail
    cases hfail.2
  · rename_i hnone
    split
    · rename_i hfin
      refine h.settled (hout.trans (if_pos ?_)) hreached h.length
      intro x hx
      have hx' := List.mem_map_of_mem (f := Prod.fst) hx
      have hf := List.all_eq_true.mp hfin x.1 hx'
      by_contra hfail
      refine hnone (List.any_eq_true.mpr ⟨x.1, hx', ?_⟩)
      rw [hf, hfinished x hx hf]
      simpa using hfail
    · -- the callback is attached to every member, and all of them are still to come
      rw [← h.length]
      have hleft : ∀ j, j ≠ s.built.length →
          Function.update s.futures.countLeft s.built.length (members.map Prod.fst).length j =
            s.futures.countLeft j := fun j hj => Function.update_of_ne hj ..
      have htasks : members.map (allTask s.built.length) = (members.map Prod.fst).map fun p =>
          (p, FutureCallback.all s.built.length (.derived s.built.length)) := by
        rw [List.map_map]
        rfl
      generalize hg : List.foldl _ _ _ = g
      obtain ⟨hcalls, hcalled, hcells, hended, hpending⟩ := Futures.foldl_onFinished
        (.all s.built.length (.derived s.built.length)) (members.map Prod.fst)
        { s.futures.create.2 with
          countLeft := Function.update s.futures.countLeft s.built.length
            (members.map Prod.fst).length }
      rw [hg] at hcalls hcalled hcells hended hpending
      refine h.extend (members.map (allTask s.built.length)) hcalls hcalled
        (fun j hj => by rw [hcells]; exact hleft j hj) (Or.inl rfl) (fun q => Or.inl (hended q))
        ?_ (fun x => by rw [hpending, htasks]; rfl) ?_
      · intro x hx
        obtain ⟨m, -, rfl⟩ := List.mem_map.mp hx
        rfl
      · refine .all members [] members rfl rfl (fun m hm => List.mem_append_left _ (hmembers m hm))
          hlength (List.Perm.refl _) fun _ => ⟨?_, ?_, by simp⟩
        · rintro rfl
          simp at hlength
        · change g.countLeft s.built.length = _
          rw [hcells]
          exact (Function.update_self ..).trans (List.length_map ..)

theorem Kept.all (h : Kept σ s) {members : List (PromiseId ι × FutureExpr ι V)}
    (hmembers : ∀ m ∈ members, m ∈ s.built) :
    Kept σ { futures := (s.futures.all (members.map Prod.fst)).2,
             built := s.built ++
              [((s.futures.all (members.map Prod.fst)).1, .allOf (members.map Prod.snd))] } := by
  match members with
  | [] => exact h.settled (e := .allOf []) (o := .error) rfl rfl h.length
  | [m] =>
      have hm := hmembers m (List.mem_singleton_self m)
      refine h.extend [] rfl rfl (fun _ _ => rfl)
        (Or.inr ⟨h.outcome m hm, h.below m hm⟩) (fun _ => Or.inl rfl) (by simp) (fun _ => rfl) ?_
      exact .same m.2 rfl (List.mem_append_left _ hm)
  | m :: m' :: rest => exact h.allTwo hmembers (by simp)

theorem Kept.build (h : Kept σ s) {b : FutureBuild ι V} {e : FutureExpr ι V} {p : PromiseId ι}
    {futures : Futures ι V} (hb : b.apply s.built s.futures = some (e, p, futures)) :
    Kept σ { futures, built := s.built ++ [(p, e)] } := by
  rcases apply_cases hb with ⟨i, rfl, rfl, rfl⟩ | ⟨o, rfl, rfl, rfl⟩ |
    ⟨q, future, callback, hq, he, rfl, rfl⟩ | ⟨members, hmembers, rfl, hall⟩
  · exact h.extend [] rfl rfl (fun _ _ => rfl) (Or.inr ⟨rfl, by simp⟩)
      (fun _ => Or.inl rfl) (by simp) (fun _ => rfl) (.source i rfl rfl)
  · exact h.settled (e := .settled o) rfl rfl h.length
  · exact h.attach hq h.length he
  · have hkept := h.all hmembers
    rwa [hall] at hkept

theorem Kept.start (σ : ι → Outcome V) : Kept σ ({} : FutureSystem ι V) where
  length := rfl
  below := by simp
  fresh _ _ := rfl
  ended _ _ h := by cases h
  outcome := by simp
  owned x hx := absurd hx (Nat.lt_irrefl 0)
  called k hk := by cases hk
  links k p e h := by simp at h

/-! ## Runs -/

/-- `σ` gives every settled source its outcome. -/
def Agrees (s : FutureSystem ι V) (σ : ι → Outcome V) : Prop :=
  ∀ i a, s.futures.ended (.source i) = some a → a = σ i

theorem ended_mono_apply {built : List (PromiseId ι × FutureExpr ι V)} {f g : Futures ι V}
    {b : FutureBuild ι V} {e : FutureExpr ι V} {p q : PromiseId ι} {a : Outcome V}
    (hb : b.apply built f = some (e, p, g)) (h : f.ended q = some a) : g.ended q = some a := by
  rcases apply_cases hb with ⟨i, -, -, rfl⟩ | ⟨o, -, -, rfl⟩ | ⟨_, _, _, -, -, -, rfl⟩ |
    ⟨members, -, -, hall⟩
  · exact h
  · exact Futures.ended_mono_settle (s := f.create.2) _ _ h
  · exact (Futures.ended_onFinished ..).trans h
  · have hmono := Futures.ended_mono_all (members.map Prod.fst) h
    rwa [hall] at hmono

theorem called_apply {built : List (PromiseId ι × FutureExpr ι V)} {f g : Futures ι V}
    {b : FutureBuild ι V} {e : FutureExpr ι V} {p : PromiseId ι}
    (hb : b.apply built f = some (e, p, g)) : g.called = f.called := by
  rcases apply_cases hb with ⟨i, -, -, rfl⟩ | ⟨o, -, -, rfl⟩ | ⟨_, _, _, -, -, -, rfl⟩ |
    ⟨members, -, -, hall⟩
  · rfl
  · rfl
  · rfl
  · have hcalled := f.called_all (members.map Prod.fst)
    rwa [hall] at hcalled

theorem ended_source_apply {built : List (PromiseId ι × FutureExpr ι V)} {f g : Futures ι V}
    {b : FutureBuild ι V} {e : FutureExpr ι V} {p : PromiseId ι}
    (hb : b.apply built f = some (e, p, g)) (i : ι) :
    g.ended (.source i) = f.ended (.source i) := by
  rcases apply_cases hb with ⟨i, -, -, rfl⟩ | ⟨o, -, -, rfl⟩ | ⟨_, _, _, -, -, -, rfl⟩ |
    ⟨members, -, -, hall⟩
  · rfl
  · exact Futures.ended_settle_of_ne f.create.2 _ (by simp)
  · exact Futures.ended_onFinished ..
  · have hsource := f.ended_source_all (members.map Prod.fst) i
    rwa [hall] at hsource

theorem ended_mono_step {s s' : FutureSystem ι V} {ev : FutureEvent ι V}
    (hs : s.step ev = some s') {q : PromiseId ι} {a : Outcome V}
    (h : s.futures.ended q = some a) : s'.futures.ended q = some a := by
  cases ev with
  | build b =>
      obtain ⟨⟨e, p, futures⟩, hb, rfl⟩ := Option.map_eq_some_iff.mp hs
      exact ended_mono_apply hb h
  | settle i o =>
      cases hs
      exact Futures.ended_mono_settle _ _ h
  | runTask returned value =>
      obtain ⟨futures, ht, rfl⟩ := Option.map_eq_some_iff.mp hs
      obtain ⟨⟨⟨p, callback⟩, f⟩, hpop, rfl⟩ := Option.map_eq_some_iff.mp ht
      refine Futures.ended_mono_invoke ?_ _ _ _ _
      obtain ⟨-, -, hfp, -⟩ := Futures.pop_some hpop
      simpa only [Futures.ended, hfp] using h

theorem Kept.step (s : FutureSystem ι V) (ev : FutureEvent ι V) (s' : FutureSystem ι V)
    (h : ∀ σ, s.Agrees σ → Kept σ s) (hfn : s.UserFns ev) (hs : s.step ev = some s') (σ)
    (hσ : s'.Agrees σ) : Kept σ s' := by
  have hkept := h σ fun i a ha => hσ i a (ended_mono_step hs ha)
  cases ev with
  | build b =>
      obtain ⟨⟨e, p, futures⟩, hb, rfl⟩ := Option.map_eq_some_iff.mp hs
      exact hkept.build hb
  | settle i o =>
      cases hs
      exact hkept.settle i o (hσ i)
  | runTask returned value =>
      obtain ⟨futures, ht, rfl⟩ := Option.map_eq_some_iff.mp hs
      exact hkept.runTask hfn ht

/-! ## When nothing is left to do -/

section Idle
variable (h : Kept σ s) (hempty : s.futures.dispatched = [])
include h hempty

/-- A call whose operands are all finished is finished, and has called its user function. -/
theorem Kept.idle {k : Nat} {p : PromiseId ι} {e : FutureExpr ι V}
    (hk : s.built[k]? = some (p, e))
    (hsource : ∀ i, e = .source i → (s.futures.ended (.source i)).isSome = true)
    (hattached : ∀ q future callback, e.attaches k q p = some (future, callback) →
      (q, future) ∈ s.built → (s.futures.ended q).isSome = true)
    (hreturned : ∀ q future isVoid, e.returns σ = some (future, isVoid) →
      (q, future) ∈ s.built → (s.futures.ended q).isSome = true)
    (hsame : ∀ q future, e.same = some future →
      (q, future) ∈ s.built → (s.futures.ended q).isSome = true)
    (hall : ∀ members : List (PromiseId ι × FutureExpr ι V),
      e = .allOf (members.map Prod.snd) → (∀ m ∈ members, m ∈ s.built) →
        ∀ m ∈ members, (s.futures.ended m.1).isSome = true) :
    (s.futures.ended p).isSome = true ∧ s.futures.called.count k = (e.reached σ).toNat := by
  obtain ⟨owed, hlink, howed⟩ := h.links k p e hk
  -- nothing that a call still owns waits at a finished promise
  have hnone : ∀ x ∈ owed, x.2.owner = some k → (s.futures.ended x.1).isSome = false := by
    intro x hx howner
    by_contra hsome
    have hpos := List.count_pos_iff.mpr hx
    rw [← howed x howner, Futures.pending_of_finished hempty
      (Bool.eq_true_of_not_eq_false hsome)] at hpos
    exact Nat.lt_irrefl 0 hpos
  generalize hcount : s.futures.called.count k = n at hlink
  cases hlink with
  | source i he hp =>
      subst he hp
      exact ⟨hsource i rfl, rfl⟩
  | waiting q future callback he hp hq =>
      have := hnone (q, callback) (List.mem_singleton_self _) (FutureExpr.attaches_owner he)
      rw [hattached q future callback he hq] at this
      cases this
  | forward ret isVoid retExpr hret hmem hp =>
      have := hnone _ (List.mem_singleton_self _) (by rw [hp]; rfl)
      rw [hreturned ret retExpr isVoid hret hmem] at this
      cases this
  | all todo done members he hp hmembers hlength hperm hopen =>
      refine ⟨?_, by rw [he]; rfl⟩
      by_contra hsome
      obtain ⟨htodo, -⟩ := hopen (by simpa using hsome)
      obtain ⟨m, hm⟩ := List.exists_mem_of_ne_nil _ htodo
      have := hnone (allTask k m) (List.mem_map_of_mem hm) rfl
      have hmem : m ∈ members := hperm.subset (List.mem_append_right _ hm)
      rw [allTask, hall members he hmembers m hmem] at this
      cases this
  | same e' he hmem => exact ⟨hsame p e' he hmem, rfl⟩
  | finished hp => exact ⟨hp, rfl⟩

/-- By induction on the expression: its future is finished once the sources it needs are. -/
theorem Kept.finished (e : FutureExpr ι V) :
    ∀ {k : Nat} {p : PromiseId ι}, s.built[k]? = some (p, e) →
      (∀ i, e.Needs σ i → (s.futures.ended (.source i)).isSome = true) →
      (s.futures.ended p).isSome = true ∧ s.futures.called.count k = (e.reached σ).toNat := by
  induction e with
  | source i =>
      intro k p hk hneeds
      refine h.idle hempty hk ?_ (fun _ _ _ he => by cases he)
        (fun _ _ _ he => by cases he) (fun _ _ he => by cases he) (fun _ he => by cases he)
      intro j hj
      cases hj
      exact hneeds i rfl
  | settled o =>
      intro k p hk _
      exact h.idle hempty hk (fun _ he => by cases he) (fun _ _ _ he => by cases he)
        (fun _ _ _ he => by cases he) (fun _ _ he => by cases he) (fun _ he => by cases he)
  | thenFuture isVoid future fn ih ihfn =>
      intro k p hk hneeds
      refine h.idle hempty hk (fun _ he => by cases he) (fun q _ _ he hq => ?_)
        (fun q _ _ he hq => ?_) (fun _ _ he => by cases he) (fun _ he => by cases he)
      · cases he
        obtain ⟨j, hj⟩ := List.getElem?_of_mem hq
        exact (ih hj fun i hi => hneeds i (Or.inl hi)).1
      · cases hv : future.outcome σ with
        | success v =>
            simp only [FutureExpr.returns, hv] at he
            cases he
            obtain ⟨j, hj⟩ := List.getElem?_of_mem hq
            exact (ihfn v hj fun i hi => hneeds i (Or.inr ⟨v, hv, hi⟩)).1
        | error => simp [FutureExpr.returns, hv] at he
  | thenValue future fn ih =>
      intro k p hk hneeds
      refine h.idle hempty hk (fun _ he => by cases he) (fun q _ _ he hq => ?_)
        (fun _ _ _ he => by cases he) (fun _ _ he => by cases he) (fun _ he => by cases he)
      cases he
      obtain ⟨j, hj⟩ := List.getElem?_of_mem hq
      exact (ih hj hneeds).1
  | onError isVoid future fn ih ihfn =>
      intro k p hk hneeds
      refine h.idle hempty hk (fun _ he => by cases he) (fun q _ _ he hq => ?_)
        (fun q _ _ he hq => ?_) (fun _ _ he => by cases he) (fun _ he => by cases he)
      · cases he
        obtain ⟨j, hj⟩ := List.getElem?_of_mem hq
        exact (ih hj fun i hi => hneeds i (Or.inl hi)).1
      · cases hv : future.outcome σ with
        | success v => simp [FutureExpr.returns, hv] at he
        | error =>
            simp only [FutureExpr.returns, hv, Outcome.ok_error, Bool.false_eq_true,
              if_false] at he
            cases he
            obtain ⟨j, hj⟩ := List.getElem?_of_mem hq
            exact (ihfn hj fun i hi => hneeds i (Or.inr ⟨hv, hi⟩)).1
  | onErrorVoid isVoid future ih =>
      intro k p hk hneeds
      have hfuture : ∀ q, (q, future) ∈ s.built → (s.futures.ended q).isSome = true := by
        intro q hq
        obtain ⟨j, hj⟩ := List.getElem?_of_mem hq
        exact (ih hj hneeds).1
      refine h.idle hempty hk (fun _ he => by cases he) (fun q _ _ he hq => ?_)
        (fun q _ _ he hq => ?_) (fun _ _ he => by cases he) (fun _ he => by cases he)
      · cases he
        exact hfuture q hq
      · simp only [FutureExpr.returns] at he
        split at he
        · cases he
        · cases he
          exact hfuture q hq
  | doFinally future ih =>
      intro k p hk hneeds
      have hfuture : ∀ q, (q, future) ∈ s.built → (s.futures.ended q).isSome = true := by
        intro q hq
        obtain ⟨j, hj⟩ := List.getElem?_of_mem hq
        exact (ih hj hneeds).1
      refine h.idle hempty hk (fun _ he => by cases he) (fun q _ _ he hq => ?_)
        (fun _ _ _ he => by cases he) (fun q _ he hq => ?_) (fun _ he => by cases he)
      · cases he
        exact hfuture q hq
      · cases he
        exact hfuture q hq
  | all n collection ih =>
      intro k p hk hneeds
      have hmember : ∀ j q, (q, collection j) ∈ s.built → (s.futures.ended q).isSome = true := by
        intro j q hq
        obtain ⟨l, hl⟩ := List.getElem?_of_mem hq
        exact (ih j hl fun i hi => hneeds i ⟨j, hi⟩).1
      refine h.idle hempty hk (fun _ he => by cases he) (fun _ _ _ he => by cases he)
        (fun _ _ _ he => by cases he) (fun q _ he hq => ?_) (fun members he hbuilt m hm => ?_)
      · obtain ⟨j, rfl⟩ := FutureExpr.same_all he
        exact hmember j q hq
      · obtain ⟨rfl, hcollection⟩ := FutureExpr.all.inj he
        have hget : collection = (members.map Prod.snd).get := eq_of_heq hcollection
        obtain ⟨j, hj⟩ := List.get_of_mem (List.mem_map_of_mem (f := Prod.snd) hm)
        refine hmember j m.1 ?_
        rw [hget, hj]
        exact hbuilt m hm

end Idle

end Kept

/-- **Combinators are schedule independent.**  In every run of combinator calls, of sources being
settled and of dispatched tasks, in any order: when the queue is empty and the sources that an
expression needs are settled, its future is finished with the outcome of the expression, and its
user function has been called once if the outcomes reach it and never otherwise. -/
theorem schedule_independent (es : List (FutureEvent ι V)) (hfn : Each step UserFns {} es)
    (s : FutureSystem ι V) (hs : run step {} es = some s) (hempty : s.futures.dispatched = [])
    (k : Nat) (p : PromiseId ι) (e : FutureExpr ι V) (hk : s.built[k]? = some (p, e))
    (hsettled : ∀ i, e.Needs s.sourceOutcome i →
      (s.futures.promises (.source i)).finished = true) :
    (s.futures.promises p).finished = true ∧
      (s.futures.promises p).outcome = e.outcome s.sourceOutcome ∧
      s.futures.called.count k = if e.reached s.sourceOutcome then 1 else 0 := by
  have hkept : Kept s.sourceOutcome s := by
    refine run_each_invariant (I := fun s => ∀ σ, s.Agrees σ → Kept σ s) Kept.step
      (fun σ _ => Kept.start σ) hfn hs _ fun i a ha => ?_
    exact (Promise.ended_eq_some.mp ha).2.symm
  obtain ⟨hended, hcount⟩ := hkept.finished hempty e hk fun i hi => by
    rw [Futures.ended, Promise.ended_isSome]
    exact hsettled i hi
  rw [Futures.ended, Promise.ended_isSome] at hended
  refine ⟨hended, ?_, hcount.trans (by cases e.reached s.sourceOutcome <;> rfl)⟩
  rw [hkept.ended p _ (Futures.ended_of_finished hended)]
  exact (hkept.outcome _ (List.mem_of_getElem? hk)).symm

/-- Two sources, the first with a `then` whose function returns the future of the second. -/
theorem schedule_independent_then :
    ∃ s : FutureSystem Nat Nat, run step {}
        [.build (.source 0), .build (.source 1), .build (.thenFuture false 0 fun _ => .source 1),
          .settle 0 (.success (some 3)), .runTask (.source 1) none,
          .settle 1 (.success (some 7)), .runTask (.source 1) none] = some s ∧
      (s.futures.promises (.derived 2)).finished = true ∧
      (s.futures.promises (.derived 2)).outcome = .success (some 7) ∧
      s.futures.called.count 2 = 1 := by
  refine ⟨_, rfl, schedule_independent
    [.build (.source 0), .build (.source 1), .build (.thenFuture false 0 fun _ => .source 1),
      .settle 0 (.success (some 3)), .runTask (.source 1) none,
      .settle 1 (.success (some 7)), .runTask (.source 1) none]
    ?_ _ rfl rfl 2 (.derived 2) (.thenFuture false (.source 0) fun _ => .source 1) rfl ?_⟩
  · refine .cons rfl trivial (.cons rfl trivial (.cons rfl trivial (.cons rfl trivial
      (.cons rfl ?_ (.cons rfl trivial (.cons rfl ?_ trivial))))))
    · intro p callback fn self hhead hcall
      cases hhead
      cases hcall
      exact List.mem_of_getElem? (i := 1) rfl
    · intro p callback fn self hhead hcall
      cases hhead
      cases hcall
  · rintro i (rfl | ⟨_, _, rfl⟩) <;> rfl

end FutureSystem

end EspIot
