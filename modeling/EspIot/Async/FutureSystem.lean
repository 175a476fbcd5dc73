/-
# `EspIot.Async.FutureSystem` — combinator calls and tasks in any order

The combinators are called one by one, on futures that exist already; the sources are
settled; the dispatcher runs its tasks one at a time.  All of it in any order, so that a
combinator meets futures that are unfinished, finished, or finished with their callbacks still
in the queue.  What a user function returns is a future that was built, before or during the
call, for the expression the function stands for.

Call `k` of a combinator owns the callbacks that it has attached, and those attached on its
behalf.  `Link` says where call `k` stands: what it still owns among the waiting callbacks and
how often its user function has been called.
-/
import EspIot.Async.FutureExpr
import EspIot.Lib.Lists
import EspIot.Lib.Run

namespace EspIot

open Lib

/-- A call of a combinator; a future is given by the number of the call that returned it. -/
inductive FutureBuild (ι V : Type*)
  | source (i : ι)
  | settled (o : Outcome V)
  | thenFuture (isVoid : Bool) (future : Nat) (fn : Option V → FutureExpr ι V)
  | thenValue (future : Nat) (fn : Option V → Option V)
  | onError (isVoid : Bool) (future : Nat) (fn : FutureExpr ι V)
  | onErrorVoid (isVoid : Bool) (future : Nat)
  | doFinally (future : Nat)
  | all (collection : List Nat)

/-- `runTask` comes with what the user function of the task returns, if it calls one. -/
inductive FutureEvent (ι V : Type*)
  | build (b : FutureBuild ι V)
  | settle (i : ι) (o : Outcome V)
  | runTask (returned : PromiseId ι) (value : Option V)

/-- The promises, and what each combinator call so far returned with the expression it was
called for. -/
structure FutureSystem (ι V : Type*) where
  futures : Futures ι V := Futures.start
  built : List (PromiseId ι × FutureExpr ι V) := []

namespace FutureBuild

variable {ι V : Type*} [DecidableEq ι]

/-- The call, on the futures built so far. -/
def apply (built : List (PromiseId ι × FutureExpr ι V)) (s : Futures ι V) :
    FutureBuild ι V → Option (FutureExpr ι V × PromiseId ι × Futures ι V)
  | source i => some (.source i, s.ofSource i)
  | settled o => some (.settled o, s.settled o)
  | thenFuture isVoid future fn =>
      built[future]?.map fun (p, e) => (.thenFuture isVoid e fn, s.thenFuture isVoid p)
  | thenValue future fn =>
      built[future]?.map fun (p, e) => (.thenValue e fn, s.thenValue p)
  | onError isVoid future fn =>
      built[future]?.map fun (p, e) => (.onError isVoid e fn, s.onError isVoid p)
  | onErrorVoid isVoid future =>
      built[future]?.map fun (p, e) => (.onErrorVoid isVoid e, s.onError isVoid p)
  | doFinally future =>
      built[future]?.map fun (p, e) => (.doFinally e, s.doFinally p)
  | all collection =>
      (collection.mapM fun future => built[future]?).map fun members =>
        (.allOf (members.map Prod.snd), s.all (members.map Prod.fst))

end FutureBuild

namespace FutureCallback

variable {ι : Type*}

def owner : FutureCallback ι → Option Nat
  | thenFuture _ fn _ _ => some fn
  | thenValue _ fn _ => some fn
  | onError _ fn _ _ => some fn
  | forward _ _ (.derived k) => some k
  | forward _ _ (.source _) => none
  | doFinally _ fn => some fn
  | all countLeft _ => some countLeft

end FutureCallback

theorem FutureExpr.attaches_owner {ι V : Type*} {e future : FutureExpr ι V} {k : Nat}
    {q p : PromiseId ι} {callback : FutureCallback ι}
    (h : e.attaches k q p = some (future, callback)) : callback.owner = some k := by
  cases e <;> cases h <;> rfl

namespace FutureSystem

variable {ι V : Type*} [DecidableEq ι]

def step (s : FutureSystem ι V) : FutureEvent ι V → Option (FutureSystem ι V)
  | .build b =>
      (b.apply s.built s.futures).map fun (e, p, futures) =>
        { futures, built := s.built ++ [(p, e)] }
  | .settle i o => some { s with futures := s.futures.settle (.source i) o }
  | .runTask returned value =>
      (s.futures.processPendingTasks returned value).map fun futures => { s with futures }

/-- What the user function of call `fn` returns is what its expression says. -/
def Returns (s : FutureSystem ι V) (fn : Nat) (self : PromiseId ι) (returned : PromiseId ι)
    (value : Option V) : Prop :=
  match s.built[fn]? with
  | some (_, .thenFuture _ _ f) => (returned, f (s.futures.promises self).result) ∈ s.built
  | some (_, .thenValue _ f) => value = f (s.futures.promises self).result
  | some (_, .onError _ _ f) => (returned, f) ∈ s.built
  | some (_, .onErrorVoid _ _) => returned = self
  | _ => True

/-- The user functions that are called return what their expressions say. -/
def UserFns (s : FutureSystem ι V) : FutureEvent ι V → Prop
  | .runTask returned value =>
      ∀ p callback fn self, s.futures.dispatched.head? = some (p, callback) →
        callback.userFn (s.futures.promises p).success = some (fn, self) →
          s.Returns fn self returned value
  | _ => True

def sourceOutcome (s : FutureSystem ι V) (i : ι) : Outcome V :=
  (s.futures.promises (.source i)).outcome

/-- The outcome a promise is to have when the sources have the outcomes `σ`. -/
def want (s : FutureSystem ι V) (σ : ι → Outcome V) : PromiseId ι → Outcome V
  | .source i => σ i
  | .derived k =>
      match s.built[k]? with
      | some (_, e) => e.outcome σ
      | none => .error

/-! ## The invariant -/

/-- The callback of call `k` of `all` at a member. -/
def allTask (k : Nat) (m : PromiseId ι × FutureExpr ι V) : PromiseId ι × FutureCallback ι :=
  (m.1, .all k (.derived k))

/-- Where call `k` stands, which returned `p` for the expression `e`: the callbacks it owns, and
how often its user function has been called. -/
inductive Link (σ : ι → Outcome V) (s : FutureSystem ι V) (k : Nat) (p : PromiseId ι)
    (e : FutureExpr ι V) : List (PromiseId ι × FutureCallback ι) → Nat → Prop
  | source (i : ι) (he : e = .source i) (hp : p = .source i) : Link σ s k p e [] 0
  | waiting (q : PromiseId ι) (future : FutureExpr ι V) (callback : FutureCallback ι)
      (he : e.attaches k q p = some (future, callback)) (hp : p = e.attached k q)
      (hq : (q, future) ∈ s.built) : Link σ s k p e [(q, callback)] 0
  | forward (ret : PromiseId ι) (isVoid : Bool) (retExpr : FutureExpr ι V)
      (hret : e.returns σ = some (retExpr, isVoid)) (hmem : (ret, retExpr) ∈ s.built)
      (hp : p = .derived k) : Link σ s k p e [(ret, .forward ret isVoid p)] 1
  | all (todo done : List (PromiseId ι × FutureExpr ι V))
      (members : List (PromiseId ι × FutureExpr ι V)) (he : e = .allOf (members.map Prod.snd))
      (hp : p = .derived k) (hmembers : ∀ m ∈ members, m ∈ s.built)
      (hlength : 2 ≤ members.length) (hperm : (done ++ todo).Perm members)
      (hopen : s.futures.ended p = none → todo ≠ [] ∧ s.futures.countLeft k = todo.length ∧
        ∀ m ∈ done, (m.2.outcome σ).ok = true) :
      Link σ s k p e (todo.map (allTask k)) 0
  | same (e' : FutureExpr ι V) (he : e.same = some e') (hmem : (p, e') ∈ s.built) :
      Link σ s k p e [] (e.reached σ).toNat
  | finished (hp : (s.futures.ended p).isSome = true) : Link σ s k p e [] (e.reached σ).toNat

/-- The invariant, for the outcomes `σ` of the sources. -/
structure Kept (σ : ι → Outcome V) (s : FutureSystem ι V) : Prop where
  length : s.built.length = s.futures.calls
  below : ∀ x ∈ s.built, ∀ n, x.1 = .derived n → n < s.built.length
  fresh : ∀ n, s.built.length ≤ n → s.futures.ended (.derived n) = none
  ended : ∀ p o, s.futures.ended p = some o → o = s.want σ p
  outcome : ∀ x ∈ s.built, x.2.outcome σ = s.want σ x.1
  owned : ∀ x, 0 < s.futures.pending x → ∃ k < s.built.length, x.2.owner = some k
  called : ∀ k ∈ s.futures.called, k < s.built.length
  links : ∀ k p e, s.built[k]? = some (p, e) →
    ∃ owed, Link σ s k p e owed (s.futures.called.count k) ∧
      ∀ x, x.2.owner = some k → s.futures.pending x = owed.count x

/-! ## Links -/

omit [DecidableEq ι] in
theorem Link.mono {σ : ι → Outcome V} {s s' : FutureSystem ι V} {k : Nat} {p : PromiseId ι}
    {e : FutureExpr ι V} {owed : List (PromiseId ι × FutureCallback ι)} {n : Nat}
    (h : Link σ s k p e owed n) (hbuilt : s.built ⊆ s'.built)
    (hended : ∀ q a, s.futures.ended q = some a → s'.futures.ended q = some a)
    (hleft : s'.futures.countLeft k = s.futures.countLeft k) : Link σ s' k p e owed n := by
  cases h with
  | source i he hp => exact .source i he hp
  | waiting q future callback he hp hq => exact .waiting q future callback he hp (hbuilt hq)
  | forward ret isVoid retExpr hret hmem hp =>
      exact .forward ret isVoid retExpr hret (hbuilt hmem) hp
  | all todo done members he hp hmembers hlength hperm hopen =>
      refine .all todo done members he hp (fun m hm => hbuilt (hmembers m hm)) hlength hperm ?_
      intro hnone
      rw [hleft]
      refine hopen ?_
      cases ho : s.futures.ended p with
      | none => rfl
      | some a => rw [hended p a ho] at hnone; cases hnone
  | same e' he hmem => exact .same e' he (hbuilt hmem)
  | finished hp =>
      obtain ⟨a, ha⟩ := Option.isSome_iff_exists.mp hp
      exact .finished (by rw [hended p a ha]; rfl)

/-- Every way a combinator call can go. -/
theorem apply_cases {built : List (PromiseId ι × FutureExpr ι V)} {f g : Futures ι V}
    {b : FutureBuild ι V} {e : FutureExpr ι V} {p : PromiseId ι}
    (hb : b.apply built f = some (e, p, g)) :
    (∃ i, e = .source i ∧ p = .source i ∧ g = f.create.2) ∨
    (∃ o, e = .settled o ∧ p = .derived f.calls ∧
      g = f.create.2.settle (.derived f.calls) o) ∨
    (∃ q future callback, (q, future) ∈ built ∧
      e.attaches f.calls q (e.attached f.calls q) = some (future, callback) ∧
      p = e.attached f.calls q ∧ g = f.create.2.onFinished q callback) ∨
    (∃ members : List (PromiseId ι × FutureExpr ι V), (∀ m ∈ members, m ∈ built) ∧
      e = .allOf (members.map Prod.snd) ∧ f.all (members.map Prod.fst) = (p, g)) := by
  cases b with
  | source i =>
      cases hb
      exact Or.inl ⟨i, rfl, rfl, rfl⟩
  | settled o =>
      cases hb
      exact Or.inr (Or.inl ⟨o, rfl, rfl, rfl⟩)
  | all collection =>
      obtain ⟨members, hmembers, heq⟩ := Option.map_eq_some_iff.mp hb
      obtain ⟨rfl, hall⟩ := Prod.mk.inj heq
      refine Or.inr (Or.inr (Or.inr ⟨members, ?_, rfl, hall⟩))
      intro m hm
      obtain ⟨j, -, hj⟩ := mem_of_mapM hmembers m hm
      exact List.mem_of_getElem? hj
  | thenFuture isVoid future fn =>
      obtain ⟨x, hx, heq⟩ := Option.map_eq_some_iff.mp hb
      cases heq
      exact Or.inr (Or.inr (Or.inl ⟨x.1, x.2, _, List.mem_of_getElem? hx, rfl, rfl, rfl⟩))
  | thenValue future fn =>
      obtain ⟨x, hx, heq⟩ := Option.map_eq_some_iff.mp hb
      cases heq
      exact Or.inr (Or.inr (Or.inl ⟨x.1, x.2, _, List.mem_of_getElem? hx, rfl, rfl, rfl⟩))
  | onError isVoid future fn =>
      obtain ⟨x, hx, heq⟩ := Option.map_eq_some_iff.mp hb
      cases heq
      exact Or.inr (Or.inr (Or.inl ⟨x.1, x.2, _, List.mem_of_getElem? hx, rfl, rfl, rfl⟩))
  | onErrorVoid isVoid future =>
      obtain ⟨x, hx, heq⟩ := Option.map_eq_some_iff.mp hb
      cases heq
      exact Or.inr (Or.inr (Or.inl ⟨x.1, x.2, _, List.mem_of_getElem? hx, rfl, rfl, rfl⟩))
  | doFinally future =>
      obtain ⟨x, hx, heq⟩ := Option.map_eq_some_iff.mp hb
      cases heq
      exact Or.inr (Or.inr (Or.inl ⟨x.1, x.2, _, List.mem_of_getElem? hx, rfl, rfl, rfl⟩))

section Kept
variable {σ : ι → Outcome V} {s : FutureSystem ι V}

omit [DecidableEq ι] in
theorem want_derived {k : Nat} {p : PromiseId ι} {e : FutureExpr ι V}
    (hk : s.built[k]? = some (p, e)) : s.want σ (.derived k) = e.outcome σ := by
  simp [want, hk]

theorem Kept.popped (h : Kept σ s) {task : PromiseId ι × FutureCallback ι} {f : Futures ι V}
    (hpop : s.futures.pop = some (task, f)) :
    ∃ k p e owed rest, s.built[k]? = some (p, e) ∧ task.2.owner = some k ∧
      Link σ s k p e owed (s.futures.called.count k) ∧ owed.Perm (task :: rest) ∧
        ∀ x, x.2.owner = some k → s.futures.pending x = owed.count x := by
  obtain ⟨-, -, -, -, -, -, hpending⟩ := Futures.pop_some hpop
  have hpos : 0 < s.futures.pending task := by
    rw [hpending, List.count_singleton_self]
    omega
  obtain ⟨k, hk, howner⟩ := h.owned task hpos
  obtain ⟨⟨p, e⟩, hbuilt⟩ : ∃ x, s.built[k]? = some x := ⟨_, List.getElem?_eq_getElem hk⟩
  obtain ⟨owed, hlink, howed⟩ := h.links k p e hbuilt
  rw [howed task howner, List.count_pos_iff] at hpos
  exact ⟨k, p, e, owed, _, hbuilt, howner, hlink, List.perm_cons_erase hpos, howed⟩

omit [DecidableEq ι] in
theorem want_of_known {s' : FutureSystem ι V} (hbuilt : s.built <+: s'.built) {q : PromiseId ι}
    (hq : ∀ n, q = .derived n → n < s.built.length) : s'.want σ q = s.want σ q := by
  obtain ⟨more, hmore⟩ := hbuilt
  cases q with
  | source i => rfl
  | derived n => simp only [want, ← hmore, List.getElem?_append_left (hq n rfl)]

theorem Kept.ended_below (h : Kept σ s) {q : PromiseId ι} {a : Outcome V}
    (ha : s.futures.ended q = some a) : ∀ n, q = .derived n → n < s.built.length := by
  rintro n rfl
  by_contra hn
  rw [h.fresh n (Nat.not_lt.mp hn)] at ha
  cases ha

/-- Something happens on behalf of call `k`, which may be a new one: nothing but its promise is
settled, nothing but its user function is called, and it says what it owns afterwards. -/
theorem Kept.change (h : Kept σ s) {s' : FutureSystem ι V} {k : Nat}
    (hbuilt : s.built <+: s'.built) (hlength : s'.built.length = s'.futures.calls)
    (hk : k < s'.built.length)
    (hnew : ∀ j p e, s'.built[j]? = some (p, e) → s.built[j]? = some (p, e) ∨
      (j = k ∧ (∀ n, p = .derived n → n < s'.built.length) ∧ e.outcome σ = s'.want σ p))
    (hended : ∀ q, s'.futures.ended q = s.futures.ended q ∨
      (q = .derived k ∧ s'.futures.ended q = some (s'.want σ q)))
    (hcalled : ∀ j, j ≠ k → s'.futures.called.count j = s.futures.called.count j)
    (hleft : ∀ j, j ≠ k → s'.futures.countLeft j = s.futures.countLeft j)
    (hpending : ∀ x, x.2.owner ≠ some k → s'.futures.pending x = s.futures.pending x)
    (hlink : ∀ p e, s'.built[k]? = some (p, e) →
      ∃ owed, Link σ s' k p e owed (s'.futures.called.count k) ∧
        ∀ x, x.2.owner = some k → s'.futures.pending x = owed.count x) : Kept σ s' := by
  have hle := hbuilt.length_le
  have hold : ∀ x ∈ s'.built, x ∈ s.built ∨
      ((∀ n, x.1 = .derived n → n < s'.built.length) ∧ x.2.outcome σ = s'.want σ x.1) := by
    rintro ⟨p, e⟩ hx
    obtain ⟨j, hj⟩ := List.getElem?_of_mem hx
    exact (hnew j p e hj).imp List.mem_of_getElem? And.right
  have hwant : ∀ {q a}, s.futures.ended q = some a → s'.want σ q = s.want σ q := fun ha =>
    want_of_known hbuilt (h.ended_below ha)
  -- a promise that shows something keeps showing it
  have hmono : ∀ q a, s.futures.ended q = some a → s'.futures.ended q = some a := by
    intro q a ha
    rcases hended q with heq | ⟨-, heq⟩
    · rw [heq, ha]
    · rw [heq, h.ended _ a ha, hwant ha]
  refine ⟨hlength, ?_, ?_, ?_, ?_, ?_, ?_, ?_⟩
  · intro x hx n hn
    rcases hold x hx with hx | ⟨hlt, -⟩
    · exact Nat.lt_of_lt_of_le (h.below x hx n hn) hle
    · exact hlt n hn
  · intro n hn
    rcases hended (.derived n) with heq | ⟨heq, -⟩
    · exact heq.trans (h.fresh n (hle.trans hn))
    · cases heq
      exact absurd hk (Nat.not_lt.mpr hn)
  · intro q a ha
    rcases hended q with heq | ⟨-, heq⟩
    · rw [heq] at ha
      rw [hwant ha, h.ended q a ha]
    · exact Option.some.inj (ha.symm.trans heq)
  · intro x hx
    rcases hold x hx with hx | ⟨-, houtcome⟩
    · rw [h.outcome x hx, want_of_known hbuilt (h.below x hx)]
    · exact houtcome
  · intro x hx
    rcases eq_or_ne x.2.owner (some k) with heq | hne
    · exact ⟨k, hk, heq⟩
    · obtain ⟨j, hj, howner⟩ := h.owned x (hpending x hne ▸ hx)
      exact ⟨j, Nat.lt_of_lt_of_le hj hle, howner⟩
  · intro j hj
    rcases eq_or_ne j k with rfl | hne
    · exact hk
    · have hpos := List.count_pos_iff.mpr hj
      rw [hcalled j hne] at hpos
      exact Nat.lt_of_lt_of_le (h.called j (List.count_pos_iff.mp hpos)) hle
  · intro j p e hj
    rcases eq_or_ne j k with rfl | hne
    · exact hlink p e hj
    · obtain ⟨owed, howed, hcount⟩ := h.links j p e
        ((hnew j p e hj).resolve_right fun hjk => hne hjk.1)
      refine ⟨owed, ?_, ?_⟩
      · rw [hcalled j hne]
        exact howed.mono hbuilt.subset hmono (hleft j hne)
      · intro x hx
        rw [hpending x (by rw [hx]; simpa using hne)]
        exact hcount x hx

/-- A task of call `k` has run: it has called the user function `n` times, settled nothing but
the promise of call `k`, and attached `more`. -/
theorem Kept.advance (h : Kept σ s) (more : List (PromiseId ι × FutureCallback ι))
    {task : PromiseId ι × FutureCallback ι} {f g : Futures ι V}
    (hpop : s.futures.pop = some (task, f)) {k : Nat} {p : PromiseId ι}
    {e : FutureExpr ι V} {owed rest : List (PromiseId ι × FutureCallback ι)} {n : Nat}
    (hk : s.built[k]? = some (p, e)) (howner : task.2.owner = some k)
    (howed : ∀ x, x.2.owner = some k → s.futures.pending x = owed.count x)
    (hrest : owed.Perm (task :: rest)) (hcalls : g.calls = f.calls)
    (hcalled : g.called = f.called ++ List.replicate n k)
    (hleft : ∀ j, j ≠ k → g.countLeft j = f.countLeft j)
    (hended : ∀ q, g.ended q = f.ended q ∨
      (q = .derived k ∧ g.ended q = some (e.outcome σ)))
    (hmore : ∀ x ∈ more, x.2.owner = some k)
    (hpending : ∀ x, g.pending x = f.pending x + more.count x)
    (hlink : Link σ { s with futures := g } k p e (rest ++ more)
      (s.futures.called.count k + n)) : Kept σ { s with futures := g } := by
  obtain ⟨-, -, hfp, hfleft, hfcalls, hfcalled, hfpending⟩ := Futures.pop_some hpop
  have hfended : ∀ q, f.ended q = s.futures.ended q := fun q => by simp only [Futures.ended, hfp]
  have hcount : ∀ j, g.called.count j =
      s.futures.called.count j + if j = k then n else 0 := by
    intro j
    rw [hcalled, hfcalled, List.count_append, List.count_replicate]
    simp only [beq_iff_eq, eq_comm (a := k)]
  refine h.change (k := k) (List.prefix_refl _) (by rw [hcalls, hfcalls]; exact h.length)
    (List.getElem?_eq_some_iff.mp hk).1 (fun _ _ _ hj => Or.inl hj) (fun q => ?_)
    (fun j hj => ?_) (fun j hj => ?_) (fun x hx => ?_) fun p' e' hk' => ?_
  · rcases hended q with heq | ⟨rfl, heq⟩
    · exact Or.inl (heq.trans (hfended q))
    · exact Or.inr ⟨rfl, heq.trans (congrArg some (want_derived hk).symm)⟩
  · rw [hcount, if_neg hj, Nat.add_zero]
  · exact (hleft j hj).trans (by rw [hfleft])
  · have htask : x ≠ task := by
      rintro rfl
      exact hx howner
    rw [hpending, hfpending x, List.count_eq_zero.mpr fun hm => hx (hmore x hm),
      List.count_eq_zero.mpr fun hm => htask (List.mem_singleton.mp hm)]
  · rw [hk] at hk'
    cases hk'
    refine ⟨rest ++ more, ?_, ?_⟩
    · rw [hcount, if_pos rfl]
      exact hlink
    · intro x hx
      have hx' := howed x hx
      have hf := hfpending x
      rw [hrest.count_eq, List.count_cons] at hx'
      rw [hpending, List.count_append]
      rw [List.count_singleton] at hf
      omega

theorem Kept.advance_settle (h : Kept σ s) {task : PromiseId ι × FutureCallback ι}
    {f g : Futures ι V} (hpop : s.futures.pop = some (task, f)) {k : Nat}
    {e : FutureExpr ι V} {owed rest : List (PromiseId ι × FutureCallback ι)} {n : Nat}
    (hk : s.built[k]? = some (.derived k, e)) (howner : task.2.owner = some k)
    (howed : ∀ x, x.2.owner = some k → s.futures.pending x = owed.count x)
    (hrest : owed.Perm (task :: rest)) (hcalls : g.calls = f.calls)
    (hcalled : g.called = f.called ++ List.replicate n k)
    (hleft : ∀ j, j ≠ k → g.countLeft j = f.countLeft j)
    (hended : ∀ q, g.ended q = f.ended q) (hpending : ∀ x, g.pending x = f.pending x)
    {o : Outcome V} (ho : o = e.outcome σ)
    (hlink : ∀ s' : FutureSystem ι V, s.built = s'.built →
      (s'.futures.ended (.derived k)).isSome = true →
        Link σ s' k (.derived k) e rest (s.futures.called.count k + n)) :
    Kept σ { s with futures := g.settle (.derived k) o } := by
  obtain ⟨-, -, hfp, -⟩ := Futures.pop_some hpop
  have hself : (g.settle (.derived k) o).ended (.derived k) = some (e.outcome σ) := by
    rw [Futures.ended_settle_self, hended, ho]
    cases ha : f.ended (.derived k) with
    | none => rfl
    | some a =>
        rw [h.ended _ a (by simpa only [Futures.ended, hfp] using ha), want_derived hk]
        rfl
  refine h.advance [] hpop hk howner howed hrest hcalls hcalled hleft ?_ (by simp) ?_ ?_
  · intro q
    rcases eq_or_ne q (.derived k) with rfl | hne
    · exact Or.inr ⟨rfl, hself⟩
    · rw [Futures.ended_settle_of_ne _ _ hne, hended]
      exact Or.inl rfl
  · intro x
    rw [Futures.pending_settle, hpending]
    rfl
  · rw [List.append_nil]
    exact hlink _ rfl (by rw [hself]; rfl)

theorem Kept.task_outcome (h : Kept σ s) {task : PromiseId ι × FutureCallback ι}
    {f : Futures ι V} (hpop : s.futures.pop = some (task, f)) {future : FutureExpr ι V}
    (hq : (task.1, future) ∈ s.built) :
    (f.promises task.1).outcome = future.outcome σ ∧
      (f.promises task.1).success = (future.outcome σ).ok := by
  obtain ⟨-, hfin, hfp, -⟩ := Futures.pop_some hpop
  have hout : (f.promises task.1).outcome = future.outcome σ := by
    rw [hfp, h.ended _ _ (Futures.ended_of_finished hfin), h.outcome _ hq]
  exact ⟨hout, by rw [← hout, Promise.outcome_ok]⟩

/-- The user function of call `k` has returned a future, and its outcome will be forwarded. -/
theorem Kept.advance_forward (h : Kept σ s) {task : PromiseId ι × FutureCallback ι}
    {f : Futures ι V} (hpop : s.futures.pop = some (task, f)) {k : Nat} {e : FutureExpr ι V}
    (hk : s.built[k]? = some (.derived k, e)) (howner : task.2.owner = some k)
    (howed : ∀ x, x.2.owner = some k → s.futures.pending x = [task].count x)
    (hcount : s.futures.called.count k = 0) {retExpr : FutureExpr ι V} {isVoid : Bool}
    (hret : e.returns σ = some (retExpr, isVoid)) {returned : PromiseId ι}
    (hmem : (returned, retExpr) ∈ s.built) :
    Kept σ { s with
      futures := (f.call k).onFinished returned (.forward returned isVoid (.derived k)) } := by
  refine h.advance [(returned, .forward returned isVoid (.derived k))] (n := 1) hpop hk
    howner howed (List.Perm.refl _) rfl rfl (fun _ _ => rfl) (fun q => Or.inl ?_) ?_
    (fun x => Futures.pending_onFinished ..) ?_
  · exact Futures.ended_onFinished ..
  · intro x hx
    rw [List.mem_singleton.mp hx]
    rfl
  · rw [hcount]
    exact .forward returned isVoid retExpr hret hmem rfl

theorem Kept.waiting (h : Kept σ s) {q : PromiseId ι} {callback : FutureCallback ι}
    {f : Futures ι V} (hpop : s.futures.pop = some ((q, callback), f)) {k : Nat}
    {p : PromiseId ι} {e future : FutureExpr ι V} (hk : s.built[k]? = some (p, e))
    (he : e.attaches k q p = some (future, callback)) (hp : p = e.attached k q)
    (hq : (q, future) ∈ s.built) (howner : callback.owner = some k)
    (howed : ∀ x, x.2.owner = some k → s.futures.pending x = [(q, callback)].count x)
    (hcount : s.futures.called.count k = 0) {returned : PromiseId ι} {value : Option V}
    (hfn : s.UserFns (.runTask returned value)) :
    Kept σ { s with
      futures := f.invoke (f.promises q).success returned value callback } := by
  obtain ⟨hout, hok⟩ := h.task_outcome hpop hq
  obtain ⟨hhead, -, hfp, -⟩ := Futures.pop_some hpop
  have hcalls : ∀ fn self, callback.userFn (future.outcome σ).ok = some (fn, self) →
      s.Returns fn self returned value := by
    intro fn self hu
    refine hfn q callback fn self hhead ?_
    rw [← hfp, hok, hu]
  have hresult : ∀ v, future.outcome σ = .success v → (s.futures.promises q).result = v := by
    intro v hv
    rw [← hfp]
    rw [hv] at hout hok
    simpa [Promise.outcome, hok] using hout
  -- the promise of the call is settled, and the user function has been called `n` times
  have hsettles : ∀ {g : Futures ι V} {o : Outcome V} (n : Nat), p = .derived k →
      g.calls = f.calls → g.called = f.called ++ List.replicate n k →
      (∀ j, j ≠ k → g.countLeft j = f.countLeft j) → (∀ r, g.ended r = f.ended r) →
      (∀ x, g.pending x = f.pending x) → o = e.outcome σ → n = (e.reached σ).toNat →
      Kept σ { s with futures := g.settle p o } := by
    intro g o n hpk hc hcd hl hend hpend ho hn
    subst hpk
    refine h.advance_settle hpop hk howner howed (List.Perm.refl _) hc hcd hl hend hpend ho ?_
    intro s' _ hended
    rw [hcount, Nat.zero_add, hn]
    exact .finished hended
  -- the callback passes the outcome on, and calls nothing
  have hpasses : ∀ {o : Outcome V}, p = .derived k → o = e.outcome σ → e.reached σ = false →
      Kept σ { s with futures := f.settle p o } := by
    intro o hpk ho hnot
    refine hsettles 0 hpk rfl ?_ (fun _ _ => rfl) (fun _ => rfl) (fun _ => rfl) ho ?_
    · rw [List.replicate_zero, List.append_nil]
    · rw [hnot]
      rfl
  cases e with
  | thenFuture isVoid future' fn =>
      cases he
      have hp' : p = .derived k := hp
      simp only [Futures.invoke, hok]
      cases hv : future.outcome σ with
      | success v =>
          subst hp'
          have hret := hcalls k q (by rw [hv]; rfl)
          simp only [Returns, hk, hresult v hv] at hret
          exact h.advance_forward hpop hk howner howed hcount
            (by simp only [FutureExpr.returns, hv]) hret
      | error =>
          exact hpasses hp' (by simp only [FutureExpr.outcome, hv])
            (by simp [FutureExpr.reached, hv])
  | thenValue future' fn =>
      cases he
      have hp' : p = .derived k := hp
      simp only [Futures.invoke, hok]
      cases hv : future.outcome σ with
      | success v =>
          have hret := hcalls k q (by rw [hv]; rfl)
          simp only [Returns, hk, hresult v hv] at hret
          exact hsettles 1 hp' rfl rfl (fun _ _ => rfl) (fun _ => rfl) (fun _ => rfl)
            (by simp only [FutureExpr.outcome, hv, hret]) (by simp [FutureExpr.reached, hv])
      | error =>
          exact hpasses hp' (by simp only [FutureExpr.outcome, hv])
            (by simp [FutureExpr.reached, hv])
  | onError isVoid future' fn =>
      cases he
      have hp' : p = .derived k := hp
      simp only [Futures.invoke, hok]
      cases hv : future.outcome σ with
      | success v =>
          refine hpasses hp' ?_ (by simp [FutureExpr.reached, hv])
          rw [Futures.passed_eq isVoid (by rw [hok, hv]; rfl), hout, hv]
          simp only [FutureExpr.outcome, hv]
      | error =>
          subst hp'
          have hret := hcalls k q (by rw [hv]; rfl)
          simp only [Returns, hk] at hret
          exact h.advance_forward hpop hk howner howed hcount
            (by simp [FutureExpr.returns, hv]) hret
  | onErrorVoid isVoid future' =>
      cases he
      have hp' : p = .derived k := hp
      simp only [Futures.invoke, hok]
      cases hv : future.outcome σ with
      | success v =>
          refine hpasses hp' ?_ (by simp [FutureExpr.reached, hv])
          rw [Futures.passed_eq isVoid (by rw [hok, hv]; rfl), hout, hv]
          simp only [FutureExpr.outcome, hv]
      | error =>
          subst hp'
          have hret := hcalls k q (by rw [hv]; rfl)
          simp only [Returns, hk] at hret
          subst hret
          exact h.advance_forward hpop hk howner howed hcount
            (by simp [FutureExpr.returns, hv]) hq
  | doFinally future' =>
      cases he
      have hp' : p = q := hp
      subst hp'
      refine h.advance [] (n := 1) hpop hk howner howed (List.Perm.refl _) rfl rfl
        (fun _ _ => rfl) (fun _ => Or.inl rfl) (by simp) (fun _ => rfl) ?_
      rw [hcount]
      exact .same future rfl hq
  | source i => cases he
  | settled o => cases he
  | all n collection => cases he

theorem Kept.forwarding (h : Kept σ s) {ret : PromiseId ι} {isVoid : Bool} {k : Nat}
    {f : Futures ι V}
    (hpop : s.futures.pop = some ((ret, .forward ret isVoid (.derived k)), f))
    {e retExpr : FutureExpr ι V} (hk : s.built[k]? = some (.derived k, e))
    (hret : e.returns σ = some (retExpr, isVoid)) (hmem : (ret, retExpr) ∈ s.built)
    (howed : ∀ x, x.2.owner = some k → s.futures.pending x =
      [((ret, .forward ret isVoid (.derived k)) : PromiseId ι × FutureCallback ι)].count x)
    (hcount : s.futures.called.count k = 1) (returned : PromiseId ι) (value : Option V) :
    Kept σ { s with
      futures := f.invoke (f.promises ret).success returned value
        (.forward ret isVoid (.derived k)) } := by
  obtain ⟨hout, hok⟩ := h.task_outcome hpop hmem
  obtain ⟨heq, hreached⟩ := FutureExpr.outcome_returns hret
  have hsettles : ∀ {o : Outcome V}, o = e.outcome σ →
      Kept σ { s with futures := f.settle (.derived k) o } := by
    intro o ho
    refine h.advance_settle (n := 0) hpop hk rfl howed (List.Perm.refl _) rfl (by simp)
      (fun _ _ => rfl) (fun _ => rfl) (fun _ => rfl) ho ?_
    intro s' _ hended
    rw [hcount]
    have hlink : Link σ s' k (.derived k) e [] (e.reached σ).toNat := .finished hended
    simpa [hreached] using hlink
  simp only [Futures.invoke, hok]
  cases hv : retExpr.outcome σ with
  | success v =>
      refine hsettles ?_
      rw [Futures.passed_eq isVoid (by rw [hok, hv]; rfl), hout, heq]
  | error =>
      refine hsettles ?_
      rw [heq, hv, Outcome.asType_error]

theorem Kept.counting (h : Kept σ s) {m : PromiseId ι × FutureExpr ι V} {k : Nat}
    {f : Futures ι V} (hpop : s.futures.pop = some (allTask k m, f)) {e : FutureExpr ι V}
    (hk : s.built[k]? = some (.derived k, e))
    {before after done members : List (PromiseId ι × FutureExpr ι V)}
    (he : e = .allOf (members.map Prod.snd)) (hmembers : ∀ m ∈ members, m ∈ s.built)
    (hlength : 2 ≤ members.length) (hperm : (done ++ (before ++ m :: after)).Perm members)
    (hopen : s.futures.ended (.derived k) = none →
      s.futures.countLeft k = (before ++ m :: after).length ∧
        ∀ m ∈ done, (m.2.outcome σ).ok = true)
    (howed : ∀ x, x.2.owner = some k →
      s.futures.pending x = ((before ++ m :: after).map (allTask k)).count x)
    (hcount : s.futures.called.count k = 0) (returned : PromiseId ι) (value : Option V) :
    Kept σ { s with
      futures := f.invoke (f.promises m.1).success returned value (.all k (.derived k)) } := by
  have hm : m ∈ members := hperm.subset (by simp)
  have hok : (f.promises m.1).success = (m.2.outcome σ).ok :=
    (h.task_outcome hpop (hmembers m hm)).2
  obtain ⟨-, -, hfp, hfleft, -⟩ := Futures.pop_some hpop
  have hperm' : ((m :: done) ++ (before ++ after)).Perm members := by
    refine List.Perm.trans ?_ hperm
    rw [List.cons_append, ← List.append_assoc, ← List.append_assoc]
    exact List.perm_middle.symm
  have hrest : ((before ++ m :: after).map (allTask k)).Perm
      (allTask k m :: (before ++ after).map (allTask k)) := List.perm_middle.map _
  have hout : e.outcome σ =
      if ∀ m ∈ members, (m.2.outcome σ).ok = true then .success none else .error := by
    rw [he, FutureExpr.outcome_allOf (by simpa using hlength)]
    simp only [List.forall_mem_map]
  -- once the result is settled, the rest of the members does not matter
  have hsettled : ∀ s' : FutureSystem ι V, s.built = s'.built →
      (s'.futures.ended (.derived k)).isSome = true →
      Link σ s' k (.derived k) e ((before ++ after).map (allTask k))
        (s.futures.called.count k + 0) := by
    intro s' hbuilt hended
    rw [hcount]
    refine .all _ (m :: done) members he rfl (fun x hx => hbuilt ▸ hmembers x hx) hlength hperm' ?_
    intro hnone
    rw [hnone] at hended
    cases hended
  simp only [Futures.invoke]
  split
  · rename_i hfinished
    refine h.advance [] (n := 0) hpop hk rfl howed hrest rfl (by simp) (fun _ _ => rfl)
      (fun _ => Or.inl rfl) (by simp) (fun _ => rfl) ?_
    rw [List.append_nil]
    exact hsettled _ rfl (by simp [Futures.ended, Promise.ended, hfinished])
  · rename_i hunfinished
    have hnone : s.futures.ended (.derived k) = none := by
      rw [hfp] at hunfinished
      simp [Futures.ended, Promise.ended, hunfinished]
    obtain ⟨hleft, hdone⟩ := hopen hnone
    split
    · rename_i hfail
      rw [hok] at hfail
      refine h.advance_settle (n := 0) hpop hk rfl howed hrest rfl (by simp) (fun _ _ => rfl)
        (fun _ => rfl) (fun _ => rfl) ?_ hsettled
      rw [hout, if_neg fun hall => by simp [hall m hm] at hfail]
    · rename_i hsuccess
      rw [hok, Bool.not_eq_false] at hsuccess
      have hdone' : ∀ x ∈ m :: done, (x.2.outcome σ).ok = true :=
        List.forall_mem_cons.mpr ⟨hsuccess, hdone⟩
      have hless : f.countLeft k - 1 = (before ++ after).length := by
        rw [hfleft, hleft]
        simp
      have hother : ∀ j, j ≠ k →
          Function.update f.countLeft k (f.countLeft k - 1) j = f.countLeft j :=
        fun j hj => Function.update_of_ne hj ..
      split
      · rename_i hzero
        refine h.advance_settle (n := 0) (g := { f with
            countLeft := Function.update f.countLeft k (f.countLeft k - 1) })
          hpop hk rfl howed hrest rfl (by simp) hother (fun _ => rfl) (fun _ => rfl) ?_ hsettled
        have hnil : before ++ after = [] := List.length_eq_zero_iff.mp (by rw [← hless, hzero])
        rw [hnil, List.append_nil] at hperm'
        rw [hout, if_pos fun x hx => hdone' x (hperm'.symm.subset hx)]
      · rename_i hpos
        refine h.advance [] (n := 0) hpop hk rfl howed hrest rfl (by simp) hother
          (fun _ => Or.inl rfl) (by simp) (fun _ => rfl) ?_
        rw [List.append_nil, hcount]
        refine .all _ (m :: done) members he rfl hmembers hlength hperm' fun _ => ⟨?_, ?_, hdone'⟩
        · rintro hnil
          exact hpos (by rw [hless, hnil, List.length_nil])
        · simp only [Function.update_self]
          exact hless

theorem Kept.runTask (h : Kept σ s) {returned : PromiseId ι} {value : Option V}
    (hfn : s.UserFns (.runTask returned value)) {t : Futures ι V}
    (ht : s.futures.processPendingTasks returned value = some t) :
    Kept σ { s with futures := t } := by
  obtain ⟨⟨⟨q, callback⟩, f⟩, hpop, rfl⟩ := Option.map_eq_some_iff.mp ht
  obtain ⟨k, p, e, owed, rest, hk, howner, hlink, hrest, howed⟩ := h.popped hpop
  generalize hcount : s.futures.called.count k = n at hlink
  cases hlink with
  | waiting r future c he hp hr =>
      cases List.mem_singleton.mp (hrest.symm.subset List.mem_cons_self)
      exact h.waiting hpop hk he hp hr howner howed hcount hfn
  | forward ret isVoid retExpr hret hmem hp =>
      cases List.mem_singleton.mp (hrest.symm.subset List.mem_cons_self)
      subst hp
      exact h.forwarding hpop hk hret hmem howed hcount returned value
  | all todo done members he hp hmembers hlength hperm hopen =>
      subst hp
      obtain ⟨m, hm, heq⟩ := List.mem_map.mp (hrest.symm.subset List.mem_cons_self)
      cases heq
      obtain ⟨before, after, rfl⟩ := List.append_of_mem hm
      exact h.counting hpop hk he hmembers hlength hperm (fun hnone => (hopen hnone).2) howed
        hcount returned value
  | source i he hp => exact absurd hrest.symm.subset (by simp)
  | same e' he hmem => exact absurd hrest.symm.subset (by simp)
  | finished hp => exact absurd hrest.symm.subset (by simp)

/-- The user function a task calls has not been called before, and the outcomes reach it. -/
theorem Kept.task_calls (h : Kept σ s) {q : PromiseId ι} {callback : FutureCallback ι}
    {f : Futures ι V} (hpop : s.futures.pop = some ((q, callback), f)) {k : Nat}
    {self : PromiseId ι} (hcall : callback.userFn (f.promises q).success = some (k, self)) :
    self = q ∧ k ∉ s.futures.called ∧
      ∃ p e, s.built[k]? = some (p, e) ∧ e.reached σ = true := by
  obtain ⟨j, p, e, owed, rest, hj, howner, hlink, hrest, howed⟩ := h.popped hpop
  have hmem := hrest.symm.subset List.mem_cons_self
  generalize hcount : s.futures.called.count j = n at hlink
  cases hlink with
  | waiting r future c he hp hr =>
      cases List.mem_singleton.mp hmem
      obtain ⟨-, hok⟩ := h.task_outcome hpop hr
      rw [hok] at hcall
      obtain ⟨rfl, rfl, hreached⟩ := FutureExpr.attaches_userFn he hcall
      exact ⟨rfl, List.count_eq_zero.mp hcount, p, e, hj, hreached⟩
  | forward ret isVoid retExpr hret hm hp =>
      cases List.mem_singleton.mp hmem
      cases hcall
  | all todo done members he hp hmembers hlength hperm hopen =>
      obtain ⟨m, -, heq⟩ := List.mem_map.mp hmem
      cases heq
      cases hcall
  | source i he hp => cases hmem
  | same e' he hm => cases hmem
  | finished hp => cases hmem

theorem Kept.ended_source_task (h : Kept σ s) {returned : PromiseId ι} {value : Option V}
    {t : Futures ι V} (ht : s.futures.processPendingTasks returned value = some t) (i : ι) :
    t.ended (.source i) = s.futures.ended (.source i) := by
  obtain ⟨⟨⟨q, callback⟩, f⟩, hpop, rfl⟩ := Option.map_eq_some_iff.mp ht
  obtain ⟨k, p, e, owed, rest, -, -, hlink, hrest, -⟩ := h.popped hpop
  obtain ⟨-, -, hfp, -⟩ := Futures.pop_some hpop
  have hmem := hrest.symm.subset List.mem_cons_self
  generalize s.futures.called.count k = n at hlink
  refine (Futures.ended_invoke_of_ne ?_ _ _ _).trans (by simp only [Futures.ended, hfp])
  cases hlink with
  | waiting r future c he hp hr =>
      cases List.mem_singleton.mp hmem
      cases e <;> cases he <;> simp_all [FutureCallback.target, FutureExpr.attached]
  | forward ret isVoid retExpr hret hm hp =>
      cases List.mem_singleton.mp hmem
      simp [FutureCallback.target, hp]
  | all todo done members he hp hmembers hlength hperm hopen =>
      obtain ⟨m, -, heq⟩ := List.mem_map.mp hmem
      cases heq
      simp [FutureCallback.target]
  | source i he hp => cases hmem
  | same e' he hm => cases hmem
  | finished hp => cases hmem

theorem Kept.settle (h : Kept σ s) (i : ι) (o : Outcome V)
    (hσ : ∀ a, (s.futures.settle (.source i) o).ended (.source i) = some a → a = σ i) :
    Kept σ { s with futures := s.futures.settle (.source i) o } := by
  refine ⟨h.length, h.below, ?_, ?_, h.outcome, ?_, h.called, ?_⟩
  · intro n hn
    exact (Futures.ended_settle_of_ne _ _ (by simp)).trans (h.fresh n hn)
  · intro p a ha
    rcases eq_or_ne p (.source i) with rfl | hne
    · exact hσ a ha
    · exact h.ended p a ((Futures.ended_settle_of_ne _ _ hne).symm.trans ha)
  · intro x hx
    exact h.owned x (by rwa [Futures.pending_settle] at hx)
  · intro k p e hk
    obtain ⟨owed, hlink, howed⟩ := h.links k p e hk
    refine ⟨owed, hlink.mono (List.Subset.refl _) (fun q a => Futures.ended_mono_settle _ _) rfl,
      ?_⟩
    intro x hx
    rw [Futures.pending_settle]
    exact howed x hx

end Kept

end FutureSystem

end EspIot
