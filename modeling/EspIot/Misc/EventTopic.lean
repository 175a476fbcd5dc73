/-
# `EspIot.Misc.EventTopic` — a topic and those who listen to it

A subscription is known by its subscriber: the sets are `unordered_set`s whose hash and
equality look at that pointer alone, so whoever subscribes again keeps the callback of the first
time.

    publish(type)   _broadcast_subscribers, each once ──▶ _subscribers[type], each once

Which of a set is called first is up to the hash.  A `Publication` is a call of `publish` on its
way: those of the two sets it has not called yet, and those it has.
-/
import EspIot.Lib.Lists
import EspIot.Lib.Run
import Mathlib.Data.List.Induction
import Mathlib.Data.List.Nodup

namespace EspIot

open Lib

structure Subscription (σ κ : Type*) where
  subscriber : σ
  callback : κ
deriving DecidableEq, Repr

/-- `SubscriptionsSetT` -/
structure SubscriptionsSet (σ κ : Type*) where
  subscriptions : List (Subscription σ κ)
  distinct : (subscriptions.map Subscription.subscriber).Nodup

/-- `EventTopic`; a type that nobody has subscribed to has the empty set. -/
structure EventTopic (τ σ κ : Type*) where
  subscribers : τ → SubscriptionsSet σ κ
  broadcastSubscribers : SubscriptionsSet σ κ

/-- A call of `publish` on its way. -/
structure Publication (τ σ κ : Type*) where
  type : τ
  broadcast : List (Subscription σ κ)
  typed : List (Subscription σ κ)
  called : List (Subscription σ κ) := []
deriving DecidableEq, Repr

variable {τ σ κ : Type*}

namespace SubscriptionsSet

def empty : SubscriptionsSet σ κ := ⟨[], List.nodup_nil⟩

/-- `emplace`: a subscriber that is in the set stays as it is. -/
def emplace [DecidableEq σ] (set : SubscriptionsSet σ κ) (sub : Subscription σ κ) :
    SubscriptionsSet σ κ :=
  if h : sub.subscriber ∈ set.subscriptions.map Subscription.subscriber then set
  else ⟨sub :: set.subscriptions, List.nodup_cons.mpr ⟨h, set.distinct⟩⟩

theorem mem_emplace [DecidableEq σ] {set : SubscriptionsSet σ κ} {sub sub' : Subscription σ κ} :
    sub' ∈ (set.emplace sub).subscriptions ↔ sub' ∈ set.subscriptions ∨
      sub' = sub ∧ sub.subscriber ∉ set.subscriptions.map Subscription.subscriber := by
  rw [SubscriptionsSet.emplace]
  split
  · rename_i hin
    exact ⟨.inl, fun h => h.resolve_right fun h' => h'.2 hin⟩
  · rename_i hnot
    rw [List.mem_cons]
    exact ⟨fun h => h.symm.imp_right fun heq => ⟨heq, hnot⟩, fun h => h.symm.imp_left And.left⟩

end SubscriptionsSet

namespace EventTopic

def empty : EventTopic τ σ κ := ⟨fun _ => .empty, .empty⟩

/-- A call of `subscribe`, with a type or without. -/
structure SubscribeCall (τ σ κ : Type*) where
  target : σ
  type : Option τ
  callback : κ
deriving DecidableEq, Repr

variable [DecidableEq τ] [DecidableEq σ]

def subscribe (topic : EventTopic τ σ κ) (call : SubscribeCall τ σ κ) : EventTopic τ σ κ :=
  let sub : Subscription σ κ := ⟨call.target, call.callback⟩
  match call.type with
  | none => { topic with broadcastSubscribers := topic.broadcastSubscribers.emplace sub }
  | some type =>
      { topic with
        subscribers := Function.update topic.subscribers type
          ((topic.subscribers type).emplace sub) }

/-- The topic after a list of `subscribe` calls. -/
def subscribeAll (calls : List (SubscribeCall τ σ κ)) : EventTopic τ σ κ :=
  calls.foldl subscribe empty

omit [DecidableEq τ] [DecidableEq σ]

def publish (topic : EventTopic τ σ κ) (type : τ) : Publication τ σ κ where
  type
  broadcast := topic.broadcastSubscribers.subscriptions
  typed := (topic.subscribers type).subscriptions

def listeners (topic : EventTopic τ σ κ) (type : τ) : List (Subscription σ κ) :=
  topic.broadcastSubscribers.subscriptions ++ (topic.subscribers type).subscriptions

end EventTopic

namespace Publication

def left (p : Publication τ σ κ) : List (Subscription σ κ) := p.broadcast ++ p.typed

/-- The publication calls a subscription: the `i`-th of those of every type, then of those of its
type. -/
def call (p : Publication τ σ κ) (i : ℕ) : Option (Publication τ σ κ) :=
  match p.broadcast with
  | [] => p.typed[i]?.map fun sub =>
      { p with typed := p.typed.eraseIdx i, called := p.called ++ [sub] }
  | _ :: _ => p.broadcast[i]?.map fun sub =>
      { p with broadcast := p.broadcast.eraseIdx i, called := p.called ++ [sub] }

/-- What one call does: whoever is called was to be called, and those of every type come first. -/
theorem call_spec {p q : Publication τ σ κ} {i : ℕ} (h : p.call i = some q) :
    ∃ sub, q.type = p.type ∧ q.called = p.called ++ [sub] ∧
      (p.broadcast.Perm (sub :: q.broadcast) ∧ q.typed = p.typed ∨
        p.broadcast = [] ∧ q.broadcast = [] ∧ p.typed.Perm (sub :: q.typed)) := by
  rw [call] at h
  split at h
  · rename_i hnil
    obtain ⟨sub, hi, rfl⟩ := Option.map_eq_some_iff.mp h
    obtain ⟨l₁, l₂, hsplit, herase⟩ := exists_split_erase hi
    refine ⟨sub, rfl, rfl, .inr ⟨hnil, hnil, ?_⟩⟩
    show p.typed.Perm (sub :: p.typed.eraseIdx i)
    rw [herase, hsplit]
    exact List.perm_middle
  · obtain ⟨sub, hi, rfl⟩ := Option.map_eq_some_iff.mp h
    obtain ⟨l₁, l₂, hsplit, herase⟩ := exists_split_erase hi
    refine ⟨sub, rfl, rfl, .inl ⟨?_, rfl⟩⟩
    show p.broadcast.Perm (sub :: p.broadcast.eraseIdx i)
    rw [herase, hsplit]
    exact List.perm_middle

theorem call_left {p q : Publication τ σ κ} {i : ℕ} (h : p.call i = some q) :
    ∃ sub, q.type = p.type ∧ q.called = p.called ++ [sub] ∧ p.left.Perm (sub :: q.left) := by
  obtain ⟨sub, htype, hcalled, ⟨hperm, htyped⟩ | ⟨hnil, hnil', hperm⟩⟩ := call_spec h
  · refine ⟨sub, htype, hcalled, ?_⟩
    rw [left, left, htyped]
    exact hperm.append_right _
  · refine ⟨sub, htype, hcalled, ?_⟩
    rw [left, left, hnil, hnil']
    exact hperm

/-- Where a publication stands: it has called some of those of every type, and once it has called
all of them, some of those of its type. -/
structure OnItsWay (topic : EventTopic τ σ κ) (type : τ) (p : Publication τ σ κ) : Prop where
  type_eq : p.type = type
  called : ∃ bs ts, p.called = bs ++ ts ∧ (ts = [] ∨ p.broadcast = []) ∧
    topic.broadcastSubscribers.subscriptions.Perm (bs ++ p.broadcast) ∧
    (topic.subscribers type).subscriptions.Perm (ts ++ p.typed)

theorem OnItsWay.publish (topic : EventTopic τ σ κ) (type : τ) :
    OnItsWay topic type (topic.publish type) :=
  ⟨rfl, [], [], rfl, .inl rfl, .refl _, .refl _⟩

theorem OnItsWay.call {topic : EventTopic τ σ κ} {type : τ} {p q : Publication τ σ κ} {i : ℕ}
    (h : OnItsWay topic type p) (hcall : p.call i = some q) : OnItsWay topic type q := by
  obtain ⟨htype, bs, ts, hcalled, hfirst, hbroadcast, htyped⟩ := h
  obtain ⟨sub, htype', hcalled', ⟨hperm, hsame⟩ | ⟨hnil, hnil', hperm⟩⟩ := call_spec hcall
  · have hts : ts = [] := by
      refine hfirst.resolve_right ?_
      intro hnil
      rw [hnil] at hperm
      exact absurd hperm.symm.eq_nil (by nofun)
    subst hts
    refine ⟨htype'.trans htype, bs ++ [sub], [], ?_, .inl rfl, ?_, ?_⟩
    · rw [hcalled', hcalled, List.append_nil, List.append_nil]
    · rw [List.append_assoc]
      exact hbroadcast.trans (hperm.append_left bs)
    · rw [hsame]
      exact htyped
  · refine ⟨htype'.trans htype, bs, ts ++ [sub], ?_, .inr hnil', ?_, ?_⟩
    · rw [hcalled', hcalled, List.append_assoc]
    · rw [hnil']
      rw [hnil] at hbroadcast
      exact hbroadcast
    · rw [List.append_assoc]
      exact htyped.trans (hperm.append_left ts)

/-- A publication that has nobody left to call has called everyone once, those of every type
first. -/
theorem called_of_finished {topic : EventTopic τ σ κ} {type : τ} {is : List ℕ}
    {p : Publication τ σ κ} (hrun : run call (topic.publish type) is = some p)
    (hleft : p.left = []) :
    ∃ bs ts, p.called = bs ++ ts ∧ bs.Perm topic.broadcastSubscribers.subscriptions ∧
      ts.Perm (topic.subscribers type).subscriptions := by
  have h : OnItsWay topic type p :=
    run_invariant (fun _ _ _ h hcall => h.call hcall) (.publish topic type) hrun
  obtain ⟨-, bs, ts, hcalled, -, hbroadcast, htyped⟩ := h
  obtain ⟨hbroadcast', htyped'⟩ := List.append_eq_nil_iff.mp hleft
  rw [hbroadcast', List.append_nil] at hbroadcast
  rw [htyped', List.append_nil] at htyped
  exact ⟨bs, ts, hcalled, hbroadcast.symm, htyped.symm⟩

end Publication

/-! ## Who is in the sets -/

namespace EventTopic

variable [DecidableEq τ] [DecidableEq σ]

/-- The first call for a target and a type (or for none). -/
def firstCall (calls : List (SubscribeCall τ σ κ)) (target : σ) (type : Option τ) :
    Option (SubscribeCall τ σ κ) :=
  calls.find? fun call => call.target = target ∧ call.type = type

def setOf (topic : EventTopic τ σ κ) : Option τ → SubscriptionsSet σ κ
  | none => topic.broadcastSubscribers
  | some type => topic.subscribers type

theorem setOf_subscribe (topic : EventTopic τ σ κ) (call : SubscribeCall τ σ κ)
    (type : Option τ) :
    (topic.subscribe call).setOf type =
      if call.type = type then (topic.setOf type).emplace ⟨call.target, call.callback⟩
      else topic.setOf type := by
  obtain ⟨target, type', callback⟩ := call
  cases type' with
  | none =>
      cases type with
      | none => rfl
      | some type => rfl
  | some type' =>
      cases type with
      | none => rfl
      | some type =>
          show Function.update topic.subscribers type' _ type = _
          by_cases heq : type' = type
          · subst heq
            rw [Function.update_self, if_pos rfl]
            rfl
          · rw [Function.update_of_ne (Ne.symm heq), if_neg (by rintro ⟨⟩; exact heq rfl)]
            rfl

theorem mem_subscribers_iff {calls : List (SubscribeCall τ σ κ)} {type : Option τ} {target : σ}
    (h : ∀ callback, ⟨target, callback⟩ ∈ ((subscribeAll calls).setOf type).subscriptions ↔
      (firstCall calls target type).map (·.callback) = some callback) :
    target ∈ ((subscribeAll calls).setOf type).subscriptions.map Subscription.subscriber ↔
      firstCall calls target type ≠ none := by
  constructor
  · intro hmem hnone
    obtain ⟨sub, hsub, rfl⟩ := List.mem_map.mp hmem
    have hfirst := (h sub.callback).mp hsub
    rw [hnone] at hfirst
    cases hfirst
  · intro hsome
    obtain ⟨call, hcall⟩ := Option.ne_none_iff_exists'.mp hsome
    refine List.mem_map.mpr ⟨⟨target, call.callback⟩, (h call.callback).mpr ?_, rfl⟩
    rw [hcall]
    rfl

/-- **A set has each target that has subscribed, with the callback it gave first.** -/
theorem mem_setOf_subscribeAll (calls : List (SubscribeCall τ σ κ)) (type : Option τ)
    (target : σ) (callback : κ) :
    ⟨target, callback⟩ ∈ ((subscribeAll calls).setOf type).subscriptions ↔
      (firstCall calls target type).map (·.callback) = some callback := by
  induction calls using List.reverseRecOn generalizing target callback with
  | nil =>
      rw [firstCall, List.find?_nil]
      cases type with
      | none => exact ⟨by nofun, by nofun⟩
      | some type => exact ⟨by nofun, by nofun⟩
  | append_singleton calls call ih =>
      have hknown := mem_subscribers_iff (ih call.target)
      have hgrown : subscribeAll (calls ++ [call]) = (subscribeAll calls).subscribe call := by
        rw [subscribeAll, List.foldl_append]
        rfl
      have hfind : firstCall (calls ++ [call]) target type =
          (firstCall calls target type).or
            (if call.target = target ∧ call.type = type then some call else none) := by
        rw [firstCall, List.find?_append, firstCall]
        by_cases hthis : call.target = target ∧ call.type = type
        · rw [if_pos hthis, List.find?_cons_of_pos (by simpa using hthis)]
        · rw [if_neg hthis, List.find?_cons_of_neg (by simpa using hthis), List.find?_nil]
      rw [hgrown, hfind, setOf_subscribe]
      by_cases htype : call.type = type
      · rw [if_pos htype, SubscriptionsSet.mem_emplace, ih, hknown]
        by_cases htarget : call.target = target
        · subst htarget
          rw [if_pos ⟨rfl, htype⟩]
          cases hfirst : firstCall calls call.target type with
          | none => simp [Subscription.mk.injEq, eq_comm]
          | some first => simp
        · rw [if_neg fun h => htarget h.1, Option.or_none]
          refine or_iff_left ?_
          rintro ⟨heq, -⟩
          exact htarget (congrArg Subscription.subscriber heq).symm
      · rw [if_neg htype, if_neg fun h => htype h.2, Option.or_none]
        exact ih target callback

/-- The subscriptions are those of the targets that have subscribed for the type (or for none),
one for each, with the callback it gave first. -/
structure AreOf (calls : List (SubscribeCall τ σ κ)) (type : Option τ)
    (subs : List (Subscription σ κ)) : Prop where
  once : (subs.map Subscription.subscriber).Nodup
  first : ∀ target callback, ⟨target, callback⟩ ∈ subs ↔
    (firstCall calls target type).map (·.callback) = some callback

theorem AreOf.of_perm {calls : List (SubscribeCall τ σ κ)} {type : Option τ}
    {subs : List (Subscription σ κ)}
    (h : subs.Perm ((subscribeAll calls).setOf type).subscriptions) : AreOf calls type subs := by
  refine ⟨(h.map _).nodup_iff.mpr ((subscribeAll calls).setOf type).distinct, ?_⟩
  intro target callback
  rw [h.mem_iff]
  exact mem_setOf_subscribeAll calls type target callback

/-- **A call of `publish` calls each target that has subscribed to every type once, and then each
that has subscribed to the type published, once and with its first callback, whatever order the
sets are in.** -/
theorem publish_calls_each_once (calls : List (SubscribeCall τ σ κ)) (type : τ) (is : List ℕ)
    (p : Publication τ σ κ)
    (hrun : run Publication.call ((subscribeAll calls).publish type) is = some p)
    (hleft : p.left = []) :
    ∃ bs ts, p.called = bs ++ ts ∧ AreOf calls none bs ∧ AreOf calls (some type) ts := by
  obtain ⟨bs, ts, hcalled, hbroadcast, htyped⟩ := Publication.called_of_finished hrun hleft
  exact ⟨bs, ts, hcalled, .of_perm hbroadcast, .of_perm htyped⟩

/-- Target 1 subscribes to every type and to type 0, and again with another callback; target 2 to
type 0 only. -/
theorem publish_calls_each_once_twice :
    ∃ bs ts : List (Subscription ℕ Char), [⟨1, 'a'⟩, ⟨2, 'c'⟩, ⟨1, 'b'⟩] = bs ++ ts ∧
      AreOf (τ := ℕ) [⟨1, none, 'a'⟩, ⟨1, some 0, 'b'⟩, ⟨2, some 0, 'c'⟩, ⟨1, none, 'd'⟩] none bs ∧
      AreOf [⟨1, none, 'a'⟩, ⟨1, some 0, 'b'⟩, ⟨2, some 0, 'c'⟩, ⟨1, none, 'd'⟩] (some 0) ts :=
  publish_calls_each_once _ 0 [0, 0, 0] ⟨0, [], [], [⟨1, 'a'⟩, ⟨2, 'c'⟩, ⟨1, 'b'⟩]⟩ rfl rfl

end EventTopic

end EspIot
