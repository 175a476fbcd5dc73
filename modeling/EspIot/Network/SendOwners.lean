/-
# `EspIot.Network.SendOwners` — who owns the promise of a packet

A promise lives as long as somebody holds a `shared_ptr` to it.  For the promise that
`AsyncEspNow::send` makes, that is its entry in `_send_order`, the future handed back, and
what has copied either: the vector of `_send_impl`, the local of `_on_sent`, the captures of
a callback.  A task of the dispatcher holds the promise it was made for by `this` alone:

    Dispatcher::dispatch([=, this] { callback(_success); });

so it is the callback in it, or somebody else, who has to keep that promise.  The callback of
`then` captures the future it is set on; that of `PromiseBase::all` captures the counter and
the result.

    _send_impl   loop ─▶ scan ─▶ register ─▶ chain ─▶ returning ─▶ gone
    _on_sent     onSent ──set_success / set_error──▶ onSentSettled ─▶ gone

A call of a promise is run whole here; `Async.Settlement` takes it apart.
-/
import EspIot.Async.Future
import EspIot.Network.Interactions
import Mathlib.Logic.Relation

namespace EspIot

open Lib

/-- The callbacks set on the promises: the one of `all`, and the one of `then` and `on_error`. -/
inductive SendCallback
  | all (resultPromise : ℕ)
  | chain (self chained : ℕ)
deriving DecidableEq, Repr

def SendCallback.captures : SendCallback → List ℕ
  | all resultPromise => [resultPromise]
  | chain self chained => [self, chained]

/-- What a promise was made for: a packet of a message of several, a packet of its own, or the
result of something else. -/
inductive PromiseOrigin
  | part
  | whole
  | derived
deriving DecidableEq, Repr

/-- A call in progress, with its locals: the loop of `_send_impl`, the two loops of
`PromiseBase::all`, `then` on the future that `all` returned, and the return; or `_on_sent`. -/
inductive SendCall
  | loop (mac : Mac) (size remaining : ℕ) (futures : List ℕ)
  | scan (futures left : List ℕ) (alreadyFinished : Bool)
  | register (futures left : List ℕ) (resultPromise : ℕ)
  | chain (futures : List ℕ) (future : ℕ)
  | returning (futures : List ℕ) (future chained : ℕ)
  | onSent (promise : ℕ) (success : Bool)
  | onSentSettled (promise : ℕ)
deriving DecidableEq

namespace SendCall

/-- The promises of packets that a call holds. -/
def packets : SendCall → List ℕ
  | loop _ _ _ futures => futures
  | scan futures _ _ => futures
  | register futures _ _ => futures
  | chain futures _ => futures
  | returning futures _ _ => futures
  | onSent promise _ => [promise]
  | onSentSettled promise => [promise]

/-- The other promises that a call holds. -/
def others : SendCall → List ℕ
  | register _ _ resultPromise => [resultPromise]
  | chain _ future => [future]
  | returning _ future chained => [future, chained]
  | _ => []

end SendCall

/-- `AsyncEspNow` with the calls in progress, the futures its users hold and the tasks of the
dispatcher.  A `shared_ptr` is the number of its promise. -/
structure SendOwners where
  initialized : Bool := true
  peers : List Mac := []
  sendOrder : Mac → List ℕ := fun _ => []
  promises : ℕ → Promise Unit SendCallback := fun _ => {}
  origin : ℕ → PromiseOrigin := fun _ => .derived
  created : ℕ := 0
  countLeft : ℕ → ℕ := fun _ => 0
  calls : List SendCall := []
  held : List ℕ := []
  tasks : List (ℕ × SendCallback) := []

/-- A user calls `send` or `_send_impl`, sets a `then` on a future, drops one or unregisters a
peer; the driver reports a packet; a call in progress or the dispatcher takes its next step.
`addPeer` and `accept` are the answers of the driver. -/
inductive SendEvent
  | send (mac : Mac) (addPeer accept : Bool)
  | sendImpl (mac : Mac) (size : ℕ)
  | chain (n : ℕ)
  | drop (n : ℕ)
  | unregisterPeer (mac : Mac)
  | sent (mac : Mac) (success : Bool)
  | call (n : ℕ) (addPeer accept : Bool)
  | dispatcher

namespace SendOwners

open EspNowInteraction

/-! ## Promises -/

/-- `std::make_shared<Promise<…>>()` -/
def create (origin : PromiseOrigin) (s : SendOwners) : SendOwners :=
  { s with
    promises := Function.update s.promises s.created {}
    origin := Function.update s.origin s.created origin
    created := s.created + 1 }

/-- `set_success` or `set_error` -/
def settle (promise : ℕ) (o : Outcome Unit) (s : SendOwners) : SendOwners :=
  let r := (s.promises promise).settle o
  { s with
    promises := Function.update s.promises promise r.2
    tasks := s.tasks ++ r.1.map (promise, ·) }

def onFinished (promise : ℕ) (callback : SendCallback) (s : SendOwners) : SendOwners :=
  let r := (s.promises promise).onFinished callback
  { s with
    promises := Function.update s.promises promise r.2
    tasks := s.tasks ++ r.1.map (promise, ·) }

/-- `Future<void>::successful()` and `Future<void>::errored()`: the promise is the last created. -/
def already (origin : PromiseOrigin) (o : Outcome Unit) (s : SendOwners) : SendOwners :=
  (s.create origin).settle s.created o

/-! ## `AsyncEspNow` -/

def registerPeer (mac : Mac) (ok : Bool) (s : SendOwners) : Bool × SendOwners :=
  if s.peers.contains mac then (true, s)
  else if ok then
    (true, { s with
      peers := mac :: s.peers, sendOrder := Function.update s.sendOrder mac [] })
  else (false, s)

/-- `send`; the promise of the future it returns is the one created. -/
def send (origin : PromiseOrigin) (mac : Mac) (addPeer accept : Bool) (s : SendOwners) :
    SendOwners :=
  if s.initialized = false then s.already origin .error
  else
    match s.registerPeer mac addPeer with
    | (false, s) => s.already origin .error
    | (true, s) =>
        let promise := s.created
        let s := s.create origin
        let s := { s with
          sendOrder := Function.update s.sendOrder mac (s.sendOrder mac ++ [promise]) }
        if accept then s
        else
          let s := { s with
            sendOrder := Function.update s.sendOrder mac (s.sendOrder mac).tail }
          s.settle promise .error

/-- `_on_sent` up to the call of the setter. -/
def onSent (mac : Mac) (success : Bool) (s : SendOwners) : SendOwners :=
  match s.sendOrder mac with
  | [] => s
  | promise :: queue =>
      { s with
        sendOrder := Function.update s.sendOrder mac queue
        calls := s.calls ++ [.onSent promise success] }

/-! ## `_send_impl` -/

def sendImpl (mac : Mac) (size : ℕ) (s : SendOwners) : SendOwners :=
  if size = 0 ∨ size > maxDataLength then
    let s' := s.already .derived .error
    { s' with held := s'.held ++ [s.created] }
  else { s with calls := s.calls ++ [.loop mac size size []] }

/-- The call at `n` goes on as `call`. -/
def goOn (n : ℕ) (call : SendCall) (s : SendOwners) : SendOwners :=
  { s with calls := s.calls.set n call }

/-- `PromiseBase::all(futures)` up to its loops, in the call at `n`. -/
def all (n : ℕ) (s : SendOwners) : List ℕ → SendOwners
  | [] => (s.already .derived .error).goOn n (.chain [] s.created)
  | [future] => s.goOn n (.chain [future] future)
  | futures => s.goOn n (.scan futures futures true)

def stepCall (n : ℕ) (addPeer accept : Bool) (s : SendOwners) : SendCall → SendOwners
  | .loop mac size remaining futures =>
      if remaining = 0 then s.all n futures
      else
        let origin := if size ≤ maxPacketDataLength then .whole else .part
        (s.send origin mac addPeer accept).goOn n
          (.loop mac size (remaining - maxPacketDataLength) (futures ++ [s.created]))
  | .scan futures (future :: left) alreadyFinished =>
      let promise := s.promises future
      if promise.finished = false then s.goOn n (.scan futures left false)
      else if promise.success = false then
        (s.already .derived .error).goOn n (.chain futures s.created)
      else s.goOn n (.scan futures left alreadyFinished)
  | .scan futures [] alreadyFinished =>
      if alreadyFinished then
        (s.already .derived (.success none)).goOn n (.chain futures s.created)
      else
        let s' := s.create .derived
        { s' with countLeft := Function.update s'.countLeft s.created futures.length }.goOn n
          (.register futures futures s.created)
  | .register futures (future :: left) resultPromise =>
      (s.onFinished future (.all resultPromise)).goOn n (.register futures left resultPromise)
  | .register futures [] resultPromise => s.goOn n (.chain futures resultPromise)
  | .chain futures future =>
      ((s.create .derived).onFinished future (.chain future s.created)).goOn n
        (.returning futures future s.created)
  | .returning _ _ chained =>
      { s with calls := s.calls.eraseIdx n, held := s.held ++ [chained] }
  | .onSent promise success =>
      (s.settle promise (if success then .success none else .error)).goOn n
        (.onSentSettled promise)
  | .onSentSettled _ => { s with calls := s.calls.eraseIdx n }

/-! ## The dispatcher -/

/-- A task: the flag of its promise is read and the callback is called with it. -/
def runTask (promise : ℕ) (callback : SendCallback) (s : SendOwners) : SendOwners :=
  let success := (s.promises promise).success
  match callback with
  | .all resultPromise =>
      if (s.promises resultPromise).finished then s
      else if success = false then s.settle resultPromise .error
      else
        let left := s.countLeft resultPromise - 1
        let s := { s with countLeft := Function.update s.countLeft resultPromise left }
        if left = 0 then s.settle resultPromise (.success none) else s
  | .chain _ chained => s.settle chained (if success then .success none else .error)

def step (s : SendOwners) : SendEvent → Option SendOwners
  | .send mac addPeer accept =>
      let s' := s.send .whole mac addPeer accept
      some { s' with held := s'.held ++ [s.created] }
  | .sendImpl mac size => some (s.sendImpl mac size)
  | .chain n =>
      s.held[n]?.map fun future =>
        let s' := (s.create .derived).onFinished future (.chain future s.created)
        { s' with held := s'.held ++ [s.created] }
  | .drop n => some { s with held := s.held.eraseIdx n }
  | .unregisterPeer mac => some { s with peers := s.peers.erase mac }
  | .sent mac success => some (s.onSent mac success)
  | .call n addPeer accept => s.calls[n]?.map (s.stepCall n addPeer accept)
  | .dispatcher =>
      match s.tasks with
      | [] => none
      | (promise, callback) :: tasks => some ({ s with tasks }.runTask promise callback)

/-! ## Owners -/

/-- A queue, a user, a call in progress or the callback of a task holds the promise. -/
def Owned (s : SendOwners) (promise : ℕ) : Prop :=
  (∃ mac, promise ∈ s.sendOrder mac) ∨ promise ∈ s.held ∨
    (∃ call ∈ s.calls, promise ∈ call.packets ++ call.others) ∨
    ∃ task ∈ s.tasks, promise ∈ task.2.captures

/-- A callback registered on `a` captures `b`. -/
def Captures (s : SendOwners) (a b : ℕ) : Prop :=
  ∃ callback ∈ (s.promises a).onFinishedCallbacks, b ∈ callback.captures

/-- The promise has not been released: it is owned, or it is captured by a callback registered on
a promise that has not been released. -/
def Alive (s : SendOwners) (promise : ℕ) : Prop :=
  ∃ owned, s.Owned owned ∧ Relation.ReflTransGen s.Captures owned promise

/-- The task that is run reads the flag of a promise that has not been released. -/
def SafeRead (s : SendOwners) : SendEvent → Prop
  | .dispatcher => ∀ promise callback tasks, s.tasks = (promise, callback) :: tasks →
      s.Alive promise
  | _ => True

/-- A task of `all` is run before both the call of `_send_impl` that made its promise and the
call of `_on_sent` that settled it have returned. -/
def InTime (s : SendOwners) : SendEvent → Prop
  | .dispatcher => ∀ promise resultPromise tasks,
      s.tasks = (promise, .all resultPromise) :: tasks →
        ∃ call ∈ s.calls, promise ∈ call.packets
  | _ => True

/-! ## The invariant -/

/-- A callback is set on a promise, or a task holds it for that promise. -/
def SetOn (s : SendOwners) (promise : ℕ) (callback : SendCallback) : Prop :=
  callback ∈ (s.promises promise).onFinishedCallbacks ∨ (promise, callback) ∈ s.tasks

/-- Somebody who is not a call sending packets may hand the promise on. -/
def Exposed (s : SendOwners) (promise : ℕ) : Prop :=
  promise ∈ s.held ∨ (∃ p callback, s.SetOn p callback ∧ promise ∈ callback.captures) ∨
    ∃ call ∈ s.calls, promise ∈ call.others

/-- It may be: it is there, and no packet of a message of several was it made for. -/
def Public (s : SendOwners) (promise : ℕ) : Prop :=
  promise < s.created ∧ s.origin promise ≠ .part

/-- The result of something, not the promise of a packet. -/
def Derived (s : SendOwners) (promise : ℕ) : Prop :=
  promise < s.created ∧ s.origin promise = .derived

/-- `all` has looked at the promise already. -/
def Passed (promise : ℕ) : SendCall → Prop
  | .scan futures left _ => promise ∈ futures ∧ promise ∉ left
  | .register futures _ _ => promise ∈ futures
  | _ => False

def CallOk (s : SendOwners) : SendCall → Prop
  | .loop _ size remaining futures =>
      (∀ p ∈ futures, s.origin p = if size ≤ maxPacketDataLength then .whole else .part) ∧
        remaining = size - futures.length * maxPacketDataLength ∧
        (futures ≠ [] → (futures.length - 1) * maxPacketDataLength < size)
  | .scan futures left _ => (∀ p ∈ futures, s.origin p = .part) ∧ left ⊆ futures
  | .register futures left resultPromise =>
      (∀ p ∈ futures, s.origin p = .part) ∧ left ⊆ futures ∧ s.Derived resultPromise
  | .chain _ _ => True
  | .returning _ _ _ => True
  | .onSent promise _ => promise < s.created ∧ ∀ mac, promise ∉ s.sendOrder mac
  | .onSentSettled _ => True

structure Inv (s : SendOwners) : Prop where
  fresh : ∀ p, s.origin p ≠ .derived → p < s.created
  exposed : ∀ p, s.Exposed p → s.Public p
  calls : ∀ call ∈ s.calls, s.CallOk call
  all : ∀ p resultPromise, s.SetOn p (.all resultPromise) →
    s.origin p = .part ∧ s.Derived resultPromise
  chain : ∀ p self chained, s.SetOn p (.chain self chained) → self = p ∧ s.Derived chained
  order : ∀ mac, ∀ p ∈ s.sendOrder mac, s.origin p ≠ .derived
  nodup : ∀ mac, (s.sendOrder mac).Nodup
  disjoint : ∀ mac mac' p, p ∈ s.sendOrder mac → p ∈ s.sendOrder mac' → mac = mac'
  taken : ∀ p resultPromise, (p, .all resultPromise) ∈ s.tasks → ∀ mac, p ∉ s.sendOrder mac
  /-- a promise that is settled in the queue is that of a packet the driver has rejected -/
  rejected : ∀ mac, ∀ p ∈ s.sendOrder mac, (s.promises p).finished = true →
    (s.promises p).success = false ∧ ∀ call ∈ s.calls, ¬ Passed p call
  sound : ∀ p, (s.promises p).Sound

theorem inv_start (initialized : Bool) : Inv { initialized } where
  fresh p h := absurd rfl h
  exposed p h := by
    rcases h with hheld | ⟨q, callback, hset, -⟩ | ⟨call, hcall, -⟩
    · cases hheld
    · rcases hset with hset | hset <;> cases hset
    · cases hcall
  calls call h := by cases h
  all p r h := by rcases h with h | h <;> cases h
  chain p self chained h := by rcases h with h | h <;> cases h
  order mac p h := by cases h
  nodup mac := List.nodup_nil
  disjoint mac mac' p h := by cases h
  taken p r h := by cases h
  rejected mac p h := by cases h
  sound p := Promise.Sound.start

/-! ## What keeps it -/

section Kept
variable {s t : SendOwners}

theorem CallOk.of_eq {call : SendCall} (h : s.CallOk call) (horigin : t.origin = s.origin)
    (hcreated : t.created = s.created)
    (horder : ∀ mac p, p ∈ t.sendOrder mac → p ∈ s.sendOrder mac) : t.CallOk call := by
  cases call with
  | loop mac size remaining futures =>
      rw [CallOk, horigin]
      exact h
  | scan futures left alreadyFinished =>
      rw [CallOk, horigin]
      exact h
  | register futures left resultPromise =>
      rw [CallOk, Derived, horigin, hcreated]
      exact h
  | onSent promise success =>
      obtain ⟨hlt, hnot⟩ := h
      refine ⟨by rw [hcreated]; exact hlt, ?_⟩
      intro mac hmem
      exact hnot mac (horder mac promise hmem)
  | chain | returning | onSentSettled => trivial

theorem Inv.setCalls (h : Inv s) {calls : List SendCall}
    (hcalls : ∀ call ∈ calls, call ∈ s.calls ∨ s.CallOk call ∧ (∀ p ∈ call.others, s.Public p) ∧
      ∀ mac, ∀ p ∈ s.sendOrder mac, (s.promises p).finished = true → ¬ Passed p call) :
    Inv { s with calls } := by
  refine { h with exposed := ?_, calls := ?_, rejected := ?_ }
  · rintro p (hheld | hset | ⟨call, hcall, hp⟩)
    · exact h.exposed p (.inl hheld)
    · exact h.exposed p (.inr (.inl hset))
    · rcases hcalls call hcall with hold | ⟨-, hpublic, -⟩
      · exact h.exposed p (.inr (.inr ⟨call, hold, hp⟩))
      · exact hpublic p hp
  · intro call hcall
    rcases hcalls call hcall with hold | ⟨hok, -, -⟩
    · exact (h.calls call hold).of_eq rfl rfl (fun _ _ hp => hp)
    · exact hok.of_eq rfl rfl (fun _ _ hp => hp)
  · intro mac p hp hfinished
    obtain ⟨hfailed, hpassed⟩ := h.rejected mac p hp hfinished
    refine ⟨hfailed, ?_⟩
    intro call hcall
    rcases hcalls call hcall with hold | ⟨-, -, hnot⟩
    · exact hpassed call hold
    · exact hnot mac p hp hfinished

theorem Inv.goOn (h : Inv s) (n : ℕ) {call : SendCall} (hok : s.CallOk call)
    (hpublic : ∀ p ∈ call.others, s.Public p)
    (hpassed : ∀ mac, ∀ p ∈ s.sendOrder mac, (s.promises p).finished = true → ¬ Passed p call) :
    Inv (s.goOn n call) := by
  refine h.setCalls ?_
  intro other hother
  rcases List.mem_or_eq_of_mem_set hother with hold | rfl
  · exact .inl hold
  · exact .inr ⟨hok, hpublic, hpassed⟩

theorem Inv.removeCall (h : Inv s) (n : ℕ) : Inv { s with calls := s.calls.eraseIdx n } :=
  h.setCalls fun _ hcall => .inl (List.mem_of_mem_eraseIdx hcall)

theorem Inv.setHeld (h : Inv s) {held : List ℕ}
    (hheld : ∀ p ∈ held, p ∈ s.held ∨ s.Public p) : Inv { s with held } := by
  refine { h with exposed := ?_, calls := ?_ }
  · rintro p (hp | hset | hcall)
    · rcases hheld p hp with hold | hpublic
      · exact h.exposed p (.inl hold)
      · exact hpublic
    · exact h.exposed p (.inr (.inl hset))
    · exact h.exposed p (.inr (.inr hcall))
  · intro call hcall
    exact (h.calls call hcall).of_eq rfl rfl (fun _ _ hp => hp)

theorem Inv.setOrder (h : Inv s) {peers : List Mac} {sendOrder : Mac → List ℕ}
    (hsub : ∀ mac, (sendOrder mac).Sublist (s.sendOrder mac)) :
    Inv { s with peers, sendOrder } := by
  refine { h with
    calls := ?_, order := ?_, nodup := ?_, disjoint := ?_, taken := ?_, rejected := ?_ }
  · intro call hcall
    exact (h.calls call hcall).of_eq rfl rfl (fun mac p hp => (hsub mac).subset hp)
  · intro mac p hp
    exact h.order mac p ((hsub mac).subset hp)
  · intro mac
    exact (h.nodup mac).sublist (hsub mac)
  · intro mac mac' p hp hp'
    exact h.disjoint mac mac' p ((hsub mac).subset hp) ((hsub mac').subset hp')
  · intro p r htask mac hp
    exact h.taken p r htask mac ((hsub mac).subset hp)
  · intro mac p hp
    exact h.rejected mac p ((hsub mac).subset hp)

theorem Inv.setTasks (h : Inv s) {tasks : List (ℕ × SendCallback)} (hsub : tasks ⊆ s.tasks) :
    Inv { s with tasks } := by
  have hset : ∀ p callback, SetOn { s with tasks } p callback → s.SetOn p callback := by
    rintro p callback (hregistered | htask)
    · exact .inl hregistered
    · exact .inr (hsub htask)
  refine { h with exposed := ?_, calls := ?_, all := ?_, chain := ?_, taken := ?_ }
  · rintro p (hheld | ⟨q, callback, hq, hp⟩ | hcall)
    · exact h.exposed p (.inl hheld)
    · exact h.exposed p (.inr (.inl ⟨q, callback, hset q callback hq, hp⟩))
    · exact h.exposed p (.inr (.inr hcall))
  · intro call hcall
    exact (h.calls call hcall).of_eq rfl rfl (fun _ _ hp => hp)
  · intro p r hp
    exact h.all p r (hset p _ hp)
  · intro p self chained hp
    exact h.chain p self chained (hset p _ hp)
  · intro p r htask
    exact h.taken p r (hsub htask)

theorem create_origin {o : PromiseOrigin} {p : ℕ} (h : p ≠ s.created) :
    (s.create o).origin p = s.origin p := Function.update_of_ne h ..

theorem create_promises {o : PromiseOrigin} {p : ℕ} (h : p ≠ s.created) :
    (s.create o).promises p = s.promises p := Function.update_of_ne h ..

theorem Public.create {p : ℕ} (h : s.Public p) (o : PromiseOrigin) : (s.create o).Public p := by
  refine ⟨Nat.lt_succ_of_lt h.1, ?_⟩
  rw [create_origin h.1.ne]
  exact h.2

theorem Derived.create {p : ℕ} (h : s.Derived p) (o : PromiseOrigin) :
    (s.create o).Derived p := by
  refine ⟨Nat.lt_succ_of_lt h.1, ?_⟩
  rw [create_origin h.1.ne]
  exact h.2

theorem Derived.public {p : ℕ} (h : s.Derived p) : s.Public p := by
  refine ⟨h.1, ?_⟩
  rw [h.2]
  nofun

theorem Inv.create (h : Inv s) (o : PromiseOrigin) : Inv (s.create o) := by
  have hold : ∀ p, s.origin p ≠ .derived → (s.create o).origin p = s.origin p :=
    fun p hp => create_origin (h.fresh p hp).ne
  have hset : ∀ p callback, (s.create o).SetOn p callback → s.SetOn p callback := by
    rintro p callback (hregistered | htask)
    · by_cases hp : p = s.created
      · have hempty : callback ∈ (Function.update s.promises s.created {} p).onFinishedCallbacks :=
          hregistered
        rw [hp, Function.update_self] at hempty
        cases hempty
      · rw [create_promises hp] at hregistered
        exact .inl hregistered
    · exact .inr htask
  refine ⟨?_, ?_, ?_, ?_, ?_, ?_, h.nodup, h.disjoint, h.taken, ?_, ?_⟩
  · intro p hp
    by_cases hnew : p = s.created
    · rw [hnew]
      exact Nat.lt_succ_self _
    · rw [create_origin hnew] at hp
      exact Nat.lt_succ_of_lt (h.fresh p hp)
  · rintro p (hheld | ⟨q, callback, hq, hp⟩ | hcall)
    · exact (h.exposed p (.inl hheld)).create o
    · exact (h.exposed p (.inr (.inl ⟨q, callback, hset q callback hq, hp⟩))).create o
    · exact (h.exposed p (.inr (.inr hcall))).create o
  · intro call hcall
    have hok := h.calls call hcall
    cases call with
    | loop mac size remaining futures =>
        obtain ⟨horigin, hrest⟩ := hok
        refine ⟨?_, hrest⟩
        intro p hp
        rw [hold p (by rw [horigin p hp]; split <;> nofun)]
        exact horigin p hp
    | scan futures left alreadyFinished =>
        obtain ⟨horigin, hleft⟩ := hok
        refine ⟨?_, hleft⟩
        intro p hp
        rw [hold p (by rw [horigin p hp]; nofun)]
        exact horigin p hp
    | register futures left resultPromise =>
        obtain ⟨horigin, hleft, hresult⟩ := hok
        refine ⟨?_, hleft, hresult.create o⟩
        intro p hp
        rw [hold p (by rw [horigin p hp]; nofun)]
        exact horigin p hp
    | onSent promise success => exact ⟨Nat.lt_succ_of_lt hok.1, hok.2⟩
    | chain | returning | onSentSettled => trivial
  · intro p r hp
    obtain ⟨hpart, hresult⟩ := h.all p r (hset p _ hp)
    refine ⟨?_, hresult.create o⟩
    rw [hold p (by rw [hpart]; nofun)]
    exact hpart
  · intro p self chained hp
    obtain ⟨hself, hchained⟩ := h.chain p self chained (hset p _ hp)
    exact ⟨hself, hchained.create o⟩
  · intro mac p hp
    have horder := h.order mac p hp
    rw [hold p horder]
    exact horder
  · intro mac p hp hfinished
    rw [create_promises (h.fresh p (h.order mac p hp)).ne] at hfinished ⊢
    exact h.rejected mac p hp hfinished
  · intro p
    by_cases hnew : p = s.created
    · rw [hnew]
      show (Function.update s.promises s.created {} s.created).Sound
      rw [Function.update_self]
      exact Promise.Sound.start
    · rw [create_promises hnew]
      exact h.sound p

theorem settle_dispatched (promise : ℕ) (o : Outcome Unit) :
    ((s.promises promise).settle o).1 ⊆ (s.promises promise).onFinishedCallbacks := by
  cases hf : (s.promises promise).finished with
  | true =>
      rw [Promise.settle_finished o hf]
      exact List.nil_subset _
  | false =>
      rw [Promise.settle_unfinished o hf]
      exact List.Subset.refl _

theorem Inv.setOn_settle (h : Inv s) {promise : ℕ} {o : Outcome Unit} {p : ℕ}
    {callback : SendCallback} (hset : (s.settle promise o).SetOn p callback) :
    s.SetOn p callback := by
  rcases hset with hregistered | htask
  · by_cases hp : p = promise
    · subst hp
      change callback ∈ (Function.update s.promises p _ p).onFinishedCallbacks at hregistered
      rw [Function.update_self, ((h.sound p).settle o).drained (Promise.finished_settle _ o)]
        at hregistered
      cases hregistered
    · change callback ∈ (Function.update s.promises promise _ p).onFinishedCallbacks
        at hregistered
      rw [Function.update_of_ne hp] at hregistered
      exact .inl hregistered
  · rcases List.mem_append.mp htask with hold | hnew
    · exact .inr hold
    · obtain ⟨c, hc, heq⟩ := List.mem_map.mp hnew
      cases heq
      exact .inl (settle_dispatched promise o hc)

/-- A call of the setter, on a promise that is not in a queue, or that the driver has rejected. -/
theorem Inv.settle (h : Inv s) {promise : ℕ} {o : Outcome Unit}
    (hqueued : ∀ mac, promise ∈ s.sendOrder mac → o = .error ∧
      (s.promises promise).onFinishedCallbacks = [] ∧ ∀ call ∈ s.calls, ¬ Passed promise call) :
    Inv (s.settle promise o) := by
  have hself : (s.settle promise o).promises promise = ((s.promises promise).settle o).2 :=
    Function.update_self ..
  have hother : ∀ p, p ≠ promise → (s.settle promise o).promises p = s.promises p :=
    fun p hp => Function.update_of_ne hp ..
  refine ⟨h.fresh, ?_, ?_, ?_, ?_, h.order, h.nodup, h.disjoint, ?_, ?_, ?_⟩
  · rintro p (hheld | ⟨q, callback, hq, hp⟩ | hcall)
    · exact h.exposed p (.inl hheld)
    · exact h.exposed p (.inr (.inl ⟨q, callback, h.setOn_settle hq, hp⟩))
    · exact h.exposed p (.inr (.inr hcall))
  · intro call hcall
    exact (h.calls call hcall).of_eq rfl rfl (fun _ _ hp => hp)
  · intro p r hp
    exact h.all p r (h.setOn_settle hp)
  · intro p self chained hp
    exact h.chain p self chained (h.setOn_settle hp)
  · intro p r htask mac hmac
    rcases List.mem_append.mp htask with hold | hnew
    · exact h.taken p r hold mac hmac
    · obtain ⟨c, hc, heq⟩ := List.mem_map.mp hnew
      cases heq
      have hregistered := settle_dispatched promise o hc
      rw [(hqueued mac hmac).2.1] at hregistered
      cases hregistered
  · intro mac p hmac hfinished
    by_cases hp : p = promise
    · subst hp
      obtain ⟨rfl, -, hpassed⟩ := hqueued mac hmac
      refine ⟨?_, hpassed⟩
      rw [hself]
      cases hf : (s.promises p).finished with
      | true =>
          rw [Promise.settle_finished _ hf]
          exact (h.rejected mac p hmac hf).1
      | false =>
          rw [Promise.settle_unfinished _ hf]
          rfl
    · rw [hother p hp] at hfinished ⊢
      exact h.rejected mac p hmac hfinished
  · intro p
    by_cases hp : p = promise
    · subst hp
      rw [hself]
      exact (h.sound p).settle o
    · rw [hother p hp]
      exact h.sound p

theorem setOn_onFinished {promise : ℕ} {callback : SendCallback} {p : ℕ} {c : SendCallback}
    (hset : (s.onFinished promise callback).SetOn p c) :
    s.SetOn p c ∨ p = promise ∧ c = callback := by
  rcases hset with hregistered | htask
  · by_cases hp : p = promise
    · subst hp
      change c ∈ (Function.update s.promises p _ p).onFinishedCallbacks at hregistered
      rw [Function.update_self, Promise.onFinished] at hregistered
      split at hregistered
      · exact .inl (.inl hregistered)
      · rcases List.mem_append.mp hregistered with hold | hnew
        · exact .inl (.inl hold)
        · exact .inr ⟨rfl, List.mem_singleton.mp hnew⟩
    · change c ∈ (Function.update s.promises promise _ p).onFinishedCallbacks at hregistered
      rw [Function.update_of_ne hp] at hregistered
      exact .inl (.inl hregistered)
  · rcases List.mem_append.mp htask with hold | hnew
    · exact .inl (.inr hold)
    · obtain ⟨c', hc, heq⟩ := List.mem_map.mp hnew
      cases heq
      rw [Promise.onFinished] at hc
      split at hc
      · exact .inr ⟨rfl, List.mem_singleton.mp hc⟩
      · cases hc

theorem Inv.onFinished (h : Inv s) {promise : ℕ} {callback : SendCallback}
    (hall : ∀ r, callback = .all r → s.origin promise = .part ∧ s.Derived r ∧
      ((s.promises promise).finished = true → ∀ mac, promise ∉ s.sendOrder mac))
    (hchain : ∀ self chained, callback = .chain self chained →
      self = promise ∧ s.Derived chained)
    (hpublic : ∀ p ∈ callback.captures, s.Public p) : Inv (s.onFinished promise callback) := by
  have hself : (s.onFinished promise callback).promises promise =
      ((s.promises promise).onFinished callback).2 := Function.update_self ..
  have hother : ∀ p, p ≠ promise →
      (s.onFinished promise callback).promises p = s.promises p :=
    fun p hp => Function.update_of_ne hp ..
  have hflags : ((s.promises promise).onFinished callback).2.finished =
        (s.promises promise).finished ∧
      ((s.promises promise).onFinished callback).2.success = (s.promises promise).success := by
    rw [Promise.onFinished]
    split <;> exact ⟨rfl, rfl⟩
  refine ⟨h.fresh, ?_, ?_, ?_, ?_, h.order, h.nodup, h.disjoint, ?_, ?_, ?_⟩
  · rintro p (hheld | ⟨q, c, hq, hp⟩ | hcall)
    · exact h.exposed p (.inl hheld)
    · rcases setOn_onFinished hq with hold | ⟨-, rfl⟩
      · exact h.exposed p (.inr (.inl ⟨q, c, hold, hp⟩))
      · exact hpublic p hp
    · exact h.exposed p (.inr (.inr hcall))
  · intro call hcall
    exact (h.calls call hcall).of_eq rfl rfl (fun _ _ hp => hp)
  · intro p r hp
    rcases setOn_onFinished hp with hold | ⟨rfl, heq⟩
    · exact h.all p r hold
    · obtain ⟨hpart, hresult, -⟩ := hall r heq.symm
      exact ⟨hpart, hresult⟩
  · intro p self chained hp
    rcases setOn_onFinished hp with hold | ⟨rfl, heq⟩
    · exact h.chain p self chained hold
    · exact hchain self chained heq.symm
  · intro p r htask mac hmac
    rcases List.mem_append.mp htask with hold | hnew
    · exact h.taken p r hold mac hmac
    · obtain ⟨c, hc, heq⟩ := List.mem_map.mp hnew
      cases heq
      have hdone : (s.promises promise).finished = true := by
        rw [← hflags.1]
        exact Promise.finished_of_mem_onFinished hc
      rw [Promise.onFinished, hdone] at hc
      exact (hall r (List.mem_singleton.mp hc).symm).2.2 hdone mac hmac
  · intro mac p hmac hfinished
    by_cases hp : p = promise
    · subst hp
      rw [hself, hflags.1] at hfinished
      rw [hself, hflags.2]
      exact h.rejected mac p hmac hfinished
    · rw [hother p hp] at hfinished ⊢
      exact h.rejected mac p hmac hfinished
  · intro p
    by_cases hp : p = promise
    · subst hp
      rw [hself]
      exact (h.sound p).onFinished callback
    · rw [hother p hp]
      exact h.sound p

theorem Inv.setCountLeft (h : Inv s) (countLeft : ℕ → ℕ) : Inv { s with countLeft } := by
  refine { h with exposed := h.exposed, calls := ?_ }
  intro call hcall
  exact (h.calls call hcall).of_eq rfl rfl (fun _ _ hp => hp)

theorem Inv.push (h : Inv s) (mac : Mac) (promise : ℕ) (horigin : s.origin promise ≠ .derived)
    (hnew : ∀ mac, promise ∉ s.sendOrder mac) (htask : ∀ r, (promise, .all r) ∉ s.tasks)
    (hunfinished : (s.promises promise).finished = false)
    (hcalls : ∀ success, .onSent promise success ∉ s.calls) :
    Inv { s with
      sendOrder := Function.update s.sendOrder mac (s.sendOrder mac ++ [promise]) } := by
  have hmem : ∀ mac' p, p ∈ Function.update s.sendOrder mac (s.sendOrder mac ++ [promise]) mac' →
      p ∈ s.sendOrder mac' ∨ mac' = mac ∧ p = promise := by
    intro mac' p hp
    by_cases hmac : mac' = mac
    · subst hmac
      rw [Function.update_self] at hp
      rcases List.mem_append.mp hp with hold | hnew
      · exact .inl hold
      · exact .inr ⟨rfl, List.mem_singleton.mp hnew⟩
    · rw [Function.update_of_ne hmac] at hp
      exact .inl hp
  refine { h with
    calls := ?_, order := ?_, nodup := ?_, disjoint := ?_, taken := ?_, rejected := ?_ }
  · intro call hcall
    have hok := h.calls call hcall
    cases call with
    | onSent p success =>
        refine ⟨hok.1, ?_⟩
        intro mac' hp
        rcases hmem mac' p hp with hold | ⟨-, rfl⟩
        · exact hok.2 mac' hold
        · exact hcalls success hcall
    | loop | scan | register => exact hok
    | chain | returning | onSentSettled => trivial
  · intro mac' p hp
    rcases hmem mac' p hp with hold | ⟨-, rfl⟩
    · exact h.order mac' p hold
    · exact horigin
  · intro mac'
    show (Function.update s.sendOrder mac (s.sendOrder mac ++ [promise]) mac').Nodup
    by_cases hmac : mac' = mac
    · subst hmac
      rw [Function.update_self]
      rw [← List.concat_eq_append]
      exact List.Nodup.concat (hnew mac') (h.nodup mac')
    · rw [Function.update_of_ne hmac]
      exact h.nodup mac'
  · intro mac' mac'' p hp hp'
    rcases hmem mac' p hp with hold | ⟨rfl, rfl⟩
    · rcases hmem mac'' p hp' with hold' | ⟨rfl, rfl⟩
      · exact h.disjoint mac' mac'' p hold hold'
      · exact absurd hold (hnew mac')
    · rcases hmem mac'' p hp' with hold' | ⟨rfl, -⟩
      · exact absurd hold' (hnew mac'')
      · rfl
  · intro p r hp mac' hmac
    rcases hmem mac' p hmac with hold | ⟨-, rfl⟩
    · exact h.taken p r hp mac' hold
    · exact htask r hp
  · intro mac' p hp hfinished
    rcases hmem mac' p hp with hold | ⟨-, rfl⟩
    · exact h.rejected mac' p hold hfinished
    · have hfalse : (s.promises p).finished = true := hfinished
      rw [hunfinished] at hfalse
      cases hfalse

theorem Inv.pop (h : Inv s) (mac : Mac) :
    Inv { s with sendOrder := Function.update s.sendOrder mac (s.sendOrder mac).tail } := by
  refine h.setOrder ?_
  intro mac'
  by_cases hmac : mac' = mac
  · subst hmac
    rw [Function.update_self]
    exact List.tail_sublist _
  · rw [Function.update_of_ne hmac]

theorem Inv.not_passed (h : Inv s) {p : ℕ} (hp : s.created ≤ p) {call : SendCall}
    (hcall : call ∈ s.calls) : ¬ Passed p call := by
  have hok := h.calls call hcall
  have hpart : s.origin p = .part → False := by
    intro horigin
    exact absurd (h.fresh p (by rw [horigin]; nofun)) (not_lt.mpr hp)
  cases call with
  | scan futures left alreadyFinished => exact fun hpassed => hpart (hok.1 p hpassed.1)
  | register futures left resultPromise => exact fun hpassed => hpart (hok.1 p hpassed)
  | loop | chain | returning | onSent | onSentSettled => exact id

theorem Inv.not_queued (h : Inv s) {p : ℕ} (hp : s.created ≤ p) (mac : Mac) :
    p ∉ s.sendOrder mac := by
  intro hmem
  exact absurd (h.fresh p (h.order mac p hmem)) (not_lt.mpr hp)

theorem Inv.already (h : Inv s) (origin : PromiseOrigin) (o : Outcome Unit) :
    Inv (s.already origin o) :=
  (h.create origin).settle fun mac hmem => absurd hmem (h.not_queued le_rfl mac)

theorem Inv.registerPeer (h : Inv s) (mac : Mac) (ok : Bool) : Inv (s.registerPeer mac ok).2 := by
  rw [SendOwners.registerPeer]
  split
  · exact h
  split
  · refine h.setOrder ?_
    intro mac'
    by_cases hmac : mac' = mac
    · subst hmac
      rw [Function.update_self]
      exact List.nil_sublist _
    · rw [Function.update_of_ne hmac]
  · exact h

theorem registerPeer_same (mac : Mac) (ok : Bool) :
    (s.registerPeer mac ok).2.created = s.created ∧
      (s.registerPeer mac ok).2.origin = s.origin ∧
      (s.registerPeer mac ok).2.calls = s.calls := by
  rw [SendOwners.registerPeer]
  split
  · exact ⟨rfl, rfl, rfl⟩
  split <;> exact ⟨rfl, rfl, rfl⟩

theorem send_same (origin : PromiseOrigin) (mac : Mac) (addPeer accept : Bool) :
    (s.send origin mac addPeer accept).created = s.created + 1 ∧
      (s.send origin mac addPeer accept).origin =
        Function.update s.origin s.created origin ∧
      (s.send origin mac addPeer accept).calls = s.calls := by
  obtain ⟨hcreated, horigin, hcalls⟩ := registerPeer_same (s := s) mac addPeer
  rw [SendOwners.send]
  split
  · exact ⟨rfl, rfl, rfl⟩
  split
  · rename_i t heq
    rw [heq] at hcreated horigin hcalls
    refine ⟨?_, ?_, ?_⟩
    · exact congrArg (· + 1) hcreated
    · show Function.update t.origin t.created origin = _
      rw [hcreated, horigin]
    · exact hcalls
  · rename_i t heq
    rw [heq] at hcreated horigin hcalls
    split
    · refine ⟨?_, ?_, ?_⟩
      · exact congrArg (· + 1) hcreated
      · show Function.update t.origin t.created origin = _
        rw [hcreated, horigin]
      · exact hcalls
    · refine ⟨?_, ?_, ?_⟩
      · exact congrArg (· + 1) hcreated
      · show Function.update t.origin t.created origin = _
        rw [hcreated, horigin]
      · exact hcalls

theorem Inv.send (h : Inv s) {origin : PromiseOrigin} (horigin : origin ≠ .derived) (mac : Mac)
    (addPeer accept : Bool) : Inv (s.send origin mac addPeer accept) := by
  rw [SendOwners.send]
  split
  · exact h.already origin .error
  have hregistered := h.registerPeer mac addPeer
  split
  · rename_i t heq
    rw [heq] at hregistered
    exact hregistered.already origin .error
  · rename_i t heq
    rw [heq] at hregistered
    have hcreated := hregistered.create origin
    have hself : (t.create origin).promises t.created = {} := Function.update_self ..
    have htask : ∀ r, (t.created, .all r) ∉ (t.create origin).tasks := by
      intro r hr
      obtain ⟨hpart, -⟩ := hregistered.all t.created r (.inr hr)
      exact absurd (hregistered.fresh t.created (by rw [hpart]; nofun)) (lt_irrefl _)
    have hlabel : (t.create origin).origin t.created ≠ .derived := by
      rw [show (t.create origin).origin t.created = origin from Function.update_self ..]
      exact horigin
    have hpushed := hcreated.push mac t.created hlabel (hregistered.not_queued le_rfl) htask
      (by rw [hself]) (fun success hmem => absurd (hregistered.calls _ hmem).1 (lt_irrefl _))
    split
    · exact hpushed
    · refine (hpushed.pop mac).settle ?_
      intro mac' _
      refine ⟨rfl, ?_, fun call hcall => hregistered.not_passed le_rfl hcall⟩
      show ((t.create origin).promises t.created).onFinishedCallbacks = []
      rw [hself]

end Kept

end SendOwners

end EspIot
