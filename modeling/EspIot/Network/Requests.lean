/-
# `EspIot.Network.Requests` — requests that wait for a response

A request registers the promise of its reply under an 8-bit id and attaches a chain of
futures to what is sent:

    all(packets) ─then─▶ EspNowSendResponse ─then─▶ the reply's promise ─on_error─▶ erase(id)

The entry leaves `_requests` when a response with the id arrives, when a newer request
takes the id, and when the `on_error` function of a request with the id runs.  That function
erases whatever is registered under the id when it runs, which is some time after its own
request has failed or been cancelled.
-/
import EspIot.Async.FutureRuns
import EspIot.Network.Assembly

namespace EspIot

open Lib EspNowInteraction

/-- The promises the futures of a node rest on, by the number of the `_send_impl` call: those of
its packets and, for a request, that of the reply. -/
inductive SendPromise
  | packet (send index : Nat)
  | reply (send : Nat)
deriving DecidableEq

/-- `EspNowSendResponse` or `EspNowMessage` -/
inductive SendResult
  | response (id : UInt8)
  | message (message : EspNowMessage)
deriving DecidableEq

/-- The functions given to the combinators, with what they capture. -/
inductive RequestFn
  | sendResponse (id : UInt8)
  | awaitReply (send : Nat)
  | eraseRequest (id : UInt8)
deriving DecidableEq

/-- A request: its id, its `_send_impl` call with the number of packets, and the call of
`on_error`. -/
structure Request where
  id : UInt8
  send : Nat
  packets : Nat
  onError : Nat
deriving DecidableEq

/-- A node, the futures of its calls with the functions given to them, the number of `_send_impl`
calls and the requests made so far.  `_requests` holds the promise of a reply. -/
structure EspNowRequests where
  node : AsyncEspNowInteraction Nat := {}
  system : FutureSystem SendPromise SendResult := {}
  fns : Nat → Option RequestFn := fun _ => none
  sends : Nat := 0
  made : List Request := []

/-- `accepted` says which packets `AsyncEspNow::send` does not fail at once, `sent` brings the
report of one.  `others` is `begin`, `end` and `set_on_message_cb`. -/
inductive RequestEvent
  | send (data : List UInt8) (accepted : Nat → Bool)
  | respond (id : UInt8) (data : List UInt8) (accepted : Nat → Bool)
  | request (data : List UInt8) (accepted : Nat → Bool)
  | sent (send index : Nat) (ok : Bool)
  | received (packet : EspNowPacket)
  | runTask
  | others (initialized onMessageCb : Bool)

namespace RequestFn

/-- The future a function returns; `eraseRequest` returns its argument. -/
def returned (self : PromiseId SendPromise) : RequestFn → PromiseId SendPromise
  | awaitReply send => .source (.reply send)
  | _ => self

def value : RequestFn → Option SendResult
  | sendResponse id => some (.response id)
  | _ => none

/-- What a function does to the node: `_requests.erase(id)`. -/
def effect (node : AsyncEspNowInteraction Nat) : RequestFn → AsyncEspNowInteraction Nat
  | eraseRequest id => { node with requests := Function.update node.requests id none }
  | _ => node

end RequestFn

namespace FutureSystem

variable {ι V : Type*} [DecidableEq ι]

/-- A combinator call whose operands exist. -/
def call (s : FutureSystem ι V) (b : FutureBuild ι V) : FutureSystem ι V :=
  (s.step (.build b)).getD s

def settle (s : FutureSystem ι V) (i : ι) (o : Outcome V) : FutureSystem ι V :=
  { s with futures := s.futures.settle (.source i) o }

end FutureSystem

namespace EspNowRequests

def call (s : EspNowRequests) (b : FutureBuild SendPromise SendResult) (fn : Option RequestFn) :
    EspNowRequests :=
  { s with
    system := s.system.call b
    fns := Function.update s.fns s.system.built.length fn }

def settle (s : EspNowRequests) (promise : SendPromise) (o : Outcome SendResult) :
    EspNowRequests :=
  { s with system := s.system.settle promise o }

/-- `AsyncEspNow::send` for the first `n` packets of a message. -/
def sendPackets (s : EspNowRequests) (accepted : Nat → Bool) : Nat → EspNowRequests
  | 0 => s
  | n + 1 =>
      let s' := (sendPackets s accepted n).call (.source (.packet s.sends n)) none
      if accepted n then s' else s'.settle (.packet s.sends n) .error

/-- `_send_impl` of a message, in fragments unless it was refused; the last call returns the
future. -/
def sendImpl (s : EspNowRequests) (id : UInt8) (accepted : Nat → Bool) :
    Option (List EspNowFragment) → EspNowRequests
  | none => { s.call (.settled .error) none with sends := s.sends + 1 }
  | some parts =>
      let first := s.system.built.length
      let s' := s.sendPackets accepted parts.length
      let s' := s'.call (.all (List.range' first parts.length)) none
      let s' := s'.call (.thenValue (first + parts.length) fun _ => some (.response id))
        (some (.sendResponse id))
      { s' with sends := s.sends + 1 }

def send (s : EspNowRequests) (data : List UInt8) (accepted : Nat → Bool) : EspNowRequests :=
  let (parts, node) := s.node.send data
  { s with node }.sendImpl s.node.id accepted parts

def respond (s : EspNowRequests) (id : UInt8) (data : List UInt8) (accepted : Nat → Bool) :
    EspNowRequests :=
  s.sendImpl id accepted (s.node.respond id data)

/-- `_request_impl`, up to the registration of the reply's promise: an older request under the
id is cancelled. -/
def register (s : EspNowRequests) : EspNowRequests :=
  let s' := match s.node.requests s.node.id with
    | some existing => s.settle (.reply existing) .error
    | none => s
  { s' with
    node := { s.node with
      id := s.node.id + 1
      requests := Function.update s.node.requests s.node.id (some s.sends) } }

/-- `_request_impl`, the chain on the future of `_send_impl`. -/
def attach (s : EspNowRequests) (id : UInt8) (send packets : Nat) : EspNowRequests :=
  let k := s.system.built.length
  let s' := s.call (.source (.reply send)) none
  let s' := s'.call (.thenFuture false (k - 1) fun _ => .source (.reply send))
    (some (.awaitReply send))
  let s' := s'.call (.onErrorVoid false (k + 1)) (some (.eraseRequest id))
  { s' with made := s.made ++ [{ id, send, packets, onError := k + 2 }] }

def request (s : EspNowRequests) (data : List UInt8) (accepted : Nat → Bool) : EspNowRequests :=
  if s.node.initialized = false then s.call (.settled .error) none
  else
    let parts := EspIot.sendImpl s.node.id false data
    (s.register.sendImpl s.node.id accepted parts).attach s.node.id s.sends
      (parts.elim 0 List.length)

/-- The function the oldest task calls, and the future it is called with. -/
def nextFn (s : EspNowRequests) : Option (RequestFn × PromiseId SendPromise) := do
  let (p, callback) ← s.system.futures.dispatched.head?
  let (k, self) ← callback.userFn (s.system.futures.promises p).success
  return (← s.fns k, self)

def runTask (s : EspNowRequests) : Option EspNowRequests :=
  match s.nextFn with
  | some (fn, self) =>
      (s.system.step (.runTask (fn.returned self) fn.value)).map fun system =>
        { s with system, node := fn.effect s.node }
  | none =>
      (s.system.step (.runTask (.derived 0) none)).map fun system => { s with system }

def received (s : EspNowRequests) (packet : EspNowPacket) : Option EspNowRequests :=
  match s.node.onPacketReceived packet with
  | .error _ => none
  | .ok (handed, node) =>
      let s' := match handed with
        | some { recipient := .request promise, message, .. } =>
            s.settle (.reply promise) (.success (some (.message message)))
        | _ => s
      some { s' with node }

def step (s : EspNowRequests) : RequestEvent → Option EspNowRequests
  | .send data accepted => some (s.send data accepted)
  | .respond id data accepted => some (s.respond id data accepted)
  | .request data accepted => some (s.request data accepted)
  | .sent send index ok =>
      some (s.settle (.packet send index) (if ok then .success none else .error))
  | .received packet => s.received packet
  | .runTask => s.runTask
  | .others initialized onMessageCb =>
      some { s with node := { s.node with initialized, onMessageCb } }

/-! ## Calls -/

/-- The function given to a call stands for what the expression of the call says. -/
def StandsFor (built : List (PromiseId SendPromise × FutureExpr SendPromise SendResult))
    (fn : Option RequestFn) : FutureExpr SendPromise SendResult → Prop
  | .thenFuture _ _ f => ∃ send, fn = some (.awaitReply send) ∧
      f = (fun _ => .source (.reply send)) ∧
        (.source (.reply send), .source (.reply send)) ∈ built
  | .thenValue _ f => ∃ id, fn = some (.sendResponse id) ∧ f = fun _ => some (.response id)
  | .onErrorVoid _ _ => ∃ id, fn = some (.eraseRequest id)
  | .onError _ _ _ => False
  | .doFinally _ => False
  | _ => True

theorem StandsFor.mono {built built' : List (PromiseId SendPromise ×
    FutureExpr SendPromise SendResult)} {fn : Option RequestFn}
    {e : FutureExpr SendPromise SendResult} (h : StandsFor built fn e)
    (hbuilt : built ⊆ built') : StandsFor built' fn e := by
  cases e with
  | thenFuture isVoid future f =>
      obtain ⟨send, hsend, hf, hmem⟩ := h
      exact ⟨send, hsend, hf, hbuilt hmem⟩
  | _ => exact h

/-- The futures keep their invariant, and the functions given to them are those of their
expressions. -/
structure Wired (s : EspNowRequests) : Prop where
  kept : ∀ σ, s.system.Agrees σ → FutureSystem.Kept σ s.system
  fns : ∀ k p e, s.system.built[k]? = some (p, e) →
    StandsFor s.system.built (s.fns k) e

/-- What calls and the reports of packets leave as it is. -/
structure Grows (s t : EspNowRequests) : Prop where
  node : t.node = s.node
  made : t.made = s.made
  built : s.system.built <+: t.system.built
  called : t.system.futures.called = s.system.futures.called
  ended : ∀ q a, s.system.futures.ended q = some a → t.system.futures.ended q = some a
  reply : ∀ n, t.system.futures.ended (.source (.reply n)) =
    s.system.futures.ended (.source (.reply n))
  fns : ∀ k < s.system.built.length, t.fns k = s.fns k
  wired : s.Wired → t.Wired

theorem Grows.refl (s : EspNowRequests) : s.Grows s :=
  ⟨rfl, rfl, List.prefix_refl _, rfl, fun _ _ h => h, fun _ => rfl, fun _ _ => rfl, id⟩

theorem Grows.trans {s t u : EspNowRequests} (h₁ : s.Grows t) (h₂ : t.Grows u) : s.Grows u where
  node := h₂.node.trans h₁.node
  made := h₂.made.trans h₁.made
  built := h₁.built.trans h₂.built
  called := h₂.called.trans h₁.called
  ended q a h := h₂.ended q a (h₁.ended q a h)
  reply n := (h₂.reply n).trans (h₁.reply n)
  fns k hk := (h₂.fns k (Nat.lt_of_lt_of_le hk h₁.built.length_le)).trans (h₁.fns k hk)
  wired h := h₂.wired (h₁.wired h)

theorem Grows.withSends {s t : EspNowRequests} (h : s.Grows t) (n : Nat) :
    s.Grows { t with sends := n } where
  node := h.node
  made := h.made
  built := h.built
  called := h.called
  ended := h.ended
  reply := h.reply
  fns := h.fns
  wired hs := ⟨(h.wired hs).kept, (h.wired hs).fns⟩

theorem call_grows {s : EspNowRequests} {b : FutureBuild SendPromise SendResult}
    {fn : Option RequestFn} {e : FutureExpr SendPromise SendResult} {p : PromiseId SendPromise}
    {f : Futures SendPromise SendResult}
    (hb : b.apply s.system.built s.system.futures = some (e, p, f))
    (hfn : StandsFor s.system.built fn e) :
    s.Grows (s.call b fn) ∧ (s.call b fn).system.built = s.system.built ++ [(p, e)] := by
  have hstep : s.system.step (.build b) =
      some { futures := f, built := s.system.built ++ [(p, e)] } := by
    simp [FutureSystem.step, hb]
  have hcall : (s.call b fn).system = { futures := f, built := s.system.built ++ [(p, e)] } := by
    simp [call, FutureSystem.call, hstep]
  have hfns : ∀ k, k ≠ s.system.built.length → (s.call b fn).fns k = s.fns k := fun k hk =>
    Function.update_of_ne hk ..
  have hmono : ∀ q a, s.system.futures.ended q = some a →
      (s.call b fn).system.futures.ended q = some a := by
    intro q a ha
    rw [hcall]
    exact FutureSystem.ended_mono_apply hb ha
  refine ⟨⟨rfl, rfl, by rw [hcall]; exact List.prefix_append .., ?_, hmono, fun n => ?_,
    fun k hk => hfns k hk.ne, fun h => ⟨fun σ hσ => ?_, fun k q e' hk => ?_⟩⟩, by rw [hcall]⟩
  · rw [hcall]
    exact FutureSystem.called_apply hb
  · rw [hcall]
    exact FutureSystem.ended_source_apply hb _
  · have hkept := h.kept σ fun i a ha => hσ i a (hmono _ a ha)
    rw [hcall]
    exact hkept.build hb
  · rw [hcall] at hk
    rcases getElem?_concat_cases hk with hk | ⟨rfl, heq⟩
    · rw [hcall, hfns k (List.getElem?_eq_some_iff.mp hk).1.ne]
      exact (h.fns k q e' hk).mono (List.subset_append_left ..)
    · cases heq
      have hself : (s.call b fn).fns s.system.built.length = fn := Function.update_self ..
      rw [hcall, hself]
      exact hfn.mono (List.subset_append_left ..)

/-! The calls that a node makes. -/

theorem call_source (s : EspNowRequests) (i : SendPromise) :
    s.Grows (s.call (.source i) none) ∧
      (s.call (.source i) none).system.built = s.system.built ++ [(.source i, .source i)] :=
  call_grows rfl trivial

theorem call_settled (s : EspNowRequests) (o : Outcome SendResult) :
    s.Grows (s.call (.settled o) none) ∧
      ∃ p, (s.call (.settled o) none).system.built = s.system.built ++ [(p, .settled o)] := by
  obtain ⟨hgrows, hbuilt⟩ := call_grows (s := s) (b := .settled o) rfl
    (trivial : StandsFor s.system.built none (.settled o))
  exact ⟨hgrows, _, hbuilt⟩

section Calls
variable {s : EspNowRequests} {k : Nat}
  {x : PromiseId SendPromise × FutureExpr SendPromise SendResult}

theorem call_thenValue (hk : s.system.built[k]? = some x) (id : UInt8) :
    s.Grows (s.call (.thenValue k fun _ => some (.response id)) (some (.sendResponse id))) ∧
      ∃ p, (s.call (.thenValue k fun _ => some (.response id))
        (some (.sendResponse id))).system.built =
          s.system.built ++ [(p, .thenValue x.2 fun _ => some (.response id))] := by
  have hfn : StandsFor s.system.built (some (.sendResponse id))
      (.thenValue x.2 fun _ => some (.response id)) := ⟨id, rfl, rfl⟩
  obtain ⟨hgrows, hbuilt⟩ := call_grows (b := .thenValue k fun _ => some (.response id))
    (f := (s.system.futures.thenValue x.1).2) (by simp only [FutureBuild.apply, hk]; rfl) hfn
  exact ⟨hgrows, _, hbuilt⟩

theorem call_thenFuture (hk : s.system.built[k]? = some x) {send : Nat}
    (hreply : (.source (.reply send), .source (.reply send)) ∈ s.system.built) :
    s.Grows (s.call (.thenFuture false k fun _ => .source (.reply send))
      (some (.awaitReply send))) ∧
      ∃ p, (s.call (.thenFuture false k fun _ => .source (.reply send))
        (some (.awaitReply send))).system.built = s.system.built ++
          [(p, .thenFuture false x.2 fun _ => .source (.reply send))] := by
  have hfn : StandsFor s.system.built (some (.awaitReply send))
      (.thenFuture false x.2 fun _ => .source (.reply send)) := ⟨send, rfl, rfl, hreply⟩
  obtain ⟨hgrows, hbuilt⟩ := call_grows (b := .thenFuture false k fun _ => .source (.reply send))
    (f := (s.system.futures.thenFuture false x.1).2)
    (by simp only [FutureBuild.apply, hk]; rfl) hfn
  exact ⟨hgrows, _, hbuilt⟩

theorem call_onErrorVoid (hk : s.system.built[k]? = some x) (id : UInt8) :
    s.Grows (s.call (.onErrorVoid false k) (some (.eraseRequest id))) ∧
      ∃ p, (s.call (.onErrorVoid false k) (some (.eraseRequest id))).system.built =
        s.system.built ++ [(p, .onErrorVoid false x.2)] := by
  have hfn : StandsFor s.system.built (some (.eraseRequest id)) (.onErrorVoid false x.2) :=
    ⟨id, rfl⟩
  obtain ⟨hgrows, hbuilt⟩ := call_grows (b := .onErrorVoid false k)
    (f := (s.system.futures.onError false x.1).2) (by simp only [FutureBuild.apply, hk]; rfl) hfn
  exact ⟨hgrows, _, hbuilt⟩

end Calls

theorem erases_of_update {fns : Nat → Option RequestFn} {fn : Option RequestFn}
    (hfn : ∀ id, fn ≠ some (.eraseRequest id)) {n k : Nat} {id : UInt8}
    (h : Function.update fns n fn k = some (.eraseRequest id)) :
    fns k = some (.eraseRequest id) := by
  rcases eq_or_ne k n with rfl | hne
  · rw [Function.update_self] at h
    exact absurd h (hfn id)
  · rwa [Function.update_of_ne hne] at h

theorem settle_wired {s : EspNowRequests} (h : s.Wired) (i : SendPromise)
    (o : Outcome SendResult) : (s.settle i o).Wired where
  kept σ hσ := by
    refine (h.kept σ ?_).settle i o (hσ i)
    intro j a ha
    exact hσ j a (Futures.ended_mono_settle _ _ ha)
  fns k p e hk := h.fns k p e hk

theorem settle_grows (s : EspNowRequests) (send index : Nat) (o : Outcome SendResult) :
    s.Grows (s.settle (.packet send index) o) where
  node := rfl
  made := rfl
  built := List.prefix_refl _
  called := rfl
  ended _ _ h := Futures.ended_mono_settle _ _ h
  reply _ := Futures.ended_settle_of_ne _ _ (by simp)
  fns _ _ := rfl
  wired h := settle_wired h _ _

/-! ## Sending -/

/-- The futures of the packets of a message. -/
def packetFutures (send n : Nat) : List (PromiseId SendPromise ×
    FutureExpr SendPromise SendResult) :=
  (List.range n).map fun i => (.source (.packet send i), .source (.packet send i))

theorem sendPackets_grows (s : EspNowRequests) (accepted : Nat → Bool) (n : Nat) :
    s.Grows (s.sendPackets accepted n) ∧
      (s.sendPackets accepted n).system.built = s.system.built ++ packetFutures s.sends n ∧
      ∀ k id, (s.sendPackets accepted n).fns k = some (.eraseRequest id) →
        s.fns k = some (.eraseRequest id) := by
  induction n with
  | zero => exact ⟨Grows.refl s, (List.append_nil _).symm, fun _ _ h => h⟩
  | succ n ih =>
      obtain ⟨hgrows, hbuilt, herases⟩ := ih
      obtain ⟨hcall, hnew⟩ := call_source (s.sendPackets accepted n) (.packet s.sends n)
      have hlist : ((s.sendPackets accepted n).call (.source (.packet s.sends n))
          none).system.built = s.system.built ++ packetFutures s.sends (n + 1) := by
        rw [hnew, hbuilt, packetFutures, packetFutures, List.range_succ, List.map_append,
          List.append_assoc]
        rfl
      have hfns : ∀ k id, ((s.sendPackets accepted n).call (.source (.packet s.sends n))
          none).fns k = some (.eraseRequest id) → s.fns k = some (.eraseRequest id) :=
        fun k id h => herases k id (erases_of_update (by simp) h)
      simp only [sendPackets]
      split
      · exact ⟨hgrows.trans hcall, hlist, hfns⟩
      · exact ⟨(hgrows.trans hcall).trans (settle_grows _ _ _ _), hlist, hfns⟩

theorem call_all {s : EspNowRequests} {l r : List (PromiseId SendPromise ×
    FutureExpr SendPromise SendResult)} (hbuilt : s.system.built = l ++ r) :
    s.Grows (s.call (.all (List.range' l.length r.length)) none) ∧
      ∃ p, (s.call (.all (List.range' l.length r.length)) none).system.built =
        s.system.built ++ [(p, .allOf (r.map Prod.snd))] := by
  obtain ⟨hgrows, hnew⟩ := call_grows (s := s) (b := .all (List.range' l.length r.length))
    (e := .allOf (r.map Prod.snd)) (f := (s.system.futures.all (r.map Prod.fst)).2)
    (by simp only [FutureBuild.apply, hbuilt, mapM_range']; rfl)
    (trivial : StandsFor s.system.built none (.allOf (r.map Prod.snd)))
  exact ⟨hgrows, _, hnew⟩

theorem sendImpl_grows (s : EspNowRequests) (id : UInt8) (accepted : Nat → Bool)
    (parts : Option (List EspNowFragment)) :
    s.Grows (s.sendImpl id accepted parts) ∧ (s.sendImpl id accepted parts).sends = s.sends + 1 ∧
      (∀ k id', (s.sendImpl id accepted parts).fns k = some (.eraseRequest id') →
        s.fns k = some (.eraseRequest id')) ∧
      ∃ front p e, (s.sendImpl id accepted parts).system.built = front ++ [(p, e)] ∧
        ∀ σ : SendPromise → Outcome SendResult, 0 < parts.elim 0 List.length →
          (∀ i < parts.elim 0 List.length, (σ (.packet s.sends i)).ok = true) →
            (e.outcome σ).ok = true := by
  cases parts with
  | none =>
      obtain ⟨hgrows, p, hbuilt⟩ := call_settled s .error
      exact ⟨hgrows.withSends _, rfl, fun k id' h => erases_of_update (by simp) h,
        _, p, _, hbuilt, fun σ hpos => absurd hpos (Nat.lt_irrefl 0)⟩
  | some parts =>
      obtain ⟨hpackets, hlist, herases⟩ := s.sendPackets_grows accepted parts.length
      have hlength : (packetFutures s.sends parts.length).length = parts.length := by
        simp [packetFutures]
      obtain ⟨hall, q, hqbuilt⟩ := call_all hlist
      rw [hlength] at hall hqbuilt
      obtain ⟨hthen, p, hpbuilt⟩ := call_thenValue (k := s.system.built.length + parts.length)
        (x := (q, .allOf ((packetFutures s.sends parts.length).map Prod.snd)))
        (by rw [hqbuilt, List.getElem?_append_right (by simp [hlist, hlength])]
            simp [hlist, hlength]) id
      refine ⟨((hpackets.trans hall).trans hthen).withSends _, rfl,
        fun k id' h => herases k id' (erases_of_update (by simp) (erases_of_update (by simp) h)),
        _, p, _, hpbuilt, fun σ hpos hok => ?_⟩
      rw [FutureExpr.thenValue_ok, FutureExpr.allOf_ok]
      refine ⟨?_, ?_⟩
      · rw [ne_eq, List.map_eq_nil_iff, ← List.length_eq_zero_iff, hlength]
        exact hpos.ne'
      · intro e he
        obtain ⟨x, hx, rfl⟩ := List.mem_map.mp he
        obtain ⟨i, hi, rfl⟩ := List.mem_map.mp hx
        exact hok i (List.mem_range.mp hi)

/-! ## Requesting -/

/-- The chain of a request: it succeeds when all packets and the reply do. -/
def Chained (s : EspNowRequests) (r : Request) : Prop :=
  ∃ q e, s.system.built[r.onError]? = some (q, .onErrorVoid false e) ∧
    ∀ σ : SendPromise → Outcome SendResult, 0 < r.packets →
      (∀ i < r.packets, (σ (.packet r.send i)).ok = true) →
        (σ (.reply r.send)).ok = true → (e.outcome σ).ok = true

theorem Chained.mono {s t : EspNowRequests} {r : Request} (h : s.Chained r)
    (hbuilt : s.system.built <+: t.system.built) : t.Chained r := by
  obtain ⟨q, e, hget, hok⟩ := h
  obtain ⟨more, hmore⟩ := hbuilt
  refine ⟨q, e, ?_, hok⟩
  rw [← hmore, List.getElem?_append_left (List.getElem?_eq_some_iff.mp hget).1, hget]

/-- What a request that is not refused does. -/
structure Requested (s t : EspNowRequests) (r : Request) : Prop where
  id : r.id = s.node.id
  send : r.send = s.sends
  onError : s.system.built.length ≤ r.onError ∧ r.onError < t.system.built.length
  made : t.made = s.made ++ [r]
  sends : t.sends = s.sends + 1
  requests : t.node.requests = Function.update s.node.requests s.node.id (some s.sends)
  built : s.system.built <+: t.system.built
  called : t.system.futures.called = s.system.futures.called
  ended : ∀ q a, s.system.futures.ended q = some a → t.system.futures.ended q = some a
  reply : ∀ n, s.node.requests s.node.id ≠ some n →
    t.system.futures.ended (.source (.reply n)) = s.system.futures.ended (.source (.reply n))
  cancelled : ∀ n, s.node.requests s.node.id = some n →
    (t.system.futures.ended (.source (.reply n))).isSome = true
  fns : ∀ k id', t.fns k = some (.eraseRequest id') →
    (k = r.onError ∧ id' = r.id) ∨ s.fns k = some (.eraseRequest id')
  wired : s.Wired → t.Wired
  chained : t.Chained r

theorem register_spec (s : EspNowRequests) :
    (s.register.made = s.made ∧ s.register.sends = s.sends ∧ s.register.fns = s.fns ∧
      s.register.system.built = s.system.built ∧
      s.register.system.futures.called = s.system.futures.called) ∧
    s.register.node.requests = Function.update s.node.requests s.node.id (some s.sends) ∧
    (∀ q a, s.system.futures.ended q = some a → s.register.system.futures.ended q = some a) ∧
    (∀ n, s.node.requests s.node.id ≠ some n → s.register.system.futures.ended
      (.source (.reply n)) = s.system.futures.ended (.source (.reply n))) ∧
    (∀ n, s.node.requests s.node.id = some n →
      (s.register.system.futures.ended (.source (.reply n))).isSome = true) ∧
    (s.Wired → s.register.Wired) := by
  rw [register]
  cases hreq : s.node.requests s.node.id with
  | none =>
      refine ⟨⟨rfl, rfl, rfl, rfl, rfl⟩, rfl, fun _ _ h => h, fun _ _ => rfl, by simp,
        fun h => ⟨h.kept, h.fns⟩⟩
  | some existing =>
      refine ⟨⟨rfl, rfl, rfl, rfl, rfl⟩, rfl, fun _ _ h => Futures.ended_mono_settle _ _ h,
        fun n hn => Futures.ended_settle_of_ne _ _ ?_, fun n hn => ?_, fun h => ?_⟩
      · rintro heq
        cases heq
        exact hn rfl
      · cases hn
        exact (congrArg Option.isSome (Futures.ended_settle_self ..)).trans rfl
      · have hwired := settle_wired h (.reply existing) .error
        exact ⟨hwired.kept, hwired.fns⟩

theorem attach_spec {s : EspNowRequests} {front : List (PromiseId SendPromise ×
    FutureExpr SendPromise SendResult)} {p : PromiseId SendPromise}
    {e : FutureExpr SendPromise SendResult} (hbuilt : s.system.built = front ++ [(p, e)])
    (id : UInt8) (send packets : Nat) :
    (∃ q, (s.attach id send packets).system.built[s.system.built.length + 2]? =
      some (q, .onErrorVoid false (.thenFuture false e fun _ => .source (.reply send)))) ∧
    ((s.attach id send packets).system.built.length = s.system.built.length + 3 ∧
      s.system.built <+: (s.attach id send packets).system.built) ∧
    (s.attach id send packets).system.futures.called = s.system.futures.called ∧
    (∀ q a, s.system.futures.ended q = some a →
      (s.attach id send packets).system.futures.ended q = some a) ∧
    (∀ n, (s.attach id send packets).system.futures.ended (.source (.reply n)) =
      s.system.futures.ended (.source (.reply n))) ∧
    (∀ k id', (s.attach id send packets).fns k = some (.eraseRequest id') →
      (k = s.system.built.length + 2 ∧ id' = id) ∨ s.fns k = some (.eraseRequest id')) ∧
    (s.Wired → (s.attach id send packets).Wired) := by
  obtain ⟨hg₁, hb₁⟩ := call_source s (.reply send)
  have hk : s.system.built.length - 1 = front.length := by simp [hbuilt]
  have hget₁ : (s.call (.source (.reply send)) none).system.built[s.system.built.length - 1]? =
      some (p, e) := by
    rw [hb₁, hbuilt, List.append_assoc, ← hbuilt, hk,
      List.getElem?_append_right (Nat.le_refl _), Nat.sub_self]
    rfl
  have hreply : (.source (.reply send), .source (.reply send)) ∈
      (s.call (.source (.reply send)) none).system.built := by
    rw [hb₁]
    exact List.mem_append_right _ (List.mem_singleton_self _)
  obtain ⟨hg₂, p₂, hb₂⟩ := call_thenFuture hget₁ hreply
  have hlen₁ : (s.call (.source (.reply send)) none).system.built.length =
      s.system.built.length + 1 := by rw [hb₁, List.length_append, List.length_singleton]
  have hget₂ := hb₂ ▸ List.getElem?_concat_length (l :=
    (s.call (.source (.reply send)) none).system.built)
    (a := (p₂, FutureExpr.thenFuture false e fun _ => .source (.reply send)))
  rw [hlen₁] at hget₂
  obtain ⟨hg₃, q, hb₃⟩ := call_onErrorVoid hget₂ id
  have hlen₂ := congrArg List.length hb₂
  rw [List.length_append, List.length_singleton, hlen₁] at hlen₂
  have hgrows := (hg₁.trans hg₂).trans hg₃
  refine ⟨⟨q, ?_⟩, ⟨?_, hgrows.built⟩, hgrows.called, hgrows.ended, hgrows.reply, ?_,
    fun h => ⟨(hgrows.wired h).kept, (hgrows.wired h).fns⟩⟩
  · rw [← hlen₂]
    exact hb₃ ▸ List.getElem?_concat_length
  · refine (congrArg List.length hb₃).trans ?_
    rw [List.length_append, List.length_singleton, hlen₂]
  · intro k id' hfn
    rcases eq_or_ne k (s.system.built.length + 2) with rfl | hne
    · refine Or.inl ⟨rfl, ?_⟩
      rw [← hlen₂] at hfn
      have := (Function.update_self ..).symm.trans hfn
      cases this
      rfl
    · rw [← hlen₂] at hne
      have hold := (Function.update_of_ne hne ..).symm.trans hfn
      exact Or.inr (erases_of_update (by simp) (erases_of_update (by simp) hold))

theorem request_spec {s : EspNowRequests} (hinit : s.node.initialized = true)
    (data : List UInt8) (accepted : Nat → Bool) :
    ∃ r, s.Requested (s.request data accepted) r := by
  obtain ⟨⟨hmade, hsends, hfns, hbuilt, hcalled⟩, hrequests, hended, hreply, hcancelled, hwired⟩ :=
    register_spec s
  obtain ⟨hgrows, hsends', herases, front, p, e, hfront, hok⟩ :=
    s.register.sendImpl_grows s.node.id accepted (EspIot.sendImpl s.node.id false data)
  have hrequest : s.request data accepted =
      (s.register.sendImpl s.node.id accepted (EspIot.sendImpl s.node.id false data)).attach
        s.node.id s.sends ((EspIot.sendImpl s.node.id false data).elim 0 List.length) := by
    rw [request, if_neg (by simp [hinit])]
  rw [hrequest]
  generalize (EspIot.sendImpl s.node.id false data).elim 0 List.length = packets at hok ⊢
  generalize s.register.sendImpl s.node.id accepted (EspIot.sendImpl s.node.id false data) = u
    at hgrows hsends' herases hfront ⊢
  obtain ⟨⟨q, hget⟩, ⟨hlength, hbuilt'⟩, hcalled', hended', hreply', herases', hwired'⟩ :=
    attach_spec hfront s.node.id s.sends packets
  refine ⟨⟨s.node.id, s.sends, packets, u.system.built.length + 2⟩, {
    id := rfl
    send := rfl
    onError := ⟨?_, by rw [hlength]; exact Nat.lt_succ_self _⟩
    made := by rw [← hmade, ← hgrows.made]; rfl
    sends := hsends'.trans (by rw [hsends])
    requests := by rw [← hrequests, ← hgrows.node]; rfl
    built := hbuilt ▸ hgrows.built.trans hbuilt'
    called := hcalled'.trans (hgrows.called.trans hcalled)
    ended := fun q a h => hended' q a (hgrows.ended q a (hended q a h))
    reply := fun n hn => (hreply' n).trans ((hgrows.reply n).trans (hreply n hn))
    cancelled := fun n hn => by rw [hreply' n, hgrows.reply n]; exact hcancelled n hn
    fns := fun k id' h => (herases' k id' h).imp_right fun h => hfns ▸ herases k id' h
    wired := fun h => hwired' (hgrows.wired (hwired h))
    chained := ⟨q, _, hget, fun σ hpos hpackets hreply => ?_⟩ }⟩
  · have hle := (hbuilt ▸ hgrows.built).length_le
    exact hle.trans (Nat.le_add_right _ 2)
  · rw [FutureExpr.thenFuture_ok (hok σ hpos (by rwa [hsends]))]
    exact hreply

/-! ## Tasks -/

/-- What the dispatcher's oldest task does, and the function it calls, if any. -/
structure Ran (s t : EspNowRequests) (call : Option (Nat × RequestFn)) : Prop where
  made : t.made = s.made
  sends : t.sends = s.sends
  fns : t.fns = s.fns
  built : t.system.built = s.system.built
  ended : ∀ q a, s.system.futures.ended q = some a → t.system.futures.ended q = some a
  reply : ∀ n, t.system.futures.ended (.source (.reply n)) =
    s.system.futures.ended (.source (.reply n))
  called : t.system.futures.called = s.system.futures.called ++ (call.map Prod.fst).toList
  node : t.node = call.elim s.node fun x => x.2.effect s.node
  wired : t.Wired

theorem sourceOutcome_agrees (s : FutureSystem SendPromise SendResult) :
    s.Agrees s.sourceOutcome :=
  fun _ _ h => (Promise.ended_eq_some.mp h).2.symm

/-- The oldest task and the function it calls. -/
structure Calls (s : EspNowRequests) (p : PromiseId SendPromise)
    (callback : FutureCallback SendPromise) (k : Nat) (fn : RequestFn) : Prop where
  head : s.system.futures.dispatched.head? = some (p, callback)
  userFn : callback.userFn (s.system.futures.promises p).success = some (k, p)
  given : s.fns k = some fn
  returns : s.system.Returns k p (fn.returned p) fn.value
  fresh : k ∉ s.system.futures.called
  reached : ∃ q e, s.system.built[k]? = some (q, e) ∧ e.reached s.system.sourceOutcome = true

theorem Wired.calls {s : EspNowRequests} (h : s.Wired) {p : PromiseId SendPromise}
    {callback : FutureCallback SendPromise}
    (hhead : s.system.futures.dispatched.head? = some (p, callback)) {k : Nat}
    {self : PromiseId SendPromise}
    (hu : callback.userFn (s.system.futures.promises p).success = some (k, self)) :
    self = p ∧ ∃ fn, s.Calls p callback k fn := by
  obtain ⟨f, hpop⟩ := Futures.pop_of_head hhead
  obtain ⟨-, -, hfp, -⟩ := Futures.pop_some hpop
  obtain ⟨rfl, hfresh, q, e, hk, hreached⟩ :=
    (h.kept _ (sourceOutcome_agrees s.system)).task_calls hpop (by rwa [hfp])
  have hfn := h.fns k q e hk
  refine ⟨rfl, ?_⟩
  cases e with
  | thenFuture isVoid future fn =>
      obtain ⟨send, hsend, rfl, hmem⟩ := hfn
      refine ⟨.awaitReply send, hhead, hu, hsend, ?_, hfresh, q, _, hk, hreached⟩
      simpa only [FutureSystem.Returns, hk, RequestFn.returned] using hmem
  | thenValue future fn =>
      obtain ⟨id, hid, rfl⟩ := hfn
      refine ⟨.sendResponse id, hhead, hu, hid, ?_, hfresh, q, _, hk, hreached⟩
      simp only [FutureSystem.Returns, hk, RequestFn.value]
  | onErrorVoid isVoid future =>
      obtain ⟨id, hid⟩ := hfn
      refine ⟨.eraseRequest id, hhead, hu, hid, ?_, hfresh, q, _, hk, hreached⟩
      simp only [FutureSystem.Returns, hk, RequestFn.returned]
  | onError isVoid future fn => exact hfn.elim
  | doFinally future => exact hfn.elim
  | _ => cases hreached

theorem Wired.ran {s : EspNowRequests} (h : s.Wired) (call : Option (Nat × RequestFn))
    {returned : PromiseId SendPromise} {value : Option SendResult}
    (hfn : s.system.UserFns (.runTask returned value))
    {system : FutureSystem SendPromise SendResult}
    (hs : s.system.step (.runTask returned value) = some system)
    {p : PromiseId SendPromise} {callback : FutureCallback SendPromise}
    (hhead : s.system.futures.dispatched.head? = some (p, callback))
    (hcall : call.map Prod.fst =
      (callback.userFn (s.system.futures.promises p).success).map Prod.fst) :
    s.Ran { s with system, node := call.elim s.node fun x => x.2.effect s.node } call := by
  have hkept := FutureSystem.Kept.step s.system (.runTask returned value) system h.kept hfn hs
  obtain ⟨futures, ht, rfl⟩ := Option.map_eq_some_iff.mp hs
  refine ⟨rfl, rfl, rfl, rfl, fun q a => FutureSystem.ended_mono_step hs, fun n => ?_, ?_, rfl,
    hkept, h.fns⟩
  · exact (h.kept _ (sourceOutcome_agrees s.system)).ended_source_task ht _
  · obtain ⟨⟨⟨q, c⟩, f⟩, hpop, rfl⟩ := Option.map_eq_some_iff.mp ht
    obtain ⟨hq, -, hfp, -, -, hfcalled, -⟩ := Futures.pop_some hpop
    rw [hhead] at hq
    cases hq
    rw [hcall, ← hfcalled, ← hfp]
    exact Futures.called_invoke ..

theorem runTask_spec {s t : EspNowRequests} (h : s.Wired) (hs : s.runTask = some t) :
    ∃ p callback, s.system.futures.dispatched.head? = some (p, callback) ∧
      ((callback.userFn (s.system.futures.promises p).success = none ∧ s.Ran t none) ∨
        ∃ k fn, s.Calls p callback k fn ∧ s.Ran t (some (k, fn))) := by
  cases hhead : s.system.futures.dispatched.head? with
  | none =>
      have hpop : s.system.futures.pop = none := by
        cases hp : s.system.futures.pop with
        | none => rfl
        | some x =>
            obtain ⟨hx, -⟩ := Futures.pop_some hp
            rw [hhead] at hx
            cases hx
      simp [runTask, nextFn, hhead, FutureSystem.step, Futures.processPendingTasks, hpop] at hs
  | some task =>
      obtain ⟨p, callback⟩ := task
      refine ⟨p, callback, rfl, ?_⟩
      cases hu : callback.userFn (s.system.futures.promises p).success with
      | none =>
          have hnext : s.nextFn = none := by simp [nextFn, hhead, hu]
          rw [runTask, hnext] at hs
          obtain ⟨system, hstep, rfl⟩ := Option.map_eq_some_iff.mp hs
          refine Or.inl ⟨rfl, h.ran none ?_ hstep hhead (by rw [hu]; rfl)⟩
          intro q c fn self hq hcall
          rw [hhead] at hq
          cases hq
          rw [hu] at hcall
          cases hcall
      | some x =>
          obtain ⟨k, self⟩ := x
          obtain ⟨rfl, fn, hcalls⟩ := h.calls hhead hu
          have hnext : s.nextFn = some (fn, self) := by
            simp [nextFn, hhead, hu, hcalls.given]
          rw [runTask, hnext] at hs
          obtain ⟨system, hstep, rfl⟩ := Option.map_eq_some_iff.mp hs
          refine Or.inr ⟨k, fn, hcalls, h.ran (some (k, fn)) ?_ hstep hhead (by rw [hu]; rfl)⟩
          intro q c fn' self' hq hcall
          rw [hhead] at hq
          cases hq
          rw [hu] at hcall
          cases hcall
          exact hcalls.returns

end EspNowRequests

end EspIot
