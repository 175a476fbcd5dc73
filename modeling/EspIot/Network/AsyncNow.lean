/-
# `EspIot.Network.AsyncNow` — matching sent events to promises

`AsyncEspNow` hands packets to the ESP-NOW driver and is told later, packet by
packet, how each went.  The event names only the destination, so `_send_order`
keeps one queue of promises per MAC and an event settles the front of its queue.

    send(mac)      push the promise │ esp_now_send accepts ─▶ it stays queued
                                    │ esp_now_send rejects ─▶ `pop`, set_error
    _on_sent(mac)  take the front, settle it with the status

`std::queue::pop` takes the front, and the promise just pushed is at the back:
the two are the same only in a queue that was empty.

The driver is not part of the repository.  It is a parameter, known by its
peers, the packets it has accepted and not reported, each with the promise made
for it, and those it has reported, and by what it says of its calls.
-/
import EspIot.Async.Promise
import EspIot.Lib.Bytes
import EspIot.Lib.Run
import Mathlib.Logic.Function.Basic

namespace EspIot

open Lib

/-- `uint8_t mac_addr[6]` -/
abbrev Mac := Vector UInt8 6

/-- `mac_to_key`: the six bytes, copied to the low end of a `uint64_t`. -/
def macToKey (mac : Mac) : UInt64 := UInt64.ofNat (ofLe mac.toList)

theorem macToKey_injective : Function.Injective macToKey := by
  intro mac mac' h
  have hlt (m : Mac) : ofLe m.toList < 2 ^ 64 := by
    have h6 := ofLe_lt m.toList
    rw [Vector.length_toList] at h6
    omega
  have hle : ofLe mac.toList = ofLe mac'.toList := by
    have hkey := congrArg UInt64.toNat h
    simp only [macToKey, UInt64.toNat_ofNat'] at hkey
    rwa [Nat.mod_eq_of_lt (hlt mac), Nat.mod_eq_of_lt (hlt mac')] at hkey
  exact Vector.toList_inj.mp (ofLe_inj (by simp) hle)

/-- A packet handed to the driver, with the promise `send` made for it. -/
structure SentPacket where
  data : List UInt8
  promise : Nat
deriving DecidableEq

/-- The ESP-NOW driver, which is known by what its documentation says of the calls.  It has peers,
for each MAC the packets it has accepted and not reported yet, oldest first, and the packets it has
reported, with the status.  `ok` is the answer that a call gives. -/
structure EspNowDriver where
  State : Type
  init : State
  isPeer : State → Mac → Bool
  inFlight : State → Mac → List SentPacket
  reported : State → List (SentPacket × Bool)
  addPeer : Mac → (ok : Bool) → State → State
  delPeer : Mac → (ok : Bool) → State → State
  send : Mac → SentPacket → (ok : Bool) → State → State
  deinit : State → State
  /-- the sent event of a packet to a MAC -/
  report : Mac → (success : Bool) → State → Option State
  isPeer_init : ∀ mac, isPeer init mac = false
  inFlight_init : ∀ mac, inFlight init mac = []
  reported_init : reported init = []
  isPeer_addPeer : ∀ mac ok d mac',
    isPeer (addPeer mac ok d) mac' = (isPeer d mac' || (ok && decide (mac' = mac)))
  inFlight_addPeer : ∀ mac ok d, inFlight (addPeer mac ok d) = inFlight d
  reported_addPeer : ∀ mac ok d, reported (addPeer mac ok d) = reported d
  isPeer_delPeer : ∀ mac ok d mac',
    isPeer (delPeer mac ok d) mac' = (isPeer d mac' && !(ok && decide (mac' = mac)))
  inFlight_delPeer : ∀ mac ok d, inFlight (delPeer mac ok d) = inFlight d
  reported_delPeer : ∀ mac ok d, reported (delPeer mac ok d) = reported d
  isPeer_send : ∀ mac packet ok d, isPeer (send mac packet ok d) = isPeer d
  inFlight_send : ∀ mac packet ok d, inFlight (send mac packet ok d) =
    if ok then Function.update (inFlight d) mac (inFlight d mac ++ [packet]) else inFlight d
  reported_send : ∀ mac packet ok d, reported (send mac packet ok d) = reported d
  isPeer_deinit : ∀ d mac, isPeer (deinit d) mac = false
  inFlight_deinit : ∀ d mac, inFlight (deinit d) mac = []
  reported_deinit : ∀ d, reported (deinit d) = reported d
  /-- the oldest packet accepted for the MAC is reported -/
  report_some : ∀ mac success d d', report mac success d = some d' →
    ∃ packet rest, inFlight d mac = packet :: rest ∧
      inFlight d' = Function.update (inFlight d) mac rest ∧
      reported d' = reported d ++ [(packet, success)] ∧ isPeer d' = isPeer d

structure EspNowDriver.Unchanged (esp : EspNowDriver) (d d' : esp.State) : Prop where
  isPeer : esp.isPeer d' = esp.isPeer d
  inFlight : esp.inFlight d' = esp.inFlight d
  reported : esp.reported d' = esp.reported d

namespace EspNowDriver

variable (esp : EspNowDriver) (d : esp.State)

theorem unchanged_refl : esp.Unchanged d d := ⟨rfl, rfl, rfl⟩

theorem unchanged_addPeer (mac : Mac) : esp.Unchanged d (esp.addPeer mac false d) := by
  refine ⟨?_, esp.inFlight_addPeer mac false d, esp.reported_addPeer mac false d⟩
  funext mac'
  rw [esp.isPeer_addPeer, Bool.false_and, Bool.or_false]

theorem unchanged_send (mac : Mac) (packet : SentPacket) :
    esp.Unchanged d (esp.send mac packet false d) :=
  ⟨esp.isPeer_send mac packet false d, esp.inFlight_send mac packet false d,
    esp.reported_send mac packet false d⟩

end EspNowDriver

/-- A driver that keeps what it knows in lists. -/
structure EspNowQueues where
  peers : List Mac := []
  inFlight : Mac → List SentPacket := fun _ => []
  reported : List (SentPacket × Bool) := []

namespace EspNowQueues

def addPeer (mac : Mac) (ok : Bool) (d : EspNowQueues) : EspNowQueues :=
  if ok then { d with peers := mac :: d.peers } else d

def delPeer (mac : Mac) (ok : Bool) (d : EspNowQueues) : EspNowQueues :=
  if ok then { d with peers := d.peers.filter (· ≠ mac) } else d

def send (mac : Mac) (packet : SentPacket) (ok : Bool) (d : EspNowQueues) : EspNowQueues :=
  if ok then
    { d with inFlight := Function.update d.inFlight mac (d.inFlight mac ++ [packet]) }
  else d

def report (mac : Mac) (success : Bool) (d : EspNowQueues) : Option EspNowQueues :=
  match d.inFlight mac with
  | [] => none
  | packet :: rest => some { d with
      inFlight := Function.update d.inFlight mac rest
      reported := d.reported ++ [(packet, success)] }

end EspNowQueues

def EspNowDriver.queues : EspNowDriver where
  State := EspNowQueues
  init := {}
  isPeer d mac := decide (mac ∈ d.peers)
  inFlight := EspNowQueues.inFlight
  reported := EspNowQueues.reported
  addPeer := EspNowQueues.addPeer
  delPeer := EspNowQueues.delPeer
  send := EspNowQueues.send
  deinit d := { reported := d.reported }
  report := EspNowQueues.report
  isPeer_init _ := rfl
  inFlight_init _ := rfl
  reported_init := rfl
  isPeer_addPeer mac ok d mac' := by cases ok <;> simp [EspNowQueues.addPeer, Bool.or_comm]
  inFlight_addPeer mac ok d := by cases ok <;> rfl
  reported_addPeer mac ok d := by cases ok <;> rfl
  isPeer_delPeer mac ok d mac' := by cases ok <;> simp [EspNowQueues.delPeer]
  inFlight_delPeer mac ok d := by cases ok <;> rfl
  reported_delPeer mac ok d := by cases ok <;> rfl
  isPeer_send mac packet ok d := by cases ok <;> rfl
  inFlight_send mac packet ok d := by cases ok <;> rfl
  reported_send mac packet ok d := by cases ok <;> rfl
  isPeer_deinit _ _ := rfl
  inFlight_deinit _ _ := rfl
  reported_deinit _ := rfl
  report_some mac success d d' h := by
    rw [EspNowQueues.report] at h
    cases hflight : d.inFlight mac with
    | nil => simp [hflight] at h
    | cons packet rest =>
        rw [hflight] at h
        cases h
        exact ⟨packet, rest, rfl, rfl, rfl, rfl⟩

/-- `AsyncEspNow` over a driver.  A `shared_ptr` to a promise is its index in `promises`, where
`send` puts one for every future it returns. -/
structure AsyncEspNow (esp : EspNowDriver) where
  initialized : Bool := true
  sendOrder : UInt64 → Option (List Nat) := fun _ => none
  promises : List (Promise Unit Empty) := []
  driver : esp.State := esp.init

/-- A call of `send`, with the driver's answers, or a sent event of the driver. -/
inductive AsyncNowEvent
  | send (mac : Mac) (data : List UInt8) (addPeer accept : Bool)
  | sent (mac : Mac) (success : Bool)

namespace AsyncEspNow

variable {esp : EspNowDriver}

/-! ## The functions -/

/-- `Future<void>::errored()`: a promise that has failed already. -/
def errored (s : AsyncEspNow esp) : Nat × AsyncEspNow esp :=
  (s.promises.length, { s with promises := s.promises ++ [(Promise.settle .error {}).2] })

/-- `set_success` or `set_error` on the promise at `i`. -/
def settle (i : Nat) (o : Outcome Unit) (s : AsyncEspNow esp) : AsyncEspNow esp :=
  { s with promises := s.promises.modify i fun promise => (promise.settle o).2 }

def registerPeer (mac : Mac) (ok : Bool) (s : AsyncEspNow esp) : Bool × AsyncEspNow esp :=
  if s.initialized = false then (false, s)
  else if esp.isPeer s.driver mac then (true, s)
  else
    let s := { s with driver := esp.addPeer mac ok s.driver }
    if ok then
      (true, { s with sendOrder := Function.update s.sendOrder (macToKey mac) (some []) })
    else (false, s)

def push (key : UInt64) (promise : Nat) (s : AsyncEspNow esp) : AsyncEspNow esp :=
  { s with
    sendOrder := Function.update s.sendOrder key
      (some ((s.sendOrder key).getD [] ++ [promise])) }

/-- `_send_order[send_key].pop()`: the front goes. -/
def pop (key : UInt64) (s : AsyncEspNow esp) : AsyncEspNow esp :=
  { s with
    sendOrder := Function.update s.sendOrder key (some ((s.sendOrder key).getD []).tail) }

/-- `send`: the future it returns and the state afterwards. -/
def send (mac : Mac) (data : List UInt8) (addPeer accept : Bool) (s : AsyncEspNow esp) :
    Nat × AsyncEspNow esp :=
  if s.initialized = false then s.errored
  else
    match s.registerPeer mac addPeer with
    | (false, s) => s.errored
    | (true, s) =>
        let promise := s.promises.length
        let s := { s with promises := s.promises ++ [({} : Promise Unit Empty)] }
        let sendKey := macToKey mac
        let s := s.push sendKey promise
        let s := { s with driver := esp.send mac ⟨data, promise⟩ accept s.driver }
        if accept then (promise, s)
        else (promise, (s.pop sendKey).settle promise .error)

def onSent (mac : Mac) (success : Bool) (s : AsyncEspNow esp) : AsyncEspNow esp :=
  match s.sendOrder (macToKey mac) with
  | some (promise :: queue) =>
      let s := { s with sendOrder := Function.update s.sendOrder (macToKey mac) (some queue) }
      s.settle promise (if success then .success none else .error)
  | _ => s

def step (s : AsyncEspNow esp) : AsyncNowEvent → Option (AsyncEspNow esp)
  | .send mac data addPeer accept => some (s.send mac data addPeer accept).2
  | .sent mac success =>
      (esp.report mac success s.driver).map fun driver => { s with driver }.onSent mac success

/-- `_send_order[mac]` -/
def order (s : AsyncEspNow esp) (mac : Mac) : List Nat := (s.sendOrder (macToKey mac)).getD []

/-! ## What is promised -/

/-- The promise at `i` is there and unsettled. -/
def Pending (promises : List (Promise Unit Empty)) (i : Nat) : Prop :=
  ∃ promise, promises[i]? = some promise ∧ promise.finished = false

/-- The promise at `i` is there and settled with the status. -/
def SettledAs (promises : List (Promise Unit Empty)) (i : Nat) (success : Bool) : Prop :=
  ∃ promise, promises[i]? = some promise ∧ promise.finished = true ∧ promise.success = success

/-- Every result is attributed to the promise of its own packet. -/
structure Attributed (s : AsyncEspNow esp) : Prop where
  /-- the queue of a MAC is the promises of the packets accepted and not reported, in order -/
  order : ∀ mac, s.order mac = (esp.inFlight s.driver mac).map SentPacket.promise
  /-- they are unsettled -/
  pending : ∀ mac, ∀ packet ∈ esp.inFlight s.driver mac, Pending s.promises packet.promise
  /-- a reported packet has settled its own promise with its own status -/
  reported : ∀ x ∈ esp.reported s.driver, SettledAs s.promises x.1.promise x.2
  /-- any other promise is that of a rejected send, and has failed -/
  rejected : ∀ i < s.promises.length,
    (∀ mac, i ∉ (esp.inFlight s.driver mac).map SentPacket.promise) →
    (∀ x ∈ esp.reported s.driver, x.1.promise ≠ i) → SettledAs s.promises i false

/-- A packet that the driver rejects is for a MAC whose queue is empty. -/
def RejectsEmpty (s : AsyncEspNow esp) : AsyncNowEvent → Prop
  | .send mac _ _ accept =>
      s.initialized = true → esp.isPeer s.driver mac = true → accept = false → s.order mac = []
  | .sent _ _ => True

end AsyncEspNow

end EspIot
