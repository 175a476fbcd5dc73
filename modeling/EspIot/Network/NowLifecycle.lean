/-
# `EspIot.Network.NowLifecycle` — `begin`, `end` and the peers, around the sends

`AsyncEspNow` can be ended and begun again, and peers come and go.  `esp_now_deinit` forgets the
peers and what is in flight; `_send_order` and `_peers` keep what they had.

    begin            nothing ──▶ initialized
    end              the driver forgets: promises in flight are never settled
    register_peer    `_send_order[mac] = {}`, whatever was in it; `_peers` gets an entry
    unregister_peer  the peer goes, its packets in flight do not

So the queue of a MAC counts only while the MAC is a peer or has packets in flight, and it is
right as long as nobody registers a MAC over its own packets.
-/
import EspIot.Network.AsyncNowRuns

namespace EspIot

open Lib

/-- `AsyncEspNow` over its whole life: `_peers`, what the driver had in flight when it was ended,
and whether `_peers.erase` was ever called on `end()`. -/
structure EspNowLife (esp : EspNowDriver) where
  now : AsyncEspNow esp := { initialized := false }
  peers : List Mac := []
  abandoned : Mac → List SentPacket := fun _ => []
  undefined : Bool := false

/-- A call, with the answers of the dispatcher and the driver, or a sent event. -/
inductive EspNowLifeEvent
  | start (dispatcher init sendCb recvCb : Bool)
  | stop
  | register (mac : Mac) (ok : Bool)
  | unregister (mac : Mac) (ok : Bool)
  | send (mac : Mac) (data : List UInt8) (addPeer accept : Bool)
  | sent (mac : Mac) (success : Bool)

namespace EspNowLife

variable {esp : EspNowDriver}

/-! ## The functions -/

/-- `esp_now_deinit`, and what is lost with it. -/
def deinit (s : EspNowLife esp) : EspNowLife esp :=
  { s with
    now := { s.now with driver := esp.deinit s.now.driver }
    abandoned := fun mac => s.abandoned mac ++ esp.inFlight s.now.driver mac }

/-- `begin`, with the answers of `Dispatcher::begin`, `esp_now_init` and the two calls that
register the callbacks. -/
def begin (dispatcher init sendCb recvCb : Bool) (s : EspNowLife esp) : Bool × EspNowLife esp :=
  if s.now.initialized then (false, s)
  else if dispatcher = false then (false, s)
  else if init = false then (false, s)
  else if (sendCb && recvCb) = false then (false, s.deinit)
  else (true, { s with now := { s.now with initialized := true } })

/-- `end` -/
def endNow (s : EspNowLife esp) : EspNowLife esp :=
  if s.now.initialized = false then s
  else { s with now := { s.now with initialized := false } }.deinit

/-- `_peers.push_back(peer)`, where `register_peer` comes to it. -/
def peersAfter (mac : Mac) (ok : Bool) (s : EspNowLife esp) : List Mac :=
  if s.now.Registers mac ok then s.peers ++ [mac] else s.peers

def registerPeer (mac : Mac) (ok : Bool) (s : EspNowLife esp) : Bool × EspNowLife esp :=
  let (registered, now) := s.now.registerPeer mac ok
  (registered, { s with now, peers := s.peersAfter mac ok })

def unregisterPeer (mac : Mac) (ok : Bool) (s : EspNowLife esp) : Bool × EspNowLife esp :=
  if s.now.initialized = false then (false, s)
  else if !esp.isPeer s.now.driver mac then (true, s)
  else
    -- `find_if` gives `end()` where the peer is not found, and `erase` is called on that
    let s := { s with
      peers := s.peers.erase mac
      undefined := s.undefined || !s.peers.contains mac }
    (ok, { s with now := { s.now with driver := esp.delPeer mac ok s.now.driver } })

def send (mac : Mac) (data : List UInt8) (addPeer accept : Bool) (s : EspNowLife esp) :
    Nat × EspNowLife esp :=
  let (promise, now) := s.now.send mac data addPeer accept
  (promise, { s with now, peers := s.peersAfter mac addPeer })

def step (s : EspNowLife esp) : EspNowLifeEvent → Option (EspNowLife esp)
  | .start dispatcher init sendCb recvCb => some (s.begin dispatcher init sendCb recvCb).2
  | .stop => some s.endNow
  | .register mac ok => some (s.registerPeer mac ok).2
  | .unregister mac ok => some (s.unregisterPeer mac ok).2
  | .send mac data addPeer accept => some (s.send mac data addPeer accept).2
  | .sent mac success =>
      (s.now.step (.sent mac success)).map fun now => { s with now }

/-! ## What is promised -/

open AsyncEspNow

/-- The MAC is a peer, or has packets in flight. -/
def Live (now : AsyncEspNow esp) (mac : Mac) : Prop :=
  esp.isPeer now.driver mac = true ∨ esp.inFlight now.driver mac ≠ []

/-- Every result is attributed to the promise of its own packet. -/
structure Attributed (s : EspNowLife esp) : Prop where
  /-- the queue of a MAC that counts is the promises of its packets in flight, in order -/
  order : ∀ mac, Live s.now mac →
    s.now.order mac = (esp.inFlight s.now.driver mac).map SentPacket.promise
  /-- they are unsettled -/
  pending : ∀ mac, ∀ packet ∈ esp.inFlight s.now.driver mac, Pending s.now.promises packet.promise
  /-- so are those of the packets in flight at an `end` -/
  abandoned : ∀ mac, ∀ packet ∈ s.abandoned mac, Pending s.now.promises packet.promise
  /-- a reported packet has settled its own promise with its own status -/
  reported : ∀ x ∈ esp.reported s.now.driver, SettledAs s.now.promises x.1.promise x.2
  /-- any other promise is that of a send the driver has not accepted, and has failed -/
  rejected : ∀ i < s.now.promises.length,
    (∀ mac, i ∉ (esp.inFlight s.now.driver mac).map SentPacket.promise) →
    (∀ mac, i ∉ (s.abandoned mac).map SentPacket.promise) →
    (∀ x ∈ esp.reported s.now.driver, x.1.promise ≠ i) → SettledAs s.now.promises i false

/-- A packet is rejected, and a peer added, only where the MAC has nothing in flight. -/
def Drained (s : EspNowLife esp) : EspNowLifeEvent → Prop
  | .register mac ok => s.now.Registers mac ok → esp.inFlight s.now.driver mac = []
  | .send mac _ addPeer accept =>
      (s.now.Registers mac addPeer → esp.inFlight s.now.driver mac = []) ∧
        (s.now.initialized = true → esp.isPeer s.now.driver mac = true → accept = false →
          esp.inFlight s.now.driver mac = [])
  | _ => True

/-- The invariant: the queues that count, the ledger, and a driver that knows nothing before
`begin` and after `end`. -/
structure Kept (now : AsyncEspNow esp) (gone : Mac → List SentPacket) : Prop where
  order : ∀ mac, Live now mac → now.order mac = (esp.inFlight now.driver mac).map SentPacket.promise
  ledger : Ledger now.promises (esp.inFlight now.driver) gone (esp.reported now.driver)
  off : now.initialized = false →
    ∀ mac, esp.isPeer now.driver mac = false ∧ esp.inFlight now.driver mac = []

theorem Kept.attributed {s : EspNowLife esp} (h : Kept s.now s.abandoned) : Attributed s where
  order := h.order
  pending := h.ledger.pending
  abandoned := h.ledger.abandoned
  reported := h.ledger.reported
  rejected := h.ledger.rejected

end EspNowLife

end EspIot
