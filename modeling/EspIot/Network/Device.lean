/-
# `EspIot.Network.Device` — two servers over the same parameters

The WebSocket server and the MQTT server of a device read and write the same parameters, and
neither knows of the other: whoever changes a parameter tells the `NotificationBus`, and the bus
calls everybody who has subscribed, with the sender.

    packet       set_value ─▶ bus ─▶ MQTT publishes         then the other clients are told
    message      parse     ─▶ bus ─▶ all clients are told   then MQTT publishes
    changed      the application, then the bus ─▶ both

The servers are those of `Network.WsNotify` and `Network.Mqtt`; `shared` says that there is one
storage.  What other subscribers do is an event of its own, and so is what a command does.
-/
import EspIot.Network.MqttMirror
import EspIot.Network.WsAgreement

namespace EspIot

open Lib

/-- `parse` of a parameter that stores `v`. -/
def AbstractParameter.parseValue (a : AbstractParameter) (text : List UInt8) (v : a.Value) :
    Option a.Value :=
  (a.parse text v.1).pmap (fun w h => ⟨w, h⟩) fun w h => a.parse_length text v.1 w v.2 h

theorem AbstractParameter.parseValue_cases (a : AbstractParameter) (text : List UInt8)
    (v : a.Value) :
    a.parse text v.1 = none ∧ a.parseValue text v = none ∨
      ∃ parsed : a.Value, a.parse text v.1 = some parsed.1 ∧ a.parseValue text v = some parsed := by
  cases hparse : a.parse text v.1 with
  | none =>
      refine .inl ⟨rfl, ?_⟩
      rw [parseValue, Option.pmap_eq_none_iff]
      exact hparse
  | some text' =>
      have hlength := a.parse_length text v.1 text' v.2 hparse
      refine .inr ⟨⟨text', hlength⟩, rfl, ?_⟩
      rw [parseValue, Option.pmap_eq_some_iff]
      exact ⟨text', hlength, hparse, rfl⟩

/-- Who subscribes to the bus, or notifies it. -/
inductive BusParty
  | ws
  | mqtt
  | other
deriving DecidableEq, Repr

variable {P C C' : Type*}

/-- The two servers and those who have subscribed to the bus, in their order.
`WebSocketServer::begin` has been called. -/
structure Device (w : WsSetup P C) (C' : Type*) where
  ws : WsBus w
  mqtt : MqttServer P C'
  subscriptions : List BusParty := [.ws]
  shared : ∀ p, mqtt.value p = (ws.value p).1

/-- What happens to a device: a packet, a message, a change that the application makes and tells
the bus of, a call of `send_notification`, the clients that come and go, and the connection of the
MQTT server. -/
inductive DeviceEvent (w : WsSetup P C)
  | packet (client : UInt32) (packet : Packet)
  | message (topic : CString) (payload : List UInt8)
  | changed (p : P) (v : (w.param p).Value)
  | sendNotification (type : UInt8)
  | connect (client : UInt32)
  | disconnect (client : UInt32)
  | mqttBegin (change attempt : ℕ) (connecting : List ClientCallback)
  | mqttHandleConnection (poll : Poll)
  | mqttClient (callback : ClientCallback)

variable [DecidableEq P] {w : WsSetup P C}

theorem WsBus.processNotification_value (s : WsBus w) (self : Bool) (p : P) :
    (s.processNotification self p).value = s.value := by
  rw [processNotification]
  split
  · rfl
  · split
    · rfl
    · exact (notifyClients_same ..).1

theorem WsBus.respond_value (s : WsBus w) (client : UInt32) (packet : Packet)
    (response : Response) : (s.respond client packet response).value = s.value := by
  rw [respond]
  split
  · rfl
  · rfl

theorem WsBus.sendNotification_value (s : WsBus w) (type : UInt8) :
    (s.sendNotification type).value = s.value := by
  rw [sendNotification]
  split
  · rfl
  · exact (notifyClients_same ..).1

theorem WsBus.connect_value {s t : WsBus w} {client : UInt32}
    (h : s.step (.connect client) = some t) : t.value = s.value := by
  rw [WsBus.step] at h
  split at h
  · cases h
    rfl
  · cases h

theorem WsBus.disconnect_value {s t : WsBus w} {client : UInt32}
    (h : s.step (.disconnect client) = some t) : t.value = s.value := by
  rw [WsBus.step] at h
  split at h
  · cases h
    rfl
  · cases h

theorem MqttServer.processNotification_value (topics : MqttTopics P C')
    (param : P → AbstractParameter) (p : P) (m : MqttServer P C') :
    (m.processNotification topics param p).value = m.value := by
  rw [processNotification]
  split
  · rfl
  · split
    · rfl
    · rfl

namespace Device

variable (topics : MqttTopics P C')

/-- A device before `MqttServer::begin`, with nobody connected. -/
def start (value : (p : P) → (w.param p).Value) : Device w C' where
  ws := .start value
  mqtt := { value := fun p => (value p).1 }
  shared _ := rfl

/-- The WebSocket server does something that changes no parameter. -/
def withWs (d : Device w C') (ws : WsBus w) (h : ws.value = d.ws.value) : Device w C' :=
  { d with ws, shared := fun p => (d.shared p).trans (congrArg (fun v => (v p).1) h.symm) }

/-- The MQTT server does something that changes no parameter. -/
def withMqtt (d : Device w C') (mqtt : MqttServer P C') (h : mqtt.value = d.mqtt.value) :
    Device w C' :=
  { d with mqtt, shared := fun p => (congrFun h p).trans (d.shared p) }

theorem shared_update {mqtt : P → List UInt8} {ws : (p : P) → (w.param p).Value}
    (h : ∀ q, mqtt q = (ws q).1) (p : P) (v : (w.param p).Value) (q : P) :
    Function.update mqtt p v.1 q = (Function.update ws p v q).1 := by
  by_cases hq : q = p
  · subst hq
    rw [Function.update_self, Function.update_self]
  · rw [Function.update_of_ne hq, Function.update_of_ne hq]
    exact h q

def setValue (d : Device w C') (p : P) (v : (w.param p).Value) : Device w C' where
  ws := d.ws.setValue p v
  mqtt := { d.mqtt with value := Function.update d.mqtt.value p v.1 }
  subscriptions := d.subscriptions
  shared := shared_update d.shared p v

/-- A subscriber is called: `_process_notification`. -/
def deliver (sender : BusParty) (p : P) (d : Device w C') : BusParty → Device w C'
  | .ws =>
      d.withWs (d.ws.processNotification (sender = .ws) p) (d.ws.processNotification_value _ p)
  | .mqtt =>
      if sender = .mqtt then d
      else
        d.withMqtt (d.mqtt.processNotification topics w.param p)
          (d.mqtt.processNotification_value topics w.param p)
  | .other => d

def notifyParameterChanged (sender : BusParty) (p : P) (d : Device w C') : Device w C' :=
  d.subscriptions.foldl (deliver topics sender p) d

/-- `_notify_clients` of the WebSocket server. -/
def notifyClients (senderId : UInt32) (type : UInt8) (p : P) (d : Device w C') : Device w C' :=
  d.withWs (d.ws.notifyClients senderId type p) (d.ws.notifyClients_same senderId type p).1

def handlePacketData (clientId : UInt32) (packet : Packet) (d : Device w C') :
    Response × Device w C' :=
  match w.types.commands.lookup packet.header.type with
  | some command =>
      (.code .ok, d.withWs { d.ws with invoked := d.ws.invoked ++ [(command, packet.body)] } rfl)
  | none =>
      match w.types.dataRequests.lookup packet.header.type with
      | some p => (.binary (d.ws.payload p), d)
      | none =>
          match w.types.parameters.lookup packet.header.type with
          | some p =>
              match (w.param p).write packet.body (d.ws.value p) with
              | some v =>
                  let d := (d.setValue p v).notifyParameterChanged topics .ws p
                  (.code .ok, d.notifyClients clientId packet.header.type p)
              | none => (.code .badRequest, d)
          | none => (.code .badCommand, d)

def respond (client : UInt32) (packet : Packet) (response : Response) (d : Device w C') :
    Device w C' :=
  d.withWs (d.ws.respond client packet response) (d.ws.respond_value client packet response)

/-- The MQTT server does something outside of it. -/
def act (effect : MqttEffect P C') (d : Device w C') : Device w C' :=
  d.withMqtt { d.mqtt with effects := d.mqtt.effects ++ [effect] } rfl

def publish (topic : CString) (p : P) (d : Device w C') : Device w C' :=
  d.withMqtt (d.mqtt.publish topics topic ((w.param p).toString (d.mqtt.value p))) rfl

/-- `_process_message` of the MQTT server. -/
def processMessage (topic : CString) (payload : List UInt8) (d : Device w C') : Device w C' :=
  match topics.commands.lookup topic with
  | some command => d.act (.invoke command payload)
  | none =>
      match topics.parameters.lookup topic with
      | some (topicOut, p) =>
          match (w.param p).parseValue payload (d.ws.value p) with
          | some v =>
              let d := (((d.act (.parse p payload)).setValue p v).act
                (.notifyBus p)).notifyParameterChanged topics .mqtt p
              d.publish topics topicOut p
          | none => d.act (.parse p payload)
      | none => d

def step (d : Device w C') : DeviceEvent w → Option (Device w C')
  | .packet client packet =>
      let (response, d) := d.handlePacketData topics client packet
      some (d.respond client packet response)
  | .message topic payload =>
      if d.mqtt.state = .uninitialized then none
      else some (d.processMessage topics (topics.topicPrefix.strip topic) payload)
  | .changed p v => some ((d.setValue p v).notifyParameterChanged topics .other p)
  | .sendNotification type =>
      some (d.withWs (d.ws.sendNotification type) (d.ws.sendNotification_value type))
  | .connect client =>
      (d.ws.step (.connect client)).pmap (fun ws h => d.withWs ws h)
        fun _ h => WsBus.connect_value h
  | .disconnect client =>
      (d.ws.step (.disconnect client)).pmap (fun ws h => d.withWs ws h)
        fun _ h => WsBus.disconnect_value h
  | .mqttBegin change attempt connecting =>
      let begun := d.withMqtt (d.mqtt.begin topics change attempt connecting)
        (MqttServer.begin_mute topics change attempt connecting d.mqtt).value_eq
      if d.mqtt.state = .uninitialized then
        some { begun with subscriptions := d.subscriptions ++ [.mqtt] }
      else some begun
  | .mqttHandleConnection poll =>
      some (d.withMqtt (d.mqtt.handleConnection topics poll)
        (MqttServer.handleConnection_mute topics poll d.mqtt).value_eq)
  | .mqttClient callback =>
      if d.mqtt.state = .uninitialized then none
      else
        some (d.withMqtt (d.mqtt.onClient topics callback)
          (MqttServer.onClient_mute topics d.mqtt callback).value_eq)

end Device

end EspIot
