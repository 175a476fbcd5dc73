/-
# `EspIot.Network.DeviceLog` — every change is told once, to everybody, in one order

A parameter changes by a packet of a client, by a message of the broker, or from within, and
`send_notification` tells the clients a value again.  Of what a device has done, the log of these
alone decides

    values         the last entry of each parameter
    packets        one for each client connected at the time, but for the writer
    publications   one for each change, sent or skipped, on the topic of its parameter

The bus calls the server that made a change like all the others, and that server has told the rest
of the world already, or is about to: `sender == this` keeps the two apart.
-/
import EspIot.Network.DeviceAgreement
import EspIot.Network.MqttPublish

namespace EspIot

open Lib

variable {P C C' : Type*}

/-- Where an announcement comes from; a message is answered on a topic. -/
inductive Cause
  | packet (client : UInt32) (type : UInt8)
  | message (topicOut : CString)
  | application
  | sendNotification (type : UInt8)

/-- A value that is told, with who is connected and how the MQTT server is. -/
structure Announcement (w : WsSetup P C) where
  cause : Cause
  parameter : P
  value : (w.param parameter).Value
  clients : List UInt32
  mqttState : MqttServerState

variable [DecidableEq P] {w : WsSetup P C}

/-- The packet that tells a client the value of a parameter. -/
def valuePacket (p : P) (v : (w.param p).Value) (type : UInt8) (client : UInt32) :
    WsNotification where
  client
  header :=
    { signature := packetSignature, requestId := 0, type, size := UInt16.ofNat (w.param p).size }
  data := v.1

/-- What a publication of a text is on a topic, and whether it is sent. -/
def published (topics : MqttTopics P C') (topic : CString) (sent : Bool) (text : List UInt8) :
    Option CString → List (Bool × List UInt8)
  | none => []
  | some topicOut =>
      if topics.topicPrefix.append topicOut = topic then [(sent, text)] else []

namespace Announcement

def senderId (a : Announcement w) : UInt32 :=
  match a.cause with
  | .packet client _ => client
  | _ => 0xFFFFFFFF

/-- The packet type that clients are told it under. -/
def type (a : Announcement w) : Option UInt8 :=
  match a.cause with
  | .packet _ type | .sendNotification type => some type
  | .message _ | .application => w.types.parametersPacketType.lookup a.parameter

def packets (a : Announcement w) : List WsNotification :=
  match a.type with
  | none => []
  | some type => (a.clients.filter (a.senderId ≠ ·)).map (valuePacket a.parameter a.value type)

/-- What a client that is connected is told. -/
def packetFor (client : UInt32) (a : Announcement w) : Option WsNotification :=
  if a.senderId = client then none
  else a.type.map fun type => valuePacket a.parameter a.value type client

/-- The topic that the broker is told on. -/
def topic (topics : MqttTopics P C') (a : Announcement w) : Option CString :=
  match a.cause with
  | .message topicOut => some topicOut
  | .packet _ _ | .application =>
      if a.mqttState = .uninitialized then none else topics.parametersTopic.lookup a.parameter
  | .sendNotification _ => none

def publications (topics : MqttTopics P C') (topic : CString) (a : Announcement w) :
    List (Bool × List UInt8) :=
  published topics topic (a.mqttState = .connected) ((w.param a.parameter).toString a.value.1)
    (a.topic topics)

def apply (value : (p : P) → (w.param p).Value) (a : Announcement w) :
    (p : P) → (w.param p).Value :=
  Function.update value a.parameter a.value

end Announcement

/-- The parameter that a packet writes, and the value it gets. -/
def WsBus.written (s : WsBus w) (packet : Packet) : Option ((p : P) × (w.param p).Value) :=
  match w.types.commands.lookup packet.header.type,
    w.types.dataRequests.lookup packet.header.type with
  | none, none =>
      (w.types.parameters.lookup packet.header.type).bind fun p =>
        ((w.param p).write packet.body (s.value p)).map fun v => ⟨p, v⟩
  | _, _ => none

namespace Device

variable (topics : MqttTopics P C')

def announce (d : Device w C') (cause : Cause) (p : P) (v : (w.param p).Value) :
    Announcement w where
  cause
  parameter := p
  value := v
  clients := d.ws.clients
  mqttState := d.mqtt.state

def announcement (d : Device w C') : DeviceEvent w → Option (Announcement w)
  | .packet client packet =>
      (d.ws.written packet).map fun x => d.announce (.packet client packet.header.type) x.1 x.2
  | .message topic payload =>
      if d.mqtt.state = .uninitialized then none
      else
        (d.parsed topics (topics.topicPrefix.strip topic) payload).bind fun x =>
          (topics.parameters.lookup (topics.topicPrefix.strip topic)).map fun target =>
            d.announce (.message target.1) x.1 x.2
  | .changed p v => some (d.announce .application p v)
  | .sendNotification type =>
      (w.types.parameterOf type).map fun p => d.announce (.sendNotification type) p (d.ws.value p)
  | .connect _ | .disconnect _ | .mqttBegin _ _ _ | .mqttHandleConnection _ | .mqttClient _ => none

def log (d : Device w C') (es : List (DeviceEvent w)) : List (Announcement w) :=
  trace (step topics) (fun d e => (d.announcement topics e).toList) d es

/-- **What a device stores, what it has told its clients and what it has told the broker, from one
state to another.** -/
structure Tells (d t : Device w C') (as : List (Announcement w)) : Prop where
  value : t.ws.value = as.foldl Announcement.apply d.ws.value
  packets : t.ws.sent = d.ws.sent ++ as.flatMap Announcement.packets
  publications : ∀ topic, outputs topic t.mqtt.effects =
    outputs topic d.mqtt.effects ++ as.flatMap (Announcement.publications topics topic)

variable {topics} {d t : Device w C'}

theorem Tells.nothing (hvalue : t.ws.value = d.ws.value) (hsent : t.ws.sent = d.ws.sent)
    (houtputs : ∀ topic, outputs topic t.mqtt.effects = outputs topic d.mqtt.effects) :
    Tells topics d t [] :=
  ⟨hvalue, hsent.trans (List.append_nil _).symm,
    fun topic => (houtputs topic).trans (List.append_nil _).symm⟩

theorem Tells.one {a : Announcement w} (hvalue : t.ws.value = a.apply d.ws.value)
    (hsent : t.ws.sent = d.ws.sent ++ a.packets)
    (houtputs : ∀ topic, outputs topic t.mqtt.effects =
      outputs topic d.mqtt.effects ++ a.publications topics topic) : Tells topics d t [a] := by
  refine ⟨hvalue, ?_, ?_⟩
  · rw [List.flatMap_singleton]
    exact hsent
  · intro topic
    rw [List.flatMap_singleton]
    exact houtputs topic

/-! ## What the servers tell -/

theorem notifyClients_sent (s : WsBus w) (senderId : UInt32) (type : UInt8) (p : P) :
    (s.notifyClients senderId type p).sent =
      s.sent ++ (s.clients.filter (senderId ≠ ·)).map (valuePacket p (s.value p) type) := by
  have hpacket : valuePacket p (s.value p) type = fun client =>
      { client
        header :=
          { signature := packetSignature, requestId := 0, type
            size := UInt16.ofNat (w.param p).size }
        data := s.payload p } := by
    rw [s.payload_eq p]
    rfl
  rw [WsBus.notifyClients, hpacket]
  split
  · next hzero =>
      rw [WsBus.clients_of_count hzero]
      exact (List.append_nil _).symm
  · rfl

theorem setValue_value (s : WsBus w) (p : P) (v : (w.param p).Value) :
    (s.setValue p v).value p = v := by
  rw [WsBus.setValue]
  exact Function.update_self ..

theorem processNotification_sent (s : WsBus w) (p : P) (v : (w.param p).Value) :
    ((s.setValue p v).processNotification false p).sent = s.sent ++
      match w.types.parametersPacketType.lookup p with
      | none => []
      | some type => (s.clients.filter (0xFFFFFFFF ≠ ·)).map (valuePacket p v type) := by
  rw [WsBus.processNotification, if_neg Bool.false_ne_true]
  cases w.types.parametersPacketType.lookup p with
  | none => exact (List.append_nil _).symm
  | some type =>
      refine (notifyClients_sent _ 0xFFFFFFFF type p).trans ?_
      rw [setValue_value]
      rfl

theorem processNotification_outputs (m : MqttServer P C') (p : P) (v : List UInt8)
    (topic : CString) :
    outputs topic
        ({ m with value := Function.update m.value p v }.processNotification topics w.param
          p).effects =
      outputs topic m.effects ++
        published topics topic (m.state = .connected) ((w.param p).toString v)
          (if m.state = .uninitialized then none else topics.parametersTopic.lookup p) := by
  rw [MqttServer.processNotification]
  dsimp only
  split
  · exact (List.append_nil _).symm
  · cases topics.parametersTopic.lookup p with
    | none => exact (List.append_nil _).symm
    | some topicOut =>
        dsimp only
        have hgives : MqttServer.Gives topics w.param
            { m with value := Function.update m.value p v } _ p topicOut :=
          MqttServer.publish_gives p topicOut
        replace hgives := hgives topic
        dsimp only at hgives
        rw [Function.update_self] at hgives ⊢
        exact hgives

/-! ## What each event announces -/

variable (topics) in
theorem handlePacketData_written (h : d.Subscribed) (client : UInt32) (packet : Packet) :
    (d.ws.written packet = none ∧
      (d.handlePacketData topics client packet).2.ws.value = d.ws.value ∧
      (d.handlePacketData topics client packet).2.ws.sent = d.ws.sent ∧
      (d.handlePacketData topics client packet).2.ws.clients = d.ws.clients ∧
      (d.handlePacketData topics client packet).2.mqtt = d.mqtt) ∨
    ∃ x, d.ws.written packet = some x ∧
      (d.handlePacketData topics client packet).2.ws =
        (d.ws.setValue x.1 x.2).notifyClients client packet.header.type x.1 ∧
      (d.handlePacketData topics client packet).2.mqtt =
        { d.mqtt with value := Function.update d.mqtt.value x.1 x.2.1 }.processNotification topics
          w.param x.1 := by
  rw [WsBus.written, handlePacketData]
  cases hcommand : w.types.commands.lookup packet.header.type with
  | some command => exact .inl ⟨rfl, rfl, rfl, rfl, rfl⟩
  | none =>
      cases hdata : w.types.dataRequests.lookup packet.header.type with
      | some p => exact .inl ⟨rfl, rfl, rfl, rfl, rfl⟩
      | none =>
          cases hparameter : w.types.parameters.lookup packet.header.type with
          | none => exact .inl ⟨rfl, rfl, rfl, rfl, rfl⟩
          | some p =>
              dsimp only
              rw [Option.bind_some]
              cases hwrite : (w.param p).write packet.body (d.ws.value p) with
              | none => exact .inl ⟨rfl, rfl, rfl, rfl, rfl⟩
              | some v =>
                  have hset : (d.setValue p v).Subscribed := h
                  obtain ⟨hws, hmqtt, -⟩ :=
                    notifyParameterChanged_spec topics hset .ws p
                  refine .inr ⟨⟨p, v⟩, rfl, ?_, hmqtt⟩
                  show WsBus.notifyClients _ client packet.header.type p = _
                  rw [hws]
                  rfl

theorem respond_sent (s : WsBus w) (client : UInt32) (packet : Packet) (response : Response) :
    (s.respond client packet response).sent = s.sent := by
  rw [WsBus.respond]
  split
  · rfl
  · rfl

theorem tells_packet (h : d.Subscribed) (client : UInt32) (packet : Packet)
    (ht : d.step topics (.packet client packet) = some t) :
    Tells topics d t (d.announcement topics (.packet client packet)).toList := by
  cases ht
  have hsent := respond_sent (d.handlePacketData topics client packet).2.ws client packet
    (d.handlePacketData topics client packet).1
  have hvalue := (d.handlePacketData topics client packet).2.ws.respond_value client packet
    (d.handlePacketData topics client packet).1
  rw [announcement]
  rcases handlePacketData_written topics h client packet with
    ⟨hnone, hsame, hquiet, -, hmqtt⟩ | ⟨x, hx, hws, hmqtt⟩
  · rw [hnone]
    refine Tells.nothing (hvalue.trans hsame) (hsent.trans hquiet) ?_
    intro topic
    exact congrArg (fun m => outputs topic m.effects) hmqtt
  · rw [hx]
    refine Tells.one ?_ (hsent.trans ?_) ?_
    · refine hvalue.trans ?_
      rw [hws]
      exact (WsBus.notifyClients_same ..).1
    · rw [hws, notifyClients_sent, setValue_value]
      rfl
    · intro topic
      refine Eq.trans (congrArg (fun m => outputs topic m.effects) hmqtt) ?_
      exact processNotification_outputs d.mqtt x.1 x.2.1 topic

theorem tells_changed (h : d.Subscribed) (p : P) (v : (w.param p).Value)
    (ht : d.step topics (.changed p v) = some t) :
    Tells topics d t (d.announcement topics (.changed p v)).toList := by
  cases ht
  have hset : (d.setValue p v).Subscribed := h
  obtain ⟨hws, hmqtt, -⟩ := notifyParameterChanged_spec topics hset .other p
  rw [if_neg (by nofun)] at hmqtt
  refine Tells.one ?_ ?_ ?_
  · rw [hws]
    exact WsBus.processNotification_value _ _ p
  · rw [hws]
    exact processNotification_sent d.ws p v
  · intro topic
    rw [hmqtt]
    exact processNotification_outputs d.mqtt p v.1 topic

variable (topics d) in
theorem processMessage_outputs (topic : CString) (payload : List UInt8) :
    (d.parsed topics topic payload = none ∧
      ∀ topic', outputs topic' (d.mqtt.processMessage topics w.param topic payload).effects =
        outputs topic' d.mqtt.effects) ∨
    ∃ x target, d.parsed topics topic payload = some x ∧
      topics.parameters.lookup topic = some target ∧
      ∀ topic', outputs topic' (d.mqtt.processMessage topics w.param topic payload).effects =
        outputs topic' d.mqtt.effects ++
          published topics topic' (d.mqtt.state = .connected) ((w.param x.1).toString x.2.1)
            (some target.1) := by
  rw [MqttServer.processMessage, parsed]
  cases hcommand : topics.commands.lookup topic with
  | some command =>
      refine .inl ⟨rfl, fun topic' => ?_⟩
      exact (outputs_append ..).trans (List.append_nil _)
  | none =>
      cases hparameter : topics.parameters.lookup topic with
      | none => exact .inl ⟨rfl, fun _ => rfl⟩
      | some target =>
          obtain ⟨topicOut, p⟩ := target
          dsimp only
          rw [d.shared p]
          rcases (w.param p).parseValue_cases payload (d.ws.value p) with
            ⟨hparse, hnone⟩ | ⟨v, hparse, hsome⟩
          · rw [hparse, hnone]
            refine .inl ⟨rfl, fun topic' => ?_⟩
            exact (outputs_append ..).trans (List.append_nil _)
          · rw [hparse, hsome]
            refine .inr ⟨⟨p, v⟩, (topicOut, p), rfl, rfl, fun topic' => ?_⟩
            have hgives : MqttServer.Gives topics w.param
                { d.mqtt with
                  value := Function.update d.mqtt.value p v.1
                  effects := d.mqtt.effects ++ [.parse p payload, .notifyBus p] } _ p topicOut :=
              MqttServer.publish_gives p topicOut
            replace hgives := hgives topic'
            dsimp only at hgives ⊢
            rw [Function.update_self, outputs_append] at hgives
            rw [Function.update_self]
            refine hgives.trans ?_
            exact congrArg (· ++ _) (List.append_nil _)

theorem tells_message (h : d.Subscribed) (topic : CString) (payload : List UInt8)
    (ht : d.step topics (.message topic payload) = some t) :
    Tells topics d t (d.announcement topics (.message topic payload)).toList := by
  rw [step] at ht
  rw [announcement]
  split at ht
  · cases ht
  · next hinit =>
      cases ht
      rw [if_neg hinit]
      obtain ⟨hmqtt, -, hws⟩ := processMessage_spec topics h
        (topics.topicPrefix.strip topic) payload
      have houtputs := processMessage_outputs topics d
        (topics.topicPrefix.strip topic) payload
      rw [← hmqtt] at houtputs
      rcases hws with ⟨hnone, hsame⟩ | ⟨x, hx, hchanged⟩
      · rw [hnone]
        rcases houtputs with ⟨-, hquiet⟩ | ⟨x, _, hx, -⟩
        · exact Tells.nothing (congrArg WsBus.value hsame) (congrArg WsBus.sent hsame) hquiet
        · rw [hnone] at hx
          cases hx
      · rcases houtputs with ⟨hnone, -⟩ | ⟨x', target, hx', htarget, htold⟩
        · rw [hnone] at hx
          cases hx
        · rw [hx] at hx'
          cases hx'
          rw [hx, Option.bind_some, htarget]
          refine Tells.one ?_ ?_ htold
          · rw [hchanged]
            exact WsBus.processNotification_value _ _ x.1
          · rw [hchanged]
            exact processNotification_sent d.ws x.1 x.2

theorem tells_sendNotification (type : UInt8)
    (ht : d.step topics (.sendNotification type) = some t) :
    Tells topics d t (d.announcement topics (.sendNotification type)).toList := by
  cases ht
  rw [announcement]
  have hvalue := d.ws.sendNotification_value type
  cases hp : w.types.parameterOf type with
  | none =>
      refine Tells.nothing hvalue ?_ fun _ => rfl
      show (d.ws.sendNotification type).sent = _
      rw [WsBus.sendNotification, hp]
  | some p =>
      refine Tells.one (hvalue.trans (Function.update_eq_self p _).symm) ?_ ?_
      · show (d.ws.sendNotification type).sent = _
        rw [WsBus.sendNotification, hp]
        exact notifyClients_sent d.ws 0xFFFFFFFF type p
      · intro topic
        exact (List.append_nil _).symm

/-- **A step tells what its event announces, and nothing else.** -/
theorem tells_step {e : DeviceEvent w} (h : d.Subscribed) (ht : d.step topics e = some t) :
    Tells topics d t (d.announcement topics e).toList := by
  cases e with
  | packet client packet => exact tells_packet h client packet ht
  | message topic payload => exact tells_message h topic payload ht
  | changed p v => exact tells_changed h p v ht
  | sendNotification type => exact tells_sendNotification type ht
  | connect client =>
      obtain ⟨ws, hws, hstep, rfl⟩ := Option.pmap_eq_some_iff.mp ht
      refine Tells.nothing hws ?_ fun _ => rfl
      rw [WsBus.step] at hstep
      split at hstep
      · cases hstep
        rfl
      · cases hstep
  | disconnect client =>
      obtain ⟨ws, hws, hstep, rfl⟩ := Option.pmap_eq_some_iff.mp ht
      refine Tells.nothing hws ?_ fun _ => rfl
      rw [WsBus.step] at hstep
      split at hstep
      · cases hstep
        rfl
      · cases hstep
  | mqttBegin change attempt connecting =>
      have hmute := MqttServer.begin_mute topics change attempt connecting d.mqtt
      rw [step] at ht
      split at ht
      · cases ht
        exact Tells.nothing rfl rfl hmute.outputs_eq
      · cases ht
        exact Tells.nothing rfl rfl hmute.outputs_eq
  | mqttHandleConnection poll =>
      cases ht
      exact Tells.nothing rfl rfl (MqttServer.handleConnection_mute topics poll d.mqtt).outputs_eq
  | mqttClient callback =>
      rw [step] at ht
      split at ht
      · cases ht
      · cases ht
        exact Tells.nothing rfl rfl (MqttServer.onClient_mute topics d.mqtt callback).outputs_eq

/-! ## Every run -/

theorem tells_run {es : List (DeviceEvent w)} (h : d.Subscribed)
    (hrun : Lib.run (step topics) d es = some t) : Tells topics d t (d.log topics es) where
  value :=
    run_trace (I := Subscribed) (fun d : Device w C' => d.ws.value)
      (fun _ _ _ hd hs => ⟨hd.step hs, (tells_step hd hs).value⟩) h hrun
  packets :=
    run_log (I := Subscribed) (fun d : Device w C' => d.ws.sent)
      (fun _ _ _ hd hs => ⟨hd.step hs, (tells_step hd hs).packets⟩) h hrun
  publications topic :=
    run_log (I := Subscribed) (fun d : Device w C' => outputs topic d.mqtt.effects)
      (fun _ _ _ hd hs => ⟨hd.step hs, (tells_step hd hs).publications topic⟩) h hrun

/-- **Of a whole run the log alone decides what is stored, what the clients were told and what the
broker was told: nothing else was told, nothing was told twice, and all of it in the one order of
the log.** -/
theorem told_once (value : (p : P) → (w.param p).Value) (es : List (DeviceEvent w))
    (hrun : Lib.run (step topics) (start value) es = some d) :
    d.ws.value = ((start value).log topics es).foldl Announcement.apply value ∧
      d.ws.sent = ((start value).log topics es).flatMap Announcement.packets ∧
      ∀ topic, outputs topic d.mqtt.effects =
        ((start value).log topics es).flatMap (Announcement.publications topics topic) := by
  have htold := tells_run (d := start value) rfl hrun
  exact ⟨htold.value, htold.packets, htold.publications⟩

/-- A client writes the digit 1, a message makes it 5, and the application 7. -/
theorem told_once_digit :
    let topics := MqttTopics.setup ⟨[], by decide⟩ MqttServer.oneParameter
    let packet : Packet :=
      { header := { signature := packetSignature, requestId := 1, type := 1, size := 1 }
        data := [1] }
    let es : List (DeviceEvent WsBus.digitSetup) :=
      [.mqttBegin 0 0 [.connected 0 0], .connect 1, .connect 2, .packet 1 packet,
        .message ⟨[0x69], by decide⟩ [0x35], .changed () ⟨[7], rfl⟩]
    ∃ d, Lib.run (step topics) (start fun _ => ⟨[0], rfl⟩) es = some d ∧
      d.ws.sent = ((start fun _ => ⟨[0], rfl⟩).log topics es).flatMap Announcement.packets :=
  ⟨_, rfl, (told_once _ _ rfl).2.1⟩

/-! ## One client -/

theorem processNotification_clients (s : WsBus w) (self : Bool) (p : P) :
    (s.processNotification self p).clients = s.clients := by
  rw [WsBus.processNotification]
  split
  · rfl
  · split
    · rfl
    · exact (WsBus.notifyClients_same ..).2

theorem respond_clients (s : WsBus w) (client : UInt32) (packet : Packet) (response : Response) :
    (s.respond client packet response).clients = s.clients := by
  rw [WsBus.respond]
  split
  · rfl
  · rfl

theorem mem_clients_step {e : DeviceEvent w} {client : UInt32} (h : d.Subscribed)
    (hmem : client ∈ d.ws.clients) (hstay : e ≠ .disconnect client)
    (ht : d.step topics e = some t) : client ∈ t.ws.clients := by
  cases e with
  | packet other packet =>
      cases ht
      have hsame : (d.handlePacketData topics other packet).2.ws.clients = d.ws.clients := by
        rcases handlePacketData_written topics h other packet with
          ⟨-, -, -, hsame, -⟩ | ⟨x, -, hws, -⟩
        · exact hsame
        · rw [hws]
          exact (WsBus.notifyClients_same ..).2
      show client ∈ ((d.handlePacketData topics other packet).2.ws.respond ..).clients
      rw [respond_clients, hsame]
      exact hmem
  | message topic payload =>
      rw [step] at ht
      split at ht
      · cases ht
      · cases ht
        obtain ⟨-, -, hws⟩ := processMessage_spec topics h
          (topics.topicPrefix.strip topic) payload
        rcases hws with ⟨-, hsame⟩ | ⟨x, -, hchanged⟩
        · rw [hsame]
          exact hmem
        · rw [hchanged, processNotification_clients]
          exact hmem
  | changed p v =>
      cases ht
      have hset : (d.setValue p v).Subscribed := h
      obtain ⟨hws, -, -⟩ := notifyParameterChanged_spec topics hset .other p
      rw [hws, processNotification_clients]
      exact hmem
  | sendNotification type =>
      cases ht
      show client ∈ (d.ws.sendNotification type).clients
      rw [WsBus.sendNotification]
      split
      · exact hmem
      · rw [(WsBus.notifyClients_same ..).2]
        exact hmem
  | connect other =>
      obtain ⟨ws, hws, hstep, rfl⟩ := Option.pmap_eq_some_iff.mp ht
      rw [WsBus.step] at hstep
      split at hstep
      · cases hstep
        exact List.mem_append_left _ hmem
      · cases hstep
  | disconnect other =>
      obtain ⟨ws, hws, hstep, rfl⟩ := Option.pmap_eq_some_iff.mp ht
      have hne : client ≠ other := fun heq => hstay (heq ▸ rfl)
      rw [WsBus.step] at hstep
      split at hstep
      · cases hstep
        exact (List.mem_erase_of_ne hne).mpr hmem
      · cases hstep
  | mqttBegin change attempt connecting =>
      rw [step] at ht
      split at ht
      · cases ht
        exact hmem
      · cases ht
        exact hmem
  | mqttHandleConnection poll =>
      cases ht
      exact hmem
  | mqttClient callback =>
      rw [step] at ht
      split at ht
      · cases ht
      · cases ht
        exact hmem

theorem filter_client {clients : List UInt32} (hnodup : clients.Nodup) {client : UInt32}
    (hmem : client ∈ clients) : clients.filter (· = client) = [client] := by
  rw [List.filter_eq, List.count_eq_one_of_mem hnodup hmem]
  rfl

theorem packets_for {client : UInt32} {a : Announcement w} (hnodup : a.clients.Nodup)
    (hmem : client ∈ a.clients) :
    a.packets.filter (·.client = client) = (a.packetFor client).toList := by
  rw [Announcement.packets, Announcement.packetFor]
  cases a.type with
  | none =>
      dsimp only
      rw [Option.map_none, ite_self]
      rfl
  | some type =>
      dsimp only
      rw [List.filter_map, List.filter_filter]
      by_cases hsender : a.senderId = client
      · rw [if_pos hsender]
        refine congrArg (List.map _) (List.filter_eq_nil_iff.mpr ?_)
        intro other _ hother
        obtain ⟨heq, hne⟩ := Bool.and_eq_true_iff.mp hother
        have hclient : other = client := of_decide_eq_true heq
        exact of_decide_eq_true hne (hsender.trans hclient.symm)
      · rw [if_neg hsender]
        have hfilter : a.clients.filter (fun other =>
            ((fun n : WsNotification => decide (n.client = client)) ∘
              valuePacket a.parameter a.value type) other && decide (a.senderId ≠ other)) =
            a.clients.filter (· = client) := by
          refine List.filter_congr fun other _ => ?_
          show (decide (other = client) && decide (a.senderId ≠ other)) = decide (other = client)
          by_cases hother : other = client
          · rw [hother, decide_eq_true hsender, Bool.and_true]
          · rw [decide_eq_false hother, Bool.false_and]
        rw [hfilter, filter_client hnodup hmem]
        rfl

theorem announcement_clients {e : DeviceEvent w} :
    ∀ a ∈ (d.announcement topics e).toList, a.clients = d.ws.clients := by
  intro a ha
  rw [Option.mem_toList] at ha
  cases e with
  | packet client packet =>
      obtain ⟨x, -, rfl⟩ := Option.map_eq_some_iff.mp ha
      rfl
  | message topic payload =>
      rw [announcement] at ha
      split at ha
      · cases ha
      · obtain ⟨x, -, hx⟩ := Option.bind_eq_some_iff.mp ha
        obtain ⟨target, -, rfl⟩ := Option.map_eq_some_iff.mp hx
        rfl
  | changed p v =>
      cases ha
      rfl
  | sendNotification type =>
      obtain ⟨p, -, rfl⟩ := Option.map_eq_some_iff.mp ha
      rfl
  | connect | disconnect | mqttBegin | mqttHandleConnection | mqttClient => cases ha

/-- **A client that stays connected hears of every announcement but its own, of each once, in the
order of the log.** -/
theorem hears_each_once (value : (p : P) → (w.param p).Value) (before after : List (DeviceEvent w))
    (hbefore : Lib.run (step topics) (start value) before = some d)
    (hafter : Lib.run (step topics) d after = some t) (client : UInt32)
    (hmem : client ∈ d.ws.clients) (hstay : ∀ e ∈ after, e ≠ .disconnect client) :
    t.ws.sent.filter (·.client = client) = d.ws.sent.filter (·.client = client) ++
      (d.log topics after).filterMap (Announcement.packetFor client) := by
  have hsubscribed : d.Subscribed :=
    run_invariant (I := Subscribed) (fun _ _ _ hd hs => hd.step hs)
      (show (start value : Device w C').Subscribed from rfl) hbefore
  have hheard : ∀ a ∈ d.log topics after,
      a.packets.filter (·.client = client) = (a.packetFor client).toList := by
    refine forall_trace (I := fun d : Device w C' => d.Subscribed ∧ client ∈ d.ws.clients)
      (C := fun e => e ≠ .disconnect client) ?_ ?_ ⟨hsubscribed, hmem⟩ hstay
    · intro d e hd _ a ha
      have hclients := announcement_clients a ha
      exact packets_for (hclients ▸ d.ws.nodup) (hclients ▸ hd.2)
    · intro d e d' hd he hs
      exact ⟨hd.1.step hs, mem_clients_step hd.1 hd.2 he hs⟩
  rw [(tells_run hsubscribed hafter).packets, List.filter_append, List.filter_flatMap,
    List.filterMap_eq_flatMap_toList]
  exact congrArg _ (List.flatMap_congr hheard)

/-- The second client hears of all three changes that follow. -/
theorem hears_each_once_digit :
    let topics := MqttTopics.setup ⟨[], by decide⟩ MqttServer.oneParameter
    let packet : Packet :=
      { header := { signature := packetSignature, requestId := 1, type := 1, size := 1 }
        data := [1] }
    let before : List (DeviceEvent WsBus.digitSetup) :=
      [.mqttBegin 0 0 [.connected 0 0], .connect 1, .connect 2]
    let after : List (DeviceEvent WsBus.digitSetup) :=
      [.packet 1 packet, .message ⟨[0x69], by decide⟩ [0x35], .changed () ⟨[7], rfl⟩]
    ∃ d t, Lib.run (step topics) (start fun _ => ⟨[0], rfl⟩) before = some d ∧
      Lib.run (step topics) d after = some t ∧
      t.ws.sent.filter (·.client = 2) = d.ws.sent.filter (·.client = 2) ++
        (d.log topics after).filterMap (Announcement.packetFor 2) := by
  intro topics packet before after
  refine ⟨_, _, rfl, rfl, ?_⟩
  refine hears_each_once (fun _ => ⟨[0], rfl⟩) before after rfl rfl 2 (by decide) ?_
  intro e he heq
  subst heq
  simp [after] at he

end Device

end EspIot
