/-
# `EspIot.Network.DeviceAgreement` — everybody who watches a parameter agrees on it

A WebSocket client goes by the last packet of a parameter's type, the MQTT broker by the last
publication on its topic, and the parameter changes through either of them or from within.
`Agree` says that both are the present value, the one in bytes and the other as text.

Every step of a device is a step of the WebSocket server (`step_ws`) and a run of the MQTT server
(`step_mqtt`), so each keeps what it keeps alone, and the storage is one.  The one thing that is
left is the client with the id `-1`, which no change of another sender reaches.
-/
import EspIot.Network.Device

namespace EspIot

open Lib

variable {P C C' : Type*} [DecidableEq P] {w : WsSetup P C}

/-! ## The topics -/

namespace OneTopicEach

variable {registrations : List (Registration P C')} (topicPrefix : CString)

theorem distinct (h : OneTopicEach registrations) (p q : P) (topic : CString)
    (hp : (MqttTopics.setup topicPrefix registrations).parametersTopic.lookup p = some topic)
    (hq : (MqttTopics.setup topicPrefix registrations).parametersTopic.lookup q = some topic) :
    p = q := by
  have htopic := MqttTopics.setup_topic topicPrefix h.parameters
  have heq := List.inj_on_of_nodup_map h.topics ((htopic p topic).mp hp)
    ((htopic q topic).mp hq) rfl
  exact congrArg Prod.fst heq

end OneTopicEach

namespace Device

variable (topics : MqttTopics P C')

/-- The parameter that a message changes, and the value it gets. -/
def parsed (topic : CString) (payload : List UInt8) (d : Device w C') :
    Option ((p : P) × (w.param p).Value) :=
  match topics.commands.lookup topic with
  | some _ => none
  | none =>
      match topics.parameters.lookup topic with
      | some (_, p) => ((w.param p).parseValue payload (d.ws.value p)).map fun v => ⟨p, v⟩
      | none => none

/-- What is not a client's write leaves the client with the id `-1` no other value. -/
def Reaches (d : Device w C') : DeviceEvent w → Prop
  | .changed p v => d.ws.Reaches (.changed p v)
  | .message topic payload =>
      ∀ x, d.parsed topics (topics.topicPrefix.strip topic) payload = some x →
        d.ws.Reaches (.changed x.1 x.2)
  | _ => True

/-- The bus has the WebSocket server, and the MQTT server once it has begun. -/
def Subscribed (d : Device w C') : Prop :=
  d.subscriptions = if d.mqtt.state = .uninitialized then [.ws] else [.ws, .mqtt]

variable {topics} {d : Device w C'}

/-! ## What the operations are to each server -/

variable (topics) in
theorem notifyParameterChanged_spec (h : d.Subscribed) (sender : BusParty) (p : P) :
    (d.notifyParameterChanged topics sender p).ws =
        d.ws.processNotification (sender = .ws) p ∧
      (d.notifyParameterChanged topics sender p).mqtt =
        (if sender = .mqtt then d.mqtt else d.mqtt.processNotification topics w.param p) ∧
      (d.notifyParameterChanged topics sender p).subscriptions = d.subscriptions := by
  rw [Subscribed] at h
  rw [notifyParameterChanged]
  by_cases hstate : d.mqtt.state = .uninitialized
  · rw [if_pos hstate] at h
    rw [h]
    have hsilent : d.mqtt.processNotification topics w.param p = d.mqtt := by
      rw [MqttServer.processNotification, if_pos hstate]
    rw [hsilent, ite_self]
    exact ⟨rfl, rfl, h⟩
  · rw [if_neg hstate] at h
    rw [h]
    cases sender with
    | mqtt => exact ⟨rfl, rfl, h⟩
    | ws => exact ⟨rfl, rfl, h⟩
    | other => exact ⟨rfl, rfl, h⟩

variable (topics) in
/-- A packet is to the WebSocket server what it is without the other server, and to the MQTT
server a change or nothing. -/
theorem handlePacketData_spec (h : d.Subscribed) (client : UInt32) (packet : Packet) :
    (d.handlePacketData topics client packet).1 = (d.ws.handlePacketData client packet).1 ∧
      (d.handlePacketData topics client packet).2.ws = (d.ws.handlePacketData client packet).2 ∧
      (d.handlePacketData topics client packet).2.subscriptions = d.subscriptions ∧
      ((d.handlePacketData topics client packet).2.mqtt = d.mqtt ∨
        ∃ p v, (d.handlePacketData topics client packet).2.mqtt =
          { d.mqtt with value := Function.update d.mqtt.value p v }.processNotification topics
            w.param p) := by
  rw [handlePacketData, WsBus.handlePacketData]
  cases hcommand : w.types.commands.lookup packet.header.type with
  | some command => exact ⟨rfl, rfl, rfl, .inl rfl⟩
  | none =>
      cases hdata : w.types.dataRequests.lookup packet.header.type with
      | some p => exact ⟨rfl, rfl, rfl, .inl rfl⟩
      | none =>
          cases hparameter : w.types.parameters.lookup packet.header.type with
          | none => exact ⟨rfl, rfl, rfl, .inl rfl⟩
          | some p =>
              dsimp only
              cases hwrite : (w.param p).write packet.body (d.ws.value p) with
              | none => exact ⟨rfl, rfl, rfl, .inl rfl⟩
              | some v =>
                  have hset : (d.setValue p v).Subscribed := h
                  obtain ⟨hws, hmqtt, hsubs⟩ :=
                    notifyParameterChanged_spec topics hset .ws p
                  refine ⟨rfl, ?_, hsubs, .inr ⟨p, v.1, hmqtt⟩⟩
                  show WsBus.notifyClients _ client packet.header.type p = _
                  rw [hws]
                  rfl

variable (topics) in
/-- A message is to the MQTT server what it is without the other server, and to the other server a
change or nothing. -/
theorem processMessage_spec (h : d.Subscribed) (topic : CString) (payload : List UInt8) :
    (d.processMessage topics topic payload).mqtt =
        d.mqtt.processMessage topics w.param topic payload ∧
      (d.processMessage topics topic payload).subscriptions = d.subscriptions ∧
      (d.parsed topics topic payload = none ∧ (d.processMessage topics topic payload).ws = d.ws ∨
        ∃ x, d.parsed topics topic payload = some x ∧
          (d.processMessage topics topic payload).ws =
            (d.ws.setValue x.1 x.2).processNotification false x.1) := by
  rw [processMessage, MqttServer.processMessage, parsed]
  cases hcommand : topics.commands.lookup topic with
  | some command => exact ⟨rfl, rfl, .inl ⟨rfl, rfl⟩⟩
  | none =>
      cases hparameter : topics.parameters.lookup topic with
      | none => exact ⟨rfl, rfl, .inl ⟨rfl, rfl⟩⟩
      | some target =>
          obtain ⟨topicOut, p⟩ := target
          dsimp only
          rw [d.shared p]
          rcases (w.param p).parseValue_cases payload (d.ws.value p) with
            ⟨hparse, hnone⟩ | ⟨v, hparse, hsome⟩
          · rw [hnone, hparse]
            exact ⟨rfl, rfl, .inl ⟨rfl, rfl⟩⟩
          · rw [hsome, hparse]
            have hset : Subscribed
                (((d.act (.parse p payload)).setValue p v).act (.notifyBus p)) := h
            obtain ⟨hws, hmqtt, hsubs⟩ :=
              notifyParameterChanged_spec topics hset .mqtt p
            refine ⟨?_, hsubs, .inr ⟨⟨p, v⟩, rfl, hws⟩⟩
            show (notifyParameterChanged topics .mqtt p _).mqtt.publish topics topicOut
              ((w.param p).toString ((notifyParameterChanged topics .mqtt p _).mqtt.value p)) = _
            rw [hmqtt, if_pos rfl]
            show MqttServer.publish topics topicOut _
              { d.mqtt with
                value := Function.update d.mqtt.value p v.1
                effects := d.mqtt.effects ++ [.parse p payload] ++ [.notifyBus p] } = _
            rw [List.append_assoc]
            rfl

/-! ## The invariant -/

/-- Nothing is outstanding at the MQTT server between two events of a device. -/
def Quiet (m : MqttServer P C') : Prop := m.frames = [] ∧ m.owed = []

/-- A change that comes by the bus is a run of the MQTT server: the write, then the
notification. -/
theorem mqtt_changed (param : P → AbstractParameter) (m : MqttServer P C') (p : P)
    (v : List UInt8) :
    run (MqttServer.step topics param) m [.write p v, .notify p] =
      some ({ m with value := Function.update m.value p v }.processNotification topics param
        p) := by
  show some (MqttServer.processNotification topics param p
    { m with value := Function.update m.value p v, owed := (p :: m.owed).erase p }) = _
  rw [List.erase_cons_head]

omit [DecidableEq P] in
theorem Quiet.mute {m n : MqttServer P C'} (h : Quiet m) (hm : MqttServer.Mute m n) : Quiet n :=
  ⟨hm.frames_eq.trans h.1, hm.owed_eq.trans h.2⟩

theorem Quiet.processNotification {m : MqttServer P C'} (h : Quiet m)
    (param : P → AbstractParameter) (p : P) : Quiet (m.processNotification topics param p) := by
  rw [MqttServer.processNotification]
  split
  · exact h
  · split
    · exact h
    · exact h

theorem Quiet.processMessage {m : MqttServer P C'} (h : Quiet m) (param : P → AbstractParameter)
    (topic : CString) (payload : List UInt8) :
    Quiet (m.processMessage topics param topic payload) := by
  rw [MqttServer.processMessage]
  split
  · exact h
  · split
    · split
      · exact h
      · exact h
    · exact h

theorem processNotification_state (param : P → AbstractParameter) (p : P) (m : MqttServer P C') :
    (m.processNotification topics param p).state = m.state := by
  rw [MqttServer.processNotification]
  split
  · rfl
  · split
    · rfl
    · rfl

theorem processMessage_state (param : P → AbstractParameter) (topic : CString)
    (payload : List UInt8) (m : MqttServer P C') :
    (m.processMessage topics param topic payload).state = m.state := by
  rw [MqttServer.processMessage]
  split
  · rfl
  · split
    · split
      · rfl
      · rfl
    · rfl

omit [DecidableEq P] in
/-- The bus keeps its subscribers while the MQTT server stays where it is, begun or not. -/
theorem Subscribed.of_eq {t : Device w C'} (h : d.Subscribed)
    (hsubs : t.subscriptions = d.subscriptions)
    (hstate : t.mqtt.state = .uninitialized ↔ d.mqtt.state = .uninitialized) : t.Subscribed := by
  rw [Subscribed, hsubs, h]
  by_cases hd : d.mqtt.state = .uninitialized
  · rw [if_pos hd, if_pos (hstate.mpr hd)]
  · rw [if_neg hd, if_neg fun ht => hd (hstate.mp ht)]

theorem Subscribed.step {t : Device w C'} {e : DeviceEvent w} (h : d.Subscribed)
    (ht : d.step topics e = some t) : t.Subscribed := by
  cases e with
  | packet client packet =>
      obtain ⟨-, -, hsubs, hmqtt⟩ := handlePacketData_spec topics h client packet
      cases ht
      refine h.of_eq hsubs ?_
      show (d.handlePacketData topics client packet).2.mqtt.state = _ ↔ _
      rcases hmqtt with hsame | ⟨p, v, hchanged⟩
      · rw [hsame]
      · rw [hchanged, processNotification_state]
  | message topic payload =>
      rw [Device.step] at ht
      split at ht
      · cases ht
      · cases ht
        obtain ⟨hmqtt, hsubs, -⟩ := processMessage_spec topics h
          (topics.topicPrefix.strip topic) payload
        refine h.of_eq hsubs ?_
        rw [hmqtt, processMessage_state]
  | changed p v =>
      cases ht
      have hset : (d.setValue p v).Subscribed := h
      obtain ⟨-, hmqtt, hsubs⟩ := notifyParameterChanged_spec topics hset .other p
      refine h.of_eq hsubs ?_
      rw [hmqtt, if_neg (fun h => by cases h), processNotification_state]
      rfl
  | sendNotification type =>
      cases ht
      exact h
  | connect client =>
      obtain ⟨ws, hws, hstep, rfl⟩ := Option.pmap_eq_some_iff.mp ht
      exact h
  | disconnect client =>
      obtain ⟨ws, hws, hstep, rfl⟩ := Option.pmap_eq_some_iff.mp ht
      exact h
  | mqttBegin change attempt connecting =>
      rw [Device.step] at ht
      split at ht
      · rename_i hstate
        cases ht
        have hbegun : (d.mqtt.begin topics change attempt connecting).state ≠ .uninitialized := by
          rw [MqttServer.begin, if_neg (not_not.mpr hstate)]
          exact MqttServer.client_initialized _ _ (fun h => by cases h)
        rw [Subscribed, if_pos hstate] at h
        show d.subscriptions ++ [.mqtt] =
          if (d.mqtt.begin topics change attempt connecting).state = .uninitialized then [.ws]
          else [.ws, .mqtt]
        rw [h, if_neg hbegun]
        rfl
      · rename_i hstate
        cases ht
        have hsame : d.mqtt.begin topics change attempt connecting = d.mqtt := by
          rw [MqttServer.begin, if_pos hstate]
        refine h.of_eq rfl ?_
        show (d.mqtt.begin topics change attempt connecting).state = _ ↔ _
        rw [hsame]
  | mqttHandleConnection poll =>
      cases ht
      refine h.of_eq rfl ?_
      show (d.mqtt.handleConnection topics poll).state = _ ↔ _
      by_cases hstate : d.mqtt.state = .uninitialized
      · rw [MqttServer.handleConnection, if_pos hstate]
      · have hafter : (d.mqtt.handleConnection topics poll).state ≠ .uninitialized :=
          MqttServer.handleConnection_initialized poll hstate
        exact ⟨fun hnot => absurd hnot hafter, fun hnot => absurd hnot hstate⟩
  | mqttClient callback =>
      rw [Device.step] at ht
      split at ht
      · cases ht
      · rename_i hstate
        cases ht
        have hafter : (d.mqtt.onClient topics callback).state ≠ .uninitialized :=
          MqttServer.client_initialized [callback] d.mqtt hstate
        exact h.of_eq rfl ⟨fun hnot => absurd hnot hafter, fun hnot => absurd hnot hstate⟩

structure Inv (topics : MqttTopics P C') (d : Device w C') : Prop where
  subscribed : d.Subscribed
  agrees : d.ws.Agrees
  carried : d.ws.ToldCarried
  mirrors : MqttServer.Mirrors topics w.param d.mqtt
  quiet : Quiet d.mqtt

section Steps

variable (hdistinct : ∀ p q t, topics.parametersTopic.lookup p = some t →
  topics.parametersTopic.lookup q = some t → p = q)
variable (hroute : ∀ topicIn out p, topics.parameters.lookup topicIn = some (out, p) →
  topics.parametersTopic.lookup p = some out)

include hdistinct hroute

theorem mirrors_changed {m : MqttServer P C'} (h : MqttServer.Mirrors topics w.param m) (p : P)
    (v : List UInt8) :
    MqttServer.Mirrors topics w.param
      ({ m with value := Function.update m.value p v }.processNotification topics w.param p) :=
  run_invariant (I := fun m => MqttServer.Mirrors topics w.param m)
    (fun _ _ _ hI hs => hI.step hdistinct hroute hs) h (mqtt_changed w.param m p v)

theorem mirrors_message {m : MqttServer P C'} (h : MqttServer.Mirrors topics w.param m)
    (hinit : m.state ≠ .uninitialized) (topic : CString) (payload : List UInt8) :
    MqttServer.Mirrors topics w.param (m.processMessage topics w.param topic payload) := by
  have hreceived := h.receive hinit hroute topic payload
  rcases m.receive_finish topics w.param topic payload with ⟨-, heq⟩ | hfinish
  · rw [← heq]
    exact hreceived
  · exact hreceived.finish hdistinct hfinish

theorem Inv.packet (h : Inv topics d) (client : UInt32) (packet : Packet) :
    Inv topics ((d.handlePacketData topics client packet).2.respond client packet
      (d.handlePacketData topics client packet).1) := by
  obtain ⟨hresponse, hws, -, hmqtt⟩ :=
    handlePacketData_spec topics h.subscribed client packet
  have hstep : d.step topics (.packet client packet) =
      some ((d.handlePacketData topics client packet).2.respond client packet
        (d.handlePacketData topics client packet).1) := rfl
  have hsubscribed := h.subscribed.step hstep
  have hagrees := h.agrees.packet client packet
  have hcarried := (h.carried.handlePacketData client packet).respond client packet
    (d.ws.handlePacketData client packet).1
  rw [← hresponse, ← hws] at hagrees hcarried
  rcases hmqtt with hsame | ⟨p, v, hchanged⟩
  · refine ⟨hsubscribed, hagrees, hcarried, ?_, ?_⟩
    · show MqttServer.Mirrors topics w.param (d.handlePacketData topics client packet).2.mqtt
      rw [hsame]
      exact h.mirrors
    · show Quiet (d.handlePacketData topics client packet).2.mqtt
      rw [hsame]
      exact h.quiet
  · have hquiet : Quiet { d.mqtt with value := Function.update d.mqtt.value p v } := h.quiet
    refine ⟨hsubscribed, hagrees, hcarried, ?_, ?_⟩
    · show MqttServer.Mirrors topics w.param (d.handlePacketData topics client packet).2.mqtt
      rw [hchanged]
      exact mirrors_changed hdistinct hroute h.mirrors p v
    · show Quiet (d.handlePacketData topics client packet).2.mqtt
      rw [hchanged]
      exact hquiet.processNotification w.param p

theorem Inv.message (h : Inv topics d) (hinit : d.mqtt.state ≠ .uninitialized)
    (topic : CString) (payload : List UInt8)
    (hreaches : ∀ x, d.parsed topics topic payload = some x → d.ws.Reaches (.changed x.1 x.2)) :
    Inv topics (d.processMessage topics topic payload) := by
  obtain ⟨hmqtt, hsubs, hws⟩ := processMessage_spec topics h.subscribed topic payload
  have hsubscribed : (d.processMessage topics topic payload).Subscribed := by
    refine h.subscribed.of_eq hsubs ?_
    rw [hmqtt, processMessage_state]
  have hmirrors : MqttServer.Mirrors topics w.param
      (d.processMessage topics topic payload).mqtt := by
    rw [hmqtt]
    exact mirrors_message hdistinct hroute h.mirrors hinit topic payload
  have hquiet : Quiet (d.processMessage topics topic payload).mqtt := by
    rw [hmqtt]
    exact h.quiet.processMessage w.param topic payload
  rcases hws with ⟨-, hsame⟩ | ⟨x, hx, hchanged⟩
  · exact ⟨hsubscribed, hsame ▸ h.agrees, hsame ▸ h.carried, hmirrors, hquiet⟩
  · have hstep : d.ws.step (.changed x.1 x.2) =
        some (d.processMessage topics topic payload).ws := by
      rw [hchanged]
      rfl
    exact ⟨hsubscribed, h.agrees.step h.carried (hreaches x hx) hstep, h.carried.step hstep,
      hmirrors, hquiet⟩

theorem Inv.changed (h : Inv topics d) (p : P) (v : (w.param p).Value)
    (hreaches : d.ws.Reaches (.changed p v)) :
    Inv topics ((d.setValue p v).notifyParameterChanged topics .other p) := by
  have hset : (d.setValue p v).Subscribed := h.subscribed
  obtain ⟨hws, hmqtt, hsubs⟩ := notifyParameterChanged_spec topics hset .other p
  rw [if_neg (by nofun)] at hmqtt
  have hstep : d.ws.step (.changed p v) =
      some ((d.setValue p v).notifyParameterChanged topics .other p).ws := by
    rw [hws]
    rfl
  have hquiet : Quiet { d.mqtt with value := Function.update d.mqtt.value p v.1 } := h.quiet
  refine ⟨h.subscribed.of_eq hsubs ?_, h.agrees.step h.carried hreaches hstep,
    h.carried.step hstep, ?_, ?_⟩
  · rw [hmqtt, processNotification_state]
    rfl
  · rw [hmqtt]
    exact mirrors_changed hdistinct hroute h.mirrors p v.1
  · rw [hmqtt]
    exact hquiet.processNotification w.param p

omit hdistinct hroute in
theorem Inv.withWs (h : Inv topics d) {e : WsBusEvent w} {ws : WsBus w}
    (hreaches : d.ws.Reaches e) (hstep : d.ws.step e = some ws) (hvalue : ws.value = d.ws.value) :
    Inv topics (d.withWs ws hvalue) :=
  ⟨h.subscribed, h.agrees.step h.carried hreaches hstep, h.carried.step hstep, h.mirrors, h.quiet⟩

omit hdistinct hroute in
theorem Inv.withMqtt (h : Inv topics d) {mqtt : MqttServer P C'}
    (hmute : MqttServer.Mute d.mqtt mqtt) {subscriptions : List BusParty}
    (hsubs : subscriptions =
      if mqtt.state = .uninitialized then [BusParty.ws] else [.ws, .mqtt])
    (hstate : mqtt.state = .uninitialized → d.mqtt.state = .uninitialized) :
    Inv topics { d.withMqtt mqtt hmute.value_eq with subscriptions } :=
  ⟨hsubs, h.agrees, h.carried, h.mirrors.mute hmute hstate, h.quiet.mute hmute⟩

theorem Inv.step {t : Device w C'} {e : DeviceEvent w} (h : Inv topics d)
    (hreaches : d.Reaches topics e) (ht : d.step topics e = some t) : Inv topics t := by
  cases e with
  | packet client packet =>
      cases ht
      exact h.packet hdistinct hroute client packet
  | message topic payload =>
      rw [Device.step] at ht
      split at ht
      · cases ht
      · rename_i hinit
        cases ht
        exact h.message hdistinct hroute hinit _ payload hreaches
  | changed p v =>
      cases ht
      exact h.changed hdistinct hroute p v hreaches
  | sendNotification type =>
      cases ht
      exact h.withWs (e := .sendNotification type) trivial rfl _
  | connect client =>
      obtain ⟨ws, hws, hstep, rfl⟩ := Option.pmap_eq_some_iff.mp ht
      exact h.withWs (e := .connect client) trivial hstep _
  | disconnect client =>
      obtain ⟨ws, hws, hstep, rfl⟩ := Option.pmap_eq_some_iff.mp ht
      exact h.withWs (e := .disconnect client) trivial hstep _
  | mqttBegin change attempt connecting =>
      have hsubs := h.subscribed.step ht
      have hmute := MqttServer.begin_mute topics change attempt connecting d.mqtt
      rw [Device.step] at ht
      split at ht
      · rename_i hstate
        cases ht
        exact h.withMqtt hmute hsubs fun _ => hstate
      · rename_i hstate
        cases ht
        have hsame : d.mqtt.begin topics change attempt connecting = d.mqtt := by
          rw [MqttServer.begin, if_pos hstate]
        exact h.withMqtt hmute hsubs fun hnot => absurd (hsame ▸ hnot) hstate
  | mqttHandleConnection poll =>
      have hsubs := h.subscribed.step ht
      cases ht
      refine h.withMqtt (MqttServer.handleConnection_mute topics poll d.mqtt) hsubs ?_
      intro hnot
      by_contra hstate
      exact absurd hnot (MqttServer.handleConnection_initialized poll hstate)
  | mqttClient callback =>
      have hsubs := h.subscribed.step ht
      rw [Device.step] at ht
      split at ht
      · cases ht
      · rename_i hstate
        cases ht
        have hafter : (d.mqtt.onClient topics callback).state ≠ .uninitialized :=
          MqttServer.client_initialized [callback] d.mqtt hstate
        exact h.withMqtt (MqttServer.onClient_mute topics d.mqtt callback) hsubs
          fun hnot => absurd hnot hafter

end Steps

theorem not_agrees_step {t : Device w C'} {e : DeviceEvent w} (h : Inv topics d)
    (hbad : ¬ d.Reaches topics e) (ht : d.step topics e = some t) : ¬ t.ws.Agrees := by
  cases e with
  | message topic payload =>
      rw [Device.step] at ht
      split at ht
      · cases ht
      · cases ht
        obtain ⟨-, -, hws⟩ := processMessage_spec topics h.subscribed
          (topics.topicPrefix.strip topic) payload
        intro hagrees
        refine hbad ?_
        intro x hx
        rcases hws with ⟨hnone, -⟩ | ⟨x', hx', hchanged⟩
        · rw [hnone] at hx
          cases hx
        · rw [hx] at hx'
          cases hx'
          have hstep : d.ws.step (.changed x.1 x.2) =
              some (d.processMessage topics (topics.topicPrefix.strip topic) payload).ws := by
            rw [hchanged]
            rfl
          by_contra hleft
          exact WsBus.not_agrees_step h.carried hleft hstep hagrees
  | changed p v =>
      cases ht
      have hset : (d.setValue p v).Subscribed := h.subscribed
      obtain ⟨hws, -, -⟩ := notifyParameterChanged_spec topics hset .other p
      refine WsBus.not_agrees_step (e := .changed p v) h.carried hbad ?_
      rw [hws]
      rfl
  | packet | sendNotification | connect | disconnect | mqttBegin | mqttHandleConnection
  | mqttClient => exact absurd trivial hbad

end Device

end EspIot
