/-
# `EspIot.Network.Mqtt` — the MQTT server between the client library and the bus

`MqttServer` owns a connection state with two time stamps, maps from topics to
commands and parameters, and reacts to calls from outside: the main loop
(`handle_connection`), the client library (`_on_connect`, `_on_disconnect`,
`_on_message`) and the notification bus (`_process_notification`).

Two things are split up so that a run can put other events between them.  The
clock moves before every reading: a call of `millis()` is given the
milliseconds that pass before it.  And `_process_message` is in two parts, up to
the notification of the other subscribers (`receive`) and the publication after
it (`finish`), since a subscriber may change parameters and notify in turn.

The registrations are made before the run and are a parameter of it.
-/
import EspIot.Lib.Clock
import EspIot.Lib.Run
import EspIot.Base.Parameter
import Mathlib.Data.List.AList
import Mathlib.Data.List.Sort

namespace EspIot

open Lib

inductive MqttServerState
  | uninitialized
  | connecting
  | connected
  | disconnected
deriving DecidableEq, Repr

def mqttConnectionTimeout : UInt32 := 15000

def mqttReconnectTimeout : UInt32 := 5000

/-! ## Registrations -/

/-- The keys of a `std::map` as it goes through them: `String::operator<` compares the bytes. -/
def CString.inOrder (keys : List CString) : List CString :=
  keys.insertionSort fun a b => a.chars ≤ b.chars

/-- The maps of an `MqttServer`, for parameters `P` and commands `C`. -/
structure MqttTopics (P C : Type*) where
  commands : AList fun _ : CString => C := ∅
  notifications : AList fun _ : CString => P := ∅
  parameters : AList fun _ : CString => CString × P := ∅
  parametersTopic : AList fun _ : P => CString := ∅
  topicPrefix : CString

/-- A call of one of the `register_` functions. -/
inductive Registration (P C : Type*)
  | command (topic : CString) (command : C)
  | notification (topic : CString) (parameter : P)
  | parameter (topicIn topicOut : CString) (parameter : P)

namespace MqttTopics

variable {P C : Type*} [DecidableEq P]

def registerCommand (topic : CString) (command : C) (t : MqttTopics P C) : MqttTopics P C :=
  { t with commands := t.commands.insert topic command }

def registerNotification (topic : CString) (parameter : P) (t : MqttTopics P C) :
    MqttTopics P C :=
  { t with
    notifications := t.notifications.insert topic parameter
    parametersTopic := t.parametersTopic.insert parameter topic }

def registerParameter (topicIn topicOut : CString) (parameter : P) (t : MqttTopics P C) :
    MqttTopics P C :=
  { t with
    parameters := t.parameters.insert topicIn (topicOut, parameter)
    parametersTopic := t.parametersTopic.insert parameter topicOut }

def register (t : MqttTopics P C) : Registration P C → MqttTopics P C
  | .command topic command => t.registerCommand topic command
  | .notification topic parameter => t.registerNotification topic parameter
  | .parameter topicIn topicOut parameter => t.registerParameter topicIn topicOut parameter

/-- A server with its prefix, after some registrations. -/
def setup (topicPrefix : CString) (registrations : List (Registration P C)) : MqttTopics P C :=
  registrations.foldl register { topicPrefix }

end MqttTopics

/-! ## The server -/

/-- What the server does to the world: to the client library, to a command or a parameter, to
the bus.  `skip` is the publication that `_publish_impl` drops. -/
inductive MqttEffect (P C : Type*)
  | subscribe (topic : CString)
  | invoke (command : C) (payload : List UInt8)
  | parse (parameter : P) (text : List UInt8)
  | notifyBus (parameter : P)
  | publish (topic : CString) (payload : List UInt8)
  | skip (topic : CString) (payload : List UInt8)
deriving DecidableEq

/-- The state of an `MqttServer` in its surroundings: the storage of the parameters, the clock, and
what the server has done.  `frames` are the messages between `receive` and `finish`, `owed` the
parameters another writer has changed and not yet notified the bus of. -/
structure MqttServer (P C : Type*) where
  state : MqttServerState := .uninitialized
  stateChangeTime : UInt32 := 0
  lastConnectionAttemptTime : UInt32 := 0
  value : P → List UInt8
  clock : ℕ := 0
  effects : List (MqttEffect P C) := []
  frames : List (CString × P) := []
  owed : List P := []
  /-- when the last `_connect()` started -/
  attempt : ℕ := 0
  /-- the attempts that were timed out: when they started and when they were aborted -/
  aborted : List (ℕ × ℕ) := []

/-- A callback of the client library, with the time that passes before each of its clock
readings. -/
inductive ClientCallback
  | connected (attempt change : ℕ)
  | disconnected (change : ℕ)

/-- What one call of `handle_connection` meets: the time that passes before each clock reading, the
callbacks that `_mqtt_client.connect()` and `disconnect(true)` make, the answer of `connected()`. -/
structure Poll where
  now : ℕ
  change : ℕ := 0
  attempt : ℕ := 0
  connecting : List ClientCallback := []
  clientConnected : Bool := false
  abort : ℕ := 0
  disconnecting : List ClientCallback := []

inductive MqttEvent (P : Type*)
  | begin (change attempt : ℕ) (connecting : List ClientCallback)
  | handleConnection (poll : Poll)
  | client (callback : ClientCallback)
  /-- `_on_message`, up to the notification of the bus -/
  | message (topic : CString) (payload : List UInt8) (index total : ℕ)
  /-- the rest of the innermost `_on_message` -/
  | finish
  /-- another writer changes a parameter -/
  | write (parameter : P) (value : List UInt8)
  /-- another sender notifies the bus -/
  | notify (parameter : P)

/-- The loop of `_on_message`: what is left of the topic behind the prefix. -/
def cutTopic : List UInt8 → List UInt8 → Option (List UInt8)
  | [], topic => some topic
  | _ :: _, [] => none
  | p :: ps, c :: topic => if c ≠ p then none else cutTopic ps topic

theorem cutTopic_append (p t : List UInt8) : cutTopic p (p ++ t) = some t := by
  induction p with
  | nil => rfl
  | cons c p ih => simpa [cutTopic] using ih

theorem cutTopic_some {p topic t : List UInt8} (h : cutTopic p topic = some t) :
    topic = p ++ t := by
  induction p generalizing topic with
  | nil =>
      cases h
      rfl
  | cons c p ih =>
      cases topic with
      | nil => cases h
      | cons d topic =>
          simp only [cutTopic] at h
          split at h
          · cases h
          · rename_i hd
            rw [not_not.mp hd, ih h]
            rfl

/-- `topic_str` of `_on_message` -/
def CString.strip (topicPrefix topic : CString) : CString :=
  match h : cutTopic topicPrefix.chars topic.chars with
  | some rest => ⟨rest, fun h0 => topic.noNul (by simp [cutTopic_some h, h0])⟩
  | none => topic

theorem CString.strip_append (p t : CString) : p.strip (p.append t) = t := by
  rw [CString.strip]
  split
  · rename_i rest h
    have hrest : some t.chars = some rest := (cutTopic_append p.chars t.chars).symm.trans h
    obtain ⟨chars, hnul⟩ := t
    cases hrest
    rfl
  · rename_i h
    rw [CString.append, cutTopic_append] at h
    cases h

namespace MqttServer

variable {P C : Type*}

/-! ### The connection -/

/-- `millis()`, called when `ticks` more milliseconds have passed. -/
def millis (ticks : ℕ) (s : MqttServer P C) : UInt32 × MqttServer P C :=
  (reading (s.clock + ticks), { s with clock := s.clock + ticks })

def changeState (state : MqttServerState) (ticks : ℕ) (s : MqttServer P C) : MqttServer P C :=
  let (now, s) := s.millis ticks
  { s with state, stateChangeTime := now }

/-- `_connect`, up to the call of the client library. -/
def connect (change attempt : ℕ) (s : MqttServer P C) : MqttServer P C :=
  let s := s.changeState .connecting change
  let s := { s with attempt := s.clock }
  let (now, s) := s.millis attempt
  { s with lastConnectionAttemptTime := now }

def onDisconnect (change : ℕ) (s : MqttServer P C) : MqttServer P C :=
  s.changeState .disconnected change

section
variable (topics : MqttTopics P C)

def subscribe (topic : CString) (s : MqttServer P C) : MqttServer P C :=
  { s with effects := s.effects ++ [.subscribe (topics.topicPrefix.append topic)] }

def onConnect (attempt change : ℕ) (s : MqttServer P C) : MqttServer P C :=
  let commands := CString.inOrder topics.commands.keys
  let s := commands.foldl (fun s topic => s.subscribe topics topic) s
  let parameters := CString.inOrder topics.parameters.keys
  let s := parameters.foldl (fun s topic => s.subscribe topics topic) s
  let (now, s) := s.millis attempt
  { s with lastConnectionAttemptTime := now }.changeState .connected change

def onClient (s : MqttServer P C) : ClientCallback → MqttServer P C
  | .connected attempt change => s.onConnect topics attempt change
  | .disconnected change => s.onDisconnect change

/-- `begin`.  The second call returns at once. -/
def begin (change attempt : ℕ) (connecting : List ClientCallback) (s : MqttServer P C) :
    MqttServer P C :=
  if s.state ≠ .uninitialized then s
  else connecting.foldl (onClient topics) (s.connect change attempt)

/-- The first branch of `handle_connection`: a lost connection is tried again. -/
def reconnect (poll : Poll) (currentTime : UInt32) (s : MqttServer P C) : MqttServer P C :=
  if s.state = .disconnected ∧ currentTime - s.lastConnectionAttemptTime > mqttReconnectTimeout then
    poll.connecting.foldl (onClient topics) (s.connect poll.change poll.attempt)
  else s

/-- The second branch: an attempt that takes too long is aborted. -/
def timeout (poll : Poll) (currentTime : UInt32) (s : MqttServer P C) : MqttServer P C :=
  if s.state = .connecting ∧ poll.clientConnected = false ∧
      currentTime - s.stateChangeTime > mqttConnectionTimeout then
    let s := s.changeState .disconnected poll.abort
    poll.disconnecting.foldl (onClient topics)
      { s with aborted := s.aborted ++ [(s.attempt, s.clock)] }
  else s

/-- `handle_connection`.  Both branches use the one reading made at its start. -/
def handleConnection (poll : Poll) (s : MqttServer P C) : MqttServer P C :=
  if s.state = .uninitialized then s
  else
    let (currentTime, s) := s.millis poll.now
    (s.reconnect topics poll currentTime).timeout topics poll currentTime

/-! ### Messages and notifications -/

def publish (topic : CString) (payload : List UInt8) (s : MqttServer P C) : MqttServer P C :=
  let topic := topics.topicPrefix.append topic
  { s with
    effects := s.effects ++
      [if s.state ≠ .connected then .skip topic payload else .publish topic payload] }

variable [DecidableEq P] (param : P → AbstractParameter)

/-- `_process_message`, with nothing else happening before it returns. -/
def processMessage (topic : CString) (payload : List UInt8) (s : MqttServer P C) :
    MqttServer P C :=
  match topics.commands.lookup topic with
  | some command => { s with effects := s.effects ++ [.invoke command payload] }
  | none =>
      match topics.parameters.lookup topic with
      | some (topicOut, p) =>
          match (param p).parse payload (s.value p) with
          | some v =>
              let s : MqttServer P C := { s with
                value := Function.update s.value p v
                effects := s.effects ++ [.parse p payload, .notifyBus p] }
              s.publish topics topicOut ((param p).toString (s.value p))
          | none => { s with effects := s.effects ++ [.parse p payload] }
      | none => s

/-- `_on_message`.  It reads neither `index` nor `total`. -/
def onMessage (topic : CString) (payload : List UInt8) (_index _total : ℕ)
    (s : MqttServer P C) : MqttServer P C :=
  s.processMessage topics param (topics.topicPrefix.strip topic) payload

/-- `_process_message` up to `notify_parameter_changed`. -/
def receive (topic : CString) (payload : List UInt8) (s : MqttServer P C) : MqttServer P C :=
  match topics.commands.lookup topic with
  | some command => { s with effects := s.effects ++ [.invoke command payload] }
  | none =>
      match topics.parameters.lookup topic with
      | some (topicOut, p) =>
          match (param p).parse payload (s.value p) with
          | some v =>
              { s with
                value := Function.update s.value p v
                effects := s.effects ++ [.parse p payload, .notifyBus p]
                frames := (topicOut, p) :: s.frames }
          | none => { s with effects := s.effects ++ [.parse p payload] }
      | none => s

/-- `_process_message` after it: the publication. -/
def finish (s : MqttServer P C) : Option (MqttServer P C) :=
  match s.frames with
  | [] => none
  | (topicOut, p) :: frames =>
      some ({ s with frames }.publish topics topicOut ((param p).toString (s.value p)))

theorem receive_finish (topic : CString) (payload : List UInt8) (s : MqttServer P C) :
    ((s.receive topics param topic payload).frames = s.frames ∧
      s.receive topics param topic payload = s.processMessage topics param topic payload) ∨
    (s.receive topics param topic payload).finish topics param =
      some (s.processMessage topics param topic payload) := by
  rw [receive, processMessage]
  cases topics.commands.lookup topic with
  | some command => exact .inl ⟨rfl, rfl⟩
  | none =>
      cases topics.parameters.lookup topic with
      | none => exact .inl ⟨rfl, rfl⟩
      | some target =>
          obtain ⟨topicOut, p⟩ := target
          dsimp only
          cases (param p).parse payload (s.value p) with
          | none => exact .inl ⟨rfl, rfl⟩
          | some v => exact .inr rfl

/-- `_process_notification` for another sender, subscribed to the bus by `begin`. -/
def processNotification (p : P) (s : MqttServer P C) : MqttServer P C :=
  if s.state = .uninitialized then s
  else
    match topics.parametersTopic.lookup p with
    | none => s
    | some topic => s.publish topics topic ((param p).toString (s.value p))

def step (s : MqttServer P C) : MqttEvent P → Option (MqttServer P C)
  | .begin change attempt connecting => some (s.begin topics change attempt connecting)
  | .handleConnection poll => some (s.handleConnection topics poll)
  | .client callback =>
      if s.state = .uninitialized then none else some (s.onClient topics callback)
  | .message topic payload _index _total =>
      if s.state = .uninitialized then none
      else some (s.receive topics param (topics.topicPrefix.strip topic) payload)
  | .finish => s.finish topics param
  | .write p v =>
      some { s with value := Function.update s.value p v, owed := p :: s.owed }
  | .notify p => some ({ s with owed := s.owed.erase p }.processNotification topics param p)

end

end MqttServer

end EspIot
