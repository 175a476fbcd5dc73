/-
# `EspIot.Network.WsNotify` — parameters, packets and notifications of the WebSocket server

`handle_packet_data` answers a packet by its type.  A write that is accepted goes
out to the clients twice over: through the notification bus, where the server
skips its own notifications, and by `_notify_clients`, which skips the client
that wrote.  What another sender changes arrives from the bus alone, and then
`_notify_clients` is called with the client id `-1`.

A packet type is a byte.  The registrations are made before the run and are a
parameter of it, with the assumptions they are made under: `WsSetup`.  Beside the
server runs what its clients were told, `told`: the data of the last packet a
client was sent, or sent itself and got an `OK` for, of a type that stands for a
parameter.
-/
import EspIot.Base.Parameter
import EspIot.Lib.Run
import EspIot.Network.Protocol
import Mathlib.Data.List.AList

namespace EspIot

open Lib

/-! ## Registrations -/

/-- The maps of a `WebSocketServer`, for parameters `P` and commands `C`. -/
structure WsTypes (P C : Type*) where
  commands : AList fun _ : UInt8 => C := ∅
  dataRequests : AList fun _ : UInt8 => P := ∅
  notifications : AList fun _ : UInt8 => P := ∅
  parameters : AList fun _ : UInt8 => P := ∅
  parametersPacketType : AList fun _ : P => UInt8 := ∅

/-- A call of one of the `register_` functions. -/
inductive WsRegistration (P C : Type*)
  | command (type : UInt8) (command : C)
  | dataRequest (type : UInt8) (parameter : P)
  | notification (type : UInt8) (parameter : P)
  | parameter (type : UInt8) (parameter : P)

def WsRegistration.type {P C : Type*} : WsRegistration P C → UInt8
  | command type _ | dataRequest type _ | notification type _ | parameter type _ => type

namespace WsTypes

variable {P C : Type*}

/-- The parameter that a packet type stands for, as `send_notification` looks it up. -/
def parameterOf (t : WsTypes P C) (type : UInt8) : Option P :=
  (t.notifications.lookup type).or (t.parameters.lookup type)

variable [DecidableEq P]

def registerCommand (type : UInt8) (command : C) (t : WsTypes P C) : WsTypes P C :=
  { t with commands := t.commands.insert type command }

def registerDataRequest (type : UInt8) (parameter : P) (t : WsTypes P C) : WsTypes P C :=
  { t with dataRequests := t.dataRequests.insert type parameter }

def registerNotification (type : UInt8) (parameter : P) (t : WsTypes P C) : WsTypes P C :=
  { t with
    notifications := t.notifications.insert type parameter
    parametersPacketType := t.parametersPacketType.insert parameter type }

def registerParameter (type : UInt8) (parameter : P) (t : WsTypes P C) : WsTypes P C :=
  { t with
    parameters := t.parameters.insert type parameter
    parametersPacketType := t.parametersPacketType.insert parameter type }

def register (t : WsTypes P C) : WsRegistration P C → WsTypes P C
  | .command type command => t.registerCommand type command
  | .dataRequest type parameter => t.registerDataRequest type parameter
  | .notification type parameter => t.registerNotification type parameter
  | .parameter type parameter => t.registerParameter type parameter

def setup (registrations : List (WsRegistration P C)) : WsTypes P C :=
  registrations.foldl register {}

end WsTypes

/-- What a server is set up with: its parameters, shorter than 64 KiB, and the registrations in the
order they were made, each packet type once. -/
structure WsSetup (P C : Type*) where
  param : P → AbstractParameter
  short : ∀ p, (param p).size < 65536
  registrations : List (WsRegistration P C)
  once : (registrations.map WsRegistration.type).Nodup

namespace WsSetup

variable {P C : Type*} [DecidableEq P]

def types (w : WsSetup P C) : WsTypes P C := .setup w.registrations

end WsSetup

/-! ## The server -/

/-- A packet that `_notify_clients` sends. -/
structure WsNotification where
  client : UInt32
  header : PacketHeader
  data : List UInt8

/-- The server among its clients and parameters: what the parameters store, who is connected, what
was sent and invoked.  `counted` is what the server's own count is assumed to be. -/
structure WsBus {P C : Type*} (w : WsSetup P C) where
  value : (p : P) → (w.param p).Value
  clients : List UInt32 := []
  clientCount : UInt32 := 0
  sent : List WsNotification := []
  invoked : List (C × List UInt8) := []
  told : UInt32 → P → Option (List UInt8) := fun _ _ => none
  nodup : clients.Nodup
  counted : clientCount.toNat = clients.length

/-- A packet of a client that `handle_packet_data` is called for; another sender that changes a
parameter and notifies the bus; a call of `send_notification`; the clients that come and go. -/
inductive WsBusEvent {P C : Type*} (w : WsSetup P C)
  | packet (client : UInt32) (packet : Packet)
  | changed (p : P) (v : (w.param p).Value)
  | sendNotification (type : UInt8)
  | connect (client : UInt32)
  | disconnect (client : UInt32)

namespace WsBus

variable {P C : Type*} [DecidableEq P] {w : WsSetup P C}

/-- A server that nobody has connected to. -/
def start (value : (p : P) → (w.param p).Value) : WsBus w where
  value
  nodup := List.nodup_nil
  counted := rfl

/-- The bytes that `param->get_value()` and the `uint16_t` of `param->size()` make. -/
def payload (s : WsBus w) (p : P) : List UInt8 :=
  (s.value p).1.take (UInt16.ofNat (w.param p).size).toNat

/-- Clients are told data under a packet type. -/
def tell (s : WsBus w) (clients : List UInt32) (type : UInt8) (data : List UInt8) : WsBus w :=
  { s with
    told := fun client p =>
      if client ∈ clients ∧ w.types.parameterOf type = some p then some data
      else s.told client p }

/-- `_notify_clients`, for the data of a parameter. -/
def notifyClients (s : WsBus w) (senderId : UInt32) (type : UInt8) (p : P) : WsBus w :=
  if s.clientCount = 0 then s
  else
    let header : PacketHeader :=
      { signature := packetSignature, requestId := 0, type,
        size := UInt16.ofNat (w.param p).size }
    let receivers := s.clients.filter (senderId ≠ ·)
    let frames : List WsNotification :=
      receivers.map fun client => { client, header, data := s.payload p }
    { s with sent := s.sent ++ frames }.tell receivers type (s.payload p)

/-- `_process_notification`; `self` says that the sender is this server. -/
def processNotification (s : WsBus w) (self : Bool) (p : P) : WsBus w :=
  if self then s
  else
    match w.types.parametersPacketType.lookup p with
    | none => s
    | some type => s.notifyClients 0xFFFFFFFF type p

/-- `notify_parameter_changed`: of the subscribers, this server is the one its clients depend
on. -/
def notifyParameterChanged (s : WsBus w) (self : Bool) (p : P) : WsBus w :=
  s.processNotification self p

def setValue (s : WsBus w) (p : P) (v : (w.param p).Value) : WsBus w :=
  { s with value := Function.update s.value p v }

def handlePacketData (s : WsBus w) (clientId : UInt32) (packet : Packet) : Response × WsBus w :=
  match w.types.commands.lookup packet.header.type with
  | some command =>
      (.code .ok, { s with invoked := s.invoked ++ [(command, packet.body)] })
  | none =>
      match w.types.dataRequests.lookup packet.header.type with
      | some p => (.binary (s.payload p), s)
      | none =>
          match w.types.parameters.lookup packet.header.type with
          | some p =>
              match (w.param p).write packet.body (s.value p) with
              | some v =>
                  let s := (s.setValue p v).notifyParameterChanged true p
                  (.code .ok, s.notifyClients clientId packet.header.type p)
              | none => (.code .badRequest, s)
          | none => (.code .badCommand, s)

def sendNotification (s : WsBus w) (type : UInt8) : WsBus w :=
  match w.types.parameterOf type with
  | none => s
  | some p => s.notifyClients 0xFFFFFFFF type p

/-- The client gets the response: with an `OK`, it knows what it wrote. -/
def respond (s : WsBus w) (client : UInt32) (packet : Packet) (response : Response) : WsBus w :=
  if response = .code .ok then s.tell [client] packet.header.type packet.body else s

theorem connected_counted {clients : List UInt32} {clientCount : UInt32}
    (hcount : clientCount.toNat = clients.length) (hroom : clients.length + 1 < 4294967296)
    (client : UInt32) : (clientCount + 1).toNat = (clients ++ [client]).length := by
  rw [UInt32.toNat_add, hcount, List.length_append, List.length_singleton]
  exact Nat.mod_eq_of_lt hroom

theorem disconnected_counted {clients : List UInt32} {clientCount client : UInt32}
    (hcount : clientCount.toNat = clients.length) (hmem : client ∈ clients) :
    (if clientCount > 0 then clientCount - 1 else clientCount).toNat =
      (clients.erase client).length := by
  have hpos : 0 < clients.length := List.length_pos_of_mem hmem
  have hgt : clientCount > 0 := by
    rw [gt_iff_lt, UInt32.lt_iff_toNat_lt, hcount]
    exact hpos
  have hone : (1 : UInt32) ≤ clientCount := by
    rw [UInt32.le_iff_toNat_le, hcount]
    exact hpos
  rw [if_pos hgt, UInt32.toNat_sub_of_le _ _ hone, hcount, List.length_erase_of_mem hmem]
  rfl

def step (s : WsBus w) : WsBusEvent w → Option (WsBus w)
  | .packet client packet =>
      let (response, s) := s.handlePacketData client packet
      some (s.respond client packet response)
  | .changed p v => some ((s.setValue p v).notifyParameterChanged false p)
  | .sendNotification type => some (s.sendNotification type)
  | .connect client =>
      if h : client ∉ s.clients ∧ s.clients.length + 1 < 4294967296 then
        some { s with
          clients := s.clients ++ [client]
          clientCount := s.clientCount + 1
          told := Function.update s.told client fun _ => none
          nodup := List.nodup_append.mpr
            ⟨s.nodup, List.nodup_singleton client, fun a ha b hb => by
              rw [List.mem_singleton.mp hb]
              exact fun heq => h.1 (heq ▸ ha)⟩
          counted := connected_counted s.counted h.2 client }
      else none
  | .disconnect client =>
      if h : client ∈ s.clients then
        some { s with
          clients := s.clients.erase client
          clientCount := if s.clientCount > 0 then s.clientCount - 1 else s.clientCount
          nodup := s.nodup.erase client
          counted := disconnected_counted s.counted h }
      else none

end WsBus

end EspIot
