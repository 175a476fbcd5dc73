/-
# `EspIot.Bootstrap` — the device from power-up to READY and on

`Bootstrap` is one service loop, called every 20 ms by a timer, and what it does depends on the
state:

    UNINITIALIZED ──connect──▶ WIFI_CONNECT ──CONNECTED──▶ INITIALIZING ──begin──▶ READY

A change of state is the last thing a pass does, and it calls the subscribers.  A subscriber may
call `event_loop`, so that the next pass runs inside of it, before the other subscribers have
heard of the change; so may the handlers that a pass in READY calls.  `BootstrapFrame`s are the
calls that wait for another pass to return, the innermost first.

The servers are the calls that are made to them, in `calls`: what they do stands in the modules of
their own.  The QR codes that `_after_init` prints are left out, and so is `begin` a second time.
-/
import EspIot.Misc.EventTopic
import EspIot.Network.Wifi

namespace EspIot

open Lib

inductive BootstrapState
  | uninitialized
  | wifiConnect
  | initializing
  | ready
deriving DecidableEq, Repr

structure BootstrapConfig where
  mdnsName : String
  wifiMode : WifiMode
  wifiSsid : String
  wifiPassword : String
  wifiConnectionTimeout : UInt32
  mqttEnabled : Bool
  mqttHost : String
  mqttPort : UInt16
  mqttUser : String
  mqttPassword : String
deriving DecidableEq, Repr

inductive ServiceCall
  | wifiConnect (mode : WifiMode) (connectionInterval : UInt32)
  | wifiHandleConnection
  | otaSetHostname (name : String)
  | otaBegin
  | wsBegin
  | webBegin
  | mqttSetPrefix (mqttPrefix : String)
  | mqttBegin (host : String) (port : UInt16) (user password : String)
  | dnsStart (port : UInt16) (domain : String)
  | otaHandle
  | dnsProcessNextRequest
  | wsHandleConnection
  | mqttHandleConnection
deriving DecidableEq, Repr

/-- A call that waits for what it has called: a publication, or the rest of a pass in READY. -/
inductive BootstrapFrame (σ κ : Type*)
  | publishing (publication : Publication BootstrapState σ κ)
  | handling (rest : List ServiceCall)
deriving DecidableEq, Repr

/-- `Bootstrap` after `begin`, with the clock in `wifi`.  `published` and `heard` have the changes
of state and the calls of subscribers made for them, `lastLoop` the time of the last pass. -/
structure Bootstrap (σ κ : Type*) where
  config : BootstrapConfig
  wifi : WifiRun
  state : BootstrapState := .uninitialized
  dnsServer : Bool := false
  calls : List ServiceCall := []
  frames : List (BootstrapFrame σ κ) := []
  published : List BootstrapState := []
  heard : List (BootstrapState × Subscription σ κ) := []
  lastLoop : ℕ
deriving DecidableEq, Repr

/-- Time passes; the user calls `connect` of the manager; a pass of the service loop begins, with
what the driver answers to `handle_connection` and how long it takes; the innermost publication
calls a subscriber; the innermost pass in READY goes on; the innermost call returns. -/
inductive BootstrapEvent
  | elapse (millis : ℕ)
  | connect (mode : WifiMode) (connectionInterval : UInt32) (begins : ℕ)
  | serviceLoop (isAp linked : Bool) (checks begins : ℕ)
  | call (i : ℕ)
  | handle
  | ret
deriving DecidableEq, Repr

variable {σ κ : Type*}

namespace BootstrapConfig

/-- The calls of INITIALIZING, up to `_after_init`. -/
def initCalls (config : BootstrapConfig) : List ServiceCall :=
  [.otaSetHostname config.mdnsName, .otaBegin, .wsBegin, .webBegin] ++
    if config.mqttEnabled then
      [.mqttSetPrefix config.mdnsName,
        .mqttBegin config.mqttHost config.mqttPort config.mqttUser config.mqttPassword]
    else []

end BootstrapConfig

namespace Bootstrap

/-- The constructor and `begin`; `chipId` is the chip's number, 5000 the default argument of
`WifiManager`'s constructor. -/
def begin (config : BootstrapConfig) (chipId : String) (now : ℕ) : Bootstrap σ κ where
  config
  wifi := .start (.create config.wifiSsid config.wifiPassword chipId 5000) now
  lastLoop := now

variable (topic : EventTopic BootstrapState σ κ)

/-- `_change_state`, up to the calls of the subscribers. -/
def changeState (state : BootstrapState) (s : Bootstrap σ κ) : Bootstrap σ κ :=
  if s.state = state then s
  else
    { s with
      state
      frames := .publishing (topic.publish state) :: s.frames
      published := s.published ++ [state] }

/-- `_after_init`, without what it prints. -/
def afterInit (s : Bootstrap σ κ) : Bootstrap σ κ :=
  if s.wifi.manager.mode = .ap then
    { s with dnsServer := true, calls := s.calls ++ [.dnsStart 53 "*"] }
  else s

/-- `_wifi_manager->handle_connection()` -/
def handleWifi (isAp linked : Bool) (checks begins : ℕ) (s : Bootstrap σ κ) : Bootstrap σ κ :=
  { s with
    wifi := s.wifi.handleConnection isAp linked checks begins
    calls := s.calls ++ [.wifiHandleConnection] }

/-- What a pass in READY calls after the manager. -/
def readyCalls : List ServiceCall :=
  [.otaHandle, .dnsProcessNextRequest, .wsHandleConnection, .mqttHandleConnection]

/-- The cases of `_service_loop`; in READY the calls after the manager are left to the frame. -/
def serviceCase (isAp linked : Bool) (checks begins : ℕ) (s : Bootstrap σ κ) :
    BootstrapState → Bootstrap σ κ
  | .uninitialized =>
      changeState topic .wifiConnect
        { s with
          wifi := s.wifi.connect s.config.wifiMode s.config.wifiConnectionTimeout begins
          calls := s.calls ++ [.wifiConnect s.config.wifiMode s.config.wifiConnectionTimeout] }
  | .wifiConnect =>
      let s := s.handleWifi isAp linked checks begins
      if s.wifi.manager.state = .connected then s.changeState topic .initializing else s
  | .initializing =>
      changeState topic .ready (afterInit { s with calls := s.calls ++ s.config.initCalls })
  | .ready =>
      let s := s.handleWifi isAp linked checks begins
      { s with frames := .handling readyCalls :: s.frames }

def serviceLoop (isAp linked : Bool) (checks begins : ℕ) (s : Bootstrap σ κ) : Bootstrap σ κ :=
  serviceCase topic isAp linked checks begins { s with lastLoop := s.wifi.now } s.state

/-- A call of a pass in READY; `processNextRequest` only where there is a server. -/
def handleCall (call : ServiceCall) (s : Bootstrap σ κ) : Bootstrap σ κ :=
  if call = .dnsProcessNextRequest ∧ s.dnsServer = false then s
  else { s with calls := s.calls ++ [call] }

def step (s : Bootstrap σ κ) : BootstrapEvent → Option (Bootstrap σ κ)
  | .elapse millis => some { s with wifi := { s.wifi with now := s.wifi.now + millis } }
  | .connect mode connectionInterval begins =>
      some { s with wifi := s.wifi.connect mode connectionInterval begins }
  | .serviceLoop isAp linked checks begins => some (s.serviceLoop topic isAp linked checks begins)
  | .call i =>
      match s.frames with
      | .publishing p :: frames =>
          (p.call i).map fun q =>
            { s with
              frames := .publishing q :: frames
              heard := s.heard ++ (q.called.drop p.called.length).map (p.type, ·) }
      | _ => none
  | .handle =>
      match s.frames with
      | .handling (call :: rest) :: frames =>
          some (handleCall call { s with frames := .handling rest :: frames })
      | _ => none
  | .ret =>
      match s.frames with
      | .publishing p :: frames => if p.left = [] then some { s with frames } else none
      | .handling [] :: frames => some { s with frames }
      | _ => none

end Bootstrap

end EspIot
