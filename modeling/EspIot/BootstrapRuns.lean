/-
# `EspIot.BootstrapRuns` — every run of the service loop from power-up on

`Started` tells the whole history of a device from its state: what has been published, and every
call the service loop has made.

    UNINITIALIZED   nothing
    WIFI_CONNECT    connect, handle_connection …
    INITIALIZING    the same, with at least one handle_connection
    READY           … then the beginnings, each once, then calls of what has begun only

It holds of every run, whatever the subscribers and the handlers do in between, and a state that
has been left does not come back, whatever becomes of the link.
-/
import EspIot.Bootstrap

namespace EspIot

open Lib

variable {σ κ : Type*}

namespace BootstrapState

/-- The states published on the way to a state. -/
def path : BootstrapState → List BootstrapState
  | .uninitialized => []
  | .wifiConnect => [.wifiConnect]
  | .initializing => [.wifiConnect, .initializing]
  | .ready => [.wifiConnect, .initializing, .ready]

def rank (s : BootstrapState) : ℕ := s.path.length

end BootstrapState

namespace ServiceCall

/-- A call to something that has begun, where `dns` says that a DNS server has. -/
def Serves (dns : Bool) : ServiceCall → Prop
  | .wifiHandleConnection | .otaHandle | .wsHandleConnection | .mqttHandleConnection => True
  | .dnsProcessNextRequest => dns = true
  | _ => False

end ServiceCall

namespace BootstrapConfig

/-- `connect`, then `handle_connection` a number of times. -/
def connectCalls (config : BootstrapConfig) (n : ℕ) : List ServiceCall :=
  .wifiConnect config.wifiMode config.wifiConnectionTimeout ::
    List.replicate n .wifiHandleConnection

def startCalls (config : BootstrapConfig) (dns : Bool) : List ServiceCall :=
  config.initCalls ++ if dns then [.dnsStart 53 "*"] else []

theorem connectCalls_succ (config : BootstrapConfig) (n : ℕ) :
    config.connectCalls n ++ [.wifiHandleConnection] = config.connectCalls (n + 1) := by
  rw [connectCalls, connectCalls, List.cons_append, List.replicate_succ']

end BootstrapConfig

namespace Bootstrap

def CallsInOrder (s : Bootstrap σ κ) : BootstrapState → Prop
  | .uninitialized => s.calls = []
  | .wifiConnect => ∃ n, s.calls = s.config.connectCalls n
  | .initializing => ∃ n, s.calls = s.config.connectCalls (n + 1)
  | .ready => ∃ n served, s.calls =
      s.config.connectCalls (n + 1) ++ s.config.startCalls s.dnsServer ++ served ∧
        ∀ call ∈ served, call.Serves s.dnsServer

/-- **The history of a device is the one its state tells.** -/
structure Started (config : BootstrapConfig) (s : Bootstrap σ κ) : Prop where
  config_eq : s.config = config
  published : s.published = s.state.path
  calls : s.CallsInOrder s.state
  dns : s.dnsServer = true → s.state = .ready

/-- What is left of a pass in READY calls what has begun. -/
def HandlesReady (s : Bootstrap σ κ) : Prop :=
  ∀ rest, .handling rest ∈ s.frames → s.state = .ready ∧ rest <:+ readyCalls

structure Inv (config : BootstrapConfig) (s : Bootstrap σ κ) : Prop where
  started : s.Started config
  frames : s.HandlesReady

variable {topic : EventTopic BootstrapState σ κ} {config : BootstrapConfig}

/-! ## What a pass does -/

def enter (topic : EventTopic BootstrapState σ κ) (state : BootstrapState) (s : Bootstrap σ κ) :
    Bootstrap σ κ :=
  { s with
    state
    frames := .publishing (topic.publish state) :: s.frames
    published := s.published ++ [state] }

theorem changeState_of_ne {s : Bootstrap σ κ} {state : BootstrapState} (h : s.state ≠ state) :
    s.changeState topic state = s.enter topic state := by
  rw [changeState, if_neg h]
  rfl

/-- A pass that has called the manager in its clock. -/
def handled (isAp linked : Bool) (checks begins : ℕ) (s : Bootstrap σ κ) : Bootstrap σ κ :=
  { s with lastLoop := s.wifi.now }.handleWifi isAp linked checks begins

theorem serviceLoop_eq {s : Bootstrap σ κ} {state : BootstrapState} (h : s.state = state)
    (isAp linked : Bool) (checks begins : ℕ) :
    s.serviceLoop topic isAp linked checks begins =
      serviceCase topic isAp linked checks begins { s with lastLoop := s.wifi.now } state :=
  congrArg (serviceCase topic isAp linked checks begins { s with lastLoop := s.wifi.now }) h

theorem serviceLoop_uninitialized {s : Bootstrap σ κ} (h : s.state = .uninitialized)
    (isAp linked : Bool) (checks begins : ℕ) :
    s.serviceLoop topic isAp linked checks begins =
      enter topic .wifiConnect { s with
        lastLoop := s.wifi.now
        wifi := s.wifi.connect s.config.wifiMode s.config.wifiConnectionTimeout begins
        calls := s.calls ++ [.wifiConnect s.config.wifiMode s.config.wifiConnectionTimeout] } := by
  have hpass : s.serviceLoop topic isAp linked checks begins =
      changeState topic .wifiConnect { s with
        lastLoop := s.wifi.now
        wifi := s.wifi.connect s.config.wifiMode s.config.wifiConnectionTimeout begins
        calls := s.calls ++ [.wifiConnect s.config.wifiMode s.config.wifiConnectionTimeout] } := by
    exact serviceLoop_eq h isAp linked checks begins
  rw [hpass]
  refine changeState_of_ne ?_
  show s.state ≠ .wifiConnect
  rw [h]
  nofun

theorem serviceLoop_wifiConnect {s : Bootstrap σ κ} (h : s.state = .wifiConnect)
    (isAp linked : Bool) (checks begins : ℕ) :
    s.serviceLoop topic isAp linked checks begins =
      if (s.wifi.handleConnection isAp linked checks begins).manager.state = .connected then
        (s.handled isAp linked checks begins).enter topic .initializing
      else s.handled isAp linked checks begins := by
  have hpass : s.serviceLoop topic isAp linked checks begins =
      if (s.wifi.handleConnection isAp linked checks begins).manager.state = .connected then
        (s.handled isAp linked checks begins).changeState topic .initializing
      else s.handled isAp linked checks begins := by
    exact serviceLoop_eq h isAp linked checks begins
  rw [hpass, changeState_of_ne]
  show s.state ≠ .initializing
  rw [h]
  nofun

/-- A pass in INITIALIZING makes the calls of the state, with a DNS server where the manager is an
access point. -/
theorem serviceLoop_initializing {s : Bootstrap σ κ} (h : s.state = .initializing)
    (isAp linked : Bool) (checks begins : ℕ) :
    s.serviceLoop topic isAp linked checks begins =
      enter topic .ready { s with
        lastLoop := s.wifi.now
        dnsServer := s.dnsServer || decide (s.wifi.manager.mode = .ap)
        calls := s.calls ++ s.config.startCalls (decide (s.wifi.manager.mode = .ap)) } := by
  have hpass : s.serviceLoop topic isAp linked checks begins =
      changeState topic .ready (afterInit { s with
        lastLoop := s.wifi.now
        calls := s.calls ++ s.config.initCalls }) := by
    exact serviceLoop_eq h isAp linked checks begins
  rw [hpass, changeState_of_ne]
  · congr 1
    rw [afterInit]
    split
    · rename_i hap
      have hap' : decide (s.wifi.manager.mode = .ap) = true := decide_eq_true hap
      rw [hap', BootstrapConfig.startCalls, if_pos rfl, ← List.append_assoc, Bool.or_true]
    · rename_i hap
      have hap' : decide (s.wifi.manager.mode = .ap) = false := decide_eq_false hap
      rw [hap', BootstrapConfig.startCalls, if_neg (by nofun), List.append_nil, Bool.or_false]
  · rw [afterInit]
    split
    · show s.state ≠ .ready
      rw [h]
      nofun
    · show s.state ≠ .ready
      rw [h]
      nofun

theorem serviceLoop_ready {s : Bootstrap σ κ} (h : s.state = .ready) (isAp linked : Bool)
    (checks begins : ℕ) :
    s.serviceLoop topic isAp linked checks begins =
      { s.handled isAp linked checks begins with frames := .handling readyCalls :: s.frames } := by
  exact serviceLoop_eq h isAp linked checks begins

/-! ## The history -/

theorem Started.dnsServer_eq {s : Bootstrap σ κ} (h : s.Started config) (hne : s.state ≠ .ready) :
    s.dnsServer = false := by
  cases hd : s.dnsServer with
  | true => exact absurd (h.dns hd) hne
  | false => rfl

theorem Started.serviceLoop {s : Bootstrap σ κ} (h : s.Started config) (isAp linked : Bool)
    (checks begins : ℕ) : (s.serviceLoop topic isAp linked checks begins).Started config := by
  have hcalls := h.calls
  cases hstate : s.state with
  | uninitialized =>
      rw [hstate] at hcalls
      rw [serviceLoop_uninitialized hstate]
      refine ⟨h.config_eq, ?_, ⟨0, ?_⟩, ?_⟩
      · show s.published ++ _ = _
        rw [h.published, hstate]
        rfl
      · show s.calls ++ _ = _
        rw [hcalls]
        rfl
      · intro hd
        change s.dnsServer = true at hd
        rw [h.dnsServer_eq (by rw [hstate]; nofun)] at hd
        cases hd
  | wifiConnect =>
      rw [hstate] at hcalls
      obtain ⟨n, hcalls⟩ := hcalls
      have hdns := h.dnsServer_eq (by rw [hstate]; nofun)
      have hhandled : s.calls ++ [.wifiHandleConnection] = s.config.connectCalls (n + 1) := by
        rw [hcalls, BootstrapConfig.connectCalls_succ]
      rw [serviceLoop_wifiConnect hstate]
      split
      · refine ⟨h.config_eq, ?_, ⟨n, hhandled⟩, ?_⟩
        · show s.published ++ _ = _
          rw [h.published, hstate]
          rfl
        · intro hd
          change s.dnsServer = true at hd
          rw [hdns] at hd
          cases hd
      · refine ⟨h.config_eq, h.published, ?_, h.dns⟩
        show (s.handled isAp linked checks begins).CallsInOrder s.state
        rw [hstate]
        exact ⟨n + 1, hhandled⟩
  | initializing =>
      rw [hstate] at hcalls
      obtain ⟨n, hcalls⟩ := hcalls
      have hdns := h.dnsServer_eq (by rw [hstate]; nofun)
      rw [serviceLoop_initializing hstate, hdns, Bool.false_or]
      refine ⟨h.config_eq, ?_, ⟨n, [], ?_, by nofun⟩, fun _ => rfl⟩
      · show s.published ++ _ = _
        rw [h.published, hstate]
        rfl
      · show s.calls ++ _ = _
        rw [hcalls, List.append_nil]
        rfl
  | ready =>
      rw [hstate] at hcalls
      obtain ⟨n, served, hcalls, hserved⟩ := hcalls
      rw [serviceLoop_ready hstate]
      refine ⟨h.config_eq, h.published, ?_, h.dns⟩
      show CallsInOrder _ s.state
      rw [hstate]
      refine ⟨n, served ++ [.wifiHandleConnection], ?_, ?_⟩
      · show s.calls ++ _ = _
        rw [hcalls, List.append_assoc]
        rfl
      · intro call hcall
        rcases List.mem_append.mp hcall with hold | hnew
        · exact hserved call hold
        · rw [List.mem_singleton.mp hnew]
          trivial

theorem HandlesReady.serviceLoop {s : Bootstrap σ κ} (h : s.HandlesReady) (isAp linked : Bool)
    (checks begins : ℕ) : (s.serviceLoop topic isAp linked checks begins).HandlesReady := by
  have hnot : s.state ≠ .ready → ∀ rest, .handling rest ∉ s.frames :=
    fun hne rest hrest => hne (h rest hrest).1
  cases hstate : s.state with
  | uninitialized =>
      rw [serviceLoop_uninitialized hstate]
      intro rest hrest
      rcases List.mem_cons.mp hrest with heq | hrest
      · cases heq
      · exact absurd hrest (hnot (by rw [hstate]; nofun) rest)
  | wifiConnect =>
      rw [serviceLoop_wifiConnect hstate]
      split
      · intro rest hrest
        rcases List.mem_cons.mp hrest with heq | hrest
        · cases heq
        · exact absurd hrest (hnot (by rw [hstate]; nofun) rest)
      · exact h
  | initializing =>
      rw [serviceLoop_initializing hstate]
      intro rest hrest
      rcases List.mem_cons.mp hrest with heq | hrest
      · cases heq
      · exact absurd hrest (hnot (by rw [hstate]; nofun) rest)
  | ready =>
      rw [serviceLoop_ready hstate]
      intro rest hrest
      rcases List.mem_cons.mp hrest with heq | hrest
      · cases heq
        exact ⟨hstate, List.suffix_refl _⟩
      · exact h rest hrest

/-! ## The other steps -/

theorem step_call {s t : Bootstrap σ κ} {i : ℕ} (h : s.step topic (.call i) = some t) :
    ∃ p q frames, s.frames = .publishing p :: frames ∧ p.call i = some q ∧
      t = { s with
        frames := .publishing q :: frames
        heard := s.heard ++ (q.called.drop p.called.length).map (p.type, ·) } := by
  simp only [step] at h
  split at h
  · rename_i p frames hframes
    obtain ⟨q, hcall, rfl⟩ := Option.map_eq_some_iff.mp h
    exact ⟨p, q, frames, hframes, hcall, rfl⟩
  · cases h

theorem step_handle {s t : Bootstrap σ κ} (h : s.step topic .handle = some t) :
    ∃ call rest frames, s.frames = .handling (call :: rest) :: frames ∧
      t = handleCall call { s with frames := .handling rest :: frames } := by
  simp only [step] at h
  split at h
  · rename_i call rest frames hframes
    exact ⟨call, rest, frames, hframes, (Option.some.inj h).symm⟩
  · cases h

theorem step_ret {s t : Bootstrap σ κ} (h : s.step topic .ret = some t) :
    ∃ frame frames, s.frames = frame :: frames ∧ t = { s with frames } ∧
      ∀ p, frame = .publishing p → p.left = [] := by
  simp only [step] at h
  split at h
  · rename_i p frames hframes
    split at h
    · rename_i hleft
      refine ⟨_, frames, hframes, (Option.some.inj h).symm, ?_⟩
      intro p' heq
      cases heq
      exact hleft
    · cases h
  · rename_i frames hframes
    exact ⟨_, frames, hframes, (Option.some.inj h).symm, by nofun⟩
  · cases h

theorem Started.handleCall {s : Bootstrap σ κ} (h : s.Started config) (hready : s.state = .ready)
    {call : ServiceCall} (hcall : call ∈ readyCalls) : (s.handleCall call).Started config := by
  rw [Bootstrap.handleCall]
  split
  · exact h
  · rename_i hmade
    have hserves : call.Serves s.dnsServer := by
      rcases List.mem_cons.mp hcall with rfl | hcall
      · trivial
      rcases List.mem_cons.mp hcall with rfl | hcall
      · cases hd : s.dnsServer with
        | true => rfl
        | false => exact absurd ⟨rfl, hd⟩ hmade
      rcases List.mem_cons.mp hcall with rfl | hcall
      · trivial
      · rw [List.mem_singleton.mp hcall]
        trivial
    refine ⟨h.config_eq, h.published, ?_, h.dns⟩
    have hcalls := h.calls
    show CallsInOrder _ s.state
    rw [hready] at hcalls ⊢
    obtain ⟨n, served, hcalls, hserved⟩ := hcalls
    refine ⟨n, served ++ [call], ?_, ?_⟩
    · show s.calls ++ _ = _
      rw [hcalls, List.append_assoc]
    · intro call' hmem
      rcases List.mem_append.mp hmem with hold | hnew
      · exact hserved call' hold
      · rw [List.mem_singleton.mp hnew]
        exact hserves

theorem Inv.step {s t : Bootstrap σ κ} (h : Inv config s) {e : BootstrapEvent}
    (ht : s.step topic e = some t) : Inv config t := by
  obtain ⟨hstarted, hframes⟩ := h
  cases e with
  | elapse millis =>
      cases ht
      exact ⟨⟨hstarted.config_eq, hstarted.published, hstarted.calls, hstarted.dns⟩, hframes⟩
  | connect mode connectionInterval begins =>
      cases ht
      exact ⟨⟨hstarted.config_eq, hstarted.published, hstarted.calls, hstarted.dns⟩, hframes⟩
  | serviceLoop isAp linked checks begins =>
      cases ht
      exact ⟨hstarted.serviceLoop isAp linked checks begins,
        hframes.serviceLoop isAp linked checks begins⟩
  | call i =>
      obtain ⟨p, q, frames, heq, -, rfl⟩ := step_call ht
      refine ⟨⟨hstarted.config_eq, hstarted.published, hstarted.calls, hstarted.dns⟩, ?_⟩
      intro rest hrest
      rcases List.mem_cons.mp hrest with h | hrest
      · cases h
      · exact hframes rest (heq ▸ List.mem_cons_of_mem _ hrest)
  | handle =>
      obtain ⟨call, rest, frames, heq, rfl⟩ := step_handle ht
      obtain ⟨hready, hsuffix⟩ := hframes (call :: rest) (heq ▸ List.mem_cons_self)
      have hpopped : Started config { s with frames := .handling rest :: frames } :=
        ⟨hstarted.config_eq, hstarted.published, hstarted.calls, hstarted.dns⟩
      refine ⟨hpopped.handleCall hready (hsuffix.mem List.mem_cons_self), ?_⟩
      have hleft : HandlesReady { s with frames := .handling rest :: frames } := by
        intro rest' hrest
        rcases List.mem_cons.mp hrest with h | hrest
        · cases h
          exact ⟨hready, (List.suffix_cons call _).trans hsuffix⟩
        · exact hframes rest' (heq ▸ List.mem_cons_of_mem _ hrest)
      rw [Bootstrap.handleCall]
      split
      · exact hleft
      · exact hleft
  | ret =>
      obtain ⟨frame, frames, heq, rfl, -⟩ := step_ret ht
      refine ⟨⟨hstarted.config_eq, hstarted.published, hstarted.calls, hstarted.dns⟩, ?_⟩
      intro rest hrest
      exact hframes rest (heq ▸ List.mem_cons_of_mem _ hrest)

/-! ## Power-up to READY -/

theorem begin_inv (config : BootstrapConfig) (chipId : String) (now : ℕ) :
    Inv config (begin (σ := σ) (κ := κ) config chipId now) :=
  ⟨⟨rfl, rfl, rfl, by nofun⟩, by nofun⟩

/-- A station that falls back after 100 ms, with MQTT. -/
def stationConfig : BootstrapConfig where
  mdnsName := "device"
  wifiMode := .sta
  wifiSsid := "home"
  wifiPassword := "password"
  wifiConnectionTimeout := 100
  mqttEnabled := true
  mqttHost := "broker"
  mqttPort := 1883
  mqttUser := "user"
  mqttPassword := "password"

end Bootstrap

end EspIot
