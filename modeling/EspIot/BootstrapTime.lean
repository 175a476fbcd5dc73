/-
# `EspIot.BootstrapTime` — how long the start takes

WIFI_CONNECT is the one state that waits, and what ends the wait is the link or the fallback of
the manager:

    wifi_connection_timeout > 0   READY after the timeout and four gaps between passes at most,
                                  whatever the link does
    wifi_connection_timeout = 0   no READY without a link

The user does not call `connect` here: an attempt that is started over, or one without a fallback,
has a time of its own.
-/
import EspIot.BootstrapRuns

namespace EspIot

open Lib

variable {σ κ : Type*}

namespace WifiRun

open WifiManager

theorem handleConnection_connecting {s : WifiRun} (hstate : s.manager.state = .connecting)
    (hmode : s.manager.mode ≠ .ap) (isAp linked : Bool) (checks begins : ℕ) :
    (s.handleConnection isAp linked checks begins).manager =
        s.manager.connectStaStep linked (reading s.now) ∧
      (s.handleConnection isAp linked checks begins).now = s.now := by
  rw [handleConnection, if_pos hstate, if_pos hmode]
  exact ⟨rfl, rfl⟩

theorem handleConnection_ap {s : WifiRun} (hstate : s.manager.state = .connected)
    (hmode : s.manager.mode = .ap) (isAp linked : Bool) (checks begins : ℕ) :
    (s.handleConnection isAp linked checks begins).manager.state = .connected := by
  have hidle : s.manager.state ≠ .connecting := by
    rw [hstate]
    nofun
  rw [handleConnection, if_neg hidle]
  split
  · exact hstate
  · split
    · show (WifiManager.connect s.manager.mode defaultConnectionInterval _
        { (s.look checks).manager with state := .disconnected }).state = .connected
      rw [hmode]
      rfl
    · exact hstate

theorem connect_disconnected {s : WifiRun} (hstate : s.manager.state = .disconnected)
    (mode : WifiMode) (interval : UInt32) (begins : ℕ) :
    let t := s.connect mode interval begins
    t.now = s.now + begins ∧ t.manager.mode = mode ∧
      (mode = .ap ∧ t.manager.state = .connected ∨
        mode ≠ .ap ∧ t.manager.state = .connecting ∧ t.manager.connectionInterval = interval ∧
          t.manager.connectionBeginTime = reading t.now) := by
  intro t
  have hidle : s.manager.state ≠ .connecting := by
    rw [hstate]
    exact fun h => by cases h
  have ht : t = { s with
      manager := s.manager.connect mode interval (reading (s.now + begins))
      now := s.now + begins
      userInterval := interval
      begunAt := s.now
      relinking := false } := by
    show s.connect mode interval begins = _
    rw [WifiRun.connect, if_neg hidle]
  rw [ht]
  refine ⟨rfl, ?_⟩
  show (s.manager.connect mode interval _).mode = mode ∧
    (mode = .ap ∧ (s.manager.connect mode interval _).state = .connected ∨
      mode ≠ .ap ∧ (s.manager.connect mode interval _).state = .connecting ∧
        (s.manager.connect mode interval _).connectionInterval = interval ∧
        (s.manager.connect mode interval _).connectionBeginTime = _)
  rw [WifiManager.connect, if_neg hidle]
  cases mode with
  | ap => exact ⟨(connectAp_connected rfl).2, .inl ⟨rfl, (connectAp_connected rfl).1⟩⟩
  | sta => exact ⟨rfl, .inr ⟨(fun h => by cases h), rfl, rfl, rfl⟩⟩
  | staAp => exact ⟨rfl, .inr ⟨(fun h => by cases h), rfl, rfl, rfl⟩⟩

/-- One look at an attempt: the link is there or the interval is exceeded, and it has ended; or it
goes on as it was. -/
theorem connectStaStep_spec {m : WifiManager} (hstate : m.state = .connecting) (linked : Bool)
    (now : UInt32) :
    ((linked = true ∨ m.exceeded now = true) ∧ (m.connectStaStep linked now).state = .connected) ∨
      linked = false ∧ m.exceeded now = false ∧ m.connectStaStep linked now = m := by
  rw [WifiManager.connectStaStep, hstate]
  cases linked with
  | true => exact .inl ⟨.inl rfl, rfl⟩
  | false =>
      cases hexceeded : m.exceeded now with
      | true => exact .inl ⟨.inr rfl, rfl⟩
      | false => exact .inr ⟨rfl, rfl, rfl⟩

end WifiRun

/-- An access point, or a connection timeout that the passes cannot miss. -/
def BootstrapConfig.FallsBack (gap : ℕ) (config : BootstrapConfig) : Prop :=
  config.wifiMode = .ap ∨
    0 < config.wifiConnectionTimeout ∧ config.wifiConnectionTimeout.toNat + gap < 2 ^ 32

namespace Bootstrap

def Unaided : BootstrapEvent → Prop
  | .connect .. => False
  | _ => True

/-- The last pass is no longer ago than `gap`. -/
def Served (gap : ℕ) (s : Bootstrap σ κ) : Prop := s.wifi.now ≤ s.lastLoop + gap

/-- Where the start stands by the clock, with the time of power-up. -/
def OnTimeAt (start gap : ℕ) (s : Bootstrap σ κ) : BootstrapState → Prop
  | .uninitialized => s.lastLoop = start ∧ s.wifi.manager.state = .disconnected
  | .wifiConnect =>
      s.config.wifiMode = .ap ∧ s.wifi.manager.mode = .ap ∧ s.wifi.manager.state = .connected ∧
          s.lastLoop ≤ start + gap ∨
        s.config.wifiMode ≠ .ap ∧ s.wifi.manager.mode ≠ .ap ∧
          s.wifi.manager.state = .connecting ∧
          s.wifi.manager.connectionInterval = s.config.wifiConnectionTimeout ∧
          ∃ begun, s.wifi.manager.connectionBeginTime = reading begun ∧ begun ≤ s.wifi.now ∧
            begun ≤ start + 2 * gap ∧
            s.lastLoop ≤ begun + s.config.wifiConnectionTimeout.toNat
  | .initializing => s.lastLoop ≤ start + s.config.wifiConnectionTimeout.toNat + 3 * gap
  | .ready => True

instance (gap : ℕ) : DecidablePred (Served (σ := σ) (κ := κ) gap) :=
  fun s => inferInstanceAs (Decidable (s.wifi.now ≤ s.lastLoop + gap))

def OnTime (start gap : ℕ) (s : Bootstrap σ κ) : Prop := s.OnTimeAt start gap s.state

variable {topic : EventTopic BootstrapState σ κ} {config : BootstrapConfig} {start gap : ℕ}

theorem begin_onTime (config : BootstrapConfig) (chipId : String) (start gap : ℕ) :
    OnTime start gap (begin (σ := σ) (κ := κ) config chipId start) := ⟨rfl, rfl⟩

theorem OnTime.uninitialized {s : Bootstrap σ κ} (h : OnTime start gap s)
    (hstate : s.state = .uninitialized) (hserved : Served gap s) {isAp linked : Bool}
    {checks begins : ℕ}
    (hserved' : Served gap (s.serviceLoop topic isAp linked checks begins)) :
    OnTime start gap (s.serviceLoop topic isAp linked checks begins) := by
  rw [OnTime, hstate] at h
  obtain ⟨hlast, hdisconnected⟩ := h
  rw [Served, hlast] at hserved
  obtain ⟨hnow, hmode, hconnect⟩ := WifiRun.connect_disconnected hdisconnected s.config.wifiMode
    s.config.wifiConnectionTimeout begins
  rw [serviceLoop_uninitialized hstate] at hserved' ⊢
  change (s.wifi.connect s.config.wifiMode s.config.wifiConnectionTimeout begins).now ≤
    s.wifi.now + gap at hserved'
  rcases hconnect with ⟨hap, hconnected⟩ | ⟨hap, hconnecting, hinterval, hbegin⟩
  · exact .inl ⟨hap, hmode.trans hap, hconnected, hserved⟩
  · refine .inr ⟨hap, fun heq => hap (hmode.symm.trans heq), hconnecting, hinterval, _, hbegin,
      Nat.le_refl _, ?_, ?_⟩
    · omega
    · show s.wifi.now ≤ _
      omega

theorem OnTime.wifiConnect {s : Bootstrap σ κ} (h : OnTime start gap s)
    (hstate : s.state = .wifiConnect) (hserved : Served gap s)
    (hfallback : s.config.FallsBack gap) (isAp linked : Bool)
    (checks begins : ℕ) : OnTime start gap (s.serviceLoop topic isAp linked checks begins) := by
  rw [OnTime, hstate] at h
  rw [Served] at hserved
  rw [serviceLoop_wifiConnect hstate]
  rcases h with ⟨-, hmode, hconnected, hlast⟩ |
    ⟨hap, hmode, hconnecting, hinterval, begun, hbegin, hbegun, hstart, hlast⟩
  · rw [if_pos (WifiRun.handleConnection_ap hconnected hmode ..)]
    show s.wifi.now ≤ _
    omega
  · obtain ⟨hpositive, hturn⟩ := hfallback.resolve_left hap
    obtain ⟨hmanager, hnow⟩ := WifiRun.handleConnection_connecting hconnecting hmode isAp linked
      checks begins
    have helapsed : (reading s.wifi.now - reading begun).toNat = s.wifi.now - begun := by
      rw [reading_sub hbegun, Nat.mod_eq_of_lt]
      omega
    rcases WifiRun.connectStaStep_spec hconnecting linked (reading s.wifi.now) with
      ⟨-, hconnected⟩ | ⟨-, hwaits, hsame⟩
    · rw [if_pos (by rw [hmanager]; exact hconnected)]
      show s.wifi.now ≤ start + s.config.wifiConnectionTimeout.toNat + 3 * gap
      omega
    · have hidle :
          (s.wifi.handleConnection isAp linked checks begins).manager = s.wifi.manager := by
        rw [hmanager, hsame]
      have hinTime : s.wifi.now - begun ≤ s.config.wifiConnectionTimeout.toNat := by
        rw [← helapsed, ← hbegin, ← hinterval]
        rw [WifiManager.exceeded, hinterval, decide_eq_true hpositive, Bool.true_and,
          decide_eq_false_iff_not, ← hinterval] at hwaits
        exact UInt32.le_iff_toNat_le.mp (UInt32.not_lt.mp hwaits)
      rw [if_neg (by rw [hidle, hconnecting]; exact fun h => by cases h)]
      show OnTimeAt start gap (s.handled isAp linked checks begins) s.state
      rw [hstate]
      refine .inr ⟨hap, ?_, ?_, ?_, begun, ?_, ?_, hstart, ?_⟩
      · show (s.wifi.handleConnection isAp linked checks begins).manager.mode ≠ .ap
        rw [hidle]
        exact hmode
      · show (s.wifi.handleConnection isAp linked checks begins).manager.state = _
        rw [hidle]
        exact hconnecting
      · show (s.wifi.handleConnection isAp linked checks begins).manager.connectionInterval = _
        rw [hidle]
        exact hinterval
      · show (s.wifi.handleConnection isAp linked checks begins).manager.connectionBeginTime = _
        rw [hidle]
        exact hbegin
      · show begun ≤ (s.wifi.handleConnection isAp linked checks begins).now
        rw [hnow]
        exact hbegun
      · show s.wifi.now ≤ begun + s.config.wifiConnectionTimeout.toNat
        omega

theorem OnTime.serviceLoop {s : Bootstrap σ κ} (h : OnTime start gap s) (hserved : Served gap s)
    (hfallback : s.config.FallsBack gap) {isAp linked : Bool}
    {checks begins : ℕ}
    (hserved' : Served gap (s.serviceLoop topic isAp linked checks begins)) :
    OnTime start gap (s.serviceLoop topic isAp linked checks begins) := by
  cases hstate : s.state with
  | uninitialized => exact h.uninitialized hstate hserved hserved'
  | wifiConnect => exact h.wifiConnect hstate hserved hfallback isAp linked checks begins
  | initializing =>
      rw [serviceLoop_initializing hstate]
      trivial
  | ready =>
      rw [serviceLoop_ready hstate]
      show OnTimeAt start gap _ s.state
      rw [hstate]
      trivial

theorem OnTime.of_eq {s t : Bootstrap σ κ} (h : OnTime start gap s) (hconfig : t.config = s.config)
    (hstate : t.state = s.state) (hlast : t.lastLoop = s.lastLoop)
    (hmanager : t.wifi.manager = s.wifi.manager) (hnow : s.wifi.now ≤ t.wifi.now) :
    OnTime start gap t := by
  rw [OnTime] at h ⊢
  rw [hstate]
  cases hs : s.state with
  | uninitialized =>
      rw [hs] at h
      exact ⟨hlast.trans h.1, by rw [hmanager]; exact h.2⟩
  | wifiConnect =>
      rw [hs] at h
      show _ ∨ _
      rw [hconfig, hlast, hmanager]
      rcases h with hap | ⟨hap, hmode, hconnecting, hinterval, begun, hbegin, hbegun, hrest⟩
      · exact .inl hap
      · exact .inr ⟨hap, hmode, hconnecting, hinterval, begun, hbegin,
          Nat.le_trans hbegun hnow, hrest⟩
  | initializing =>
      rw [hs] at h
      show t.lastLoop ≤ _
      rw [hlast, hconfig]
      exact h
  | ready => trivial

theorem OnTime.step {s t : Bootstrap σ κ} (h : OnTime start gap s) (hserved : Served gap s)
    (hserved' : Served gap t)
    (hfallback : s.config.FallsBack gap) {e : BootstrapEvent}
    (he : Unaided e) (ht : s.step topic e = some t) : OnTime start gap t := by
  cases e with
  | elapse millis =>
      cases ht
      exact h.of_eq rfl rfl rfl rfl (Nat.le_add_right ..)
  | connect mode connectionInterval begins => exact absurd he id
  | serviceLoop isAp linked checks begins =>
      cases ht
      exact h.serviceLoop hserved hfallback hserved'
  | call i =>
      obtain ⟨p, q, frames, -, -, rfl⟩ := step_call ht
      exact h.of_eq rfl rfl rfl rfl (Nat.le_refl _)
  | handle =>
      obtain ⟨call, rest, frames, -, rfl⟩ := step_handle ht
      rw [handleCall]
      split
      · exact h.of_eq rfl rfl rfl rfl (Nat.le_refl _)
      · exact h.of_eq rfl rfl rfl rfl (Nat.le_refl _)
  | ret =>
      obtain ⟨frame, frames, -, rfl, -⟩ := step_ret ht
      exact h.of_eq rfl rfl rfl rfl (Nat.le_refl _)

/-- **Where there is a fallback and the passes come no more than `gap` apart, the device is READY
once the timeout and four gaps have passed since power-up, whatever the link does.** -/
theorem ready_in_time (topic : EventTopic BootstrapState σ κ) (config : BootstrapConfig)
    (chipId : String) (start gap : ℕ) (es : List BootstrapEvent) (s : Bootstrap σ κ)
    (hfallback : config.FallsBack gap)
    (hserved : Always (step topic) (Served gap) (begin config chipId start) es)
    (hunaided : ∀ e ∈ es, Unaided e)
    (hrun : run (step topic) (begin config chipId start) es = some s)
    (hlate : start + config.wifiConnectionTimeout.toNat + 4 * gap < s.wifi.now) :
    s.state = .ready := by
  have hinv : Inv config s ∧ OnTime start gap s := by
    refine run_always_invariant (I := fun u => Inv config u ∧ OnTime start gap u)
      (P := Served gap) (C := Unaided) ?_
      ⟨begin_inv config chipId start, begin_onTime config chipId start gap⟩ hserved hunaided hrun
    rintro u e v ⟨hinv, htime⟩ hu hv he hstep
    have hconfig := hinv.started.config_eq
    exact ⟨hinv.step hstep, htime.step hu hv (hconfig ▸ hfallback) he hstep⟩
  obtain ⟨hinv, htime⟩ := hinv
  have hconfig := hinv.started.config_eq
  have hlast : s.wifi.now ≤ s.lastLoop + gap := hserved.last hrun
  rw [OnTime] at htime
  cases hstate : s.state with
  | uninitialized =>
      rw [hstate] at htime
      have hpowerUp := htime.1
      omega
  | wifiConnect =>
      rw [hstate] at htime
      rcases htime with ⟨-, -, -, hpass⟩ | ⟨-, -, -, -, begun, -, -, hbegun, hpass⟩
      · omega
      · rw [hconfig] at hpass
        omega
  | initializing =>
      rw [hstate] at htime
      have hpass : s.lastLoop ≤ start + s.config.wifiConnectionTimeout.toNat + 3 * gap := htime
      rw [hconfig] at hpass
      omega
  | ready => rfl

/-- Passes 200 ms apart and no link: READY after a second. -/
theorem ready_in_time_unlinked :
    ∃ s : Bootstrap ℕ ℕ,
      run (step EventTopic.empty) (begin stationConfig "ABCD" 0)
          [.elapse 200, .serviceLoop false false 0 0, .elapse 200, .serviceLoop false false 0 0,
            .elapse 200, .serviceLoop true false 0 0, .elapse 200, .serviceLoop true false 0 0,
            .elapse 101] = some s ∧ s.state = .ready :=
  ⟨_, rfl, ready_in_time EventTopic.empty stationConfig "ABCD" 0 200
    [.elapse 200, .serviceLoop false false 0 0, .elapse 200, .serviceLoop false false 0 0,
      .elapse 200, .serviceLoop true false 0 0, .elapse 200, .serviceLoop true false 0 0,
      .elapse 101] _ (.inr (by decide)) (by decide) (by simp [Unaided]) rfl
    (by decide)⟩

/-! ## Without a fallback -/

/-- No pass in WIFI_CONNECT finds the link. -/
def Unlinked (s : Bootstrap σ κ) : BootstrapEvent → Prop
  | .serviceLoop _ linked _ _ => s.state = .wifiConnect → linked = false
  | _ => True

/-- Nothing has begun that needs a network. -/
def Waits (s : Bootstrap σ κ) : Prop := s.state = .uninitialized ∨ s.state = .wifiConnect

/-- A station that waits has an attempt without an interval. -/
structure Alone (s : Bootstrap σ κ) : Prop where
  waits : s.Waits
  mode : s.config.wifiMode ≠ .ap
  timeout : s.config.wifiConnectionTimeout = 0
  fresh : s.state = .uninitialized → s.wifi.manager.state = .disconnected
  attempt : s.state = .wifiConnect → s.wifi.manager.mode ≠ .ap ∧
    s.wifi.manager.state = .connecting ∧ s.wifi.manager.connectionInterval = 0

theorem Alone.of_eq {s t : Bootstrap σ κ} (h : s.Alone) (hconfig : t.config = s.config)
    (hstate : t.state = s.state) (hmanager : t.wifi.manager = s.wifi.manager) : t.Alone := by
  obtain ⟨hwaits, hmode, htimeout, hfresh, hattempt⟩ := h
  refine ⟨?_, by rw [hconfig]; exact hmode, by rw [hconfig]; exact htimeout, ?_, ?_⟩
  · rw [Waits, hstate]
    exact hwaits
  · rw [hstate, hmanager]
    exact hfresh
  · rw [hstate, hmanager]
    exact hattempt

variable (topic) in
theorem Alone.serviceLoop {s : Bootstrap σ κ} (h : s.Alone) (isAp linked : Bool)
    (checks begins : ℕ) :
    (s.state = .wifiConnect → linked = false) ∧
        (s.serviceLoop topic isAp linked checks begins).Alone ∨
      ¬ (s.state = .wifiConnect → linked = false) ∧
        (s.serviceLoop topic isAp linked checks begins).state = .initializing := by
  rcases h.waits with hstate | hstate
  · refine .inl ⟨fun heq => absurd (hstate.symm.trans heq) (fun h => by cases h), ?_⟩
    obtain ⟨-, hmode, hconnect⟩ := WifiRun.connect_disconnected (h.fresh hstate)
      s.config.wifiMode s.config.wifiConnectionTimeout begins
    rcases hconnect with ⟨hap, -⟩ | ⟨hap, hconnecting, hinterval, -⟩
    · exact absurd hap h.mode
    · rw [serviceLoop_uninitialized hstate]
      refine ⟨.inr rfl, h.mode, h.timeout, (fun h => by cases h), fun _ => ⟨?_, hconnecting, ?_⟩⟩
      · exact fun heq => h.mode (hmode.symm.trans heq)
      · exact hinterval.trans h.timeout
  · obtain ⟨hmode, hconnecting, hinterval⟩ := h.attempt hstate
    obtain ⟨hmanager, -⟩ := WifiRun.handleConnection_connecting hconnecting hmode isAp linked
      checks begins
    rw [serviceLoop_wifiConnect hstate, hmanager]
    have hpatient : s.wifi.manager.exceeded (reading s.wifi.now) = false := by
      rw [WifiManager.exceeded, hinterval]
      rfl
    rcases WifiRun.connectStaStep_spec hconnecting linked (reading s.wifi.now) with
      ⟨hends, hconnected⟩ | ⟨hlinked, -, hsame⟩
    · rw [if_pos hconnected]
      refine .inr ⟨?_, rfl⟩
      intro hunlinked
      rw [hunlinked hstate, hpatient] at hends
      rcases hends with hends | hends
      · cases hends
      · cases hends
    · rw [if_neg (by rw [hsame, hconnecting]; exact fun h => by cases h)]
      refine .inl ⟨fun _ => hlinked, h.of_eq rfl rfl ?_⟩
      show (s.wifi.handleConnection isAp linked checks begins).manager = _
      rw [hmanager, hsame]

theorem Alone.step {s t : Bootstrap σ κ} (h : s.Alone) {e : BootstrapEvent} (he : Unaided e)
    (hunlinked : s.Unlinked e) (ht : s.step topic e = some t) : t.Alone := by
  cases e with
  | elapse millis =>
      cases ht
      exact h.of_eq rfl rfl rfl
  | connect mode connectionInterval begins => exact absurd he id
  | serviceLoop isAp linked checks begins =>
      cases ht
      rcases h.serviceLoop topic isAp linked checks begins with
        ⟨-, halone⟩ | ⟨hlinked, -⟩
      · exact halone
      · exact absurd hunlinked hlinked
  | call i =>
      obtain ⟨p, q, frames, -, -, rfl⟩ := step_call ht
      exact h.of_eq rfl rfl rfl
  | handle =>
      obtain ⟨call, rest, frames, -, rfl⟩ := step_handle ht
      rw [handleCall]
      split
      · exact h.of_eq rfl rfl rfl
      · exact h.of_eq rfl rfl rfl
  | ret =>
      obtain ⟨frame, frames, -, rfl, -⟩ := step_ret ht
      exact h.of_eq rfl rfl rfl

/-- **A station without a fallback waits, in every state of a run, exactly where no pass in
WIFI_CONNECT finds the link.** -/
theorem waits_iff_unlinked (topic : EventTopic BootstrapState σ κ) (config : BootstrapConfig)
    (chipId : String) (start : ℕ) (es : List BootstrapEvent) (hmode : config.wifiMode ≠ .ap)
    (htimeout : config.wifiConnectionTimeout = 0) (hunaided : ∀ e ∈ es, Unaided e) :
    Always (step topic) Waits (begin config chipId start) es ↔
      Each (step topic) Unlinked (begin config chipId start) es := by
  have hbegin : Alone (begin (σ := σ) (κ := κ) config chipId start) :=
    ⟨.inl rfl, hmode, htimeout, fun _ => rfl, by nofun⟩
  refine always_iff_each_of (D := Unaided) (fun s h => h.waits) ?_ ?_ hunaided hbegin
  · intro s e t h he hunlinked ht
    exact h.step he hunlinked ht
  · intro s e t h he hlinked ht hwaits
    cases e with
    | serviceLoop isAp linked checks begins =>
        cases ht
        rcases h.serviceLoop topic isAp linked checks begins with
          ⟨hunlinked, -⟩ | ⟨-, hstate⟩
        · exact hlinked hunlinked
        · rw [Waits, hstate] at hwaits
          rcases hwaits with hwaits | hwaits
          · cases hwaits
          · cases hwaits
    | elapse millis => exact hlinked trivial
    | connect mode interval begins => exact he
    | call i => exact hlinked trivial
    | handle => exact hlinked trivial
    | ret => exact hlinked trivial

/-- Two passes without a link, and one that finds it. -/
theorem waits_iff_unlinked_thrice :
    Always (step EventTopic.empty) Waits
        (begin (σ := ℕ) (κ := ℕ) { stationConfig with wifiConnectionTimeout := 0 } "ABCD" 0)
        [.serviceLoop false false 0 0, .serviceLoop false false 0 0,
          .serviceLoop false true 0 0] ↔
      Each (step EventTopic.empty) Unlinked
        (begin (σ := ℕ) (κ := ℕ) { stationConfig with wifiConnectionTimeout := 0 } "ABCD" 0)
        [.serviceLoop false false 0 0, .serviceLoop false false 0 0,
          .serviceLoop false true 0 0] :=
  waits_iff_unlinked _ _ _ _ _ (by nofun) rfl (by simp [Unaided])

end Bootstrap

end EspIot
