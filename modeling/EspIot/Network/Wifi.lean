/-
# `EspIot.Network.Wifi` — the Wi-Fi manager and its access-point fallback

    DISCONNECTED ──connect(AP)──▶ CONNECTED
    DISCONNECTED ──connect(STA, STA_AP)──▶ CONNECTING ──link──▶ CONNECTED
    CONNECTING ──longer than the interval──▶ AP, CONNECTED
    CONNECTED ──link lost──▶ CONNECTING, in the same mode

`connect` stores the interval it is given, and the class calls `connect` itself: the
fallback with `WifiMode::AP`, a lost link with the mode there is.  Neither passes an
interval, so both store the default of the declaration.

`WifiRun` is the manager with the clock.  What the driver answers stands in the events, and
so does the time that passes inside a call.
-/
import EspIot.Lib.Clock
import EspIot.Lib.Run

namespace EspIot

open Lib

inductive WifiManagerState
  | disconnected
  | connecting
  | connected
deriving DecidableEq, Repr

inductive WifiMode
  | ap
  | sta
  | staAp
deriving DecidableEq, Repr

inductive WifiCommand
  | disconnect
  | mode (mode : WifiMode)
  | begin (ssid password : String)
  | softAp (ssid password : String)
deriving DecidableEq, Repr

/-- `WifiManager`.  `apSsid` is the `static String ssid` of `_connect_ap`, made of `_ssid` and the
chip's number by the first call. -/
structure WifiManager where
  ssid : String
  password : String
  chipId : String
  connectionCheckInterval : UInt32
  mode : WifiMode := .ap
  state : WifiManagerState := .disconnected
  connectionInterval : UInt32 := 0
  connectionBeginTime : UInt32 := 0
  lastConnectionCheck : UInt32 := 0
  apSsid : Option String := none
  commands : List WifiCommand := []
deriving DecidableEq, Repr

namespace WifiManager

def create (ssid password chipId : String) (connectionCheckInterval : UInt32) : WifiManager where
  ssid
  password := if password.utf8ByteSize < 8 then "12345678" else password
  chipId
  connectionCheckInterval

/-- The default argument of `connect`. -/
def defaultConnectionInterval : UInt32 := 120000

def connectAp (m : WifiManager) : WifiManager :=
  if m.state ≠ .disconnected then m
  else
    let ssid := m.apSsid.getD (m.ssid ++ "_" ++ m.chipId)
    { m with
      apSsid := some ssid
      commands := m.commands ++ [.mode .ap, .softAp ssid m.password]
      ssid
      state := .connected }

/-- `connect` up to the `switch`. -/
def prepare (mode : WifiMode) (connectionInterval : UInt32) (m : WifiManager) : WifiManager :=
  { m with
    commands := m.commands ++ [.disconnect]
    mode
    connectionInterval
    state := .disconnected }

def exceeded (now : UInt32) (m : WifiManager) : Bool :=
  0 < m.connectionInterval && m.connectionInterval < now - m.connectionBeginTime

/-- `_connect_sta_step`; `now` is the reading it takes, and `connect(WifiMode::AP)` is written
out. -/
def connectStaStep (linked : Bool) (now : UInt32) (m : WifiManager) : WifiManager :=
  match m.state with
  | .connected => m
  | .disconnected =>
      { m with
        commands := m.commands ++
          [.mode (if m.mode = .sta then .sta else .staAp), .begin m.ssid m.password]
        state := .connecting
        connectionBeginTime := now }
  | .connecting =>
      if linked then { m with state := .connected }
      else if m.exceeded now then
        ({ m with state := .disconnected }.prepare .ap defaultConnectionInterval).connectAp
      else m

/-- `connect`; `now` is the reading after `WiFi.begin`. -/
def connect (mode : WifiMode) (connectionInterval : UInt32) (now : UInt32) (m : WifiManager) :
    WifiManager :=
  if m.state = .connecting then m
  else
    let m := m.prepare mode connectionInterval
    match mode with
    | .ap => m.connectAp
    | .sta | .staAp => m.connectStaStep false now

end WifiManager

/-- The manager and the clock.  `userInterval` is the interval of the user's last `connect` that
took effect, `begunAt` the time of the last `WiFi.begin`, `relinking` says that a lost link has
started the attempt; `fallbacks` has, for every switch of the manager to the access point, the
user's interval and the time that had passed. -/
structure WifiRun where
  manager : WifiManager
  now : ℕ := 0
  userInterval : UInt32 := 0
  begunAt : ℕ := 0
  relinking : Bool := false
  fallbacks : List (UInt32 × ℕ) := []
deriving DecidableEq, Repr

/-- Time passes; the user calls `connect`; `handle_connection` is called.  `isAp` and `linked` are
the answers of `WiFi.getMode() == AP` and `WiFi.isConnected()`; `checks` milliseconds pass before
`_last_connection_check` is read, `begins` in `WiFi.begin`. -/
inductive WifiEvent
  | elapse (millis : ℕ)
  | connect (mode : WifiMode) (connectionInterval : UInt32) (begins : ℕ)
  | handleConnection (isAp linked : Bool) (checks begins : ℕ)
deriving DecidableEq, Repr

namespace WifiRun

open WifiManager

def connect (mode : WifiMode) (connectionInterval : UInt32) (begins : ℕ) (s : WifiRun) :
    WifiRun :=
  if s.manager.state = .connecting then s
  else
    { s with
      manager := s.manager.connect mode connectionInterval (reading (s.now + begins))
      now := s.now + begins
      userInterval := connectionInterval
      begunAt := s.now
      relinking := false }

/-- `_last_connection_check = millis()` -/
def look (checks : ℕ) (s : WifiRun) : WifiRun :=
  { s with
    manager := { s.manager with lastConnectionCheck := reading (s.now + checks) }
    now := s.now + checks }

def relink (checks begins : ℕ) (s : WifiRun) : WifiRun :=
  let s := s.look checks
  { s with
    manager := { s.manager with state := .disconnected }.connect s.manager.mode
      defaultConnectionInterval (reading (s.now + begins))
    now := s.now + begins
    begunAt := s.now
    relinking := true }

def handleConnection (isAp linked : Bool) (checks begins : ℕ) (s : WifiRun) : WifiRun :=
  let m := s.manager
  if m.state = .connecting then
    if m.mode ≠ .ap then
      let manager := m.connectStaStep linked (reading s.now)
      { s with
        manager
        fallbacks :=
          if manager.mode = .ap then s.fallbacks ++ [(s.userInterval, s.now - s.begunAt)]
          else s.fallbacks }
    else s
  else if reading s.now - m.lastConnectionCheck < m.connectionCheckInterval then s
  else if isAp = false ∧ linked = false then s.relink checks begins
  else s.look checks

def step (s : WifiRun) : WifiEvent → Option WifiRun
  | .elapse millis => some { s with now := s.now + millis }
  | .connect mode connectionInterval begins => some (s.connect mode connectionInterval begins)
  | .handleConnection isAp linked checks begins =>
      some (s.handleConnection isAp linked checks begins)

/-- **The manager has switched to the access point only where the user's interval is above zero
and more than it had passed since `WiFi.begin`.** -/
def Obeys (s : WifiRun) : Prop := ∀ x ∈ s.fallbacks, 0 < x.1 ∧ x.1.toNat < x.2

/-- The attempt is about to be given up: it is one for a station, without a link, and it exceeds
the interval that is stored. -/
def GivesUp (s : WifiRun) (linked : Bool) : Prop :=
  s.manager.state = .connecting ∧ s.manager.mode ≠ .ap ∧ linked = false ∧
    s.manager.exceeded (reading s.now) = true

/-- A call that finds the link of an attempt down more than the default interval after `WiFi.begin`,
where a lost link has started the attempt: the user has given an interval, and it is no longer than
the default, or no longer than the time that has passed. -/
def RelinksInTime (s : WifiRun) : WifiEvent → Prop
  | .handleConnection _ linked _ _ =>
      s.relinking = true → s.manager.state = .connecting → linked = false →
        defaultConnectionInterval < reading s.now - s.manager.connectionBeginTime →
          s.userInterval ≠ 0 ∧ (s.userInterval ≤ defaultConnectionInterval ∨
            s.userInterval.toNat < s.now - s.begunAt)
  | _ => True

/-- The user gives an interval, and none longer than the default. -/
def WithinDefault : WifiEvent → Prop
  | .connect _ connectionInterval _ =>
      connectionInterval ≠ 0 ∧ connectionInterval ≤ defaultConnectionInterval
  | _ => True

/-! ## The invariant -/

/-- The attempt is one for a station; the interval stored is the default if a lost link has started
it and the user's if not; the reading stored was taken at `WiFi.begin` or after it. -/
structure Attempt (s : WifiRun) : Prop where
  station : s.manager.mode ≠ .ap
  interval : s.manager.connectionInterval =
    if s.relinking then defaultConnectionInterval else s.userInterval
  begun : ∃ t, s.begunAt ≤ t ∧ t ≤ s.now ∧ s.manager.connectionBeginTime = reading t

structure Inv (s : WifiRun) : Prop where
  attempt : s.manager.state = .connecting → s.Attempt
  obeys : s.Obeys

theorem connectAp_connected {m : WifiManager} (h : m.state = .disconnected) :
    m.connectAp.state = .connected ∧ m.connectAp.mode = m.mode := by
  rw [connectAp, if_neg (not_not.mpr h)]
  exact ⟨rfl, rfl⟩

theorem connect_spec {m : WifiManager} (h : m.state ≠ .connecting) (mode : WifiMode)
    (interval now : UInt32) :
    (m.connect mode interval now).mode = mode ∧
      ((m.connect mode interval now).state = .connecting → mode ≠ .ap ∧
        (m.connect mode interval now).connectionInterval = interval ∧
        (m.connect mode interval now).connectionBeginTime = now) := by
  rw [WifiManager.connect, if_neg h]
  cases mode with
  | ap =>
      obtain ⟨hconnected, hmode⟩ := connectAp_connected (m := m.prepare .ap interval) rfl
      refine ⟨hmode, ?_⟩
      intro hconnecting
      rw [hconnected] at hconnecting
      cases hconnecting
  | sta => exact ⟨rfl, fun _ => ⟨by decide, rfl, rfl⟩⟩
  | staAp => exact ⟨rfl, fun _ => ⟨by decide, rfl, rfl⟩⟩

/-- The step of an attempt: it is given up, or it goes on or ends with a link. -/
theorem connectStaStep_cases {m : WifiManager} (h : m.state = .connecting) (linked : Bool)
    (now : UInt32) :
    linked = false ∧ m.exceeded now = true ∧ (m.connectStaStep linked now).state = .connected ∧
        (m.connectStaStep linked now).mode = .ap ∨
      ¬ (linked = false ∧ m.exceeded now = true) ∧ (m.connectStaStep linked now).mode = m.mode ∧
        ((m.connectStaStep linked now).state = .connecting → m.connectStaStep linked now = m) := by
  rw [connectStaStep, h]
  cases linked with
  | true => exact .inr ⟨by nofun, rfl, by nofun⟩
  | false =>
      cases hexceeded : m.exceeded now with
      | true => exact .inl ⟨rfl, rfl, rfl, rfl⟩
      | false => exact .inr ⟨by nofun, rfl, fun _ => rfl⟩

theorem Inv.connect {s : WifiRun} (h : Inv s) (mode : WifiMode) (interval : UInt32)
    (begins : ℕ) : Inv (s.connect mode interval begins) := by
  rw [WifiRun.connect]
  split
  · exact h
  · rename_i hidle
    refine ⟨?_, h.obeys⟩
    intro hconnecting
    obtain ⟨hmode, hafter⟩ := connect_spec hidle mode interval (reading (s.now + begins))
    obtain ⟨hstation, hinterval, hbegin⟩ := hafter hconnecting
    refine ⟨?_, hinterval, s.now + begins, Nat.le_add_right .., Nat.le_refl _, hbegin⟩
    rw [hmode]
    exact hstation

theorem Attempt.waited {s : WifiRun} (h : s.Attempt)
    (hexceeded : s.manager.exceeded (reading s.now) = true) :
    0 < s.manager.connectionInterval ∧
      s.manager.connectionInterval.toNat < s.now - s.begunAt := by
  obtain ⟨t, hbegun, hnow, hreading⟩ := h.begun
  rw [exceeded, hreading, Bool.and_eq_true, decide_eq_true_eq, decide_eq_true_eq] at hexceeded
  obtain ⟨hpos, hlt⟩ := hexceeded
  have hpassed := reading_sub_le hnow
  have hlt' := UInt32.lt_iff_toNat_lt.mp hlt
  exact ⟨hpos, by omega⟩

/-- What `handle_connection` does, by where the manager stands: an attempt is given up, an attempt
is looked at, a lost link starts one, or the manager stays as it is. -/
theorem handleConnection_cases (s : WifiRun) (isAp linked : Bool) (checks begins : ℕ) :
    let t := s.handleConnection isAp linked checks begins
    t.userInterval = s.userInterval ∧
    (s.GivesUp linked ∧ t.manager.state = .connected ∧ t.manager.mode = .ap ∧
        t.fallbacks = s.fallbacks ++ [(s.userInterval, s.now - s.begunAt)] ∨
      ¬ s.GivesUp linked ∧ t.manager.mode = s.manager.mode ∧ t.fallbacks = s.fallbacks ∧
        (t.manager.state = .connecting → t = s ∨ t.Attempt)) := by
  intro t
  by_cases hconnecting : s.manager.state = .connecting
  · by_cases hmode : s.manager.mode = .ap
    · have ht : t = s := by
        show s.handleConnection isAp linked checks begins = s
        rw [handleConnection, if_pos hconnecting, if_neg (not_not.mpr hmode)]
      rw [ht]
      exact ⟨rfl, .inr ⟨fun hgives => hgives.2.1 hmode, rfl, rfl, fun _ => .inl rfl⟩⟩
    · have ht : t = { s with
          manager := s.manager.connectStaStep linked (reading s.now)
          fallbacks :=
            if (s.manager.connectStaStep linked (reading s.now)).mode = .ap then
              s.fallbacks ++ [(s.userInterval, s.now - s.begunAt)]
            else s.fallbacks } := by
        show s.handleConnection isAp linked checks begins = _
        rw [handleConnection, if_pos hconnecting, if_pos hmode]
      rcases connectStaStep_cases hconnecting linked (reading s.now) with
        ⟨hlinked, hexceeded, hstate, hap⟩ | ⟨hstays, hsame, hagain⟩
      · rw [if_pos hap] at ht
        rw [ht]
        exact ⟨rfl, .inl ⟨⟨hconnecting, hmode, hlinked, hexceeded⟩, hstate, hap, rfl⟩⟩
      · rw [if_neg (by rw [hsame]; exact hmode)] at ht
        rw [ht]
        refine ⟨rfl, .inr ⟨fun hgives => hstays hgives.2.2, hsame, rfl, ?_⟩⟩
        intro hagain'
        left
        show { s with manager := s.manager.connectStaStep linked (reading s.now) } = s
        rw [hagain hagain']
  · have hgives : ¬ s.GivesUp linked := fun hgives => hconnecting hgives.1
    by_cases hearly :
        reading s.now - s.manager.lastConnectionCheck < s.manager.connectionCheckInterval
    · have ht : t = s := by
        show s.handleConnection isAp linked checks begins = s
        rw [handleConnection, if_neg hconnecting, if_pos hearly]
      rw [ht]
      exact ⟨rfl, .inr ⟨hgives, rfl, rfl, fun h => absurd h hconnecting⟩⟩
    · by_cases hlost : isAp = false ∧ linked = false
      · have ht : t = s.relink checks begins := by
          show s.handleConnection isAp linked checks begins = _
          rw [handleConnection, if_neg hconnecting, if_neg hearly, if_pos hlost]
        rw [ht]
        obtain ⟨hmode, hafter⟩ := connect_spec
          (m := { (s.look checks).manager with state := .disconnected }) (by nofun)
          s.manager.mode defaultConnectionInterval (reading (s.now + checks + begins))
        refine ⟨rfl, .inr ⟨hgives, hmode, rfl, ?_⟩⟩
        intro hstate
        obtain ⟨hstation, hinterval, hbegin⟩ := hafter hstate
        refine .inr ⟨?_, hinterval, s.now + checks + begins, Nat.le_add_right .., ?_, hbegin⟩
        · exact hmode.symm ▸ hstation
        · exact Nat.le_refl _
      · have ht : t = s.look checks := by
          show s.handleConnection isAp linked checks begins = _
          rw [handleConnection, if_neg hconnecting, if_neg hearly, if_neg hlost]
        rw [ht]
        exact ⟨rfl, .inr ⟨hgives, rfl, rfl, fun h => absurd h hconnecting⟩⟩

theorem Attempt.givesUp_iff {s : WifiRun} (h : s.Attempt)
    (hconnecting : s.manager.state = .connecting) (hrelinking : s.relinking = true)
    (linked : Bool) : s.GivesUp linked ↔ linked = false ∧
      defaultConnectionInterval < reading s.now - s.manager.connectionBeginTime := by
  rw [GivesUp, exceeded, h.interval, hrelinking, if_pos rfl, Bool.and_eq_true,
    decide_eq_true_eq, decide_eq_true_eq]
  exact ⟨fun hgives => ⟨hgives.2.2.1, hgives.2.2.2.2⟩,
    fun hlate => ⟨hconnecting, h.station, hlate.1, by decide, hlate.2⟩⟩

theorem Inv.handleConnection {s : WifiRun} (h : Inv s) {isAp linked : Bool} {checks begins : ℕ}
    (hallowed : s.RelinksInTime (.handleConnection isAp linked checks begins)) :
    Inv (s.handleConnection isAp linked checks begins) := by
  rcases (handleConnection_cases s isAp linked checks begins).2 with
    ⟨hgives, hconnected, -, hfallbacks⟩ | ⟨-, -, hfallbacks, hattempt⟩
  · refine ⟨?_, ?_⟩
    · intro hconnecting
      rw [hconnected] at hconnecting
      cases hconnecting
    · intro x hx
      rw [hfallbacks] at hx
      rcases List.mem_append.mp hx with hold | hnew
      · exact h.obeys x hold
      · rw [List.mem_singleton.mp hnew]
        have hcurrent := h.attempt hgives.1
        obtain ⟨hpos, hwaited⟩ := hcurrent.waited hgives.2.2.2
        rw [hcurrent.interval] at hpos hwaited
        cases hrelinking : s.relinking with
        | true =>
            rw [hrelinking, if_pos rfl] at hwaited
            obtain ⟨hlinked, hlate⟩ := (hcurrent.givesUp_iff hgives.1 hrelinking linked).mp hgives
            obtain ⟨hgiven, hshort | hpassed⟩ := hallowed hrelinking hgives.1 hlinked hlate
            · exact ⟨UInt32.pos_iff_ne_zero.mpr hgiven,
                Nat.lt_of_le_of_lt (UInt32.le_iff_toNat_le.mp hshort) hwaited⟩
            · exact ⟨UInt32.pos_iff_ne_zero.mpr hgiven, hpassed⟩
        | false =>
            rw [hrelinking] at hpos hwaited
            exact ⟨hpos, hwaited⟩
  · refine ⟨?_, ?_⟩
    · intro hconnecting
      rcases hattempt hconnecting with heq | hnew
      · rw [heq] at hconnecting ⊢
        exact h.attempt hconnecting
      · exact hnew
    · intro x hx
      rw [hfallbacks] at hx
      exact h.obeys x hx

theorem Inv.step {s t : WifiRun} {e : WifiEvent} (h : Inv s) (hallowed : s.RelinksInTime e)
    (ht : s.step e = some t) : Inv t := by
  cases e with
  | elapse millis =>
      cases ht
      refine ⟨?_, h.obeys⟩
      intro hconnecting
      obtain ⟨hstation, hinterval, t, hbegun, hnow, hreading⟩ := h.attempt hconnecting
      exact ⟨hstation, hinterval, t, hbegun, Nat.le_add_right_of_le hnow, hreading⟩
  | connect mode interval begins =>
      cases ht
      exact h.connect mode interval begins
  | handleConnection isAp linked checks begins =>
      cases ht
      exact h.handleConnection hallowed

theorem Inv.not_obeys {s t : WifiRun} {e : WifiEvent} (h : Inv s) (hnot : ¬ s.RelinksInTime e)
    (ht : s.step e = some t) : ¬ Obeys t := by
  intro hobeys
  cases e with
  | elapse millis => exact hnot trivial
  | connect mode interval begins => exact hnot trivial
  | handleConnection isAp linked checks begins =>
      cases ht
      refine hnot ?_
      intro hrelinking hconnecting hlinked hlate
      have hgives := ((h.attempt hconnecting).givesUp_iff hconnecting hrelinking linked).mpr
        ⟨hlinked, hlate⟩
      rcases (handleConnection_cases s isAp linked checks begins).2 with
        ⟨-, -, -, hfallbacks⟩ | ⟨hstays, -⟩
      · obtain ⟨hpos, hpassed⟩ := hobeys (s.userInterval, s.now - s.begunAt) (by
          rw [hfallbacks]
          exact List.mem_append_right _ (List.mem_singleton.mpr rfl))
        exact ⟨UInt32.pos_iff_ne_zero.mp hpos, .inr hpassed⟩
      · exact absurd hgives hstays

/-! ## The fallback -/

/-- While the manager is for a station, the user has given an interval within the default. -/
def GivenInterval (s : WifiRun) : Prop :=
  s.manager.mode ≠ .ap → s.userInterval ≠ 0 ∧ s.userInterval ≤ defaultConnectionInterval

theorem GivenInterval.step {s t : WifiRun} {e : WifiEvent} (h : s.GivenInterval)
    (hwithin : WithinDefault e) (ht : s.step e = some t) : t.GivenInterval := by
  cases e with
  | elapse millis =>
      cases ht
      exact h
  | connect mode interval begins =>
      cases ht
      rw [WifiRun.connect]
      split
      · exact h
      · exact fun _ => hwithin
  | handleConnection isAp linked checks begins =>
      cases ht
      obtain ⟨hinterval, ⟨-, -, hap, -⟩ | ⟨-, hmode, -⟩⟩ :=
        handleConnection_cases s isAp linked checks begins
      · exact fun hstation => absurd hap hstation
      · rw [GivenInterval, hinterval, hmode]
        exact h

/-- A manager that has just been made, at any time. -/
def start (manager : WifiManager) (now : ℕ) : WifiRun := { manager, now }

/-- **The fallback obeys the user's interval in every state of a run exactly where the link that a
lost link's attempt waits for is never found down between the default interval and the user's.**  So
it is in every run whose intervals are between 1 and the default. -/
theorem obeys_iff_relinksInTime (ssid password chipId : String) (checkInterval : UInt32)
    (now : ℕ) (es : List WifiEvent) :
    (Always step Obeys (start (create ssid password chipId checkInterval) now) es ↔
      Each step RelinksInTime (start (create ssid password chipId checkInterval) now) es) ∧
    ((∀ e ∈ es, WithinDefault e) →
      Always step Obeys (start (create ssid password chipId checkInterval) now) es) := by
  have hstart : Inv (start (create ssid password chipId checkInterval) now) := ⟨by nofun, by nofun⟩
  have hiff : Always step Obeys (start (create ssid password chipId checkInterval) now) es ↔
      Each step RelinksInTime (start (create ssid password chipId checkInterval) now) es :=
    always_iff_each (I := Inv) (fun _ h => h.obeys) (fun _ _ _ h => h.step)
      (fun _ _ _ h => h.not_obeys) hstart
  refine ⟨hiff, ?_⟩
  intro hwithin
  -- such an interval is over before the default is
  have hrelinks {s : WifiRun} {e : WifiEvent} (h : Inv s ∧ s.GivenInterval) :
      s.RelinksInTime e := by
    cases e with
    | elapse millis => trivial
    | connect mode interval begins => trivial
    | handleConnection isAp linked checks begins =>
        intro _ hconnecting _ _
        obtain ⟨hgiven, hshort⟩ := h.2 (h.1.attempt hconnecting).station
        exact ⟨hgiven, .inl hshort⟩
  refine hiff.mpr (Each.imp_of (I := fun s => Inv s ∧ s.GivenInterval)
    (C := fun _ e => WithinDefault e) (fun _ _ h _ => hrelinks h) ?_ ⟨hstart, ?_⟩
    (Each.of_forall fun e he _ => hwithin e he))
  · intro s e t h hwithin ht
    exact ⟨h.1.step (hrelinks h) ht, h.2.step hwithin ht⟩
  · exact fun hstation => absurd rfl hstation

/-- The user gives a minute; the link comes and is lost, and two minutes later the manager switches
to the access point. -/
theorem fallback_after_interval :
    (run step (start (create "home" "password" "ABCD" 5000) 0)
      [.connect .staAp 60000 3, .handleConnection false true 0 0, .elapse 5000,
        .handleConnection false false 1 2, .elapse 120001, .handleConnection false false 0 0]).map
          WifiRun.fallbacks = some [(60000, 120003)] ∧
    Always step Obeys (start (create "home" "password" "ABCD" 5000) 0)
      [.connect .staAp 60000 3, .handleConnection false true 0 0, .elapse 5000,
        .handleConnection false false 1 2, .elapse 120001, .handleConnection false false 0 0] :=
  ⟨by decide, (obeys_iff_relinksInTime "home" "password" "ABCD" 5000 0 _).2
    (by simp [WithinDefault, defaultConnectionInterval])⟩

/-- The user asks for a station without a fallback, the link comes and is lost, and two minutes
later the manager gives the station up. -/
theorem fallback_without_interval :
    ¬ Always step Obeys (start (create "home" "password" "ABCD" 5000) 0)
      [.connect .sta 0 0, .handleConnection false true 0 0, .elapse 5000,
        .handleConnection false false 0 0, .elapse 120001, .handleConnection false false 0 0] := by
  intro h
  have hobeys := always_iff_reached.mp h _ [] _ (List.append_nil _).symm rfl
  exact absurd (hobeys (0, 120001) (by decide)).1 (by decide)

end WifiRun

end EspIot
