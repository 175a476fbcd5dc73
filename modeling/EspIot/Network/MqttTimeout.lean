/-
# `EspIot.Network.MqttTimeout` — how long a connection attempt gets

`handle_connection` reads the clock once and uses the reading in both of its
branches.  An attempt that an earlier call started is measured against a later
reading, and the difference, taken in 32 bits, is never more than the time that
has passed.  An attempt that the first branch has just started is measured
against a reading from before it began: if the clock has moved between the two,
the difference is almost 2 ^ 32 and the second branch aborts the attempt at once.

    timeout_fullTime       an older attempt is never aborted before its time
    timeout_connect        when the attempt just started is
    attempts_get_time_iff  a run gives every attempt its time iff no call is hasty
-/
import EspIot.Network.Mqtt

namespace EspIot

open Lib

namespace MqttServer

variable {P C : Type*}

/-- Every attempt that was timed out had more than `MQTT_CONNECTION_TIMEOUT` milliseconds. -/
def FullTime (s : MqttServer P C) : Prop :=
  ∀ a ∈ s.aborted, a.1 + mqttConnectionTimeout.toNat < a.2

/-- The attempt being made started in the past, and `_state_change_time` is when. -/
structure Timed (s : MqttServer P C) : Prop where
  attempt_le : s.attempt ≤ s.clock
  started : s.state = .connecting → s.stateChangeTime = reading s.attempt

/-- A step that starts no attempt and aborts none. -/
structure Passes (s t : MqttServer P C) : Prop where
  clock_le : s.clock ≤ t.clock
  attempt_eq : t.attempt = s.attempt
  aborted_eq : t.aborted = s.aborted
  connecting : t.state = .connecting →
    s.state = .connecting ∧ t.stateChangeTime = s.stateChangeTime

theorem Passes.refl (s : MqttServer P C) : Passes s s :=
  ⟨le_rfl, rfl, rfl, fun h => ⟨h, rfl⟩⟩

theorem Passes.trans {s t u : MqttServer P C} (h₁ : Passes s t) (h₂ : Passes t u) :
    Passes s u where
  clock_le := le_trans h₁.clock_le h₂.clock_le
  attempt_eq := h₂.attempt_eq.trans h₁.attempt_eq
  aborted_eq := h₂.aborted_eq.trans h₁.aborted_eq
  connecting := by
    intro hu
    obtain ⟨ht, htime⟩ := h₂.connecting hu
    obtain ⟨hs, htime'⟩ := h₁.connecting ht
    exact ⟨hs, htime.trans htime'⟩

theorem Timed.passes {s t : MqttServer P C} (h : Timed s) (hp : Passes s t) : Timed t where
  attempt_le := by
    rw [hp.attempt_eq]
    exact le_trans h.attempt_le hp.clock_le
  started := by
    intro ht
    obtain ⟨hs, htime⟩ := hp.connecting ht
    rw [htime, hp.attempt_eq]
    exact h.started hs

theorem FullTime.passes {s t : MqttServer P C} (hp : Passes s t) : FullTime t ↔ FullTime s := by
  simp only [FullTime]
  rw [hp.aborted_eq]

/-! ## The functions of the server -/

theorem millis_passes (ticks : ℕ) (s : MqttServer P C) : Passes s (s.millis ticks).2 :=
  ⟨Nat.le_add_right _ _, rfl, rfl, fun h => ⟨h, rfl⟩⟩

theorem changeState_passes {state : MqttServerState} (hstate : state ≠ .connecting) (ticks : ℕ)
    (s : MqttServer P C) : Passes s (s.changeState state ticks) :=
  ⟨Nat.le_add_right _ _, rfl, rfl, fun h => absurd h hstate⟩

section
variable (topics : MqttTopics P C)

theorem foldl_subscribe (ts : List CString) (s : MqttServer P C) :
    ts.foldl (fun s topic => s.subscribe topics topic) s =
      { s with
        effects := s.effects ++ ts.map fun t => .subscribe (topics.topicPrefix.append t) } := by
  induction ts generalizing s with
  | nil => simp
  | cons t ts ih =>
      rw [List.foldl_cons, ih]
      simp [subscribe]

theorem onConnect_eq (attempt change : ℕ) (s : MqttServer P C) :
    s.onConnect topics attempt change =
      { s with
        state := .connected
        stateChangeTime := reading (s.clock + attempt + change)
        lastConnectionAttemptTime := reading (s.clock + attempt)
        clock := s.clock + attempt + change
        effects := s.effects ++ (CString.inOrder topics.commands.keys ++
          CString.inOrder topics.parameters.keys).map fun t =>
            .subscribe (topics.topicPrefix.append t) } := by
  simp only [onConnect, foldl_subscribe, changeState, millis, List.map_append, List.append_assoc]

theorem onClient_state (s : MqttServer P C) (c : ClientCallback) :
    (s.onClient topics c).state ≠ .connecting := by
  cases c with
  | connected attempt change => simp [onClient, onConnect_eq]
  | disconnected change => simp [onClient, onDisconnect, changeState]

theorem onClient_passes (s : MqttServer P C) (c : ClientCallback) :
    Passes s (s.onClient topics c) := by
  cases c with
  | connected attempt change =>
      rw [onClient, onConnect_eq]
      exact ⟨by simp only; omega, rfl, rfl, fun h => by cases h⟩
  | disconnected change => exact changeState_passes (by decide) change s

theorem clients_passes (cs : List ClientCallback) (s : MqttServer P C) :
    Passes s (cs.foldl (onClient topics) s) := by
  induction cs generalizing s with
  | nil => exact .refl s
  | cons c cs ih => exact (onClient_passes topics s c).trans (ih _)

theorem clients_state {cs : List ClientCallback} (hcs : cs ≠ []) :
    ∀ s : MqttServer P C, (cs.foldl (onClient topics) s).state ≠ .connecting := by
  induction cs with
  | nil => exact absurd rfl hcs
  | cons c cs ih =>
      intro s
      cases cs with
      | nil => exact onClient_state topics s c
      | cons d ds => exact ih (by simp) _

theorem connect_timed (change attempt : ℕ) (s : MqttServer P C) :
    Timed (s.connect change attempt) :=
  ⟨Nat.le_add_right _ _, fun _ => rfl⟩

theorem publish_passes (topic : CString) (payload : List UInt8) (s : MqttServer P C) :
    Passes s (s.publish topics topic payload) :=
  ⟨le_rfl, rfl, rfl, fun h => ⟨h, rfl⟩⟩

variable [DecidableEq P] (param : P → AbstractParameter)

theorem receive_passes (topic : CString) (payload : List UInt8) (s : MqttServer P C) :
    Passes s (s.receive topics param topic payload) := by
  rw [receive]
  split
  · exact ⟨le_rfl, rfl, rfl, fun h => ⟨h, rfl⟩⟩
  split
  · split <;> exact ⟨le_rfl, rfl, rfl, fun h => ⟨h, rfl⟩⟩
  · exact .refl s

theorem processNotification_passes (p : P) (s : MqttServer P C) :
    Passes s (s.processNotification topics param p) := by
  rw [processNotification]
  split
  · exact .refl s
  split
  · exact .refl s
  · exact publish_passes ..

/-! ## One call of `handle_connection` -/

omit [DecidableEq P] in
/-- The second branch on an attempt that started no later than the reading: it aborts nothing
before its time. -/
theorem timeout_fullTime {s : MqttServer P C} {now : ℕ} (poll : Poll) (hs : Timed s)
    (hnow : s.attempt ≤ now) (hclock : now ≤ s.clock) (hfull : FullTime s) :
    FullTime (s.timeout topics poll (reading now)) := by
  rw [timeout]
  split
  · rename_i hcond
    obtain ⟨hstate, -, helapsed⟩ := hcond
    rw [FullTime.passes (clients_passes topics _ _)]
    intro a ha
    rcases List.mem_append.mp ha with ha | ha
    · exact hfull a ha
    · have heq : a = (s.attempt, s.clock + poll.abort) := List.mem_singleton.mp ha
      have hlate : mqttConnectionTimeout.toNat < now - s.attempt := by
        rw [hs.started hstate] at helapsed
        exact lt_of_lt_of_le (UInt32.lt_iff_toNat_lt.mp helapsed) (reading_sub_le hnow)
      rw [heq]
      show s.attempt + mqttConnectionTimeout.toNat < s.clock + poll.abort
      omega
  · exact hfull

omit [DecidableEq P] in
theorem timeout_timed {s : MqttServer P C} (poll : Poll) (now : UInt32) (hs : Timed s) :
    Timed (s.timeout topics poll now) := by
  rw [timeout]
  split
  · refine Timed.passes ?_ (clients_passes topics _ _)
    exact ⟨le_trans hs.attempt_le (Nat.le_add_right _ _), fun h => by cases h⟩
  · exact hs

/-- The call starts an attempt and aborts it at once: the clock has moved between its first reading
and the one in `_change_state`, no callback has ended the attempt and the client is not connected
yet, and the call itself takes no longer than the timeout. -/
def Hasty (s : MqttServer P C) (poll : Poll) : Prop :=
  s.state = .disconnected ∧
    reading (s.clock + poll.now) - s.lastConnectionAttemptTime > mqttReconnectTimeout ∧
    poll.connecting = [] ∧ poll.clientConnected = false ∧
    0 < poll.change % 2 ^ 32 ∧ poll.change % 2 ^ 32 + mqttConnectionTimeout.toNat < 2 ^ 32 ∧
    poll.attempt + poll.abort ≤ mqttConnectionTimeout.toNat

omit [DecidableEq P] in
/-- The reading `handle_connection` starts with, against the time stamp of an attempt that began
`change` milliseconds later. -/
theorem late_start_iff (now change : ℕ) :
    reading now - reading (now + change) > mqttConnectionTimeout ↔
      0 < change % 2 ^ 32 ∧ change % 2 ^ 32 + mqttConnectionTimeout.toNat < 2 ^ 32 := by
  have hval : mqttConnectionTimeout.toNat = 15000 := rfl
  rw [gt_iff_lt, UInt32.lt_iff_toNat_lt, sub_reading (Nat.le_add_right _ _), hval,
    Nat.add_sub_cancel_left]
  omega

omit [DecidableEq P] in
theorem timeout_connect (s : MqttServer P C) (poll : Poll)
    (hfull : FullTime s) :
    FullTime ((s.connect poll.change poll.attempt).timeout topics poll (reading s.clock)) ↔
      ¬ (poll.clientConnected = false ∧ 0 < poll.change % 2 ^ 32 ∧
        poll.change % 2 ^ 32 + mqttConnectionTimeout.toNat < 2 ^ 32 ∧
        poll.attempt + poll.abort ≤ mqttConnectionTimeout.toNat) := by
  have hcond := late_start_iff s.clock poll.change
  rw [timeout]
  by_cases haborts : poll.clientConnected = false ∧
      reading s.clock - reading (s.clock + poll.change) > mqttConnectionTimeout
  · rw [if_pos ⟨rfl, haborts⟩, FullTime.passes (clients_passes topics _ _)]
    obtain ⟨hconn, hlate⟩ := haborts
    have hmove := hcond.mp hlate
    have hmem : ∀ a, a ∈ (s.aborted ++ [(s.clock + poll.change,
        s.clock + poll.change + poll.attempt + poll.abort)]) ↔
        a ∈ s.aborted ∨ a = (s.clock + poll.change,
          s.clock + poll.change + poll.attempt + poll.abort) := by
      simp
    constructor
    · rintro h ⟨-, -, -, hshort⟩
      have hbad := h _ ((hmem _).mpr (.inr rfl))
      simp only at hbad
      omega
    · intro hnot a ha
      rcases (hmem a).mp ha with ha | rfl
      · exact hfull a ha
      · have hlong : ¬ poll.attempt + poll.abort ≤ mqttConnectionTimeout.toNat :=
          fun hle => hnot ⟨hconn, hmove.1, hmove.2, hle⟩
        simp only
        omega
  · rw [if_neg (fun h => haborts h.2)]
    refine iff_of_true hfull ?_
    rintro ⟨hconn, hpos, hlt, -⟩
    exact haborts ⟨hconn, hcond.mpr ⟨hpos, hlt⟩⟩

omit [DecidableEq P] in
/-- A call of `handle_connection` aborts an attempt before its time iff it is a hasty one. -/
theorem handleConnection_fullTime {s : MqttServer P C} (poll : Poll) (hs : Timed s)
    (hfull : FullTime s) : FullTime (s.handleConnection topics poll) ↔ ¬ Hasty s poll := by
  rw [handleConnection]
  split
  · rename_i hstate
    refine iff_of_true hfull ?_
    rintro ⟨hdisc, -⟩
    rw [hstate] at hdisc
    cases hdisc
  simp only [millis]
  have hmillis := hs.passes (millis_passes poll.now s)
  rw [reconnect]
  split
  · rename_i hdue
    cases hcs : poll.connecting with
    | nil =>
        -- the attempt is still being made when the second branch looks at it
        have hnew := timeout_connect topics (s.millis poll.now).2 poll hfull
        simp only [millis] at hnew
        rw [List.foldl_nil, hnew, not_iff_not]
        exact ⟨fun h => ⟨hdue.1, hdue.2, hcs, h⟩, fun h => h.2.2.2⟩
    | cons c cs =>
        -- a callback has ended it
        have hended := clients_state topics (List.cons_ne_nil c cs)
          (connect poll.change poll.attempt { s with clock := s.clock + poll.now })
        rw [timeout, if_neg fun h => hended h.1, FullTime.passes (clients_passes topics _ _)]
        exact iff_of_true hfull fun h => by simp [Hasty, hcs] at h
  · rename_i hdue
    refine iff_of_true (timeout_fullTime topics poll hmillis ?_ le_rfl hfull) ?_
    · exact hmillis.attempt_le
    · rintro ⟨hstate, helapsed, -⟩
      exact hdue ⟨hstate, helapsed⟩

omit [DecidableEq P] in
theorem handleConnection_timed {s : MqttServer P C} (poll : Poll) (hs : Timed s) :
    Timed (s.handleConnection topics poll) := by
  rw [handleConnection]
  split
  · exact hs
  refine timeout_timed topics poll _ ?_
  rw [reconnect]
  split
  · exact (connect_timed ..).passes (clients_passes topics _ _)
  · exact hs.passes (millis_passes poll.now s)

/-! ## Every run -/

/-- No attempt is started by a hasty call. -/
def Unhurried (s : MqttServer P C) : MqttEvent P → Prop
  | .handleConnection poll => ¬ Hasty s poll
  | _ => True

theorem step_passes {s s' : MqttServer P C} {e : MqttEvent P}
    (h : s.step topics param e = some s') :
    (∃ change attempt connecting, e = .begin change attempt connecting) ∨
      (∃ poll, e = .handleConnection poll) ∨ Passes s s' := by
  cases e with
  | begin change attempt connecting => exact .inl ⟨change, attempt, connecting, rfl⟩
  | handleConnection poll => exact .inr (.inl ⟨poll, rfl⟩)
  | client callback =>
      simp only [step] at h
      split at h <;> cases h
      exact .inr (.inr (onClient_passes topics s callback))
  | message topic payload index total =>
      simp only [step] at h
      split at h <;> cases h
      exact .inr (.inr (receive_passes topics param _ _ s))
  | finish =>
      simp only [step, finish] at h
      split at h <;> cases h
      exact .inr (.inr ⟨le_rfl, rfl, rfl, fun h => ⟨h, rfl⟩⟩)
  | write p v =>
      cases h
      exact .inr (.inr ⟨le_rfl, rfl, rfl, fun h => ⟨h, rfl⟩⟩)
  | notify p =>
      cases h
      have hp := processNotification_passes topics param p { s with owed := s.owed.erase p }
      exact .inr (.inr ⟨hp.clock_le, hp.attempt_eq, hp.aborted_eq, hp.connecting⟩)

theorem step_timed {s s' : MqttServer P C} {e : MqttEvent P} (hs : Timed s)
    (h : s.step topics param e = some s') : Timed s' := by
  rcases step_passes topics param h with ⟨change, attempt, connecting, rfl⟩ | ⟨poll, rfl⟩ | hp
  · cases h
    rw [begin]
    split
    · exact hs
    · exact (connect_timed change attempt s).passes (clients_passes topics _ _)
  · cases h
    exact handleConnection_timed topics poll hs
  · exact hs.passes hp

/-- One step aborts an attempt before its time iff it is a hasty call of `handle_connection`. -/
theorem step_fullTime {s s' : MqttServer P C} {e : MqttEvent P} (hs : Timed s)
    (hfull : FullTime s) (h : s.step topics param e = some s') :
    FullTime s' ↔ Unhurried s e := by
  rcases step_passes topics param h with ⟨change, attempt, connecting, rfl⟩ | ⟨poll, rfl⟩ | hp
  · cases h
    refine iff_of_true ?_ trivial
    rw [begin]
    split
    · exact hfull
    · rw [FullTime.passes (clients_passes topics _ _)]
      exact hfull
  · cases h
    exact handleConnection_fullTime topics poll hs hfull
  · refine iff_of_true ((FullTime.passes hp).mpr hfull) ?_
    cases e with
    | handleConnection poll =>
        -- a hasty call aborts something
        intro hhasty
        cases h
        exact (handleConnection_fullTime topics poll hs hfull).mp
          ((FullTime.passes hp).mpr hfull) hhasty
    | _ => trivial

/-- **In a run of the server every aborted attempt has had its full time iff no call of
`handle_connection` is hasty.** -/
theorem attempts_get_time_iff (value : P → List UInt8) (es : List (MqttEvent P)) :
    Always (step topics param) FullTime { value } es ↔
      Each (step topics param) Unhurried { value } es := by
  refine always_iff_each (I := fun s => Timed s ∧ FullTime s) (fun s h => h.2) ?_ ?_ ?_
  · rintro s e s' ⟨hs, hfull⟩ hc h
    exact ⟨step_timed topics param hs h, (step_fullTime topics param hs hfull h).mpr hc⟩
  · rintro s e s' ⟨hs, hfull⟩ hc h hfull'
    exact hc ((step_fullTime topics param hs hfull h).mp hfull')
  · exact ⟨⟨le_rfl, fun h => by cases h⟩, by simp [FullTime]⟩

end

/-- The first connection is lost, and more than `MQTT_RECONNECT_TIMEOUT` later a poll starts the
next attempt; one millisecond passes between its first reading and the one in `_change_state`. -/
def hastyPoll : List (MqttEvent Unit) :=
  [.begin 0 0 [], .client (.disconnected 10), .handleConnection { now := 6000, change := 1 }]

/-- The attempt that `hastyPoll` starts is aborted within the same call. -/
theorem attempt_aborted_at_once :
    ∃ s : MqttServer Unit Unit,
      run (step { topicPrefix := ⟨[], by simp⟩ } fun _ => ComplexParameter 1)
        { value := fun _ => [] } hastyPoll = some s ∧
      s.aborted = [(6011, 6011)] ∧ ¬ FullTime s := by
  refine ⟨_, rfl, by decide, ?_⟩
  intro h
  exact absurd (h (6011, 6011) (by decide)) (by decide)

end MqttServer

end EspIot
