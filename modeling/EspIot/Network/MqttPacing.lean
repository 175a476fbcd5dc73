/-
# `EspIot.Network.MqttPacing` — the broker is not called too often

`_connect()` is called by `begin`, and by `handle_connection` when the connection is lost and the
last attempt is more than `MQTT_RECONNECT_TIMEOUT` ago.  What is subtracted are two readings of a
clock that wraps around, and the time stamp moves: `_on_connect` takes it as well.

    stamp      no earlier than the attempt it was taken for, and never in the future
    attempt    the reading says no more than what has passed since the stamp

so two attempts are always further apart than the timeout, whatever the client library calls and
whenever the server is polled.
-/
import EspIot.Network.MqttTimeout

namespace EspIot

open Lib

namespace MqttServer

variable {P C : Type*} (topics : MqttTopics P C)

/-- The call comes to `_connect()`. -/
def Connects (s : MqttServer P C) : MqttEvent P → Prop
  | .begin _ _ _ => s.state = .uninitialized
  | .handleConnection poll =>
      s.state = .disconnected ∧
        reading (s.clock + poll.now) - s.lastConnectionAttemptTime > mqttReconnectTimeout
  | _ => False

instance (s : MqttServer P C) : (e : MqttEvent P) → Decidable (s.Connects e)
  | .begin _ _ _ => inferInstanceAs (Decidable (_ = _))
  | .handleConnection _ => inferInstanceAs (Decidable (_ ∧ _))
  | .client _ | .message _ _ _ _ | .finish | .write _ _ | .notify _ =>
      inferInstanceAs (Decidable False)

/-! ## The time stamp -/

/-- Time has passed, the time stamp is the old one or was taken meanwhile, and a server that has
begun stays so. -/
structure Later (s t : MqttServer P C) : Prop where
  clock : s.clock ≤ t.clock
  stamp : t.lastConnectionAttemptTime = s.lastConnectionAttemptTime ∨
    ∃ time, s.clock ≤ time ∧ time ≤ t.clock ∧ t.lastConnectionAttemptTime = reading time
  begun : s.state ≠ .uninitialized → t.state ≠ .uninitialized

theorem Later.refl (s : MqttServer P C) : Later s s := ⟨Nat.le_refl _, .inl rfl, id⟩

theorem Later.trans {s t u : MqttServer P C} (h₁ : Later s t) (h₂ : Later t u) : Later s u where
  clock := Nat.le_trans h₁.clock h₂.clock
  stamp := by
    rcases h₂.stamp with heq | ⟨time, hge, hle, heq⟩
    · rw [heq]
      refine h₁.stamp.imp_right ?_
      rintro ⟨time, hge, hle, heq'⟩
      exact ⟨time, hge, Nat.le_trans hle h₂.clock, heq'⟩
    · exact .inr ⟨time, Nat.le_trans h₁.clock hge, hle, heq⟩
  begun h := h₂.begun (h₁.begun h)

theorem later_changeState (state : MqttServerState) (hstate : state ≠ .uninitialized)
    (ticks : ℕ) (s : MqttServer P C) : Later s (s.changeState state ticks) :=
  ⟨Nat.le_add_right _ _, .inl rfl, fun _ => hstate⟩

theorem later_onClient (s : MqttServer P C) (c : ClientCallback) :
    Later s (s.onClient topics c) := by
  cases c with
  | connected attempt change =>
      rw [onClient, onConnect_eq]
      refine ⟨?_, .inr ⟨s.clock + attempt, Nat.le_add_right _ _, Nat.le_add_right _ _, rfl⟩, ?_⟩
      · show s.clock ≤ s.clock + attempt + change
        omega
      · exact fun _ h => by cases h
  | disconnected change => exact later_changeState .disconnected (fun h => by cases h) change s

theorem later_clients (cs : List ClientCallback) (s : MqttServer P C) :
    Later s (cs.foldl (onClient topics) s) := by
  induction cs generalizing s with
  | nil => exact .refl s
  | cons c cs ih => exact (later_onClient topics s c).trans (ih _)

theorem later_timeout (poll : Poll) (now : UInt32) (s : MqttServer P C) :
    Later s (s.timeout topics poll now) := by
  rw [timeout]
  split
  · refine Later.trans ?_ (later_clients topics _ _)
    have h := later_changeState .disconnected (fun h => by cases h) poll.abort s
    exact ⟨h.clock, h.stamp, h.begun⟩
  · exact .refl s

variable [DecidableEq P] (param : P → AbstractParameter) {s s' : MqttServer P C}

theorem later_receive (topic : CString) (payload : List UInt8) (s : MqttServer P C) :
    Later s (s.receive topics param topic payload) := by
  rw [receive]
  split
  · exact ⟨Nat.le_refl _, .inl rfl, id⟩
  · split
    · split <;> exact ⟨Nat.le_refl _, .inl rfl, id⟩
    · exact .refl s

theorem later_processNotification (p : P) (s : MqttServer P C) :
    Later s (s.processNotification topics param p) := by
  rw [processNotification]
  split
  · exact .refl s
  · split
    · exact .refl s
    · exact ⟨Nat.le_refl _, .inl rfl, id⟩

/-- The calls that do not come to `_connect()`: the stamp is moved, if at all, to a time of the
call, and a server that has not begun has not begun. -/
theorem later_step {e : MqttEvent P} (hnot : ¬ s.Connects e)
    (hs : s.step topics param e = some s') :
    Later s s' ∧ (s.state = .uninitialized → s'.state = .uninitialized) := by
  cases e with
  | begin change attempt connecting =>
      cases hs
      have hbegun : s.state ≠ .uninitialized := hnot
      rw [begin, if_pos hbegun]
      exact ⟨.refl s, id⟩
  | handleConnection poll =>
      cases hs
      have hdue : ¬ (s.state = .disconnected ∧ reading (s.clock + poll.now) -
          s.lastConnectionAttemptTime > mqttReconnectTimeout) := hnot
      rw [handleConnection]
      split
      · exact ⟨.refl s, id⟩
      · rename_i hbegun
        dsimp only [millis]
        rw [reconnect, if_neg hdue]
        have hmillis : Later s { s with clock := s.clock + poll.now } :=
          ⟨Nat.le_add_right _ _, .inl rfl, id⟩
        exact ⟨hmillis.trans (later_timeout topics poll _ _), fun h => absurd h hbegun⟩
  | client callback =>
      simp only [step] at hs
      split at hs
      · cases hs
      · rename_i hbegun
        cases hs
        exact ⟨later_onClient topics s callback, fun h => absurd h hbegun⟩
  | message topic payload index total =>
      simp only [step] at hs
      split at hs
      · cases hs
      · rename_i hbegun
        cases hs
        exact ⟨later_receive topics param _ payload s, fun h => absurd h hbegun⟩
  | finish =>
      simp only [step, finish] at hs
      split at hs
      · cases hs
      · cases hs
        exact ⟨⟨Nat.le_refl _, .inl rfl, id⟩, id⟩
  | write p v =>
      cases hs
      exact ⟨⟨Nat.le_refl _, .inl rfl, id⟩, id⟩
  | notify p =>
      cases hs
      have h := later_processNotification topics param p { s with owed := s.owed.erase p }
      refine ⟨⟨h.clock, h.stamp, h.begun⟩, fun hstate => ?_⟩
      have hsame : processNotification topics param p { s with owed := s.owed.erase p } =
          { s with owed := s.owed.erase p } := if_pos hstate
      rw [hsame]
      exact hstate

omit [DecidableEq P] in
/-- A call that comes to `_connect()`: the attempt starts in it, and the stamp is taken after
that. -/
theorem attempt_connect (s : MqttServer P C) {change attempt : ℕ} {t : MqttServer P C}
    (ht : Later (s.connect change attempt) t) (hsame : t.attempt = s.clock + change) :
    s.clock ≤ t.attempt ∧ ∃ time, t.lastConnectionAttemptTime = reading time ∧
      t.attempt ≤ time ∧ time ≤ t.clock := by
  rw [hsame]
  refine ⟨Nat.le_add_right _ _, ?_⟩
  have hclock : (s.connect change attempt).clock = s.clock + change + attempt := rfl
  have hlater := ht.clock
  rw [hclock] at hlater
  rcases ht.stamp with heq | ⟨time, hge, hle, heq⟩
  · exact ⟨s.clock + change + attempt, heq, by omega, hlater⟩
  · rw [hclock] at hge
    exact ⟨time, heq, by omega, hle⟩

end MqttServer

/-! ## The attempts of a run -/

/-- The server, with the times at which its attempts started. -/
structure MqttAttempts (P C : Type*) where
  server : MqttServer P C
  starts : List ℕ := []

namespace MqttAttempts

open MqttServer

variable {P C : Type*} (topics : MqttTopics P C) [DecidableEq P] (param : P → AbstractParameter)

def step (a : MqttAttempts P C) (e : MqttEvent P) : Option (MqttAttempts P C) :=
  (a.server.step topics param e).map fun server =>
    { server, starts := if a.server.Connects e then a.starts ++ [server.attempt] else a.starts }

/-- **Two attempts are further apart than the timeout.** -/
def Spaced (a : MqttAttempts P C) : Prop :=
  a.starts.Pairwise fun start next => start + mqttReconnectTimeout.toNat < next

/-- Besides, none started after the stamp. -/
structure Paced (a : MqttAttempts P C) : Prop where
  spaced : a.Spaced
  stamped : a.server.state ≠ .uninitialized → ∃ time,
    a.server.lastConnectionAttemptTime = reading time ∧ time ≤ a.server.clock ∧
      ∀ start ∈ a.starts, start ≤ time
  fresh : a.server.state = .uninitialized → a.starts = []

variable {topics param} {a a' : MqttAttempts P C}

omit [DecidableEq P] in
theorem Paced.connect (h : Paced a) {server : MqttServer P C}
    (hbegun : server.state ≠ .uninitialized)
    (hlate : ∀ start ∈ a.starts, start + mqttReconnectTimeout.toNat < server.attempt)
    (hstamp : ∃ time, server.lastConnectionAttemptTime = reading time ∧
      server.attempt ≤ time ∧ time ≤ server.clock) :
    Paced { server, starts := a.starts ++ [server.attempt] } where
  spaced := by
    refine List.pairwise_append.mpr ⟨h.spaced, List.pairwise_singleton _ _, ?_⟩
    intro start hstart next hnext
    rw [List.mem_singleton.mp hnext]
    exact hlate start hstart
  stamped _ := by
    obtain ⟨time, heq, hattempt, hclock⟩ := hstamp
    refine ⟨time, heq, hclock, ?_⟩
    intro start hstart
    rcases List.mem_append.mp hstart with hstart | hstart
    · have := hlate start hstart
      omega
    · rw [List.mem_singleton.mp hstart]
      exact hattempt
  fresh hstate := absurd hstate hbegun

omit [DecidableEq P] in
theorem Paced.later (h : Paced a) {server : MqttServer P C} (hlater : Later a.server server)
    (hfresh : a.server.state = .uninitialized → server.state = .uninitialized) :
    Paced { server, starts := a.starts } where
  spaced := h.spaced
  stamped hbegun := by
    obtain ⟨time, heq, hclock, hstarts⟩ := h.stamped fun hstate => hbegun (hfresh hstate)
    rcases hlater.stamp with hsame | ⟨time', hge, hle, heq'⟩
    · exact ⟨time, hsame.trans heq, Nat.le_trans hclock hlater.clock, hstarts⟩
    · refine ⟨time', heq', hle, fun start hstart => ?_⟩
      have := hstarts start hstart
      omega
  fresh hstate := by
    by_contra hne
    exact hlater.begun (fun hbefore => hne (h.fresh hbefore)) hstate

omit [DecidableEq P] in
theorem Paced.handleConnection (h : Paced a) {poll : Poll}
    (hconnects : a.server.Connects (.handleConnection poll)) :
    Paced { server := a.server.handleConnection topics poll
            starts := a.starts ++ [(a.server.handleConnection topics poll).attempt] } := by
  obtain ⟨hstate, hdue⟩ := hconnects
  have hbegun : a.server.state ≠ .uninitialized := by
    rw [hstate]
    exact fun h => by cases h
  obtain ⟨time, hstamp, hclock, hstarts⟩ := h.stamped hbegun
  have hpassed : mqttReconnectTimeout.toNat < a.server.clock + poll.now - time := by
    rw [hstamp] at hdue
    exact Nat.lt_of_lt_of_le (UInt32.lt_iff_toNat_lt.mp hdue) (reading_sub_le (by omega))
  have heq : a.server.handleConnection topics poll =
      (poll.connecting.foldl (onClient topics)
        (MqttServer.connect poll.change poll.attempt
          { a.server with clock := a.server.clock + poll.now })).timeout topics poll
            (reading (a.server.clock + poll.now)) := by
    rw [MqttServer.handleConnection, if_neg hbegun]
    dsimp only [millis]
    rw [reconnect, if_pos ⟨hstate, hdue⟩]
  have hlater := (later_clients topics poll.connecting (MqttServer.connect poll.change
    poll.attempt { a.server with clock := a.server.clock + poll.now })).trans
      (later_timeout topics poll (reading (a.server.clock + poll.now)) _)
  have hattempt := (clients_passes topics poll.connecting (MqttServer.connect poll.change
    poll.attempt { a.server with clock := a.server.clock + poll.now })).attempt_eq
  rw [← heq] at hlater
  have hsame : (a.server.handleConnection topics poll).attempt =
      a.server.clock + poll.now + poll.change := by
    rw [heq, timeout]
    split
    · exact ((clients_passes topics _ _).attempt_eq).trans hattempt
    · exact hattempt
  obtain ⟨hstart, hnew⟩ := attempt_connect _ hlater hsame
  refine h.connect (hlater.begun (fun h => by cases h)) (fun start hmem => ?_) hnew
  have hle := hstarts start hmem
  have hstart' : a.server.clock + poll.now ≤
      (a.server.handleConnection topics poll).attempt := hstart
  omega

theorem Paced.step {e : MqttEvent P} (h : Paced a) (hs : a.step topics param e = some a') :
    Paced a' := by
  obtain ⟨server, hserver, rfl⟩ := Option.map_eq_some_iff.mp hs
  by_cases hconnects : a.server.Connects e
  · rw [if_pos hconnects]
    cases e with
    | begin change attempt connecting =>
        cases hserver
        have hlater := later_clients topics connecting (a.server.connect change attempt)
        have hsame : (connecting.foldl (onClient topics)
            (a.server.connect change attempt)).attempt = a.server.clock + change :=
          (clients_passes topics connecting _).attempt_eq
        have hfirst : ¬ a.server.state ≠ .uninitialized := not_not.mpr hconnects
        rw [begin, if_neg hfirst]
        refine h.connect (hlater.begun (fun h => by cases h)) ?_
          (attempt_connect a.server hlater hsame).2
        rw [h.fresh hconnects]
        exact fun _ hmem => by cases hmem
    | handleConnection poll =>
        cases hserver
        exact h.handleConnection hconnects
    | client | message | finish | write | notify => exact absurd hconnects id
  · obtain ⟨hlater, hfresh⟩ := later_step topics param hconnects hserver
    rw [if_neg hconnects]
    exact h.later hlater hfresh

/-- **Two attempts to connect are always further apart than `MQTT_RECONNECT_TIMEOUT`.**  In every
run of calls, callbacks of the client library, messages and notifications, with any time passing
before every reading of a clock that wraps around. -/
theorem attempts_spaced (value : P → List UInt8) (es : List (MqttEvent P)) :
    Always (step topics param) Spaced { server := { value } } es :=
  Always.of_each (I := Paced) (C := fun _ _ => True) (fun _ h => h.spaced)
    (fun _ _ _ h _ hstep => h.step hstep)
    ⟨List.Pairwise.nil, fun h => absurd rfl h, fun _ => rfl⟩
    (Each.of_forall fun _ _ _ => trivial)

end MqttAttempts

end EspIot
