/-
# `EspIot.Network.MqttMirror` — what the broker retains of a parameter

A parameter changes through MQTT or through a writer that then notifies the bus,
and each of the two ends in one call of `_publish_impl` on the topic the
parameter was registered with.  Between the change and that call the broker may
lag behind; `Mirrors` says that this is the only lag: of a parameter with no
call outstanding, the last call carried the present value.

Whether the broker has seen that call is another matter.  `_publish_impl` drops
what it is given outside CONNECTED, and `_on_connect` publishes nothing, so what
changes while the connection is down is not made good when it is up again
(`stale_after_reconnect`).
-/
import EspIot.Network.MqttTimeout
import Mathlib.Data.List.Induction

namespace EspIot

open Lib

/-! ## One topic for each parameter -/

namespace Registration

variable {P C : Type*}

/-- The entry of `_parameters_topic` that a registration makes. -/
def outgoing : Registration P C → Option (P × CString)
  | .command _ _ => none
  | .notification topic p => some (p, topic)
  | .parameter _ topicOut p => some (p, topicOut)

end Registration

/-- Each parameter is registered once, and no two for the same outgoing topic. -/
structure OneTopicEach {P C : Type*} (registrations : List (Registration P C)) : Prop where
  parameters : ((registrations.filterMap Registration.outgoing).map Prod.fst).Nodup
  topics : ((registrations.filterMap Registration.outgoing).map Prod.snd).Nodup

namespace MqttTopics

variable {P C : Type*} [DecidableEq P]

theorem setup_snoc (topicPrefix : CString) (rs : List (Registration P C)) (r : Registration P C) :
    setup topicPrefix (rs ++ [r]) = (setup topicPrefix rs).register r := by
  simp [setup]

theorem setup_prefix (topicPrefix : CString) (rs : List (Registration P C)) :
    (setup topicPrefix rs).topicPrefix = topicPrefix := by
  induction rs using List.reverseRecOn with
  | nil => rfl
  | append_singleton rs r ih =>
      rw [setup_snoc]
      cases r <;> exact ih

theorem setup_parameters {topicPrefix : CString} {rs : List (Registration P C)}
    {topicIn topicOut : CString} {p : P}
    (h : (setup topicPrefix rs).parameters.lookup topicIn = some (topicOut, p)) :
    (p, topicOut) ∈ rs.filterMap Registration.outgoing := by
  induction rs using List.reverseRecOn with
  | nil => cases h
  | append_singleton rs r ih =>
      rw [setup_snoc] at h
      rw [List.filterMap_append, List.mem_append]
      cases r with
      | command topic command => exact .inl (ih h)
      | notification topic q => exact .inl (ih h)
      | parameter newIn newOut q =>
          by_cases heq : topicIn = newIn
          · subst heq
            rw [register, registerParameter, AList.lookup_insert] at h
            cases h
            exact .inr (by simp [Registration.outgoing])
          · rw [register, registerParameter, AList.lookup_insert_ne heq] at h
            exact .inl (ih h)

theorem setup_topic (topicPrefix : CString) {rs : List (Registration P C)}
    (hrs : ((rs.filterMap Registration.outgoing).map Prod.fst).Nodup) (p : P) (topic : CString) :
    (setup topicPrefix rs).parametersTopic.lookup p = some topic ↔
      (p, topic) ∈ rs.filterMap Registration.outgoing := by
  induction rs using List.reverseRecOn with
  | nil => exact iff_of_false (fun h => by cases h) (by simp)
  | append_singleton rs r ih =>
      rw [List.filterMap_append, List.map_append, List.nodup_append'] at hrs
      obtain ⟨hinit, -, hfresh⟩ := hrs
      rw [setup_snoc, List.filterMap_append, List.mem_append, ← ih hinit]
      -- a registration with an entry puts it first, for a parameter that had none
      have hinsert : ∀ (q : P) (t : CString), r.outgoing = some (q, t) →
          ((setup topicPrefix rs).register r).parametersTopic =
            (setup topicPrefix rs).parametersTopic.insert q t →
          (((setup topicPrefix rs).register r).parametersTopic.lookup p = some topic ↔
            (setup topicPrefix rs).parametersTopic.lookup p = some topic ∨
              (p, topic) ∈ [r].filterMap Registration.outgoing) := by
        intro q t hr hmap
        rw [hmap]
        simp only [List.filterMap_cons, hr, List.filterMap_nil, List.mem_singleton,
          Prod.mk.injEq]
        by_cases hpq : p = q
        · subst hpq
          have hnone : ¬ (setup topicPrefix rs).parametersTopic.lookup p = some topic := by
            rw [ih hinit]
            intro hmem
            refine hfresh (List.mem_map_of_mem (f := Prod.fst) hmem) ?_
            simp [hr]
          rw [AList.lookup_insert]
          simp only [hnone, false_or, true_and, Option.some.injEq, eq_comm]
        · rw [AList.lookup_insert_ne hpq]
          simp [hpq]
      cases r with
      | command t c => simp [register, registerCommand, Registration.outgoing]
      | notification t q => exact hinsert q t rfl rfl
      | parameter tIn t q => exact hinsert q t rfl rfl

end MqttTopics

/-! ## What the broker has seen -/

section
variable {P C : Type*}

/-- The calls of `_publish_impl` for one topic: the payload, and whether it was sent. -/
def outputs (topic : CString) (effects : List (MqttEffect P C)) : List (Bool × List UInt8) :=
  effects.filterMap fun
    | .publish t payload => if t = topic then some (true, payload) else none
    | .skip t payload => if t = topic then some (false, payload) else none
    | _ => none

/-- The payload the broker retains for a topic: the last one that was sent. -/
def retained (topic : CString) (effects : List (MqttEffect P C)) : Option (List UInt8) :=
  (effects.filterMap fun
    | .publish t payload => if t = topic then some payload else none
    | _ => none).getLast?

theorem retained_eq (topic : CString) (effects : List (MqttEffect P C)) :
    retained topic effects = (((outputs topic effects).filter Prod.fst).map Prod.snd).getLast? := by
  rw [retained, outputs]
  congr 1
  induction effects with
  | nil => rfl
  | cons e effects ih =>
      cases e with
      | publish t payload =>
          by_cases ht : t = topic <;> simp [ht, ih]
      | skip t payload =>
          by_cases ht : t = topic <;> simp [ht, ih]
      | _ => simpa [List.filterMap_cons] using ih

theorem retained_of_last {topic : CString} {effects : List (MqttEffect P C)} {payload : List UInt8}
    (h : (outputs topic effects).getLast? = some (true, payload)) :
    retained topic effects = some payload := by
  obtain ⟨init, hinit⟩ := List.getLast?_eq_some_iff.mp h
  rw [retained_eq, hinit]
  simp

theorem outputs_append (topic : CString) (es fs : List (MqttEffect P C)) :
    outputs topic (es ++ fs) = outputs topic es ++ outputs topic fs :=
  List.filterMap_append

end

namespace MqttServer

variable {P C : Type*} (topics : MqttTopics P C)

/-- A step that changes no parameter and publishes nothing. -/
structure Mute (s t : MqttServer P C) : Prop where
  value_eq : t.value = s.value
  frames_eq : t.frames = s.frames
  owed_eq : t.owed = s.owed
  outputs_eq : ∀ topic, outputs topic t.effects = outputs topic s.effects

theorem Mute.refl (s : MqttServer P C) : Mute s s := ⟨rfl, rfl, rfl, fun _ => rfl⟩

theorem Mute.trans {s t u : MqttServer P C} (h₁ : Mute s t) (h₂ : Mute t u) : Mute s u where
  value_eq := h₂.value_eq.trans h₁.value_eq
  frames_eq := h₂.frames_eq.trans h₁.frames_eq
  owed_eq := h₂.owed_eq.trans h₁.owed_eq
  outputs_eq topic := (h₂.outputs_eq topic).trans (h₁.outputs_eq topic)

theorem onClient_mute (s : MqttServer P C) (c : ClientCallback) : Mute s (s.onClient topics c) := by
  cases c with
  | connected attempt change =>
      rw [onClient, onConnect_eq]
      refine ⟨rfl, rfl, rfl, ?_⟩
      intro topic
      rw [outputs_append]
      simp [outputs, List.filterMap_map]
  | disconnected change => exact ⟨rfl, rfl, rfl, fun _ => rfl⟩

theorem clients_mute (cs : List ClientCallback) (s : MqttServer P C) :
    Mute s (cs.foldl (onClient topics) s) := by
  induction cs generalizing s with
  | nil => exact .refl s
  | cons c cs ih => exact (onClient_mute topics s c).trans (ih _)

theorem connect_mute (change attempt : ℕ) (s : MqttServer P C) :
    Mute s (s.connect change attempt) := ⟨rfl, rfl, rfl, fun _ => rfl⟩

theorem begin_mute (change attempt : ℕ) (connecting : List ClientCallback) (s : MqttServer P C) :
    Mute s (s.begin topics change attempt connecting) := by
  rw [begin]
  split
  · exact .refl s
  · exact (connect_mute change attempt s).trans (clients_mute topics _ _)

theorem reconnect_mute (poll : Poll) (now : UInt32) (s : MqttServer P C) :
    Mute s (s.reconnect topics poll now) := by
  rw [reconnect]
  split
  · exact (connect_mute _ _ s).trans (clients_mute topics _ _)
  · exact .refl s

theorem timeout_mute (poll : Poll) (now : UInt32) (s : MqttServer P C) :
    Mute s (s.timeout topics poll now) := by
  rw [timeout]
  split
  · have h := clients_mute topics poll.disconnecting
      { s.changeState .disconnected poll.abort with
        aborted := s.aborted ++ [(s.attempt, s.clock + poll.abort)] }
    exact ⟨h.value_eq, h.frames_eq, h.owed_eq, h.outputs_eq⟩
  · exact .refl s

theorem handleConnection_mute (poll : Poll) (s : MqttServer P C) :
    Mute s (s.handleConnection topics poll) := by
  rw [handleConnection]
  split
  · exact .refl s
  · have hmillis : Mute s (s.millis poll.now).2 := ⟨rfl, rfl, rfl, fun _ => rfl⟩
    exact (hmillis.trans (reconnect_mute topics poll _ _)).trans (timeout_mute topics poll _ _)

variable (param : P → AbstractParameter)

/-- Where nothing is outstanding for a parameter, the last publication on its topic carried its
present value. -/
structure Mirrors (s : MqttServer P C) [DecidableEq P] : Prop where
  frames_topic : ∀ f ∈ s.frames, topics.parametersTopic.lookup f.2 = some f.1
  silent : s.state = .uninitialized → s.frames = [] ∧ ∀ topic, outputs topic s.effects = []
  current : ∀ p topic, topics.parametersTopic.lookup p = some topic → p ∉ s.owed →
    (topic, p) ∉ s.frames → ∀ output, (outputs (topics.topicPrefix.append topic)
      s.effects).getLast? = some output → output.2 = (param p).toString (s.value p)

variable {topics param} [DecidableEq P] {s t : MqttServer P C}

theorem Mirrors.mute (h : Mirrors topics param s) (hm : Mute s t)
    (hstate : t.state = .uninitialized → s.state = .uninitialized) : Mirrors topics param t where
  frames_topic := by
    rw [hm.frames_eq]
    exact h.frames_topic
  silent := by
    intro ht
    obtain ⟨hframes, hout⟩ := h.silent (hstate ht)
    exact ⟨hm.frames_eq.trans hframes, fun topic => (hm.outputs_eq topic).trans (hout topic)⟩
  current := by
    rw [hm.value_eq, hm.frames_eq, hm.owed_eq]
    intro p topic hp howed hframe output
    rw [hm.outputs_eq]
    exact h.current p topic hp howed hframe output

/-- The publication of a parameter's present value settles what was outstanding for it, and
touches the topic of no other. -/
theorem Mirrors.publish {p : P} {topic : CString} {frames : List (CString × P)} {owed : List P}
    (h : Mirrors topics param s) (hinit : s.state ≠ .uninitialized)
    (hdistinct : ∀ p q t, topics.parametersTopic.lookup p = some t →
      topics.parametersTopic.lookup q = some t → p = q)
    (hp : topics.parametersTopic.lookup p = some topic)
    (hframes : ∀ f ∈ frames, f ∈ s.frames) (hrest : ∀ f ∈ s.frames, f.2 ≠ p → f ∈ frames)
    (howed : ∀ q ∈ s.owed, q ≠ p → q ∈ owed) :
    Mirrors topics param
      (({ s with frames, owed } : MqttServer P C).publish topics topic
        ((param p).toString (s.value p))) where
  frames_topic f hf := h.frames_topic f (hframes f hf)
  silent hstate := absurd hstate hinit
  current := by
    intro q t hq hnotOwed hnotFrame output
    simp only [MqttServer.publish, outputs_append]
    by_cases hqp : q = p
    · -- the value just given out is the present one
      subst hqp
      cases hp.symm.trans hq
      intro hout
      split at hout <;>
        (simp only [outputs, List.filterMap_cons, if_true, List.filterMap_nil,
          List.getLast?_append, List.getLast?_singleton, Option.some_or,
          Option.some.injEq] at hout
         rw [← hout])
    · have hne : topics.topicPrefix.append topic ≠ topics.topicPrefix.append t := by
        intro heq
        have htopic := CString.append_left_inj heq
        subst htopic
        exact hqp (hdistinct q p topic hq hp)
      have hnone : outputs (topics.topicPrefix.append t)
          [if s.state ≠ .connected then
            (.skip (topics.topicPrefix.append topic) ((param p).toString (s.value p)) :
              MqttEffect P C)
          else .publish (topics.topicPrefix.append topic) ((param p).toString (s.value p))] =
            [] := by
        split <;> simp [outputs, hne]
      rw [hnone, List.append_nil]
      exact h.current q t hq (fun hmem => hnotOwed (howed q hmem hqp))
        (fun hmem => hnotFrame (hrest _ hmem hqp)) output

/-- A parameter that another writer changes is outstanding until that writer notifies the bus. -/
theorem Mirrors.write (h : Mirrors topics param s) (p : P) (v : List UInt8) :
    Mirrors topics param { s with value := Function.update s.value p v, owed := p :: s.owed } where
  frames_topic := h.frames_topic
  silent := h.silent
  current := by
    intro q topic hq hnotOwed hnotFrame output hout
    have hqp : q ≠ p := fun heq => hnotOwed (heq ▸ List.mem_cons_self)
    have hvalue : Function.update s.value p v q = s.value q := Function.update_of_ne hqp ..
    simp only [hvalue]
    exact h.current q topic hq (fun hmem => hnotOwed (List.mem_cons_of_mem _ hmem)) hnotFrame
      output hout

theorem Mirrors.receive (h : Mirrors topics param s) (hinit : s.state ≠ .uninitialized)
    (hroute : ∀ topicIn out p, topics.parameters.lookup topicIn = some (out, p) →
      topics.parametersTopic.lookup p = some out) (topic : CString) (payload : List UInt8) :
    Mirrors topics param (s.receive topics param topic payload) := by
  have hquiet : ∀ e : MqttEffect P C, (∀ t, outputs t [e] = []) →
      Mirrors topics param { s with effects := s.effects ++ [e] } := by
    intro e he
    refine h.mute ⟨rfl, rfl, rfl, ?_⟩ id
    intro t
    rw [outputs_append, he, List.append_nil]
  rw [MqttServer.receive]
  split
  · exact hquiet _ fun _ => rfl
  split
  · rename_i out p hp
    split
    · -- the parameter is outstanding until `finish`
      rename_i v hv
      have hout : ∀ t, outputs t (s.effects ++ [.parse p payload, .notifyBus p]) =
          outputs t s.effects := by
        intro t
        rw [outputs_append]
        exact List.append_nil _
      refine ⟨?_, fun hstate => absurd hstate hinit, ?_⟩
      · intro f hf
        rcases List.mem_cons.mp hf with rfl | hf
        · exact hroute topic out p hp
        · exact h.frames_topic f hf
      · intro q t hq hnotOwed hnotFrame output
        have hqp : q ≠ p := by
          rintro rfl
          cases (hroute topic out q hp).symm.trans hq
          exact hnotFrame List.mem_cons_self
        have hvalue : Function.update s.value p v q = s.value q := Function.update_of_ne hqp ..
        simp only [hout, hvalue]
        exact h.current q t hq hnotOwed (fun hmem => hnotFrame (List.mem_cons_of_mem _ hmem)) output
    · exact hquiet _ fun _ => rfl
  · exact h

omit [DecidableEq P] in
theorem client_initialized (cs : List ClientCallback) :
    ∀ s : MqttServer P C, s.state ≠ .uninitialized →
      (cs.foldl (onClient topics) s).state ≠ .uninitialized := by
  induction cs with
  | nil => exact fun _ h => h
  | cons c cs ih =>
      intro s _
      refine ih _ ?_
      cases c with
      | connected attempt change =>
          rw [onClient, onConnect_eq]
          exact fun h => by cases h
      | disconnected change => exact fun h => by cases h

omit [DecidableEq P] in
theorem handleConnection_initialized (poll : Poll) (hs : s.state ≠ .uninitialized) :
    (s.handleConnection topics poll).state ≠ .uninitialized := by
  have hre : ((s.millis poll.now).2.reconnect topics poll (s.millis poll.now).1).state ≠
      .uninitialized := by
    rw [reconnect]
    split
    · exact client_initialized _ _ fun h => by cases h
    · exact hs
  rw [handleConnection]
  rw [if_neg hs]
  show (((s.millis poll.now).2.reconnect topics poll (s.millis poll.now).1).timeout topics poll
    (s.millis poll.now).1).state ≠ .uninitialized
  rw [timeout]
  split
  · exact client_initialized _ _ fun h => by cases h
  · exact hre

theorem Mirrors.finish (h : Mirrors topics param s)
    (hdistinct : ∀ p q t, topics.parametersTopic.lookup p = some t →
      topics.parametersTopic.lookup q = some t → p = q)
    (hs : s.finish topics param = some t) : Mirrors topics param t := by
  rw [MqttServer.finish] at hs
  split at hs
  · cases hs
  · rename_i out p frames hframes
    cases hs
    have hinit : s.state ≠ .uninitialized := by
      intro hstate
      rw [(h.silent hstate).1] at hframes
      cases hframes
    refine h.publish hinit hdistinct ?_ ?_ ?_ fun q hq _ => hq
    · exact h.frames_topic (out, p) (by rw [hframes]; exact List.mem_cons_self)
    · intro f hf
      rw [hframes]
      exact List.mem_cons_of_mem _ hf
    · intro f hf hne
      rw [hframes] at hf
      rcases List.mem_cons.mp hf with rfl | hf
      · exact absurd rfl hne
      · exact hf

theorem Mirrors.notify (h : Mirrors topics param s)
    (hdistinct : ∀ p q t, topics.parametersTopic.lookup p = some t →
      topics.parametersTopic.lookup q = some t → p = q) (p : P) :
    Mirrors topics param
      ({ s with owed := s.owed.erase p }.processNotification topics param p) := by
  have hkeep : ∀ q ∈ s.owed, q ≠ p → q ∈ s.owed.erase p := by
    intro q hq hne
    exact (List.mem_erase_of_ne hne).mpr hq
  rw [processNotification]
  split
  · -- the server has not begun: nothing was ever published
    rename_i hstate
    refine ⟨h.frames_topic, h.silent, ?_⟩
    intro q topic _ _ _ output hout
    rw [(h.silent hstate).2] at hout
    cases hout
  · rename_i hinit
    split
    · rename_i hnone
      refine ⟨h.frames_topic, h.silent, ?_⟩
      intro q topic hq hnotOwed hnotFrame
      have hqp : q ≠ p := by
        rintro rfl
        rw [hnone] at hq
        cases hq
      exact h.current q topic hq (fun hmem => hnotOwed (hkeep q hmem hqp)) hnotFrame
    · rename_i topic htopic
      exact h.publish hinit hdistinct htopic (fun f hf => hf) (fun f hf _ => hf) hkeep

theorem Mirrors.step {e : MqttEvent P} (h : Mirrors topics param s)
    (hdistinct : ∀ p q t, topics.parametersTopic.lookup p = some t →
      topics.parametersTopic.lookup q = some t → p = q)
    (hroute : ∀ topicIn out p, topics.parameters.lookup topicIn = some (out, p) →
      topics.parametersTopic.lookup p = some out)
    (hs : s.step topics param e = some t) : Mirrors topics param t := by
  cases e with
  | begin change attempt connecting =>
      cases hs
      refine h.mute (begin_mute topics ..) ?_
      intro hstate
      rw [begin] at hstate
      split at hstate
      · exact hstate
      · exact absurd hstate (client_initialized _ _ (by simp [connect, changeState, millis]))
  | handleConnection poll =>
      cases hs
      refine h.mute (handleConnection_mute topics poll s) ?_
      intro hstate
      by_contra hne
      exact handleConnection_initialized poll hne hstate
  | client callback =>
      simp only [MqttServer.step] at hs
      split at hs <;> cases hs
      rename_i hinit
      exact h.mute (onClient_mute topics s callback) fun hstate =>
        absurd hstate (client_initialized [callback] s hinit)
  | message topic payload index total =>
      simp only [MqttServer.step] at hs
      split at hs <;> cases hs
      rename_i hinit
      exact h.receive hinit hroute _ payload
  | finish =>
      exact h.finish hdistinct hs
  | write p v =>
      cases hs
      exact h.write p v
  | notify p =>
      cases hs
      exact h.notify hdistinct p

/-! ## Every run -/

/-- **The broker mirrors what was published while CONNECTED.**  In every state of every run with no
message half handled and no notification outstanding, for every parameter given to
`register_parameter`: if the last publication on its topic was made while `_state` was CONNECTED,
the broker retains the present text of the parameter. -/
theorem retained_mirrors {topicPrefix : CString} (registrations : List (Registration P C))
    (hone : OneTopicEach registrations) (param : P → AbstractParameter) (value : P → List UInt8)
    (es : List (MqttEvent P))
    (hrun : run (step (MqttTopics.setup topicPrefix registrations) param) { value } es = some s)
    (hframes : s.frames = []) (howed : s.owed = [])
    {topicIn topicOut : CString} {p : P}
    (hreg : Registration.parameter topicIn topicOut p ∈ registrations)
    (hsent : (outputs (topicPrefix.append topicOut) s.effects).getLast?.map Prod.fst = some true) :
    retained (topicPrefix.append topicOut) s.effects = some ((param p).toString (s.value p)) := by
  have htopic := MqttTopics.setup_topic topicPrefix hone.parameters
  have hdistinct : ∀ p q t,
      (MqttTopics.setup topicPrefix registrations).parametersTopic.lookup p = some t →
      (MqttTopics.setup topicPrefix registrations).parametersTopic.lookup q = some t → p = q := by
    intro p q t hp hq
    have heq := List.inj_on_of_nodup_map hone.topics ((htopic p t).mp hp) ((htopic q t).mp hq) rfl
    exact congrArg Prod.fst heq
  have hroute : ∀ topicIn out p,
      (MqttTopics.setup topicPrefix registrations).parameters.lookup topicIn = some (out, p) →
      (MqttTopics.setup topicPrefix registrations).parametersTopic.lookup p = some out :=
    fun _ out p h => (htopic p out).mpr (MqttTopics.setup_parameters h)
  have hinit : Mirrors (MqttTopics.setup topicPrefix registrations) param
      ({ value } : MqttServer P C) :=
    ⟨by simp, fun _ => ⟨rfl, fun _ => rfl⟩, fun _ _ _ _ _ _ h => by cases h⟩
  have hM := run_invariant (fun _ _ _ hI hs => Mirrors.step hI hdistinct hroute hs) hinit hrun
  obtain ⟨output, hlast, hflag⟩ := Option.map_eq_some_iff.mp hsent
  have hmem : (p, topicOut) ∈ registrations.filterMap Registration.outgoing :=
    List.mem_filterMap.mpr ⟨_, hreg, rfl⟩
  have hcurrent := hM.current p topicOut ((htopic p topicOut).mpr hmem) (by simp [howed])
    (by simp [hframes]) output (by rw [MqttTopics.setup_prefix]; exact hlast)
  rw [← hcurrent]
  obtain ⟨sent, payload⟩ := output
  cases hflag
  exact retained_of_last hlast

/-- One parameter, a string of one character, on the topics `"i"` and `"o"`. -/
def oneParameter : List (Registration Unit Unit) :=
  [.parameter ⟨[0x69], by decide⟩ ⟨[0x6f], by decide⟩ ()]

theorem retained_mirrors_connected :
    ∃ s : MqttServer Unit Unit,
      run (step (MqttTopics.setup ⟨[], by decide⟩ oneParameter) fun _ => FixedString 1)
        { value := fun _ => [0] }
        [.begin 0 0 [.connected 0 0], .write () [0x34], .notify ()] = some s ∧
      retained (CString.append ⟨[], by decide⟩ ⟨[0x6f], by decide⟩) s.effects =
        some ((FixedString 1).toString (s.value ())) :=
  ⟨_, rfl, retained_mirrors oneParameter ⟨by decide, by decide⟩
    (fun _ => FixedString 1) (fun _ => [0])
    [.begin 0 0 [.connected 0 0], .write () [0x34], .notify ()] rfl rfl rfl
    (p := ()) (List.mem_singleton.mpr rfl) (by decide)⟩

/-- The parameter changes while the connection is down; after the reconnection the broker still has
the value from before. -/
theorem stale_after_reconnect :
    ∃ s : MqttServer Unit Unit,
      run (step (MqttTopics.setup ⟨[], by decide⟩ oneParameter) fun _ => FixedString 1)
        { value := fun _ => [0] }
        [.begin 0 0 [.connected 0 0], .write () [0x34], .notify (), .client (.disconnected 0),
          .write () [0x35], .notify (),
          .handleConnection { now := 6000, connecting := [.connected 0 0] }] = some s ∧
      s.state = .connected ∧ s.frames = [] ∧ s.owed = [] ∧
      retained ⟨[0x6f], by decide⟩ s.effects = some [0x34] ∧
      (FixedString 1).toString (s.value ()) = [0x35] :=
  ⟨_, rfl, rfl, rfl, rfl, by decide, by decide⟩

end MqttServer

end EspIot
