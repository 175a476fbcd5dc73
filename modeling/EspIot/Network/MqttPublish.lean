/-
# `EspIot.Network.MqttPublish` — the topic a parameter is published on

Three paths lead to `_publish`, and each looks the topic up in a map of its own:

    send_notification        _notifications, then _parameters
    _process_message         _parameters
    _process_notification    _parameters_topic

For `_parameters` the second takes the outgoing topic out of the entry.  The first takes the
key, which is the incoming topic: it has to be asked for the parameter by that topic, so what
it publishes comes back to the server as a message.
-/
import EspIot.Network.MqttMessages
import EspIot.Network.MqttMirror

namespace EspIot

open Lib

namespace MqttTopics

variable {P C : Type*}

/-- What `send_notification` finds: the parameter, and the topic it publishes on. -/
def notified (topic : CString) (t : MqttTopics P C) : Option (P × CString) :=
  match t.notifications.lookup topic with
  | some p => some (p, topic)
  -- `it_p->first`
  | none => (t.parameters.lookup topic).map fun entry => (entry.2, topic)

theorem setup_notifications [DecidableEq P] {topicPrefix : CString}
    {rs : List (Registration P C)} {topic : CString} {p : P}
    (h : (setup topicPrefix rs).notifications.lookup topic = some p) :
    (p, topic) ∈ rs.filterMap Registration.outgoing := by
  induction rs using List.reverseRecOn with
  | nil => cases h
  | append_singleton rs r ih =>
      rw [setup_snoc] at h
      rw [List.filterMap_append, List.mem_append]
      cases r with
      | command | parameter => exact .inl (ih h)
      | notification new q =>
          by_cases heq : topic = new
          · subst heq
            rw [register, registerNotification, AList.lookup_insert] at h
            cases h
            exact .inr (by simp [Registration.outgoing])
          · rw [register, registerNotification, AList.lookup_insert_ne heq] at h
            exact .inl (ih h)

end MqttTopics

/-- The server, or the application with a call of `send_notification`. -/
inductive MqttCall (P : Type*)
  | server (event : MqttEvent P)
  | sendNotification (topic : CString)

namespace MqttServer

variable {P C : Type*} [DecidableEq P]

section
variable (topics : MqttTopics P C) (param : P → AbstractParameter)

def sendNotification (topic : CString) (s : MqttServer P C) : MqttServer P C :=
  if s.state ≠ .connected then s
  else
    match topics.notified topic with
    | none => s
    | some (p, topicOut) => s.publish topics topicOut ((param p).toString (s.value p))

def call (s : MqttServer P C) : MqttCall P → Option (MqttServer P C)
  | .server event => s.step topics param event
  | .sendNotification topic => some (s.sendNotification topics param topic)

/-- The parameter whose value a call gives out. -/
def subject (s : MqttServer P C) : MqttCall P → Option P
  | .server .finish => s.frames.head?.map Prod.snd
  | .server (.notify p) => some p
  | .server _ => none
  | .sendNotification topic => (topics.notified topic).map Prod.fst

variable (registrations : List (Registration P C))

/-- No outgoing topic is one that the server subscribes to. -/
def Apart : Prop :=
  ∀ p out, (p, out) ∈ registrations.filterMap Registration.outgoing → ¬ Registered topics out

/-- A call that leads from `s` to `t` publishes on the topic once, the value of its parameter; the
topic is the parameter's outgoing one, and none that the server subscribes to where these are
apart. -/
def OnOutgoing (s t : MqttServer P C) (e : MqttCall P) (topic : CString) : Prop :=
  ∃ p out sent, s.subject topics e = some p ∧
    (p, out) ∈ registrations.filterMap Registration.outgoing ∧
    topic = topics.topicPrefix.append out ∧
    outputs topic t.effects = outputs topic s.effects ++ [(sent, (param p).toString (s.value p))] ∧
    (Apart topics registrations →
      ∀ topicIn, Registered topics topicIn → topic ≠ topics.topicPrefix.append topicIn)

/-- **Whatever a call publishes, it publishes on the outgoing topic of its parameter.** -/
def Agrees (s : MqttServer P C) (e : MqttCall P) : Prop :=
  ∀ t, s.call topics param e = some t →
    ∀ topic, outputs topic t.effects ≠ outputs topic s.effects →
      OnOutgoing topics param registrations s t e topic

/-- While connected, `send_notification` is given no topic that is only the incoming one of a
parameter with another outgoing one. -/
def AsksOutgoing (s : MqttServer P C) : MqttCall P → Prop
  | .server _ => True
  | .sendNotification topic => s.state = .connected → topics.notifications.lookup topic = none →
      ∀ out p, topics.parameters.lookup topic = some (out, p) → topic = out

/-- A step that gives out the value of `p` on the topic `out`, and nothing else. -/
def Gives (s t : MqttServer P C) (p : P) (out : CString) : Prop :=
  ∀ topic, outputs topic t.effects = outputs topic s.effects ++
    if topics.topicPrefix.append out = topic then
      [(decide (s.state = .connected), (param p).toString (s.value p))]
    else []

end

variable {topics : MqttTopics P C} {param : P → AbstractParameter} {s t : MqttServer P C}

omit [DecidableEq P] in
theorem publish_gives (p : P) (out : CString) :
    Gives topics param s (s.publish topics out ((param p).toString (s.value p))) p out := by
  intro topic
  rw [publish]
  dsimp only
  rw [outputs_append]
  congr 1
  by_cases hstate : s.state = .connected
  · rw [if_neg (fun h => h hstate), decide_eq_true hstate]
    by_cases htopic : topics.topicPrefix.append out = topic <;> simp [outputs, htopic]
  · rw [if_pos hstate, decide_eq_false hstate]
    by_cases htopic : topics.topicPrefix.append out = topic <;> simp [outputs, htopic]

/-! ## The calls -/

theorem receive_outputs (topic : CString) (payload : List UInt8) (s : MqttServer P C)
    (topic' : CString) :
    outputs topic' (s.receive topics param topic payload).effects = outputs topic' s.effects := by
  rw [receive]
  split
  · rw [outputs_append]
    exact List.append_nil _
  · split
    · split
      · rw [outputs_append]
        exact List.append_nil _
      · rw [outputs_append]
        exact List.append_nil _
    · rfl

theorem receive_frames (topic : CString) (payload : List UInt8) (s : MqttServer P C) :
    ∀ f ∈ (s.receive topics param topic payload).frames,
      f ∈ s.frames ∨ ∃ topicIn, topics.parameters.lookup topicIn = some f := by
  intro f hf
  rw [receive] at hf
  split at hf
  · exact .inl hf
  · split at hf
    · next out p hlookup =>
        split at hf
        · rcases List.mem_cons.mp hf with rfl | hf
          · exact .inr ⟨topic, hlookup⟩
          · exact .inl hf
        · exact .inl hf
    · exact .inl hf

section
variable {registrations : List (Registration P C)} {topicPrefix : CString}

/-- What waits for its publication has its outgoing topic beside it. -/
def FramesRegistered (registrations : List (Registration P C)) (s : MqttServer P C) : Prop :=
  ∀ f ∈ s.frames, (f.2, f.1) ∈ registrations.filterMap Registration.outgoing

theorem step_gives {e : MqttEvent P} (hframes : FramesRegistered registrations s)
    (hunique : ((registrations.filterMap Registration.outgoing).map Prod.fst).Nodup)
    (ht : s.step (.setup topicPrefix registrations) param e = some t) :
    (∀ topic, outputs topic t.effects = outputs topic s.effects) ∨
      ∃ p out, s.subject (.setup topicPrefix registrations) (.server e) = some p ∧
        (p, out) ∈ registrations.filterMap Registration.outgoing ∧
        Gives (.setup topicPrefix registrations) param s t p out := by
  cases e with
  | begin change attempt connecting =>
      cases ht
      exact .inl (begin_mute _ change attempt connecting s).outputs_eq
  | handleConnection poll =>
      cases ht
      exact .inl (handleConnection_mute _ poll s).outputs_eq
  | client callback =>
      rw [step] at ht
      split at ht
      · cases ht
      · cases ht
        exact .inl (onClient_mute _ s callback).outputs_eq
  | message topic payload index total =>
      rw [step] at ht
      split at ht
      · cases ht
      · cases ht
        exact .inl (receive_outputs _ payload s)
  | finish =>
      rw [step, finish] at ht
      split at ht
      · cases ht
      · next out p frames hs =>
          cases ht
          refine .inr ⟨p, out, ?_, hframes (out, p) ?_,
            publish_gives (s := { s with frames }) p out⟩
          · rw [subject, hs]
            rfl
          · rw [hs]
            exact List.mem_cons_self
  | write p v =>
      cases ht
      exact .inl fun _ => rfl
  | notify p =>
      cases ht
      rw [processNotification]
      split
      · exact .inl fun _ => rfl
      · split
        · exact .inl fun _ => rfl
        · next topic hlookup =>
            exact .inr ⟨p, topic, rfl,
              (MqttTopics.setup_topic topicPrefix hunique p topic).mp hlookup,
              publish_gives (s := { s with owed := s.owed.erase p }) p topic⟩

omit [DecidableEq P] in
variable (topics param) in
theorem sendNotification_gives (topic : CString) (s : MqttServer P C) :
    s.sendNotification topics param topic = s ∨
      ∃ p out, topics.notified topic = some (p, out) ∧ s.state = .connected ∧
        Gives topics param s (s.sendNotification topics param topic) p out := by
  rw [sendNotification]
  by_cases hstate : s.state = .connected
  · rw [if_neg (fun h => h hstate)]
    cases hfound : topics.notified topic with
    | none => exact .inl rfl
    | some found => exact .inr ⟨found.1, found.2, rfl, hstate, publish_gives found.1 found.2⟩
  · rw [if_pos hstate]
    exact .inl rfl

/-- A message puts an entry of `_parameters` on the frames; nothing else adds to them. -/
theorem FramesRegistered.call {e : MqttCall P} (h : FramesRegistered registrations s)
    (ht : s.call (.setup topicPrefix registrations) param e = some t) :
    FramesRegistered registrations t := by
  have hmute : t.frames = s.frames → FramesRegistered registrations t := by
    intro hframes f hf
    rw [hframes] at hf
    exact h f hf
  cases e with
  | sendNotification topic =>
      cases ht
      refine hmute ?_
      rw [sendNotification]
      split
      · rfl
      · split <;> rfl
  | server event =>
      cases event with
      | begin change attempt connecting =>
          cases ht
          exact hmute (begin_mute _ change attempt connecting s).frames_eq
      | handleConnection poll =>
          cases ht
          exact hmute (handleConnection_mute _ poll s).frames_eq
      | client callback =>
          rw [MqttServer.call, step] at ht
          split at ht
          · cases ht
          · cases ht
            exact hmute (onClient_mute _ s callback).frames_eq
      | message topic payload index total =>
          rw [MqttServer.call, step] at ht
          split at ht
          · cases ht
          · cases ht
            intro f hf
            rcases receive_frames _ payload s f hf with hold | ⟨topicIn, hlookup⟩
            · exact h f hold
            · exact MqttTopics.setup_parameters hlookup
      | finish =>
          rw [MqttServer.call, step, finish] at ht
          split at ht
          · cases ht
          · next out p frames hs =>
              cases ht
              intro f hf
              refine h f ?_
              rw [hs]
              exact List.mem_cons_of_mem _ hf
      | write p v =>
          cases ht
          exact hmute rfl
      | notify p =>
          cases ht
          refine hmute ?_
          rw [processNotification]
          split
          · rfl
          · split <;> rfl

/-! ## The topics -/

theorem Gives.agrees {e : MqttCall P} {p : P} {out : CString}
    (hsubject : s.subject (.setup topicPrefix registrations) e = some p)
    (hout : (p, out) ∈ registrations.filterMap Registration.outgoing)
    (h : Gives (.setup topicPrefix registrations) param s t p out) {topic : CString}
    (hnew : outputs topic t.effects ≠ outputs topic s.effects) :
    OnOutgoing (.setup topicPrefix registrations) param registrations s t e topic := by
  have htopic := h topic
  by_cases heq : (MqttTopics.setup topicPrefix registrations).topicPrefix.append out = topic
  · rw [if_pos heq] at htopic
    refine ⟨p, out, decide (s.state = .connected), hsubject, hout, heq.symm, htopic, ?_⟩
    intro hapart topicIn hin hsame
    have hback : out = topicIn := CString.append_left_inj (heq.trans hsame)
    exact hapart p out hout (hback ▸ hin)
  · rw [if_neg heq, List.append_nil] at htopic
    exact absurd htopic hnew

theorem agrees_iff {e : MqttCall P} (hframes : FramesRegistered registrations s)
    (hunique : ((registrations.filterMap Registration.outgoing).map Prod.fst).Nodup) :
    Agrees (.setup topicPrefix registrations) param registrations s e ↔
      AsksOutgoing (.setup topicPrefix registrations) s e := by
  cases e with
  | server event =>
      refine ⟨fun _ => trivial, fun _ t ht topic hnew => ?_⟩
      rcases step_gives hframes hunique ht with hmute | ⟨p, out, hsubject, hout, hgives⟩
      · exact absurd (hmute topic) hnew
      · exact hgives.agrees hsubject hout hnew
  | sendNotification asked =>
      constructor
      · intro h hstate hnone out p hlookup
        -- the value goes out on the key
        have hfound : (MqttTopics.setup topicPrefix registrations).notified asked =
            some (p, asked) := by
          rw [MqttTopics.notified, hnone, hlookup]
          rfl
        have hgives : Gives (.setup topicPrefix registrations) param s
            (s.sendNotification (.setup topicPrefix registrations) param asked) p asked := by
          rw [sendNotification, if_neg (fun hne => hne hstate), hfound]
          exact publish_gives p asked
        have hnew := hgives
          ((MqttTopics.setup topicPrefix registrations).topicPrefix.append asked)
        rw [if_pos rfl] at hnew
        obtain ⟨q, out', -, hsubject, hq, htopic, -⟩ := h _ rfl
          ((MqttTopics.setup topicPrefix registrations).topicPrefix.append asked) (by
            rw [hnew]
            exact fun hsame => List.cons_ne_nil _ _ (List.append_right_eq_self.mp hsame))
        have hqp : p = q := by
          rw [subject, hfound] at hsubject
          exact Option.some.inj hsubject
        subst hqp
        have hboth := (MqttTopics.setup_topic topicPrefix hunique p out').mpr hq
        have hparameter := (MqttTopics.setup_topic topicPrefix hunique p out).mpr
          (MqttTopics.setup_parameters hlookup)
        rw [hparameter] at hboth
        cases hboth
        exact CString.append_left_inj htopic
      · intro h t ht topic hnew
        cases ht
        rcases sendNotification_gives (.setup topicPrefix registrations) param asked s with
          hsame | ⟨p, out, hfound, hstate, hgives⟩
        · rw [hsame] at hnew
          exact absurd rfl hnew
        · refine hgives.agrees ?_ ?_ hnew
          · rw [subject, hfound]
            rfl
          · rw [MqttTopics.notified] at hfound
            split at hfound
            · next hlookup =>
                cases hfound
                exact MqttTopics.setup_notifications hlookup
            · next hnone =>
                obtain ⟨entry, hlookup, hentry⟩ := Option.map_eq_some_iff.mp hfound
                cases hentry
                have heq := h hstate hnone entry.1 entry.2 hlookup
                rw [heq]
                exact MqttTopics.setup_parameters (heq ▸ hlookup)

end

/-- **In a run of a server whose parameters are registered once each, all publications agree on the
topics exactly where `send_notification` is never asked for a parameter by an incoming topic that
is not its outgoing one.** -/
theorem publications_agree_iff (topicPrefix : CString) (registrations : List (Registration P C))
    (hunique : ((registrations.filterMap Registration.outgoing).map Prod.fst).Nodup)
    (param : P → AbstractParameter) (value : P → List UInt8) (es : List (MqttCall P)) :
    Each (call (.setup topicPrefix registrations) param)
        (Agrees (.setup topicPrefix registrations) param registrations) { value } es ↔
      Each (call (.setup topicPrefix registrations) param)
        (AsksOutgoing (.setup topicPrefix registrations)) { value } es := by
  have hstart : FramesRegistered registrations ({ value } : MqttServer P C) := nofun
  constructor
  · exact Each.imp_of (I := FramesRegistered registrations)
      (fun s e hs h => (agrees_iff hs hunique).mp h) (fun s e t hs _ ht => hs.call ht) hstart
  · exact Each.imp_of (I := FramesRegistered registrations)
      (fun s e hs h => (agrees_iff hs hunique).mpr h) (fun s e t hs _ ht => hs.call ht) hstart

theorem publications_agree_iff_bus :
    Each (call (.setup ⟨[], by decide⟩ oneParameter) fun _ => FixedString 1)
      (Agrees (.setup ⟨[], by decide⟩ oneParameter) (fun _ => FixedString 1) oneParameter)
      { value := fun _ => [0] } [.server (.begin 0 0 [.connected 0 0]), .server (.notify ())] :=
  (publications_agree_iff ⟨[], by decide⟩ oneParameter (by decide) (fun _ => FixedString 1)
    (fun _ => [0]) [.server (.begin 0 0 [.connected 0 0]), .server (.notify ())]).mpr
    (.cons rfl trivial (.cons rfl trivial trivial))

/-- Asked for the parameter by `"i"`, the server publishes it on `"i"`. -/
theorem published_on_incoming :
    ¬ Each (call (.setup ⟨[], by decide⟩ oneParameter) fun _ => FixedString 1)
        (Agrees (.setup ⟨[], by decide⟩ oneParameter) (fun _ => FixedString 1) oneParameter)
        { value := fun _ => [0] }
        [.server (.begin 0 0 [.connected 0 0]), .sendNotification ⟨[0x69], by decide⟩] := by
  intro h
  obtain ⟨-, hsend⟩ := h _ rfl
  obtain ⟨hagrees, -⟩ := hsend _ rfl
  obtain ⟨p, out, sent, -, hout, htopic, -⟩ := hagrees _ rfl ⟨[0x69], by decide⟩ (by decide)
  have hregistered : out = ⟨[0x6f], by decide⟩ :=
    congrArg Prod.snd (List.mem_singleton.mp hout)
  rw [hregistered] at htopic
  exact absurd htopic (by decide)

end MqttServer

end EspIot
