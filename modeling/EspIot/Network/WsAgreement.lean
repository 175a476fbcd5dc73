/-
# `EspIot.Network.WsAgreement` — the clients agree with the server

`Agrees` says that what a connected client was told last of a parameter is what
the parameter stores.  A write of a client reaches every other client and its
author by the `OK`; what another sender changes reaches every client but one:
`_notify_clients` is given the client id `-1` then, which as a `uint32_t` is an id a
client can have.  `Reaches` is the condition that this client is not left behind,
and `clients_agree_iff` says that nothing else is needed.  The changes come from an
MQTT server over the same parameters: `processMessage_changed`.
-/
import EspIot.Network.Mqtt
import EspIot.Network.WsNotify

namespace EspIot

open Lib

/-! ## What the maps hold -/

namespace WsTypes

variable {P C : Type*} [DecidableEq P]

theorem setup_snoc (rs : List (WsRegistration P C)) (r : WsRegistration P C) :
    setup (rs ++ [r]) = (setup rs).register r := by
  simp [setup]

/-- The registration makes a packet type stand for a parameter. -/
def Carries (rs : List (WsRegistration P C)) (type : UInt8) (p : P) : Prop :=
  .notification type p ∈ rs ∨ .parameter type p ∈ rs

/-- An entry of a map that was there before, or is the one inserted. -/
theorem lookup_insert_cases {α : Type*} [DecidableEq α] {β : Type*} {m : AList fun _ : α => β}
    {a a' : α} {b b' : β} (h : (m.insert a b).lookup a' = some b') :
    (a' = a ∧ b' = b) ∨ m.lookup a' = some b' := by
  by_cases heq : a' = a
  · subst heq
    rw [AList.lookup_insert] at h
    cases h
    exact .inl ⟨rfl, rfl⟩
  · rw [AList.lookup_insert_ne heq] at h
    exact .inr h

/-- The maps hold nothing that was not registered. -/
structure Registered (rs : List (WsRegistration P C)) (t : WsTypes P C) : Prop where
  commands : ∀ type command, t.commands.lookup type = some command → .command type command ∈ rs
  notifications : ∀ type p, t.notifications.lookup type = some p → .notification type p ∈ rs
  parameters : ∀ type p, t.parameters.lookup type = some p → .parameter type p ∈ rs
  packetTypes : ∀ p type, t.parametersPacketType.lookup p = some type → Carries rs type p

omit [DecidableEq P] in
theorem Carries.snoc {rs : List (WsRegistration P C)} {type : UInt8} {p : P}
    (h : Carries rs type p) (r : WsRegistration P C) : Carries (rs ++ [r]) type p :=
  h.imp (List.mem_append_left _) (List.mem_append_left _)

theorem Registered.snoc {rs : List (WsRegistration P C)} {t : WsTypes P C} (h : Registered rs t)
    (r : WsRegistration P C) : Registered (rs ++ [r]) t where
  commands type command hc := List.mem_append_left _ (h.commands type command hc)
  notifications type p hn := List.mem_append_left _ (h.notifications type p hn)
  parameters type p hp := List.mem_append_left _ (h.parameters type p hp)
  packetTypes p type ht := (h.packetTypes p type ht).snoc r

theorem setup_registered (rs : List (WsRegistration P C)) : Registered rs (setup rs) := by
  induction rs using List.reverseRecOn with
  | nil =>
      constructor
      all_goals
        intro a b h
        cases h
  | append_singleton rs r ih =>
      have hold := ih.snoc r
      have hnew : r ∈ rs ++ [r] := List.mem_append_right _ (List.mem_singleton_self r)
      rw [setup_snoc]
      cases r with
      | command t command =>
          refine { hold with commands := ?_ }
          intro type c h
          rcases lookup_insert_cases h with ⟨rfl, rfl⟩ | h
          · exact hnew
          · exact hold.commands type c h
      | dataRequest t q => exact { hold with }
      | notification t q =>
          refine { hold with notifications := ?_, packetTypes := ?_ }
          · intro type p h
            rcases lookup_insert_cases h with ⟨rfl, rfl⟩ | h
            · exact hnew
            · exact hold.notifications type p h
          · intro p type h
            rcases lookup_insert_cases h with ⟨rfl, rfl⟩ | h
            · exact .inl hnew
            · exact hold.packetTypes p type h
      | parameter t q =>
          refine { hold with parameters := ?_, packetTypes := ?_ }
          · intro type p h
            rcases lookup_insert_cases h with ⟨rfl, rfl⟩ | h
            · exact hnew
            · exact hold.parameters type p h
          · intro p type h
            rcases lookup_insert_cases h with ⟨rfl, rfl⟩ | h
            · exact .inr hnew
            · exact hold.packetTypes p type h

theorem setup_packetType {rs : List (WsRegistration P C)} {type : UInt8} {p : P}
    (h : Carries rs type p) : ∃ last, (setup rs).parametersPacketType.lookup p = some last := by
  induction rs using List.reverseRecOn with
  | nil => rcases h with h | h <;> cases h
  | append_singleton rs r ih =>
      rw [setup_snoc]
      have hinsert : ∀ (q : P) (t : UInt8), Carries rs type p ∨ p = q →
          ∃ last, ((setup rs).parametersPacketType.insert q t).lookup p = some last := by
        intro q t hor
        by_cases hpq : p = q
        · subst hpq
          exact ⟨t, AList.lookup_insert _⟩
        · rw [AList.lookup_insert_ne hpq]
          exact ih (hor.resolve_right hpq)
      cases r with
      | command t command => exact ih (h.imp (by simp) (by simp))
      | dataRequest t q => exact ih (h.imp (by simp) (by simp))
      | notification t q =>
          refine hinsert q t ?_
          rcases h with h | h
          · rcases List.mem_append.mp h with h | h
            · exact .inl (.inl h)
            · cases List.mem_singleton.mp h
              exact .inr rfl
          · exact .inl (.inr (by simpa using h))
      | parameter t q =>
          refine hinsert q t ?_
          rcases h with h | h
          · exact .inl (.inl (by simpa using h))
          · rcases List.mem_append.mp h with h | h
            · exact .inl (.inr h)
            · cases List.mem_singleton.mp h
              exact .inr rfl

theorem setup_lookup {rs : List (WsRegistration P C)}
    (hrs : (rs.map WsRegistration.type).Nodup) {type : UInt8} {p : P} :
    (.notification type p ∈ rs → (setup rs).notifications.lookup type = some p) ∧
      (.parameter type p ∈ rs → (setup rs).parameters.lookup type = some p) := by
  induction rs using List.reverseRecOn with
  | nil => exact ⟨fun h => (by cases h), fun h => (by cases h)⟩
  | append_singleton rs r ih =>
      rw [List.map_append, List.nodup_append'] at hrs
      obtain ⟨hinit, -, hfresh⟩ := hrs
      obtain ⟨hnotification, hparameter⟩ := ih hinit
      -- the new type is none of the old ones
      have hne : ∀ x ∈ rs, x.type ≠ r.type := by
        intro x hx heq
        refine hfresh (List.mem_map_of_mem hx) ?_
        rw [heq]
        exact List.mem_singleton_self _
      rw [setup_snoc]
      constructor
      · intro h
        rcases List.mem_append.mp h with hmem | hmem
        · have hother := hne _ hmem
          cases r with
          | notification t q => exact (AList.lookup_insert_ne hother).trans (hnotification hmem)
          | command | dataRequest | parameter => exact hnotification hmem
        · cases List.mem_singleton.mp hmem
          exact AList.lookup_insert _
      · intro h
        rcases List.mem_append.mp h with hmem | hmem
        · have hother := hne _ hmem
          cases r with
          | parameter t q => exact (AList.lookup_insert_ne hother).trans (hparameter hmem)
          | command | dataRequest | notification => exact hparameter hmem
        · cases List.mem_singleton.mp hmem
          exact AList.lookup_insert _

end WsTypes

namespace WsSetup

variable {P C : Type*} [DecidableEq P] (w : WsSetup P C)

omit [DecidableEq P] in
theorem unique {x y : WsRegistration P C} (hx : x ∈ w.registrations) (hy : y ∈ w.registrations)
    (h : x.type = y.type) : x = y :=
  List.inj_on_of_nodup_map w.once hx hy h

theorem parameterOf_parameter {type : UInt8} {p : P}
    (h : w.types.parameters.lookup type = some p) : w.types.parameterOf type = some p := by
  have hregistered := WsTypes.setup_registered w.registrations
  have hnone : w.types.notifications.lookup type = none := by
    cases hother : w.types.notifications.lookup type with
    | none => rfl
    | some q =>
        cases w.unique (hregistered.notifications type q hother)
          (hregistered.parameters type p h) rfl
  rw [WsTypes.parameterOf, hnone, h]
  rfl

theorem parameterOf_packetType {type : UInt8} {p : P}
    (h : w.types.parametersPacketType.lookup p = some type) :
    w.types.parameterOf type = some p := by
  rcases (WsTypes.setup_registered w.registrations).packetTypes p type h with hmem | hmem
  · rw [WsTypes.parameterOf]
    exact (congrArg (Option.or · _) ((WsTypes.setup_lookup w.once).1 hmem)).trans rfl
  · exact w.parameterOf_parameter ((WsTypes.setup_lookup w.once).2 hmem)

theorem carries_of_parameterOf {type : UInt8} {p : P}
    (h : w.types.parameterOf type = some p) : WsTypes.Carries w.registrations type p := by
  have hregistered := WsTypes.setup_registered w.registrations
  rcases Option.or_eq_some_iff.mp h with h | ⟨-, h⟩
  · exact .inl (hregistered.notifications type p h)
  · exact .inr (hregistered.parameters type p h)

theorem parameterOf_command {type : UInt8} {command : C}
    (h : w.types.commands.lookup type = some command) : w.types.parameterOf type = none := by
  have hmem := (WsTypes.setup_registered w.registrations).commands type command h
  cases hother : w.types.parameterOf type with
  | none => rfl
  | some p =>
      rcases w.carries_of_parameterOf hother with hc | hc
      · cases w.unique hmem hc rfl
      · cases w.unique hmem hc rfl

end WsSetup

/-! ## Agreement -/

namespace WsBus

variable {P C : Type*} [DecidableEq P] {w : WsSetup P C}

/-- **What a connected client was told last of a parameter is what the parameter stores**: writing
it would change nothing. -/
def Agrees (s : WsBus w) : Prop :=
  ∀ client ∈ s.clients, ∀ p data, s.told client p = some data →
    (w.param p).write data (s.value p) = some (s.value p)

/-- A write that is rejected changes no parameter and sends nothing; one that is accepted changes
its parameter and sends one notification to each client but its author. -/
def Announces (s : WsBus w) : WsBusEvent w → Prop
  | .packet client packet => ∀ p, w.types.parameters.lookup packet.header.type = some p →
      ((s.handlePacketData client packet).1 ≠ .code .ok →
        (s.handlePacketData client packet).2 = s) ∧
      ((s.handlePacketData client packet).1 = .code .ok →
        ∃ v frames, (w.param p).write packet.body (s.value p) = some v ∧
          (s.handlePacketData client packet).2.value = Function.update s.value p v ∧
          (s.handlePacketData client packet).2.sent = s.sent ++ frames ∧
          (∀ frame ∈ frames, frame.header.type = packet.header.type ∧ frame.data = v.1) ∧
          ∀ other, frames.countP (·.client = other) =
            if other ∈ s.clients ∧ other ≠ client then 1 else 0)
  | _ => True

/-- What another sender changes leaves the client with the id `-1` no other value. -/
def Reaches (s : WsBus w) : WsBusEvent w → Prop
  | .changed p v => 0xFFFFFFFF ∈ s.clients → ∀ data, s.told 0xFFFFFFFF p = some data →
      (w.param p).write data v = some v
  | _ => True

/-- Clients are told of parameters that have a packet type. -/
def ToldCarried (s : WsBus w) : Prop :=
  ∀ client p data, s.told client p = some data →
    ∃ type, w.types.parametersPacketType.lookup p = some type

omit [DecidableEq P] in
theorem payload_eq (s : WsBus w) (p : P) : s.payload p = (s.value p).1 := by
  have hlt := w.short p
  have hsize : (UInt16.ofNat (w.param p).size).toNat = (w.param p).size := by
    rw [UInt16.toNat_ofNat']
    exact Nat.mod_eq_of_lt hlt
  rw [payload, hsize]
  exact List.take_of_length_le (s.value p).2.le

omit [DecidableEq P] in
theorem clients_of_count {s : WsBus w} (h : s.clientCount = 0) : s.clients = [] := by
  have hcount := s.counted
  rw [h] at hcount
  exact List.length_eq_zero_iff.mp hcount.symm

theorem told_notifyClients (s : WsBus w) (senderId : UInt32) (type : UInt8) (p : P)
    (client : UInt32) (q : P) :
    (s.notifyClients senderId type p).told client q =
      if (client ∈ s.clients ∧ client ≠ senderId) ∧ w.types.parameterOf type = some q then
        some (s.value p).1
      else s.told client q := by
  rw [notifyClients]
  split
  · rename_i hzero
    rw [clients_of_count hzero, if_neg (fun h => by cases h.1.1)]
  · show (if client ∈ s.clients.filter (senderId ≠ ·) ∧ w.types.parameterOf type = some q then
        some (s.payload p) else s.told client q) = _
    rw [payload_eq]
    refine if_congr (and_congr_left' ?_) rfl rfl
    rw [List.mem_filter, decide_eq_true_eq]
    exact and_congr_right' ne_comm

theorem notifyClients_same (s : WsBus w) (senderId : UInt32) (type : UInt8) (p : P) :
    (s.notifyClients senderId type p).value = s.value ∧
      (s.notifyClients senderId type p).clients = s.clients := by
  rw [notifyClients]
  split <;> exact ⟨rfl, rfl⟩

theorem Agrees.of_told {s t : WsBus w} (h : Agrees s) (hclients : t.clients = s.clients) {p : P}
    {v : (w.param p).Value} (hvalue : t.value = Function.update s.value p v)
    (htold : ∀ client ∈ s.clients, ∀ q data, t.told client q = some data →
      (q = p ∧ (w.param p).write data v = some v) ∨ (q ≠ p ∧ s.told client q = some data)) :
    Agrees t := by
  intro client hclient q data hdata
  rw [hclients] at hclient
  rw [hvalue]
  rcases htold client hclient q data hdata with ⟨rfl, hwrite⟩ | ⟨hne, hold⟩
  · rw [Function.update_self]
    exact hwrite
  · rw [Function.update_of_ne hne]
    exact h client hclient q data hold

/-! ## What the operations do -/

/-- Everything `handle_packet_data` can do: call a command; refuse or answer, and nothing else; or
write a parameter and notify. -/
theorem handlePacketData_cases (s : WsBus w) (client : UInt32) (packet : Packet) :
    (∃ command, w.types.commands.lookup packet.header.type = some command ∧
      s.handlePacketData client packet =
        (.code .ok, { s with invoked := s.invoked ++ [(command, packet.body)] })) ∨
    ((s.handlePacketData client packet).1 ≠ .code .ok ∧
      (s.handlePacketData client packet).2 = s) ∨
    ∃ p v, w.types.parameters.lookup packet.header.type = some p ∧
      (w.param p).write packet.body (s.value p) = some v ∧
      s.handlePacketData client packet =
        (.code .ok, (s.setValue p v).notifyClients client packet.header.type p) := by
  rw [handlePacketData]
  cases hcommand : w.types.commands.lookup packet.header.type with
  | some command => exact .inl ⟨command, rfl, rfl⟩
  | none =>
      right
      cases hdata : w.types.dataRequests.lookup packet.header.type with
      | some p => exact .inl ⟨fun h => (by cases h), rfl⟩
      | none =>
          cases hparameter : w.types.parameters.lookup packet.header.type with
          | none => exact .inl ⟨fun h => (by cases h), rfl⟩
          | some p =>
              cases hwrite : (w.param p).write packet.body (s.value p) with
              | none =>
                  refine .inl ⟨?_, ?_⟩
                  · intro h
                    simp only [hwrite] at h
                    cases h
                  · simp only [hwrite]
              | some v =>
                  simp only [hwrite]
                  exact .inr ⟨p, v, rfl, hwrite, rfl⟩

theorem sent_notifyClients (s : WsBus w) (senderId : UInt32) (type : UInt8) (p : P) :
    ∃ frames, (s.notifyClients senderId type p).sent = s.sent ++ frames ∧
      (∀ frame ∈ frames, frame.header.type = type ∧ frame.data = (s.value p).1) ∧
      ∀ other, frames.countP (·.client = other) =
        if other ∈ s.clients ∧ other ≠ senderId then 1 else 0 := by
  rw [notifyClients]
  split
  · rename_i hzero
    refine ⟨[], (List.append_nil _).symm, fun _ h => (by cases h), fun other => ?_⟩
    rw [clients_of_count hzero, if_neg (fun h => by cases h.1)]
    rfl
  · refine ⟨_, rfl, ?_, ?_⟩
    · intro frame hframe
      obtain ⟨client, -, rfl⟩ := List.mem_map.mp hframe
      exact ⟨rfl, s.payload_eq p⟩
    · intro other
      have hcount := (s.nodup.filter (senderId ≠ ·)).count (a := other)
      rw [List.countP_map]
      show (s.clients.filter (senderId ≠ ·)).countP (· = other) = _
      have hiff : other ∈ s.clients.filter (senderId ≠ ·) ↔
          other ∈ s.clients ∧ other ≠ senderId := by
        rw [List.mem_filter, decide_eq_true_eq]
        exact and_congr_right' ne_comm
      rw [← if_congr hiff rfl rfl, ← hcount]
      rfl

theorem announces (s : WsBus w) (e : WsBusEvent w) : Announces s e := by
  cases e with
  | packet client packet =>
      intro p hp
      rcases s.handlePacketData_cases client packet with
        ⟨command, hcommand, -⟩ | ⟨hresponse, hsame⟩ | ⟨q, v, hq, hwrite, heq⟩
      · have hnone := w.parameterOf_command hcommand
        rw [w.parameterOf_parameter hp] at hnone
        cases hnone
      · exact ⟨fun _ => hsame, fun h => absurd h hresponse⟩
      · rw [hp] at hq
        cases hq
        rw [heq]
        refine ⟨fun h => absurd rfl h, fun _ => ?_⟩
        obtain ⟨frames, hsent, hframes, hcount⟩ :=
          (s.setValue p v).sent_notifyClients client packet.header.type p
        refine ⟨v, frames, hwrite, (notifyClients_same ..).1, hsent, ?_, hcount⟩
        intro frame hframe
        obtain ⟨htype, hdata⟩ := hframes frame hframe
        exact ⟨htype, hdata.trans (congrArg Subtype.val (Function.update_self ..))⟩
  | changed | sendNotification | connect | disconnect => trivial

/-! ## What a step does -/

theorem setValue_self (s : WsBus w) (p : P) : s.setValue p (s.value p) = s := by
  rw [setValue, Function.update_eq_self]

/-- The bus takes a notification of another sender to the clients, if the parameter has a packet
type. -/
theorem notifyParameterChanged_some (s : WsBus w) {p : P} {type : UInt8}
    (h : w.types.parametersPacketType.lookup p = some type) :
    s.notifyParameterChanged false p = s.notifyClients 0xFFFFFFFF type p := by
  rw [notifyParameterChanged, processNotification, if_neg Bool.false_ne_true, h]

theorem notifyParameterChanged_none (s : WsBus w) {p : P}
    (h : w.types.parametersPacketType.lookup p = none) :
    s.notifyParameterChanged false p = s := by
  rw [notifyParameterChanged, processNotification, if_neg Bool.false_ne_true, h]

theorem told_of_tell {s : WsBus w} {clients : List UInt32} {type : UInt8} {data : List UInt8}
    {client : UInt32} {q : P} {last : List UInt8}
    (h : (s.tell clients type data).told client q = some last) :
    (client ∈ clients ∧ w.types.parameterOf type = some q ∧ last = data) ∨
      (¬ (client ∈ clients ∧ w.types.parameterOf type = some q) ∧
        s.told client q = some last) := by
  have h' : (if client ∈ clients ∧ w.types.parameterOf type = some q then some data
      else s.told client q) = some last := h
  split at h'
  · rename_i hcond
    cases h'
    exact .inl ⟨hcond.1, hcond.2, rfl⟩
  · rename_i hcond
    exact .inr ⟨hcond, h'⟩

/-- What a connected client was told after a value went out under a type of its parameter: the
value, or it is the sender, or nothing new. -/
theorem told_of_notify {s : WsBus w} {p : P} {v : (w.param p).Value} {type : UInt8}
    (htype : w.types.parameterOf type = some p) {senderId client : UInt32}
    (hclient : client ∈ s.clients) {q : P} {data : List UInt8}
    (hdata : ((s.setValue p v).notifyClients senderId type p).told client q = some data) :
    (q = p ∧ data = v.1) ∨ (q = p ∧ client = senderId ∧ s.told client p = some data) ∨
      (q ≠ p ∧ s.told client q = some data) := by
  have hnew : (s.setValue p v).value p = v := Function.update_self ..
  rw [told_notifyClients, htype, hnew] at hdata
  split at hdata
  · rename_i hreceives
    cases hdata
    exact .inl ⟨(Option.some.inj hreceives.2).symm, rfl⟩
  · rename_i hnot
    by_cases hq : q = p
    · subst hq
      refine .inr (.inl ⟨rfl, ?_, hdata⟩)
      -- a client that is left out is the sender
      by_contra hne
      exact hnot ⟨⟨hclient, hne⟩, rfl⟩
    · exact .inr (.inr ⟨hq, hdata⟩)

theorem Agrees.notify {s : WsBus w} (h : Agrees s) {p : P} {v : (w.param p).Value}
    {type : UInt8} (htype : w.types.parameterOf type = some p) {senderId : UInt32}
    (hsender : senderId ∈ s.clients → ∀ data, s.told senderId p = some data →
      (w.param p).write data v = some v) :
    Agrees ((s.setValue p v).notifyClients senderId type p) := by
  obtain ⟨hvalue, hclients⟩ := notifyClients_same (s.setValue p v) senderId type p
  refine h.of_told hclients hvalue ?_
  intro client hclient q data hdata
  rcases told_of_notify htype hclient hdata with ⟨rfl, rfl⟩ | ⟨rfl, rfl, hold⟩ | hother
  · exact .inl ⟨rfl, AbstractParameter.write_self _ v v⟩
  · exact .inl ⟨rfl, hsender hclient data hold⟩
  · exact .inr hother

theorem Agrees.write {s : WsBus w} (h : Agrees s) {packet : Packet} {p : P}
    {v : (w.param p).Value} (htype : w.types.parameterOf packet.header.type = some p)
    (hwrite : (w.param p).write packet.body (s.value p) = some v) (author : UInt32) :
    Agrees (((s.setValue p v).notifyClients author packet.header.type p).respond author packet
      (.code .ok)) := by
  obtain ⟨hvalue, hclients⟩ := notifyClients_same (s.setValue p v) author packet.header.type p
  rw [respond, if_pos rfl]
  refine h.of_told (p := p) (v := v) hclients hvalue ?_
  intro client hclient q data hdata
  rcases told_of_tell hdata with ⟨-, hq, rfl⟩ | ⟨hnot, hdata⟩
  · -- the author, by its `OK`
    refine .inl ⟨Option.some.inj (hq.symm.trans htype), ?_⟩
    rw [(w.param p).write_storage packet.body v (s.value p)]
    exact hwrite
  · rcases told_of_notify htype hclient hdata with ⟨rfl, rfl⟩ | ⟨rfl, rfl, -⟩ | hother
    · exact .inl ⟨rfl, AbstractParameter.write_self _ v v⟩
    · exact absurd ⟨List.mem_singleton_self _, htype⟩ hnot
    · exact .inr hother

theorem notifyParameterChanged_value (s : WsBus w) (p : P) :
    (s.notifyParameterChanged false p).value = s.value := by
  cases htype : w.types.parametersPacketType.lookup p with
  | some type =>
      rw [notifyParameterChanged_some s htype]
      exact (notifyClients_same ..).1
  | none => rw [notifyParameterChanged_none s htype]

theorem Agrees.command {s : WsBus w} (h : Agrees s) {packet : Packet} {command : C}
    (hcommand : w.types.commands.lookup packet.header.type = some command)
    (invoked : List (C × List UInt8)) (author : UInt32) :
    Agrees ({ s with invoked }.respond author packet (.code .ok)) := by
  intro client hclient q data hdata
  rcases told_of_tell hdata with ⟨-, hq, -⟩ | ⟨-, hold⟩
  · rw [w.parameterOf_command hcommand] at hq
    cases hq
  · exact h client hclient q data hold

theorem Agrees.packet {s : WsBus w} (h : Agrees s) (client : UInt32) (packet : Packet) :
    Agrees ((s.handlePacketData client packet).2.respond client packet
      (s.handlePacketData client packet).1) := by
  rcases s.handlePacketData_cases client packet with
    ⟨command, hcommand, heq⟩ | ⟨hresponse, hsame⟩ | ⟨p, v, hp, hwrite, heq⟩
  · rw [heq]
    exact h.command hcommand _ client
  · rw [respond, if_neg hresponse, hsame]
    exact h
  · rw [heq]
    exact h.write (w.parameterOf_parameter hp) hwrite client

theorem Agrees.changed {s : WsBus w} (h : Agrees s) (hcarried : ToldCarried s) {p : P}
    {v : (w.param p).Value} (hreaches : Reaches s (.changed p v)) :
    Agrees ((s.setValue p v).notifyParameterChanged false p) := by
  cases htype : w.types.parametersPacketType.lookup p with
  | some type =>
      rw [notifyParameterChanged_some _ htype]
      exact h.notify (w.parameterOf_packetType htype) hreaches
  | none =>
      rw [notifyParameterChanged_none _ htype]
      refine h.of_told rfl rfl fun client _ q data hdata => .inr ⟨?_, hdata⟩
      -- nobody was ever told of this parameter
      rintro rfl
      obtain ⟨type, hsome⟩ := hcarried client q data hdata
      rw [htype] at hsome
      cases hsome

theorem Agrees.sendNotification {s : WsBus w} (h : Agrees s) (type : UInt8) :
    Agrees (s.sendNotification type) := by
  rw [WsBus.sendNotification]
  cases htype : w.types.parameterOf type with
  | none => exact h
  | some p =>
      have hnotify : Agrees ((s.setValue p (s.value p)).notifyClients 0xFFFFFFFF type p) := by
        refine h.notify htype ?_
        intro hmem data hdata
        exact h 0xFFFFFFFF hmem p data hdata
      rw [setValue_self] at hnotify
      exact hnotify

omit [DecidableEq P] in
theorem told_of_reset {told : UInt32 → P → Option (List UInt8)} {client other : UInt32} {p : P}
    {data : List UInt8} (h : Function.update told client (fun _ => none) other p = some data) :
    other ≠ client ∧ told other p = some data := by
  by_cases heq : other = client
  · subst heq
    rw [Function.update_self] at h
    cases h
  · rw [Function.update_of_ne heq] at h
    exact ⟨heq, h⟩

/-- **Every step keeps the agreement**, where what another sender changes leaves nobody behind. -/
theorem Agrees.step {s t : WsBus w} {e : WsBusEvent w} (h : Agrees s) (hcarried : ToldCarried s)
    (hreaches : Reaches s e) (hs : step s e = some t) : Agrees t := by
  cases e with
  | packet client packet =>
      cases hs
      exact h.packet client packet
  | changed p v =>
      cases hs
      exact h.changed hcarried hreaches
  | sendNotification type =>
      cases hs
      exact h.sendNotification type
  | connect client =>
      simp only [WsBus.step] at hs
      split at hs
      · cases hs
        intro other hother q data hdata
        obtain ⟨hne, hold⟩ := told_of_reset hdata
        rcases List.mem_append.mp hother with hmem | hnew
        · exact h other hmem q data hold
        · exact absurd (List.mem_singleton.mp hnew) hne
      · cases hs
  | disconnect client =>
      simp only [WsBus.step] at hs
      split at hs
      · cases hs
        intro other hother q data hdata
        exact h other (List.mem_of_mem_erase hother) q data hdata
      · cases hs

theorem ToldCarried.tell {s : WsBus w} (h : ToldCarried s) (clients : List UInt32) (type : UInt8)
    (data : List UInt8) : ToldCarried (s.tell clients type data) := by
  intro client p last hlast
  rcases told_of_tell hlast with ⟨-, hp, -⟩ | ⟨-, hold⟩
  · exact WsTypes.setup_packetType (w.carries_of_parameterOf hp)
  · exact h client p last hold

theorem ToldCarried.notifyClients {s : WsBus w} (h : ToldCarried s) (senderId : UInt32)
    (type : UInt8) (p : P) : ToldCarried (s.notifyClients senderId type p) := by
  rw [WsBus.notifyClients]
  split
  · exact h
  · refine ToldCarried.tell ?_ _ type _
    exact h

theorem ToldCarried.respond {s : WsBus w} (h : ToldCarried s) (client : UInt32) (packet : Packet)
    (response : Response) : ToldCarried (s.respond client packet response) := by
  rw [WsBus.respond]
  split
  · exact h.tell [client] packet.header.type packet.body
  · exact h

theorem ToldCarried.handlePacketData {s : WsBus w} (h : ToldCarried s) (client : UInt32)
    (packet : Packet) : ToldCarried (s.handlePacketData client packet).2 := by
  rcases s.handlePacketData_cases client packet with
    ⟨command, -, heq⟩ | ⟨-, hsame⟩ | ⟨p, v, -, -, heq⟩
  · rw [heq]
    exact h
  · rw [hsame]
    exact h
  · have hset : ToldCarried (s.setValue p v) := h
    rw [heq]
    exact hset.notifyClients client packet.header.type p

theorem ToldCarried.step {s t : WsBus w} {e : WsBusEvent w} (h : ToldCarried s)
    (hs : step s e = some t) : ToldCarried t := by
  cases e with
  | packet client packet =>
      cases hs
      exact (h.handlePacketData client packet).respond client packet _
  | changed p v =>
      cases hs
      have hset : ToldCarried (s.setValue p v) := h
      cases htype : w.types.parametersPacketType.lookup p with
      | some type =>
          rw [notifyParameterChanged_some _ htype]
          exact hset.notifyClients 0xFFFFFFFF type p
      | none =>
          rw [notifyParameterChanged_none _ htype]
          exact hset
  | sendNotification type =>
      cases hs
      rw [WsBus.sendNotification]
      cases w.types.parameterOf type with
      | none => exact h
      | some p => exact h.notifyClients 0xFFFFFFFF type p
  | connect client =>
      simp only [WsBus.step] at hs
      split at hs
      · cases hs
        intro other p data hdata
        exact h other p data (told_of_reset hdata).2
      · cases hs
  | disconnect client =>
      simp only [WsBus.step] at hs
      split at hs
      · cases hs
        exact h
      · cases hs

theorem not_agrees_step {s t : WsBus w} {e : WsBusEvent w} (hcarried : ToldCarried s)
    (hbad : ¬ Reaches s e) (hs : step s e = some t) : ¬ Agrees t := by
  cases e with
  | changed p v =>
      intro hagrees
      refine hbad ?_
      intro hmem data hdata
      obtain ⟨type, htype⟩ := hcarried 0xFFFFFFFF p data hdata
      have ht : t = (s.setValue p v).notifyClients 0xFFFFFFFF type p := by
        rw [← notifyParameterChanged_some _ htype]
        exact (Option.some.inj hs).symm
      obtain ⟨hvalue, hclients⟩ := notifyClients_same (s.setValue p v) 0xFFFFFFFF type p
      subst ht
      have htold : ((s.setValue p v).notifyClients 0xFFFFFFFF type p).told 0xFFFFFFFF p =
          some data := by
        rw [told_notifyClients, if_neg (fun h => h.1.2 rfl)]
        exact hdata
      have hwrite := hagrees 0xFFFFFFFF (hclients ▸ hmem) p data htold
      have hnew : (s.setValue p v).value p = v := Function.update_self ..
      rw [hvalue, hnew] at hwrite
      exact hwrite
  | packet | sendNotification | connect | disconnect => exact absurd trivial hbad

/-- **The clients agree with the server all along a run, and every write is announced as it should
be, exactly when no change of another sender leaves the client with the id `-1` a value it was
told before.** -/
theorem clients_agree_iff (value : (p : P) → (w.param p).Value) (es : List (WsBusEvent w)) :
    (Always step Agrees (start value) es ∧ Each step Announces (start value) es) ↔
      Each step Reaches (start value) es := by
  have hannounces : Each step Announces (start value) es :=
    Each.of_forall fun e _ s => s.announces e
  have hagrees : Always step Agrees (start value) es ↔ Each step Reaches (start value) es := by
    refine always_iff_each (I := fun s => Agrees s ∧ ToldCarried s) (fun _ h => h.1) ?_ ?_ ?_
    · intro s e t hI hreaches hs
      exact ⟨hI.1.step hI.2 hreaches hs, hI.2.step hs⟩
    · intro s e t hI hbad hs
      exact not_agrees_step hI.2 hbad hs
    · constructor
      · intro client hclient
        cases hclient
      · intro client p data hdata
        cases hdata
  exact ⟨fun h => hagrees.mp h.1, fun h => ⟨hagrees.mpr h, hannounces⟩⟩

/-- A digit, written by the packets of type 1. -/
def digitSetup : WsSetup Unit Unit where
  param := fun _ => Parameter 1 (fun text => ⟨[text.headD 48 - 48], rfl⟩) (·.map (· + 48))
  short := fun _ => by decide
  registrations := [.parameter 1 ()]
  once := List.nodup_singleton 1

/-- The client with the id `-1` is told of a write, and not of the change that follows. -/
theorem clients_disagree :
    let body : List UInt8 := [1]
    let packet : Packet :=
      { header := { signature := packetSignature, requestId := 1, type := 1, size := 1 }
        data := body }
    let s : WsBus digitSetup := start fun _ => ⟨[0], rfl⟩
    let es : List (WsBusEvent digitSetup) :=
      [.connect 0xFFFFFFFF, .connect 1, .packet 1 packet, .changed () ⟨[2], rfl⟩]
    ¬ (Always step Agrees s es ∧ Each step Announces s es) := by
  intro body packet s es h
  have hagrees := ((((h.1.2 _ rfl).2 _ rfl).2 _ rfl).2 _ rfl).head
  have hwrite := hagrees 0xFFFFFFFF (by decide) () [1] (by decide)
  revert hwrite
  decide

end WsBus

/-! ## The MQTT server as another sender -/

/-- The parameter the bus is notified of. -/
def MqttEffect.notified {P C : Type*} : MqttEffect P C → Option P
  | .notifyBus p => some p
  | _ => none

namespace MqttServer

variable {P C C' : Type*} [DecidableEq P]

/-- The parameters that the bus was notified of, in their order. -/
def notified (m : MqttServer P C) : List P := m.effects.filterMap MqttEffect.notified

omit [DecidableEq P] in
theorem publish_same (topics : MqttTopics P C) (topic : CString) (payload : List UInt8)
    (m : MqttServer P C) :
    (m.publish topics topic payload).value = m.value ∧
      (m.publish topics topic payload).notified = m.notified := by
  refine ⟨rfl, ?_⟩
  rw [notified, publish, List.filterMap_append]
  split <;> exact List.append_nil _

/-- A message changes nothing and notifies nobody, or it is one `changed` of the parameters that the
WebSocket server shares. -/
theorem processMessage_changed {w : WsSetup P C} (topics : MqttTopics P C') (m : MqttServer P C')
    (s : WsBus w) (hshared : ∀ p, m.value p = (s.value p).1) (topic : CString)
    (payload : List UInt8) :
    let m' := m.processMessage topics w.param topic payload
    (m'.value = m.value ∧ m'.notified = m.notified) ∨
      ∃ p v t, m'.notified = m.notified ++ [p] ∧ s.step (.changed p v) = some t ∧
        ∀ q, m'.value q = (t.value q).1 := by
  intro m'
  simp only [m', processMessage]
  cases topics.commands.lookup topic with
  | some command =>
      refine .inl ⟨rfl, ?_⟩
      rw [notified, List.filterMap_append]
      exact List.append_nil _
  | none =>
      cases topics.parameters.lookup topic with
      | none => exact .inl ⟨rfl, rfl⟩
      | some target =>
          obtain ⟨topicOut, p⟩ := target
          dsimp only
          cases hparse : (w.param p).parse payload (m.value p) with
          | none =>
              refine .inl ⟨rfl, ?_⟩
              rw [notified, List.filterMap_append]
              exact List.append_nil _
          | some v =>
              have hlength : v.length = (w.param p).size := by
                refine (w.param p).parse_length payload (m.value p) v ?_ hparse
                rw [hshared p]
                exact (s.value p).2
              refine .inr ⟨p, ⟨v, hlength⟩, _, ?_, rfl, ?_⟩
              · rw [(publish_same ..).2, notified, List.filterMap_append]
                rfl
              · intro q
                rw [(publish_same ..).1, WsBus.notifyParameterChanged_value]
                show Function.update m.value p v q = (Function.update s.value p _ q).1
                by_cases hq : q = p
                · subst hq
                  rw [Function.update_self, Function.update_self]
                · rw [Function.update_of_ne hq, Function.update_of_ne hq]
                  exact hshared q

end MqttServer

end EspIot
