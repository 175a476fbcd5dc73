/-
# `EspIot.Network.Mixing` — messages over a channel that loses and reorders

Peers, each with its own `_id`, send messages to one receiver.  The fragments are in
the air until they arrive, in any order, or are lost; none is doubled or changed.

    send, respond   the fragments go into the air
    arrive i        the i-th fragment in the air reaches the receiver
    lose i          the i-th fragment in the air is gone

An incomplete message stays in `_messages` for good, and its key is the id, the flag
and the sender: after 256 sends the next message of a peer meets what is left of an
old one.  As long as a message is sent only when nothing of its key is left, neither
in the air nor at the receiver (`KeyFree`), no two messages are mixed.
-/
import EspIot.Lib.Lists
import EspIot.Lib.Run
import EspIot.Network.Assembly
import Mathlib.Data.List.Perm.Subperm

namespace EspIot

open Lib EspNowInteraction

/-- A fragment on its way, with the peer that sent it. -/
structure InAir where
  macAddr : Mac
  part : EspNowFragment

def InAir.key (x : InAir) : EspNowMessageKey :=
  ⟨x.part.header.id, x.part.header.isResponse, x.macAddr⟩

/-- The peers, the fragments in the air, the messages sent so far with their keys, the receiver
and what it has handed on. -/
structure EspNowNetwork (P : Type*) where
  peers : Mac → AsyncEspNowInteraction P := fun _ => {}
  air : List InAir := []
  sent : List (EspNowMessageKey × List UInt8) := []
  receiver : AsyncEspNowInteraction P := {}
  delivered : List (Handed P) := []

inductive NetworkEvent (P : Type*)
  | send (macAddr : Mac) (data : List UInt8)
  | respond (macAddr : Mac) (id : UInt8) (data : List UInt8)
  | arrive (i : Nat)
  | lose (i : Nat)
  | others (initialized : Bool) (id : UInt8) (requests : UInt8 → Option P) (onMessageCb : Bool)

namespace EspNowNetwork

variable {P : Type*}

/-- The fragments of a message go into the air, unless it was refused. -/
def emit (s : EspNowNetwork P) (key : EspNowMessageKey) (data : List UInt8) :
    Option (List EspNowFragment) → EspNowNetwork P
  | none => s
  | some parts => { s with
      air := s.air ++ parts.map (InAir.mk key.macAddr)
      sent := s.sent ++ [(key, data)] }

def step (s : EspNowNetwork P) : NetworkEvent P → Option (EspNowNetwork P)
  | .send macAddr data =>
      let (parts, peer) := (s.peers macAddr).send data
      let key := ⟨(s.peers macAddr).id, 0, macAddr⟩
      some ({ s with peers := Function.update s.peers macAddr peer }.emit key data parts)
  | .respond macAddr id data =>
      some (s.emit ⟨id, 1, macAddr⟩ data ((s.peers macAddr).respond id data))
  | .arrive i =>
      match s.air[i]? with
      | none => none
      | some x =>
          match s.receiver.onPacketReceived (x.part.arrive x.macAddr) with
          | .error _ => none
          | .ok (handed, receiver) => some
              { s with
                air := s.air.eraseIdx i
                receiver
                delivered := s.delivered ++ handed.toList }
  | .lose i => if i < s.air.length then some { s with air := s.air.eraseIdx i } else none
  | .others initialized id requests onMessageCb =>
      some { s with receiver := { s.receiver with initialized, id, requests, onMessageCb } }

/-- Nothing of the key is left, neither in the air nor at the receiver. -/
def Free (s : EspNowNetwork P) (key : EspNowMessageKey) : Prop :=
  (∀ x ∈ s.air, x.key ≠ key) ∧ s.receiver.messages key = none

/-- A message is sent under a key of which nothing is left. -/
def KeyFree (s : EspNowNetwork P) : NetworkEvent P → Prop
  | .send macAddr _ => s.Free ⟨(s.peers macAddr).id, 0, macAddr⟩
  | .respond macAddr id _ => s.Free ⟨id, 1, macAddr⟩
  | _ => True

instance (s : EspNowNetwork P) (key : EspNowMessageKey) : Decidable (s.Free key) :=
  inferInstanceAs (Decidable (_ ∧ _))

instance (s : EspNowNetwork P) : DecidablePred s.KeyFree
  | .send macAddr _ => inferInstanceAs (Decidable (s.Free ⟨(s.peers macAddr).id, 0, macAddr⟩))
  | .respond macAddr id _ => inferInstanceAs (Decidable (s.Free ⟨id, 1, macAddr⟩))
  | .arrive _ | .lose _ | .others .. => inferInstanceAs (Decidable True)

/-- The fragments of a key that are in the air. -/
def flying (air : List InAir) (key : EspNowMessageKey) : List EspNowFragment :=
  (air.filter fun x => x.key = key).map InAir.part

/-- The message is one that was sent under its key. -/
def SentAs (sent : List (EspNowMessageKey × List UInt8)) (handed : Handed P) : Prop :=
  ∃ payload, (handed.key, payload) ∈ sent ∧ handed.message.size.toNat = payload.length ∧
    handed.message.data.take payload.length = payload.map some

/-- What is left of a key: nothing, or parts of one message, received or in the air, none of
them twice. -/
inductive KeyState (sent : List (EspNowMessageKey × List UInt8)) (key : EspNowMessageKey)
    (entry : Option EspNowMessage) (flying : List EspNowFragment) : Prop
  | free (hentry : entry = none) (hflying : flying = [])
  | current (received : List EspNowFragment) (payload : List UInt8)
      (parts : List EspNowFragment) (hholds : Holds entry received)
      (hsent : (key, payload) ∈ sent)
      (hemitted : Emitted key.id key.isResponse payload parts)
      (hparts : (received ++ flying).Subperm parts) (hmissing : received.length < parts.length)

structure Unmixed (s : EspNowNetwork P) : Prop where
  keys : ∀ key, KeyState s.sent key (s.receiver.messages key) (flying s.air key)
  delivered : ∀ handed ∈ s.delivered, SentAs s.sent handed

/-! ## The air -/

theorem flying_append (air air' : List InAir) (key : EspNowMessageKey) :
    flying (air ++ air') key = flying air key ++ flying air' key := by
  simp [flying]

theorem flying_cons_self (x : InAir) (air : List InAir) :
    flying (x :: air) x.key = x.part :: flying air x.key := by
  simp [flying]

theorem flying_sublist {air air' : List InAir} (h : air'.Sublist air)
    (key : EspNowMessageKey) : (flying air' key).Sublist (flying air key) :=
  (h.filter _).map _

theorem flying_free {air : List InAir} {key : EspNowMessageKey} (h : ∀ x ∈ air, x.key ≠ key) :
    flying air key = [] := by
  rw [flying, List.filter_eq_nil_iff.mpr fun x hx => by simpa using h x hx, List.map_nil]

theorem flying_emitted {key : EspNowMessageKey} {payload : List UInt8}
    {parts : List EspNowFragment} (h : Emitted key.id key.isResponse payload parts)
    (key' : EspNowMessageKey) :
    flying (parts.map (InAir.mk key.macAddr)) key' = if key' = key then parts else [] := by
  have hkey : ∀ x ∈ parts.map (InAir.mk key.macAddr), x.key = key := by
    intro x hx
    obtain ⟨part, hp, rfl⟩ := List.mem_map.mp hx
    obtain ⟨i, hi⟩ := List.getElem?_of_mem hp
    rw [InAir.key, (h.header i part hi).1]
  split
  · rename_i heq
    rw [flying, List.filter_eq_self.mpr fun x hx => by simp [hkey x hx, heq], List.map_map]
    exact List.map_id _
  · rename_i hne
    refine flying_free ?_
    intro x hx
    rw [hkey x hx]
    exact Ne.symm hne

/-! ## Steps -/

theorem step_send {s : EspNowNetwork P} (macAddr : Mac) {data : List UInt8}
    {parts : List EspNowFragment} (hinit : (s.peers macAddr).initialized = true)
    (hparts : sendImpl (s.peers macAddr).id false data = some parts) :
    step s (.send macAddr data) = some { s with
      peers := Function.update s.peers macAddr
        { s.peers macAddr with id := (s.peers macAddr).id + 1 }
      air := s.air ++ parts.map (InAir.mk macAddr)
      sent := s.sent ++ [(⟨(s.peers macAddr).id, 0, macAddr⟩, data)] } := by
  simp [step, AsyncEspNowInteraction.send, hinit, hparts, emit]

theorem step_arrive {s : EspNowNetwork P} {x : InAir} {air : List InAir}
    (hair : s.air = x :: air) {handed : Option (Handed P)} {receiver : AsyncEspNowInteraction P}
    (hs : s.receiver.onPacketReceived (x.part.arrive x.macAddr) = .ok (handed, receiver)) :
    step s (.arrive 0) = some { s with
      air, receiver, delivered := s.delivered ++ handed.toList } := by
  simp [step, hair, hs]

theorem step_lose {s : EspNowNetwork P} {x : InAir} {air : List InAir} (hair : s.air = x :: air) :
    step s (.lose 0) = some { s with air } := by
  simp [step, hair]

theorem KeyState.mono {sent sent' : List (EspNowMessageKey × List UInt8)}
    {key : EspNowMessageKey} {entry : Option EspNowMessage}
    {flying flying' : List EspNowFragment} (h : KeyState sent key entry flying)
    (hsent : sent ⊆ sent') (hflying : flying'.Sublist flying) :
    KeyState sent' key entry flying' := by
  cases h with
  | free hentry hnil =>
      subst hnil
      exact .free hentry (List.sublist_nil.mp hflying)
  | current received payload parts hholds hs hemitted hparts hmissing =>
      refine .current received payload parts hholds (hsent hs) hemitted ?_ hmissing
      exact ((List.Sublist.refl received).append hflying).subperm.trans hparts

theorem SentAs.mono {sent sent' : List (EspNowMessageKey × List UInt8)} {handed : Handed P}
    (h : SentAs sent handed) (hsent : sent ⊆ sent') : SentAs sent' handed := by
  obtain ⟨payload, hs, hmessage⟩ := h
  exact ⟨payload, hsent hs, hmessage⟩

theorem Unmixed.emit {s : EspNowNetwork P} (h : Unmixed s) {key : EspNowMessageKey}
    (hfree : s.Free key) (data : List UInt8) {parts : Option (List EspNowFragment)}
    (hparts : ∀ l, parts = some l → Emitted key.id key.isResponse data l) :
    Unmixed (s.emit key data parts) := by
  cases parts with
  | none => exact h
  | some parts =>
      have hemitted := hparts parts rfl
      refine ⟨?_, fun handed hh => (h.delivered handed hh).mono (List.subset_append_left ..)⟩
      intro key'
      dsimp only [EspNowNetwork.emit]
      rw [flying_append, flying_emitted hemitted]
      split
      · rename_i heq
        subst heq
        rw [flying_free hfree.1, hfree.2]
        exact .current [] data parts rfl (by simp) hemitted (List.Subperm.refl _) hemitted.pos
      · rw [List.append_nil]
        exact (h.keys key').mono (List.subset_append_left ..) (List.Sublist.refl _)

theorem sentAs_whole {sent : List (EspNowMessageKey × List UInt8)} {key : EspNowMessageKey}
    {payload : List UInt8} {parts received : List EspNowFragment} {message : EspNowMessage}
    {first : EspNowInteractionPacketHeader} (hsent : (key, payload) ∈ sent)
    (hemitted : Emitted key.id key.isResponse payload parts) (hperm : received.Perm parts)
    (hassembled : Assembled first received message) {handed : Handed P}
    (hkey : handed.key = key) (hmessage : handed.message = message) : SentAs sent handed := by
  have hle : received.length ≤ 256 := by
    have := hemitted.le
    rw [hperm.length_eq]
    omega
  obtain ⟨hsize, hdata⟩ := hassembled.whole hle hperm
    (fun i part hi => (hemitted.isPart hi).2) hemitted.full
  rw [hemitted.flatten] at hsize hdata
  refine ⟨payload, hkey ▸ hsent, ?_, ?_⟩
  · rw [hmessage]
    exact hsize
  · rw [hmessage, ← hsize]
    exact hdata

section Arrive
variable {s receiver : AsyncEspNowInteraction P} {sent : List (EspNowMessageKey × List UInt8)}
  {x : InAir} {handed : Option (Handed P)} {before after : List EspNowFragment}

theorem KeyState.arrive
    (h : KeyState sent x.key (s.messages x.key) (before ++ x.part :: after))
    (hs : s.onPacketReceived (x.part.arrive x.macAddr) = .ok (handed, receiver)) :
    KeyState sent x.key (receiver.messages x.key) (before ++ after) ∧
      ∀ h ∈ handed, SentAs sent h := by
  cases h with
  | free hentry hnil => simp at hnil
  | current received payload parts hholds hsent hemitted hparts hmissing =>
      have hperm : (received ++ (before ++ x.part :: after)).Perm
          (received ++ [x.part] ++ (before ++ after)) := by
        rw [List.append_assoc]
        exact (List.perm_middle).append_left received
      have hparts' := hperm.symm.subperm.trans hparts
      have hall : ∀ part ∈ received ++ [x.part], IsPart parts.length part := by
        intro part hp
        obtain ⟨j, hj⟩ := List.getElem?_of_mem (hparts'.subset (List.mem_append_left _ hp))
        exact (hemitted.isPart hj).1
      obtain ⟨hacc, hfragment⟩ := (hall x.part (by simp)).arrive x.macAddr
      cases hill : x.part.header.illFormed with
      | true =>
          rw [hill, if_pos rfl] at hacc
          rcases AsyncEspNowInteraction.received_cases hs with ⟨-, rfl, rfl⟩ | ⟨_, _, hsome, -⟩
          · refine ⟨.current received payload parts hholds hsent hemitted ?_ hmissing, by simp⟩
            exact ((List.sublist_append_left received [x.part]).append_right _).subperm.trans
              hparts'
          · rw [hacc] at hsome
            cases hsome
      | false =>
          rw [hill, if_neg Bool.false_ne_true] at hacc
          have hkey : (x.part.arrive x.macAddr).key x.part.header = x.key := rfl
          obtain ⟨handed', receiver', hs', hmore, hlast⟩ := received_part hholds
            (by rw [hfragment]; exact hall) hmissing hacc hkey
          rw [hs] at hs'
          cases hs'
          rw [hfragment] at hmore hlast
          rcases Nat.lt_or_eq_of_le (Nat.succ_le_of_lt hmissing) with hlt | heq
          · obtain ⟨rfl, hholds'⟩ := hmore hlt
            refine ⟨.current _ payload parts hholds' hsent hemitted hparts' ?_, by simp⟩
            rw [List.length_append]
            exact hlt
          · obtain ⟨message, first, rfl, hassembled, hm⟩ := hlast heq
            -- all parts are there, so none is left in the air
            have hlen := hparts'.length_le
            rw [List.length_append, List.length_append, List.length_singleton] at hlen
            have hnil : before ++ after = [] := List.length_eq_zero_iff.mp (by omega)
            have hwhole : (received ++ [x.part]).Perm parts := by
              rw [hnil, List.append_nil] at hparts'
              refine hparts'.perm_of_length_le ?_
              rw [List.length_append, List.length_singleton]
              omega
            refine ⟨.free hm hnil, ?_⟩
            intro h hh
            cases hh
            obtain ⟨hk, hmessage⟩ := s.handOn_handed x.key message
            exact sentAs_whole hsent hemitted hwhole hassembled hk hmessage

end Arrive

theorem Unmixed.arrive {s : EspNowNetwork P} (h : Unmixed s) {i : Nat} {x : InAir}
    (hi : s.air[i]? = some x) {handed : Option (Handed P)} {receiver : AsyncEspNowInteraction P}
    (hs : s.receiver.onPacketReceived (x.part.arrive x.macAddr) = .ok (handed, receiver)) :
    Unmixed { s with
      air := s.air.eraseIdx i
      receiver
      delivered := s.delivered ++ handed.toList } := by
  obtain ⟨air₁, air₂, hair, herase⟩ := exists_split_erase hi
  have hkey := h.keys x.key
  rw [hair, flying_append, flying_cons_self] at hkey
  obtain ⟨hstate, hsentAs⟩ := hkey.arrive hs
  refine ⟨?_, ?_⟩
  · intro key
    by_cases heq : key = x.key
    · subst heq
      rw [herase, flying_append]
      exact hstate
    · rw [(received_other hs fun header hacc => ?_).1]
      · exact (h.keys key).mono (List.Subset.refl _)
          (flying_sublist (List.eraseIdx_sublist ..) key)
      · have hread := (EspNowPacket.accepted_read hacc).1
        rw [x.part.arrive_read] at hread
        cases hread
        exact Ne.symm heq
  · intro h' hh
    rcases List.mem_append.mp hh with hold | hnew
    · exact h.delivered h' hold
    · exact hsentAs h' (Option.mem_toList.mp hnew)

theorem Unmixed.step (s : EspNowNetwork P) (e : NetworkEvent P) (s' : EspNowNetwork P)
    (h : Unmixed s) (hc : KeyFree s e) (hs : s.step e = some s') : Unmixed s' := by
  cases e with
  | send macAddr data =>
      have hpeer : Unmixed { s with
          peers := Function.update s.peers macAddr ((s.peers macAddr).send data).2 } :=
        ⟨h.keys, h.delivered⟩
      rw [← Option.some.inj hs]
      exact hpeer.emit hc data fun parts (hp : ((s.peers macAddr).send data).1 = some parts) =>
        sendImpl_emitted (AsyncEspNowInteraction.send_some hp)
  | respond macAddr id data =>
      cases hs
      exact h.emit hc data fun parts hp =>
        sendImpl_emitted (AsyncEspNowInteraction.respond_some hp)
  | arrive i =>
      simp only [EspNowNetwork.step] at hs
      split at hs
      · cases hs
      · rename_i x hi
        split at hs
        · cases hs
        · rename_i handed receiver hr
          cases hs
          exact h.arrive hi hr
  | lose i =>
      simp only [EspNowNetwork.step] at hs
      split at hs
      · cases hs
        exact ⟨fun key => (h.keys key).mono (List.Subset.refl _)
          (flying_sublist (List.eraseIdx_sublist ..) key), h.delivered⟩
      · cases hs
  | others initialized id requests onMessageCb =>
      cases hs
      exact ⟨h.keys, h.delivered⟩

/-- **No two messages are mixed as long as keys are free.**  In every run of sends and responses
of any peers, of fragments that arrive in any order or are lost, and of whatever else the
receiver does: where each message is sent under a key of which nothing is left, every message
handed on has exactly the bytes of one message sent under its key. -/
theorem delivered_as_sent (es : List (NetworkEvent P)) (hfree : Each step KeyFree {} es)
    (s : EspNowNetwork P) (hs : run step {} es = some s) (handed : Handed P)
    (hdelivered : handed ∈ s.delivered) : SentAs s.sent handed := by
  have hinit : Unmixed ({} : EspNowNetwork P) := ⟨fun _ => .free rfl rfl, by simp⟩
  exact (run_each_invariant Unmixed.step hinit hfree hs).delivered _ hdelivered

/-- The callback is set.  Half a message of one peer is lost; another peer sends two parts, which
arrive in the other order, then 255 messages that are lost, and then two parts under the first id
again. -/
def idUsedAgain : List (NetworkEvent Nat) :=
  let peer : Mac := Vector.replicate 6 1
  [.others true 0 (fun _ => none) true, .send (Vector.replicate 6 2) (long 3), .arrive 1, .lose 0,
    .send peer (long 1), .arrive 1, .arrive 0] ++
  (List.replicate 255 [.send peer [0], .lose 0]).flatten ++
  [.send peer (long 2), .arrive 1, .arrive 0]

/-- Both messages under the id are delivered as they were sent. -/
theorem delivered_as_sent_again :
    ∃ s, run step {} idUsedAgain = some s ∧
      ∃ first second, s.delivered = [first, second] ∧ first.key = second.key ∧
        first.recipient = .onMessage ∧ second.recipient = .onMessage ∧
        SentAs s.sent first ∧ SentAs s.sent second := by
  have hfree : Each step KeyFree {} idUsedAgain := by decide +kernel
  have hrun : (run step {} idUsedAgain).map (fun s => s.delivered.map fun handed =>
      (handed.key, handed.recipient)) = some [(⟨0, 0, Vector.replicate 6 1⟩, .onMessage),
        (⟨0, 0, Vector.replicate 6 1⟩, .onMessage)] := by decide +kernel
  obtain ⟨s, hs, hdelivered⟩ := Option.map_eq_some_iff.mp hrun
  obtain ⟨first, rest, hcons, hfirst, hrest⟩ := List.map_eq_cons_iff.mp hdelivered
  obtain ⟨second, rfl, hsecond⟩ := List.map_eq_singleton_iff.mp hrest
  obtain ⟨hfirstKey, hfirstTo⟩ := Prod.mk.inj hfirst
  obtain ⟨hsecondKey, hsecondTo⟩ := Prod.mk.inj hsecond
  have hsentAs := delivered_as_sent idUsedAgain hfree s hs
  exact ⟨s, hs, first, second, hcons, hfirstKey.trans hsecondKey.symm, hfirstTo, hsecondTo,
    hsentAs first (by simp [hcons]), hsentAs second (by simp [hcons])⟩

/-! ## An id used again -/

theorem run_lost (macAddr : Mac) (n : Nat) : ∀ {s : EspNowNetwork P}, s.air = [] →
    (s.peers macAddr).initialized = true →
    ∃ t, run step s (List.replicate n [.send macAddr [0], .lose 0]).flatten = some t ∧
      t.air = [] ∧ t.receiver = s.receiver ∧ t.delivered = s.delivered ∧
      (t.peers macAddr).initialized = true ∧
      (t.peers macAddr).id = (s.peers macAddr).id + UInt8.ofNat n ∧
      ∀ x ∈ t.sent, x ∈ s.sent ∨ x.2 = [0] := by
  induction n with
  | zero =>
      intro s hair hinit
      exact ⟨s, rfl, hair, rfl, rfl, hinit, by simp, fun x hx => Or.inl hx⟩
  | succ n ih =>
      intro s hair hinit
      obtain ⟨t, hrun, htair, hreceiver, hdelivered, htinit, hid, hsent⟩ := ih
        (s := { s with
          peers := Function.update s.peers macAddr
            { s.peers macAddr with id := (s.peers macAddr).id + 1 }
          air := []
          sent := s.sent ++ [(⟨(s.peers macAddr).id, 0, macAddr⟩, [0])] })
        rfl (by simp [hinit])
      refine ⟨t, ?_, htair, hreceiver, hdelivered, htinit, ?_, ?_⟩
      · rw [List.replicate_succ, List.flatten_cons, List.cons_append, List.singleton_append,
          run_cons (step_send _ hinit (sendImpl_one _ 0)), run_cons ?_, hrun]
        simp [step, hair]
      · simp only [Function.update_self] at hid
        rw [hid]
        refine UInt8.toNat_inj.mp ?_
        simp only [UInt8.toNat_add, UInt8.toNat_ofNat', UInt8.toNat_one]
        omega
      · intro x hx
        rcases hsent x hx with hx | hx
        · rcases List.mem_append.mp hx with hx | hx
          · exact Or.inl hx
          · exact Or.inr (by rw [List.mem_singleton.mp hx])
        · exact Or.inr hx

theorem not_sentAs_halves {sent : List (EspNowMessageKey × List UInt8)} {handed : Handed P}
    {id₁ id₂ : UInt8} {first : EspNowInteractionPacketHeader}
    (hassembled : Assembled first [halfPart id₁ 0 1, halfPart id₂ 1 2] handed.message)
    (hsent : ∀ x ∈ sent, x.2 = long 1 ∨ x.2 = long 2 ∨ x.2 = [0]) : ¬ SentAs sent handed := by
  have hindex : ∀ (i : Nat) (part : EspNowFragment),
      [halfPart id₁ 0 1, halfPart id₂ 1 2][i]? = some part → part.header.index.toNat = i
    | 0, _, hi => by cases hi; rfl
    | 1, _, hi => by cases hi; rfl
    | i + 2, _, hi => by simp at hi
  have hfull : FullButLast maxPacketDataLength
      ([halfPart id₁ 0 1, halfPart id₂ 1 2].map EspNowFragment.bytes)
    | 0, _, hi, _ => by cases hi; exact halfPart_length ..
    | i + 1, _, _, hlt => absurd hlt (by simp)
  obtain ⟨hsize, hdata⟩ := hassembled.whole (Nat.le_of_ble_eq_true rfl) (List.Perm.refl _)
    hindex hfull
  rintro ⟨payload, hs, hlen, htake⟩
  rw [← hlen, hdata] at htake
  have hpayload : (halfPart id₁ 0 1).bytes ++ ((halfPart id₂ 1 2).bytes ++ []) = payload :=
    List.map_injective_iff.mpr (Option.some_injective UInt8) htake
  have hone : (1 : UInt8) ∈ payload := by
    rw [← hpayload]
    exact List.mem_append_left _ (List.mem_replicate.mpr ⟨by decide, rfl⟩)
  have htwo : (2 : UInt8) ∈ payload := by
    rw [← hpayload, List.append_nil]
    exact List.mem_append_right _ (List.mem_replicate.mpr ⟨by decide, rfl⟩)
  rcases hsent _ hs with rfl | rfl | rfl
  · exact absurd (List.eq_of_mem_replicate htwo) (by decide)
  · exact absurd (List.eq_of_mem_replicate hone) (by decide)
  · exact absurd (List.mem_singleton.mp hone) (by decide)

theorem step_send_long {m : Mac} {s : EspNowNetwork P} (hair : s.air = [])
    (hinit : (s.peers m).initialized = true) {id : UInt8} (hid : (s.peers m).id = id) (b : UInt8) :
    ∃ t, step s (.send m (long b)) = some t ∧
      t.air = [⟨m, halfPart id 0 b⟩, ⟨m, halfPart id 1 b⟩] ∧
      (t.peers m).initialized = true ∧ (t.peers m).id = id + 1 ∧
      t.sent = s.sent ++ [(⟨id, 0, m⟩, long b)] ∧ t.receiver = s.receiver := by
  subst hid
  exact ⟨_, step_send _ hinit (sendImpl_long _ b), by rw [hair]; rfl, by simp [hinit], by simp, rfl,
    rfl⟩

theorem run_first_half {m : Mac} {s : EspNowNetwork P} (hair : s.air = [])
    (hinit : (s.peers m).initialized = true) (hid : (s.peers m).id = 0)
    (hholds : Holds (s.receiver.messages ⟨0, 0, m⟩) []) :
    ∃ t, run step s [.send m (long 1), .arrive 0, .lose 0] = some t ∧
      t.air = [] ∧ (t.peers m).initialized = true ∧ (t.peers m).id = 1 ∧
      t.sent = s.sent ++ [(⟨0, 0, m⟩, long 1)] ∧
      t.receiver.onMessageCb = s.receiver.onMessageCb ∧
      Holds (t.receiver.messages ⟨0, 0, m⟩) [halfPart 0 0 1] := by
  obtain ⟨u, hsend, huair, huinit, huid, husent, hureceiver⟩ := step_send_long hair hinit hid 1
  have hpart : IsPart 2 (halfPart 0 0 1) := halfPart_isPart 0 1 (by decide)
  obtain ⟨hacc, hfragment⟩ := hpart.arrive m
  rw [if_neg (by decide)] at hacc
  rw [← hureceiver] at hholds
  obtain ⟨handed, r, hr, hmore, -⟩ := received_part hholds (by simpa [hfragment] using hpart)
    (Nat.zero_lt_succ 1) hacc rfl
  obtain ⟨rfl, hholds'⟩ := hmore (by decide)
  rw [hfragment] at hholds'
  have hlost := (run_cons (step_arrive huair hr) _).trans (run_cons (step_lose rfl) [])
  refine ⟨_, (run_cons hsend _).trans hlost, rfl, huinit, huid, husent, ?_, hholds'⟩
  rw [← hureceiver]
  exact received_onMessageCb hr

theorem run_second_half {m : Mac} {s : EspNowNetwork P} (hair : s.air = [])
    (hinit : (s.peers m).initialized = true) (hid : (s.peers m).id = 0)
    (hcallback : s.receiver.onMessageCb = true)
    (hholds : Holds (s.receiver.messages ⟨0, 0, m⟩) [halfPart 0 0 1]) :
    ∃ t, run step s [.send m (long 2), .lose 0, .arrive 0] = some t ∧
      t.sent = s.sent ++ [(⟨0, 0, m⟩, long 2)] ∧
      ∃ handed ∈ t.delivered, handed.recipient = .onMessage ∧
        ∃ first, Assembled first [halfPart 0 0 1, halfPart 0 1 2] handed.message := by
  obtain ⟨u, hsend, huair, -, -, husent, hureceiver⟩ := step_send_long hair hinit hid 2
  have hpart : IsPart 2 (halfPart 0 1 2) := halfPart_isPart 0 2 (by decide)
  have hall : ∀ part ∈ [halfPart 0 0 1, halfPart 0 1 2], IsPart 2 part := by
    simp [hpart, halfPart_isPart 0 1 (by decide : (0 : UInt8).toNat < 2)]
  obtain ⟨hacc, hfragment⟩ := hpart.arrive m
  rw [if_neg (by decide)] at hacc
  rw [← hureceiver] at hholds hcallback
  obtain ⟨handed, r, hr, -, hlast⟩ := received_part hholds (by rw [hfragment]; exact hall)
    (Nat.lt_succ_self 1) hacc rfl
  obtain ⟨message, first, rfl, hassembled, -⟩ := hlast rfl
  rw [hfragment] at hassembled
  have harrive := step_arrive (s := { u with air := [⟨m, halfPart 0 1 2⟩] }) rfl hr
  have harrived := (run_cons (step_lose huair) _).trans (run_cons harrive [])
  refine ⟨_, (run_cons hsend _).trans harrived, husent, _,
    List.mem_append_right _ (List.mem_singleton_self _), ?_, first, ?_⟩
  · simp [AsyncEspNowInteraction.handOn, hcallback]
  · rw [(u.receiver.handOn_handed _ message).2]
    exact hassembled

/-- The first of the two parts of a message arrives and the second is lost; after 255 more
sends a message under the same id loses its first part, and its second completes the old
message. -/
theorem reused_id_mixed :
    ∃ (es : List (NetworkEvent Nat)) (s : EspNowNetwork Nat), run step {} es = some s ∧
      ∃ handed ∈ s.delivered, handed.recipient = .onMessage ∧ ¬ SentAs s.sent handed := by
  obtain ⟨s, hrun, hair, hinit, hid, hsent, hcallback, hholds⟩ :=
    run_first_half (s := { receiver := { onMessageCb := true } }) (m := Vector.replicate 6 1)
      rfl rfl rfl rfl
  obtain ⟨t, hlost, htair, htreceiver, -, htinit, htid, htsent⟩ :=
    run_lost (Vector.replicate 6 1) 255 hair hinit
  rw [← htreceiver] at hcallback hholds
  obtain ⟨u, hlast, husent, handed, hdelivered, hrecipient, first, hassembled⟩ :=
    run_second_half htair htinit (by rw [htid, hid]; rfl) hcallback hholds
  have hothers : step ({} : EspNowNetwork Nat) (.others true 0 (fun _ => none) true) =
      some { receiver := { onMessageCb := true } } := rfl
  refine ⟨_, u, (run_cons hothers _).trans ((run_append_of ((run_append_of hrun _).trans hlost)
    _).trans hlast), handed, hdelivered, hrecipient, not_sentAs_halves hassembled ?_⟩
  intro x hx
  rw [husent] at hx
  rcases List.mem_append.mp hx with hx | hx
  · rcases htsent x hx with hx | hx
    · rw [hsent] at hx
      exact Or.inl (by rw [List.mem_singleton.mp hx])
    · exact Or.inr (Or.inr hx)
  · exact Or.inr (Or.inl (by rw [List.mem_singleton.mp hx]))

end EspNowNetwork

end EspIot
