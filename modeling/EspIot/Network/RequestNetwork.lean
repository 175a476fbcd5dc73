/-
# `EspIot.Network.RequestNetwork` — the answer to a request, over the air

Between the bytes that a peer answers with and the future of a request stand four layers.
`respond` cuts the bytes up, the air loses and reorders the parts, the node puts them together and
looks for the request, and the combinators hand the message on:

    respond id bytes ──▶ air ──▶ _messages ──▶ _requests[id] ──▶ the future of request

`Network.Mixing` is the first half of this and `Network.RequestPeers` the second, and the node in
the middle is one.  Where each half keeps what it keeps alone, the future carries what the peer has
sent, byte for byte.

The requests are not in the air: a peer sends and answers what and when it likes.
-/
import EspIot.Network.Mixing
import EspIot.Network.RequestPeers

namespace EspIot

open Lib EspNowInteraction

/-- A node with its requests, and the peers whose messages are on their way to it. -/
structure RequestNetwork where
  node : PeerRequests := {}
  peers : Mac → AsyncEspNowInteraction ℕ := fun _ => {}
  air : List InAir := []
  sent : List (EspNowMessageKey × List UInt8) := []

/-- The node does something of its own; a peer sends or answers; a fragment arrives or is lost. -/
inductive RequestNetworkEvent
  | own (event : RequestEvent)
  | send (macAddr : Mac) (data : List UInt8)
  | respond (macAddr : Mac) (id : UInt8) (data : List UInt8)
  | arrive (i : ℕ)
  | lose (i : ℕ)

namespace RequestNetwork

/-- The peers and the air, with the node as the receiver. -/
def network (s : RequestNetwork) : EspNowNetwork ℕ where
  peers := s.peers
  air := s.air
  sent := s.sent
  receiver := s.node.requests.node

/-- Something happens among the peers or in the air. -/
def withNetwork (s : RequestNetwork) (n : EspNowNetwork ℕ) : RequestNetwork :=
  { s with peers := n.peers, air := n.air, sent := n.sent }

def step (s : RequestNetwork) : RequestNetworkEvent → Option RequestNetwork
  | .own (.received _) => none
  | .own e => (s.node.step e).map fun node => { s with node }
  | .send macAddr data => (s.network.step (.send macAddr data)).map s.withNetwork
  | .respond macAddr id data => (s.network.step (.respond macAddr id data)).map s.withNetwork
  | .arrive i =>
      match s.air[i]? with
      | none => none
      | some x =>
          (s.node.step (.received (x.part.arrive x.macAddr))).map fun node =>
            { s with node, air := s.air.eraseIdx i }
  | .lose i => (s.network.step (.lose i)).map s.withNetwork

/-- A message is sent under a key of which nothing is left, and no response of another peer
completes under the id of a request that waits. -/
def Separate (peer : ℕ → Mac) (s : RequestNetwork) : RequestNetworkEvent → Prop
  | .own _ => True
  | .send macAddr data => s.network.KeyFree (.send macAddr data)
  | .respond macAddr id data => s.network.KeyFree (.respond macAddr id data)
  | .arrive i => ∀ x, s.air[i]? = some x →
      s.node.FromPeer peer (.received (x.part.arrive x.macAddr))
  | .lose _ => True

instance (peer : ℕ → Mac) (s : RequestNetwork) : DecidablePred (Separate peer s)
  | .own _ | .lose _ => inferInstanceAs (Decidable True)
  | .send macAddr data => inferInstanceAs (Decidable (s.network.KeyFree (.send macAddr data)))
  | .respond macAddr id data =>
      inferInstanceAs (Decidable (s.network.KeyFree (.respond macAddr id data)))
  | .arrive i => inferInstanceAs (Decidable (∀ x ∈ s.air[i]?,
      s.node.FromPeer peer (.received (x.part.arrive x.macAddr))))

/-- **What the future of a request carries are the bytes that its peer has answered under its
id.** -/
def AnsweredAsSent (peer : ℕ → Mac) (s : RequestNetwork) : Prop :=
  ∀ r ∈ s.node.requests.made, ∀ value, s.node.Succeeds r value →
    ∃ macAddr payload message, (⟨r.id, 1, macAddr⟩, payload) ∈ s.sent ∧
      (peer r.send = broadcastMac ∨ macAddr = peer r.send) ∧
      value = some (.message message) ∧ message.size.toNat = payload.length ∧
      message.data.take payload.length = payload.map some

structure Carried (peer : ℕ → Mac) (s : RequestNetwork) : Prop where
  kept : s.node.Kept
  replied : s.node.RepliedByPeer peer
  unmixed : s.network.Unmixed
  flags : ∀ x ∈ s.sent, x.1.isResponse ≠ 0 → x.1.isResponse = 1
  sentAs : ∀ reply ∈ s.node.replies, EspNowNetwork.SentAs s.sent
    { key := reply.key, recipient := .request reply.send, message := reply.message }

variable {peer : ℕ → Mac} {s t : RequestNetwork}

theorem Carried.answered (h : Carried peer s) : AnsweredAsSent peer s := by
  intro r hr value hsucceeds
  obtain ⟨reply, hreply, hvalue, hsend, hid, hresponse, hpeer⟩ :=
    h.kept.answered h.replied r hr value hsucceeds
  obtain ⟨payload, hsent, hsize, hdata⟩ := h.sentAs reply hreply
  have hkey : reply.key = ⟨r.id, 1, reply.key.macAddr⟩ := by
    rw [← hid, ← h.flags _ hsent hresponse.isResponse]
  refine ⟨reply.key.macAddr, payload, reply.message, hkey ▸ hsent, ?_, hvalue, hsize, hdata⟩
  rw [← hsend]
  exact hpeer

/-! ## The node -/

theorem step_own (s : RequestNetwork) (e : RequestEvent) :
    s.step (.own e) = none ∨ (∀ packet, e ≠ .received packet) ∧
      s.step (.own e) = (s.node.step e).map fun node => { s with node } := by
  cases e with
  | received packet => exact .inl rfl
  | _ => exact .inr ⟨nofun, rfl⟩

theorem own_messages {u v : EspNowRequests} {e : RequestEvent}
    (hown : ∀ packet, e ≠ .received packet) (hv : u.step e = some v) :
    v.node.messages = u.node.messages := by
  cases e with
  | send data accepted =>
      obtain rfl := Option.some.inj hv
      obtain ⟨hgrows, -⟩ := EspNowRequests.sendImpl_grows
        { u with node := (u.node.send data).2 } u.node.id accepted (u.node.send data).1
      refine (congrArg AsyncEspNowInteraction.messages hgrows.node).trans ?_
      show (u.node.send data).2.messages = u.node.messages
      rw [AsyncEspNowInteraction.send]
      split
      · rfl
      · rfl
  | respond id data accepted =>
      obtain rfl := Option.some.inj hv
      obtain ⟨hgrows, -⟩ := u.sendImpl_grows id accepted (u.node.respond id data)
      exact congrArg AsyncEspNowInteraction.messages hgrows.node
  | request data accepted =>
      obtain rfl := Option.some.inj hv
      cases hinit : u.node.initialized with
      | true =>
          obtain ⟨r, -, -, hmessages, -⟩ := PeerRequests.request_handsOn hinit data accepted
          exact hmessages
      | false =>
          rw [EspNowRequests.request, if_pos hinit]
          rfl
  | sent send index ok =>
      obtain rfl := Option.some.inj hv
      rfl
  | received packet => exact absurd rfl (hown packet)
  | runTask =>
      have hrun : u.runTask = some v := hv
      rw [EspNowRequests.runTask] at hrun
      split at hrun
      · obtain ⟨system, -, rfl⟩ := Option.map_eq_some_iff.mp hrun
        exact (PeerRequests.effect_spec u.node _).1
      · obtain ⟨system, -, rfl⟩ := Option.map_eq_some_iff.mp hrun
        rfl
  | others initialized onMessageCb =>
      obtain rfl := Option.some.inj hv
      rfl

theorem own_replies {u v : PeerRequests} {e : RequestEvent}
    (hown : ∀ packet, e ≠ .received packet) (hv : u.step e = some v) : v.replies = u.replies := by
  obtain ⟨requests, -, rfl⟩ := Option.map_eq_some_iff.mp hv
  cases e with
  | received packet => exact absurd rfl (hown packet)
  | _ => exact List.append_nil _

theorem Carried.own (h : Carried peer s) {e : RequestEvent}
    (hown : ∀ packet, e ≠ .received packet) {node : PeerRequests}
    (hnode : s.node.step e = some node) : Carried peer { s with node } where
  kept := h.kept.step hnode
  replied := by
    refine PeerRequests.repliedByPeer_step h.replied ?_ hnode
    cases e with
    | received packet => exact absurd rfl (hown packet)
    | _ => exact trivial
  unmixed := by
    obtain ⟨requests, hrequests, rfl⟩ := Option.map_eq_some_iff.mp hnode
    refine ⟨?_, h.unmixed.delivered⟩
    intro key
    show EspNowNetwork.KeyState s.sent key (requests.node.messages key)
      (EspNowNetwork.flying s.air key)
    rw [own_messages hown hrequests]
    exact h.unmixed.keys key
  flags := h.flags
  sentAs := by
    show ∀ reply ∈ node.replies, _
    rw [own_replies hown hnode]
    exact h.sentAs

/-! ## The air -/

theorem Carried.network (h : Carried peer s) {e : NetworkEvent ℕ} {n : EspNowNetwork ℕ}
    (hfree : s.network.KeyFree e) (hn : s.network.step e = some n)
    (hreceiver : n.receiver = s.node.requests.node) (hsent : s.sent ⊆ n.sent)
    (hflags : ∀ x ∈ n.sent, x ∈ s.sent ∨ x.1.isResponse = 0 ∨ x.1.isResponse = 1) :
    Carried peer (s.withNetwork n) where
  kept := h.kept
  replied := h.replied
  unmixed := by
    have hunmixed := EspNowNetwork.Unmixed.step s.network e n h.unmixed hfree hn
    refine ⟨?_, nofun⟩
    intro key
    have hkey := hunmixed.keys key
    rw [hreceiver] at hkey
    exact hkey
  flags x hx hne := by
    rcases hflags x hx with hold | hzero | hone
    · exact h.flags x hold hne
    · exact absurd hzero hne
    · exact hone
  sentAs reply hreply := (h.sentAs reply hreply).mono hsent

theorem emit_frame (n : EspNowNetwork ℕ) (key : EspNowMessageKey) (data : List UInt8)
    (parts : Option (List EspNowFragment)) :
    (n.emit key data parts).receiver = n.receiver ∧ n.sent ⊆ (n.emit key data parts).sent := by
  cases parts with
  | none => exact ⟨rfl, List.Subset.refl _⟩
  | some parts => exact ⟨rfl, List.subset_append_left ..⟩

theorem emit_sent {n : EspNowNetwork ℕ} {key key' : EspNowMessageKey} {data bytes : List UInt8}
    {parts : Option (List EspNowFragment)} (h : (key', bytes) ∈ (n.emit key data parts).sent) :
    (key', bytes) ∈ n.sent ∨ key' = key ∧ bytes = data := by
  cases parts with
  | none => exact .inl h
  | some parts =>
      rcases List.mem_append.mp h with hold | hnew
      · exact .inl hold
      · exact .inr (Prod.ext_iff.mp (List.mem_singleton.mp hnew))

theorem sent_response {e : RequestNetworkEvent} (ht : s.step e = some t)
    {key : EspNowMessageKey} {bytes : List UInt8} (hsent : (key, bytes) ∈ t.sent)
    (hkey : key.isResponse = 1) :
    (key, bytes) ∈ s.sent ∨ e = .respond key.macAddr key.id bytes := by
  cases e with
  | own e =>
      rcases s.step_own e with hnone | ⟨-, hsome⟩
      · rw [hnone] at ht
        cases ht
      · rw [hsome] at ht
        obtain ⟨node, -, rfl⟩ := Option.map_eq_some_iff.mp ht
        exact .inl hsent
  | send macAddr data =>
      rw [RequestNetwork.step] at ht
      obtain ⟨n, hn, rfl⟩ := Option.map_eq_some_iff.mp ht
      obtain rfl := Option.some.inj hn
      rcases emit_sent hsent with hold | ⟨rfl, -⟩
      · exact .inl hold
      · exact absurd hkey (by decide : ¬ (0 : UInt8) = 1)
  | respond macAddr id data =>
      rw [RequestNetwork.step] at ht
      obtain ⟨n, hn, rfl⟩ := Option.map_eq_some_iff.mp ht
      obtain rfl := Option.some.inj hn
      rcases emit_sent hsent with hold | ⟨rfl, rfl⟩
      · exact .inl hold
      · exact .inr rfl
  | arrive i =>
      rw [RequestNetwork.step] at ht
      split at ht
      · cases ht
      · obtain ⟨node, -, rfl⟩ := Option.map_eq_some_iff.mp ht
        exact .inl hsent
  | lose i =>
      rw [RequestNetwork.step] at ht
      obtain ⟨n, hn, rfl⟩ := Option.map_eq_some_iff.mp ht
      rw [EspNowNetwork.step] at hn
      split at hn
      · obtain rfl := Option.some.inj hn
        exact .inl hsent
      · cases hn

/-- A fragment arrives: if it completes a response for a request, then the response is what was
sent. -/
theorem Carried.arrive (h : Carried peer s) {i : ℕ} {x : InAir} (hx : s.air[i]? = some x)
    (hfrom : s.node.FromPeer peer (.received (x.part.arrive x.macAddr))) {node : PeerRequests}
    (hnode : s.node.step (.received (x.part.arrive x.macAddr)) = some node) :
    Carried peer { s with node, air := s.air.eraseIdx i } := by
  have hkept := h.kept.step hnode
  have hreplied := PeerRequests.repliedByPeer_step h.replied hfrom hnode
  obtain ⟨requests, hrequests, rfl⟩ := Option.map_eq_some_iff.mp hnode
  have hreceived : s.node.requests.received (x.part.arrive x.macAddr) = some requests := hrequests
  rw [EspNowRequests.received] at hreceived
  split at hreceived
  · cases hreceived
  · next handed receiver hs =>
      have hunmixed := h.unmixed.arrive (s := s.network) hx hs
      have hreceiver : requests.node = receiver := by
        rw [← Option.some.inj hreceived]
      refine ⟨hkept, hreplied, ⟨?_, fun _ h => by cases h⟩, h.flags, ?_⟩
      · intro key
        have hkey := hunmixed.keys key
        rw [← hreceiver] at hkey
        exact hkey
      · intro reply hreply
        rcases List.mem_append.mp hreply with hold | hnew
        · exact h.sentAs reply hold
        · obtain ⟨header, _, -, -, -, -, -, -, hhanded⟩ :=
            PeerRequests.replyOf_received (Option.mem_toList.mp hnew)
          rw [hs] at hhanded
          cases hhanded
          exact hunmixed.delivered _ (List.mem_append_right _ (List.mem_singleton_self _))

/-! ## Every run -/

theorem Carried.step {e : RequestNetworkEvent} (h : Carried peer s) (hseparate : Separate peer s e)
    (ht : s.step e = some t) : Carried peer t := by
  cases e with
  | own e =>
      rcases s.step_own e with hnone | ⟨hown, hsome⟩
      · rw [hnone] at ht
        cases ht
      · rw [hsome] at ht
        obtain ⟨node, hnode, rfl⟩ := Option.map_eq_some_iff.mp ht
        exact h.own hown hnode
  | send macAddr data =>
      rw [RequestNetwork.step] at ht
      obtain ⟨n, hn, rfl⟩ := Option.map_eq_some_iff.mp ht
      have hframe := emit_frame { s.network with
          peers := Function.update s.peers macAddr ((s.peers macAddr).send data).2 }
        ⟨(s.peers macAddr).id, 0, macAddr⟩ data ((s.peers macAddr).send data).1
      have hsame := Option.some.inj hn
      refine h.network (e := .send macAddr data) hseparate hn (hsame ▸ hframe.1)
        (hsame ▸ hframe.2) ?_
      intro x hx
      rcases emit_sent (hsame ▸ hx) with hold | ⟨hkey, -⟩
      · exact .inl hold
      · exact .inr (.inl (hkey ▸ rfl))
  | respond macAddr id data =>
      rw [RequestNetwork.step] at ht
      obtain ⟨n, hn, rfl⟩ := Option.map_eq_some_iff.mp ht
      have hframe := emit_frame s.network ⟨id, 1, macAddr⟩ data
        ((s.peers macAddr).respond id data)
      have hsame := Option.some.inj hn
      refine h.network (e := .respond macAddr id data) hseparate hn (hsame ▸ hframe.1)
        (hsame ▸ hframe.2) ?_
      intro x hx
      rcases emit_sent (hsame ▸ hx) with hold | ⟨hkey, -⟩
      · exact .inl hold
      · exact .inr (.inr (hkey ▸ rfl))
  | arrive i =>
      rw [RequestNetwork.step] at ht
      split at ht
      · cases ht
      · next x hx =>
          obtain ⟨node, hnode, rfl⟩ := Option.map_eq_some_iff.mp ht
          exact h.arrive hx (hseparate x hx) hnode
  | lose i =>
      rw [RequestNetwork.step] at ht
      obtain ⟨n, hn, rfl⟩ := Option.map_eq_some_iff.mp ht
      have hlost := hn
      rw [EspNowNetwork.step] at hlost
      split at hlost
      · cases hlost
        exact h.network (e := .lose i) trivial hn rfl (List.Subset.refl _) fun _ hx => .inl hx
      · cases hlost

theorem Carried.start : Carried peer {} where
  kept := PeerRequests.Kept.start
  replied := nofun
  unmixed := ⟨fun _ => .free rfl rfl, nofun⟩
  flags := nofun
  sentAs := nofun

/-- **Whatever is lost or comes in another order, and however the tasks are scheduled, a request
succeeds with the very bytes that its peer has answered under its id**, as long as no message is
sent under a key of which something is left, and no other peer answers a request that waits. -/
theorem answered_as_sent (peer : ℕ → Mac) (es : List RequestNetworkEvent)
    (hseparate : Each step (Separate peer) {} es) : Always step (AnsweredAsSent peer) {} es :=
  Always.of_each (I := Carried peer) (fun _ h => h.answered)
    (fun _ _ _ h hc ht => h.step hc ht) Carried.start hseparate

theorem own_free {e : RequestEvent} {key : EspNowMessageKey} (hfree : s.network.Free key)
    (ht : s.step (.own e) = some t) : t.network.Free key := by
  rcases s.step_own e with hnone | ⟨hown, hsome⟩
  · rw [hnone] at ht
    cases ht
  · rw [hsome] at ht
    obtain ⟨node, hnode, rfl⟩ := Option.map_eq_some_iff.mp ht
    obtain ⟨requests, hrequests, rfl⟩ := Option.map_eq_some_iff.mp hnode
    refine ⟨hfree.1, ?_⟩
    show requests.node.messages key = none
    rw [own_messages hown hrequests]
    exact hfree.2

/-- Two requests to one peer under the same id; between them are 255 messages of the node, which are
refused.  Each request is answered with two parts, the second first; another peer's message comes
between those of the second answer, and half of it is lost. -/
def answeredTwice : List RequestNetworkEvent :=
  let peer : Mac := #v[2, 0, 0, 0, 0, 1]
  [.own (.request [1] fun _ => true), .own (.sent 0 0 true), .own .runTask, .own .runTask,
    .respond peer 0 (long 6), .arrive 1, .arrive 0, .own .runTask, .own .runTask] ++
  List.replicate 255 (.own (.send [] fun _ => true)) ++
  [.own (.request [2] fun _ => true), .own (.sent 256 0 true), .own .runTask, .own .runTask,
    .send #v[2, 0, 0, 0, 0, 2] (long 5), .respond peer 0 (long 7), .arrive 3, .arrive 0,
    .arrive 1, .lose 0, .own .runTask, .own .runTask]

/-- Both succeed, with bytes of the peer. -/
theorem answered_as_sent_twice :
    (∃ s, run step {} answeredTwice = some s ∧ s.node.requests.made.map Request.send = [0, 256] ∧
      ∀ r ∈ s.node.requests.made, ∃ value, s.node.Succeeds r value) ∧
      Always step (AnsweredAsSent fun _ => #v[2, 0, 0, 0, 0, 1]) {} answeredTwice := by
  refine ⟨?_, answered_as_sent _ _ (by decide +kernel)⟩
  have hrun : (run step {} answeredTwice).map (fun s => (s.node.requests.made.map Request.send,
      s.node.requests.made.map fun r => (s.node.requests.system.built[r.onError]?).bind fun x =>
        (s.node.requests.system.futures.ended x.1).map (decide <| · ≠ .error))) =
      some ([0, 256], [some true, some true]) := by decide +kernel
  obtain ⟨s, hs, hsame⟩ := Option.map_eq_some_iff.mp hrun
  obtain ⟨hsends, hended⟩ := Prod.mk.inj hsame
  refine ⟨s, hs, hsends, ?_⟩
  intro r hr
  have hmem := hended ▸ List.mem_map_of_mem hr
  simp only [List.mem_cons, List.not_mem_nil, or_false, or_self] at hmem
  obtain ⟨x, hx, hsome⟩ := Option.bind_eq_some_iff.mp hmem
  obtain ⟨o, ho, hne⟩ := Option.map_eq_some_iff.mp hsome
  cases o with
  | success value => exact ⟨value, x.1, x.2, hx, ho⟩
  | error => exact absurd hne (by decide)

end RequestNetwork

end EspIot
