/-
# `EspIot.Network.RequestPeers` — which peer answers a request

A message is put together per peer, by its `EspNowMessageKey`; a request waits under
its id alone.  So a response answers whatever request waits under its id, whichever
peer it comes from and whichever request it was meant for.

The address of a request plays no part in what the node does, so it stands beside the
run: `peer n` is the address that the `n`-th call of `_send_impl` was given.  The machine is
that of `Network.Requests` with the responses that requests have been given.

`RepliedByPeer` is kept exactly by the runs in which no response of another peer
completes under the id of a request that waits, and such a run keeps `Answered`: what
the future of a request carries is a response to its id from its peer.
-/
import EspIot.Network.RequestRuns

namespace EspIot

open Lib EspNowInteraction

def broadcastMac : Mac := #v[0xff, 0xff, 0xff, 0xff, 0xff, 0xff]

/-- A response that a request was given: the `_send_impl` call of the request, the key the
response was put together under, and the message. -/
structure Reply where
  send : ℕ
  key : EspNowMessageKey
  message : EspNowMessage

/-- It comes from the peer its request was sent to; a broadcast is answered by any. -/
def Reply.FromPeer (peer : ℕ → Mac) (reply : Reply) : Prop :=
  peer reply.send = broadcastMac ∨ reply.key.macAddr = peer reply.send

/-- It is a response, and the message is what its key says. -/
structure Reply.Response (reply : Reply) : Prop where
  isResponse : reply.key.isResponse ≠ 0
  id : reply.message.id = reply.key.id
  macAddr : reply.message.macAddr = reply.key.macAddr

/-- A node with the responses that its requests have been given, oldest first. -/
structure PeerRequests where
  requests : EspNowRequests := {}
  replies : List Reply := []

namespace PeerRequests

/-- The response that an event gives to a request, if any. -/
def replyOf (s : EspNowRequests) : RequestEvent → Option Reply
  | .received packet =>
      match s.node.onPacketReceived packet with
      | .ok (some { key, recipient := .request send, message }, _) => some { send, key, message }
      | _ => none
  | _ => none

def step (s : PeerRequests) (e : RequestEvent) : Option PeerRequests :=
  (s.requests.step e).map fun requests =>
    { requests, replies := s.replies ++ (replyOf s.requests e).toList }

/-- The future that a request returned has succeeded, with this value. -/
def Succeeds (s : PeerRequests) (r : Request) (value : Option SendResult) : Prop :=
  ∃ p e, s.requests.system.built[r.onError]? = some (p, e) ∧
    s.requests.system.futures.ended p = some (.success value)

/-- Every response that a request was given came from its peer. -/
def RepliedByPeer (peer : ℕ → Mac) (s : PeerRequests) : Prop :=
  ∀ reply ∈ s.replies, reply.FromPeer peer

/-- **What the future of a request carries is a response with its id from its peer.** -/
def Answered (peer : ℕ → Mac) (s : PeerRequests) : Prop :=
  ∀ r ∈ s.requests.made, ∀ value, s.Succeeds r value →
    ∃ reply ∈ s.replies, value = some (.message reply.message) ∧ reply.send = r.send ∧
      reply.key.id = r.id ∧ reply.Response ∧ reply.FromPeer peer

/-- No response of another peer completes under the id of a request that waits. -/
def FromPeer (peer : ℕ → Mac) (s : PeerRequests) : RequestEvent → Prop
  | .received packet => ∀ header send, packet.accepted = some header → header.isResponse ≠ 0 →
      (s.requests.node.entry packet header).receivedCount + 1 =
        (s.requests.node.entry packet header).partsCount →
      s.requests.node.requests header.id = some send →
        peer send = broadcastMac ∨ packet.macAddr = peer send
  | _ => True

theorem fromPeer_iff {peer : ℕ → Mac} {s : PeerRequests} {packet : EspNowPacket} :
    (∀ header ∈ packet.accepted, header.isResponse ≠ 0 →
      (s.requests.node.entry packet header).receivedCount + 1 =
        (s.requests.node.entry packet header).partsCount →
      ∀ send ∈ s.requests.node.requests header.id,
        peer send = broadcastMac ∨ packet.macAddr = peer send) ↔
      FromPeer peer s (.received packet) :=
  ⟨fun h header send hheader hresponse hcount hwaits => h header hheader hresponse hcount send
    hwaits, fun h header hheader hresponse hcount send hwaits => h header send hheader hresponse
      hcount hwaits⟩

instance (peer : ℕ → Mac) (s : PeerRequests) : DecidablePred (FromPeer peer s)
  | .received _ => decidable_of_iff _ fromPeer_iff
  | .send .. | .respond .. | .request .. | .sent .. | .runTask | .others .. =>
      inferInstanceAs (Decidable True)

/-! ## Who is given a response -/

/-- A packet that gives a request a response completes it, under the id of the request. -/
theorem replyOf_received {s : EspNowRequests} {packet : EspNowPacket} {reply : Reply}
    (h : replyOf s (.received packet) = some reply) :
    ∃ header node, packet.accepted = some header ∧ header.isResponse ≠ 0 ∧
      packet.addTo header (s.node.entry packet header) = .ok reply.message ∧
      (s.node.entry packet header).receivedCount + 1 =
        (s.node.entry packet header).partsCount ∧
      s.node.requests header.id = some reply.send ∧ reply.key = packet.key header ∧
      s.node.onPacketReceived packet = .ok (some
        { key := reply.key, recipient := .request reply.send, message := reply.message },
        node) := by
  simp only [replyOf] at h
  split at h
  · rename_i key send message node hreceived
    cases h
    rcases AsyncEspNowInteraction.received_cases hreceived with
      ⟨-, hnone, -⟩ | ⟨header, message', haccepted, hadd, ⟨-, hnone, -⟩ | ⟨hcount, hhanded, -⟩⟩
    · cases hnone
    · cases hnone
    · obtain ⟨-, hmessage⟩ := EspNowPacket.addTo_ok hadd
      rw [AsyncEspNowInteraction.handOn] at hhanded
      split at hhanded
      · rename_i hresponse
        split at hhanded
        · rename_i promise hpromise
          cases hhanded
          refine ⟨header, node, haccepted, hresponse, hadd, ?_, hpromise, rfl, hreceived⟩
          rw [hmessage] at hcount
          exact hcount
        · cases hhanded
      · split at hhanded <;> cases hhanded
  · cases h

/-- A packet that completes a response under the id of a request gives it to the request. -/
theorem replyOf_of_completes {s : EspNowRequests} {packet : EspNowPacket}
    {header : EspNowInteractionPacketHeader} {send : ℕ} (haccepted : packet.accepted = some header)
    (hresponse : header.isResponse ≠ 0)
    (hcount : (s.node.entry packet header).receivedCount + 1 =
      (s.node.entry packet header).partsCount)
    (hwaits : s.node.requests header.id = some send) {t : EspNowRequests}
    (ht : s.received packet = some t) :
    ∃ message, replyOf s (.received packet) =
      some { send, key := packet.key header, message } := by
  rw [EspNowRequests.received] at ht
  cases hreceived : s.node.onPacketReceived packet with
  | error fault =>
      rw [hreceived] at ht
      cases ht
  | ok result =>
      obtain ⟨handed, node⟩ := result
      rcases AsyncEspNowInteraction.received_cases hreceived with
        ⟨hnone, -⟩ | ⟨header', message, haccepted', hadd, ⟨hne, -⟩ | ⟨-, hhanded, -⟩⟩
      · rw [haccepted] at hnone
        cases hnone
      · rw [haccepted] at haccepted'
        cases haccepted'
        obtain ⟨-, rfl⟩ := EspNowPacket.addTo_ok hadd
        exact absurd hcount hne
      · rw [haccepted] at haccepted'
        cases haccepted'
        have hkey : (packet.key header).isResponse ≠ 0 := hresponse
        have hentry : s.node.requests (packet.key header).id = some send := hwaits
        rw [AsyncEspNowInteraction.handOn, if_pos hkey, hentry] at hhanded
        subst hhanded
        exact ⟨message, by rw [replyOf, hreceived]⟩

/-! ## Responses and peers -/

variable {peer : ℕ → Mac}

theorem repliedByPeer_step {s t : PeerRequests} {e : RequestEvent} (h : RepliedByPeer peer s)
    (hfrom : FromPeer peer s e) (ht : s.step e = some t) : RepliedByPeer peer t := by
  obtain ⟨requests, -, rfl⟩ := Option.map_eq_some_iff.mp ht
  intro reply hreply
  rcases List.mem_append.mp hreply with hold | hnew
  · exact h reply hold
  · rw [Option.mem_toList] at hnew
    cases e with
    | received packet =>
        obtain ⟨header, -, haccepted, hresponse, -, hcount, hwaits, hkey, -⟩ :=
          replyOf_received hnew
        rw [Reply.FromPeer, hkey]
        exact hfrom header reply.send haccepted hresponse hcount hwaits
    | _ => cases hnew

theorem not_repliedByPeer_step {s t : PeerRequests} {e : RequestEvent}
    (hfrom : ¬ FromPeer peer s e) (ht : s.step e = some t) : ¬ RepliedByPeer peer t := by
  cases e with
  | received packet =>
      obtain ⟨requests, hs, rfl⟩ := Option.map_eq_some_iff.mp ht
      intro hall
      refine hfrom ?_
      intro header send haccepted hresponse hcount hwaits
      obtain ⟨message, hreply⟩ := replyOf_of_completes haccepted hresponse hcount hwaits hs
      exact hall _ (List.mem_append_right _ (Option.mem_toList.mpr hreply))
  | _ => exact absurd trivial hfrom

/-! ## What the future of a request carries -/

/-- The messages that are put together are what their keys say. -/
def Labelled (node : AsyncEspNowInteraction ℕ) : Prop :=
  ∀ key message, node.messages key = some message →
    message.id = key.id ∧ message.macAddr = key.macAddr

/-- The chain of a request hands on what its reply is. -/
def HandsOn (s : EspNowRequests) (r : Request) : Prop :=
  ∃ p e, s.system.built[r.onError]? = some (p, .onErrorVoid false
    (.thenFuture false e fun _ => .source (.reply r.send)))

theorem HandsOn.mono {s t : EspNowRequests} {r : Request} (h : HandsOn s r)
    (hbuilt : s.system.built <+: t.system.built) : HandsOn t r := by
  obtain ⟨p, e, hget⟩ := h
  obtain ⟨more, hmore⟩ := hbuilt
  refine ⟨p, e, ?_⟩
  rw [← hmore, List.getElem?_append_left (List.getElem?_eq_some_iff.mp hget).1, hget]

theorem succeeds_reply {s : PeerRequests} {r : Request} {value : Option SendResult}
    (hwired : s.requests.Wired) (h : HandsOn s.requests r) (hs : s.Succeeds r value) :
    s.requests.system.futures.ended (.source (.reply r.send)) = some (.success value) := by
  obtain ⟨p, e, hget, hended⟩ := hs
  obtain ⟨q, future, hget'⟩ := h
  rw [hget] at hget'
  cases hget'
  -- whatever is open may still fail, and then the future would
  let σ : SendPromise → Outcome SendResult :=
    fun i => (s.requests.system.futures.ended (.source i)).getD .error
  have hagrees : s.requests.system.Agrees σ := by
    intro i a ha
    show a = (s.requests.system.futures.ended (.source i)).getD .error
    rw [ha]
    rfl
  have hkept := hwired.kept σ hagrees
  have hvalue := (hkept.outcome _ (List.mem_of_getElem? hget)).trans (hkept.ended p _ hended).symm
  rw [FutureExpr.outcome, FutureExpr.outcome] at hvalue
  cases hfuture : future.outcome σ with
  | error =>
      rw [hfuture] at hvalue
      cases hvalue
  | success first =>
      rw [hfuture] at hvalue
      have hreply : ((σ (.reply r.send)).asType false).asType false = .success value := hvalue
      cases hopen : s.requests.system.futures.ended (.source (.reply r.send)) with
      | none =>
          simp only [σ, hopen] at hreply
          cases hreply
      | some o =>
          simp only [σ, hopen, Option.getD_some] at hreply
          cases o with
          | error => cases hreply
          | success w => exact congrArg some hreply

theorem Labelled.entry {node : AsyncEspNowInteraction ℕ} (h : Labelled node)
    {packet : EspNowPacket} {header : EspNowInteractionPacketHeader} {message : EspNowMessage}
    (hadd : packet.addTo header (node.entry packet header) = .ok message) :
    message.id = (packet.key header).id ∧ message.macAddr = (packet.key header).macAddr := by
  obtain ⟨-, rfl⟩ := EspNowPacket.addTo_ok hadd
  show (node.entry packet header).id = _ ∧ (node.entry packet header).macAddr = _
  rw [AsyncEspNowInteraction.entry]
  cases hentry : node.messages (packet.key header) with
  | none => exact ⟨rfl, rfl⟩
  | some old => exact h _ old hentry

theorem Labelled.received {node node' : AsyncEspNowInteraction ℕ} (h : Labelled node)
    {packet : EspNowPacket} {handed : Option (Handed ℕ)}
    (hs : node.onPacketReceived packet = .ok (handed, node')) : Labelled node' := by
  have hset : ∀ (u : AsyncEspNowInteraction ℕ) (key : EspNowMessageKey)
      (message : Option EspNowMessage), u.messages = node.messages →
      (∀ m, message = some m → m.id = key.id ∧ m.macAddr = key.macAddr) →
        Labelled (u.setEntry key message) := by
    intro u key message hu hm key' m hget
    simp only [AsyncEspNowInteraction.setEntry, hu] at hget
    rcases eq_or_ne key' key with rfl | hne
    · rw [Function.update_self] at hget
      exact hm m hget
    · rw [Function.update_of_ne hne] at hget
      exact h key' m hget
  have hmessages : ∀ key message, (node.handOn key message).2.messages = node.messages := by
    intro key message
    rw [AsyncEspNowInteraction.handOn]
    split
    · split <;> rfl
    · split <;> rfl
  rcases AsyncEspNowInteraction.received_cases hs with
    ⟨-, -, rfl⟩ | ⟨header, message, -, hadd, ⟨-, -, rfl⟩ | ⟨-, -, rfl⟩⟩
  · exact h
  · refine hset node _ _ rfl ?_
    intro m hm
    cases hm
    exact h.entry hadd
  · exact hset _ _ _ (hmessages _ _) fun m hm => by cases hm

/-- What every run keeps: a reply that succeeded is a response that was given to its request. -/
structure Kept (s : PeerRequests) : Prop where
  wired : s.requests.Wired
  numbered : s.requests.Numbered
  handsOn : ∀ r ∈ s.requests.made, HandsOn s.requests r
  labelled : Labelled s.requests.node
  entry : ∀ id n, s.requests.node.requests id = some n →
    ∃ r ∈ s.requests.made, r.id = id ∧ r.send = n
  replies : ∀ reply ∈ s.replies, reply.Response ∧
    ∃ r ∈ s.requests.made, r.send = reply.send ∧ r.id = reply.key.id
  settled : ∀ n value,
    s.requests.system.futures.ended (.source (.reply n)) = some (.success value) →
      ∃ reply ∈ s.replies, reply.send = n ∧ value = some (.message reply.message)

theorem Kept.start : Kept {} where
  wired := EspNowRequests.Tracked.start.wired
  numbered := EspNowRequests.Tracked.start.toNumbered
  handsOn r hr := by cases hr
  labelled key message h := by cases h
  entry id n h := by cases h
  replies reply h := by cases h
  settled n value h := by cases h

theorem Kept.keep {s : PeerRequests} (h : Kept s) {t : EspNowRequests} (hwired : t.Wired)
    (hnumbered : t.Numbered) (hmade : t.made = s.requests.made)
    (hbuilt : s.requests.system.built <+: t.system.built) (hlabelled : Labelled t.node)
    (hentry : ∀ id n, t.node.requests id = some n → s.requests.node.requests id = some n)
    (hreply : ∀ n, t.system.futures.ended (.source (.reply n)) =
      s.requests.system.futures.ended (.source (.reply n))) :
    Kept { s with requests := t } where
  wired := hwired
  numbered := hnumbered
  handsOn r hr := (h.handsOn r (hmade ▸ hr)).mono hbuilt
  labelled := hlabelled
  entry id n hn := by
    obtain ⟨r, hr, hid, hsend⟩ := h.entry id n (hentry id n hn)
    exact ⟨r, hmade ▸ hr, hid, hsend⟩
  replies reply hr := by
    obtain ⟨hresponse, r, hmem, hsend, hid⟩ := h.replies reply hr
    exact ⟨hresponse, r, hmade ▸ hmem, hsend, hid⟩
  settled n value hn := h.settled n value ((hreply n).symm.trans hn)

theorem Kept.answered {s : PeerRequests} (h : Kept s) {peer : ℕ → Mac}
    (hpeer : RepliedByPeer peer s) : Answered peer s := by
  intro r hr value hs
  have hended := succeeds_reply h.wired (h.handsOn r hr) hs
  obtain ⟨reply, hmem, hsend, hvalue⟩ := h.settled r.send value hended
  obtain ⟨hresponse, r', hr', hsend', hid⟩ := h.replies reply hmem
  have hsame : r' = r := h.numbered.unique r' hr' r hr (.inl (hsend'.trans hsend))
  exact ⟨reply, hmem, hvalue, hsend, hsame ▸ hid.symm, hresponse, hpeer reply hmem⟩

/-! ## Requests -/

theorem register_success {s : EspNowRequests} {n : ℕ} {value : Option SendResult}
    (h : s.register.system.futures.ended (.source (.reply n)) = some (.success value)) :
    s.system.futures.ended (.source (.reply n)) = some (.success value) := by
  rw [EspNowRequests.register] at h
  cases hold : s.node.requests s.node.id with
  | none =>
      rw [hold] at h
      exact h
  | some existing =>
      rw [hold] at h
      have hsettled : (s.system.futures.settle (.source (.reply existing)) .error).ended
          (.source (.reply n)) = some (.success value) := h
      rcases Futures.ended_of_settle _ _ hsettled with ⟨-, hvalue⟩ | hended
      · cases hvalue
      · exact hended

theorem request_handsOn {s : EspNowRequests} (hinit : s.node.initialized = true)
    (data : List UInt8) (accepted : ℕ → Bool) :
    ∃ r, (s.request data accepted).made = s.made ++ [r] ∧
      HandsOn (s.request data accepted) r ∧
      (s.request data accepted).node.messages = s.node.messages ∧
      ∀ n value, (s.request data accepted).system.futures.ended (.source (.reply n)) =
          some (.success value) →
        s.system.futures.ended (.source (.reply n)) = some (.success value) := by
  obtain ⟨⟨hmade, -⟩, -⟩ := EspNowRequests.register_spec s
  obtain ⟨hgrows, -, -, front, p, e, hfront, -⟩ :=
    s.register.sendImpl_grows s.node.id accepted (EspIot.sendImpl s.node.id false data)
  have hrequest : s.request data accepted =
      (s.register.sendImpl s.node.id accepted (EspIot.sendImpl s.node.id false data)).attach
        s.node.id s.sends ((EspIot.sendImpl s.node.id false data).elim 0 List.length) := by
    rw [EspNowRequests.request, if_neg (by simp [hinit])]
  rw [hrequest]
  generalize (EspIot.sendImpl s.node.id false data).elim 0 List.length = packets
  generalize s.register.sendImpl s.node.id accepted (EspIot.sendImpl s.node.id false data) = u
    at hgrows hfront ⊢
  obtain ⟨⟨q, hget⟩, -, -, -, hreply, -⟩ := EspNowRequests.attach_spec hfront s.node.id s.sends
    packets
  refine ⟨⟨s.node.id, s.sends, packets, u.system.built.length + 2⟩, ?_, ⟨q, e, hget⟩, ?_, ?_⟩
  · rw [← hmade, ← hgrows.made]
    rfl
  · have hnode : (u.attach s.node.id s.sends packets).node = s.register.node := hgrows.node
    rw [hnode]
    rfl
  · intro n value h
    rw [hreply n, hgrows.reply n] at h
    exact register_success h

theorem Kept.request {s : PeerRequests} (h : Kept s)
    (hinit : s.requests.node.initialized = true) (data : List UInt8) (accepted : ℕ → Bool) :
    Kept { s with requests := s.requests.request data accepted } := by
  obtain ⟨r, hr⟩ := EspNowRequests.request_spec hinit data accepted
  obtain ⟨r', hmade, hhands, hmessages, hsuccess⟩ := request_handsOn hinit data accepted
  obtain rfl : r = r' := by
    have hboth := hr.made.symm.trans hmade
    exact (List.cons.inj (List.append_cancel_left hboth)).1
  refine ⟨hr.wired h.wired, h.numbered.request hr, ?_, ?_, ?_,
    ?_, fun n value hn => h.settled n value (hsuccess n value hn)⟩
  · intro r' hr'
    rw [hmade] at hr'
    rcases List.mem_append.mp hr' with hold | hnew
    · exact (h.handsOn r' hold).mono hr.built
    · rw [List.mem_singleton.mp hnew]
      exact hhands
  · show Labelled (s.requests.request data accepted).node
    rw [Labelled, hmessages]
    exact h.labelled
  · intro id n hn
    rw [hr.requests] at hn
    rw [hmade]
    rcases eq_or_ne id s.requests.node.id with rfl | hne
    · rw [Function.update_self] at hn
      exact ⟨r, List.mem_append_right _ (List.mem_singleton_self r), hr.id,
        hr.send.trans (Option.some.inj hn)⟩
    · rw [Function.update_of_ne hne] at hn
      obtain ⟨r₀, hr₀, hid, hsend⟩ := h.entry id n hn
      exact ⟨r₀, List.mem_append_left _ hr₀, hid, hsend⟩
  · intro reply hreply
    obtain ⟨hresponse, r₀, hr₀, hsend, hid⟩ := h.replies reply hreply
    refine ⟨hresponse, r₀, ?_, hsend, hid⟩
    rw [hmade]
    exact List.mem_append_left _ hr₀

/-! ## What a step does -/

theorem Kept.grows {s : PeerRequests} (h : Kept s) {node : AsyncEspNowInteraction ℕ}
    (hrequests : node.requests = s.requests.node.requests)
    (hmessages : node.messages = s.requests.node.messages) {t : EspNowRequests}
    (hgrows : EspNowRequests.Grows { s.requests with node } t)
    (hsends : s.requests.sends ≤ t.sends)
    (herases : ∀ k id, t.fns k = some (.eraseRequest id) →
      s.requests.fns k = some (.eraseRequest id)) :
    Kept { s with requests := t } := by
  refine h.keep (hgrows.wired ⟨h.wired.kept, h.wired.fns⟩)
    (h.numbered.keep hgrows.made hsends hgrows.built herases) hgrows.made hgrows.built ?_
    ?_ hgrows.reply
  · rw [hgrows.node, Labelled, hmessages]
    exact h.labelled
  · intro id n hn
    rw [hgrows.node, hrequests] at hn
    exact hn

theorem Kept.replied {s : PeerRequests} (h : Kept s) {packet : EspNowPacket} {reply : Reply}
    (hreply : replyOf s.requests (.received packet) = some reply) {t : EspNowRequests}
    (ht : s.requests.received packet = some t) :
    Kept { requests := t, replies := s.replies ++ [reply] } := by
  obtain ⟨header, node, -, hresponse, hadd, -, hwaits, hkey, hreceived⟩ := replyOf_received hreply
  rw [EspNowRequests.received, hreceived] at ht
  obtain rfl := Option.some.inj ht
  have hrequests : node.requests =
      Function.update s.requests.node.requests reply.key.id none := by
    rcases EspNowRequests.onPacketReceived_requests hreceived with
      ⟨key, promise, message, hsome, -, hupdate⟩ | ⟨hnot, -⟩
    · cases hsome
      exact hupdate
    · exact absurd rfl (hnot _ _ _)
  have hwired := EspNowRequests.settle_wired h.wired (.reply reply.send)
    (.success (some (.message reply.message)))
  obtain ⟨r, hr, hid, hsend⟩ := h.entry header.id reply.send hwaits
  refine ⟨⟨hwired.kept, hwired.fns⟩, h.numbered.keep rfl (Nat.le_refl _) (List.prefix_refl _)
    fun _ _ hk => hk, h.handsOn, h.labelled.received hreceived, fun id n hn => ?_,
    fun reply' hreply' => ?_, fun n value hn => ?_⟩
  · rw [hrequests] at hn
    rcases eq_or_ne id reply.key.id with rfl | hne
    · rw [Function.update_self] at hn
      cases hn
    · rw [Function.update_of_ne hne] at hn
      exact h.entry id n hn
  · rcases List.mem_append.mp hreply' with hold | hnew
    · exact h.replies reply' hold
    · rw [List.mem_singleton.mp hnew]
      obtain ⟨hmid, hmac⟩ := h.labelled.entry hadd
      rw [← hkey] at hmid hmac
      refine ⟨⟨?_, hmid, hmac⟩, r, hr, hsend, ?_⟩
      · rw [hkey]
        exact hresponse
      · rw [hkey]
        exact hid
  · have hsettled : (s.requests.system.futures.settle (.source (.reply reply.send))
        (.success (some (.message reply.message)))).ended (.source (.reply n)) =
          some (.success value) := hn
    rcases Futures.ended_of_settle _ _ hsettled with ⟨hsource, hvalue⟩ | hended
    · cases hsource
      cases hvalue
      exact ⟨reply, List.mem_append_right _ (List.mem_singleton_self reply), rfl, rfl⟩
    · obtain ⟨old, hold, hsame⟩ := h.settled n value hended
      exact ⟨old, List.mem_append_left _ hold, hsame⟩

theorem effect_spec (node : AsyncEspNowInteraction ℕ) (fn : RequestFn) :
    (fn.effect node).messages = node.messages ∧
      ∀ id n, (fn.effect node).requests id = some n → node.requests id = some n := by
  cases fn with
  | eraseRequest erased =>
      refine ⟨rfl, ?_⟩
      intro id n hn
      simp only [RequestFn.effect] at hn
      rcases eq_or_ne id erased with rfl | hne
      · rw [Function.update_self] at hn
        cases hn
      · rwa [Function.update_of_ne hne] at hn
  | sendResponse _ | awaitReply _ => exact ⟨rfl, fun _ _ hn => hn⟩

theorem Kept.runTask {s : PeerRequests} (h : Kept s) {t : EspNowRequests}
    (ht : s.requests.runTask = some t) : Kept { s with requests := t } := by
  have hkeep : ∀ call, s.requests.Ran t call →
      t.node.messages = s.requests.node.messages →
      (∀ id n, t.node.requests id = some n → s.requests.node.requests id = some n) →
        Kept { s with requests := t } := by
    intro call hran hmessages hentry
    refine h.keep hran.wired (h.numbered.ran hran) hran.made (by rw [hran.built]) ?_ hentry
      hran.reply
    rw [Labelled, hmessages]
    exact h.labelled
  obtain ⟨p, callback, -, ⟨-, hran⟩ | ⟨k, fn, -, hran⟩⟩ := EspNowRequests.runTask_spec h.wired ht
  · have hnode : t.node = s.requests.node := hran.node
    exact hkeep none hran (by rw [hnode]) fun id n hn => hnode ▸ hn
  · have hnode : t.node = fn.effect s.requests.node := hran.node
    obtain ⟨hmessages, hentry⟩ := effect_spec s.requests.node fn
    exact hkeep _ hran (by rw [hnode]; exact hmessages) fun id n hn => hentry id n (hnode ▸ hn)

theorem Kept.received {s : PeerRequests} (h : Kept s) {packet : EspNowPacket}
    (hreply : replyOf s.requests (.received packet) = none) {t : EspNowRequests}
    (ht : s.requests.received packet = some t) : Kept { s with requests := t } := by
  rw [EspNowRequests.received] at ht
  rw [replyOf] at hreply
  cases hreceived : s.requests.node.onPacketReceived packet with
  | error fault =>
      rw [hreceived] at ht
      cases ht
  | ok result =>
      obtain ⟨handed, node⟩ := result
      rw [hreceived] at ht hreply
      obtain rfl := Option.some.inj ht
      rcases EspNowRequests.onPacketReceived_requests hreceived with
        ⟨key, promise, message, rfl, -⟩ | ⟨hnot, hrequests⟩
      · cases hreply
      · have hkeep : ∀ u, u = s.requests →
            Kept { s with requests := { u with node := node } } := by
          rintro u rfl
          refine h.keep ⟨h.wired.kept, h.wired.fns⟩ ?_ rfl (List.prefix_refl _)
            (h.labelled.received hreceived) (fun id n hn => hrequests ▸ hn) fun _ => rfl
          exact h.numbered.keep rfl (Nat.le_refl _) (List.prefix_refl _) fun _ _ hk => hk
        refine hkeep _ ?_
        split
        · exact absurd rfl (hnot _ _ _)
        · rfl

theorem Kept.step {s t : PeerRequests} {e : RequestEvent} (h : Kept s)
    (hs : s.step e = some t) : Kept t := by
  obtain ⟨requests, ht, rfl⟩ := Option.map_eq_some_iff.mp hs
  have hquiet : Kept { s with requests } → replyOf s.requests e = none →
      Kept { requests, replies := s.replies ++ (replyOf s.requests e).toList } := by
    intro hkept hnone
    rw [hnone, Option.toList_none, List.append_nil]
    exact hkept
  cases e with
  | send data accepted =>
      obtain rfl := Option.some.inj ht
      refine hquiet ?_ rfl
      obtain ⟨hgrows, hsends, herases, -⟩ := EspNowRequests.sendImpl_grows
        { s.requests with node := (s.requests.node.send data).2 } s.requests.node.id accepted
        (s.requests.node.send data).1
      refine h.grows (EspNowRequests.send_requests _ _) ?_ hgrows (hsends ▸ Nat.le_succ _) herases
      rw [AsyncEspNowInteraction.send]
      split <;> rfl
  | respond id data accepted =>
      obtain rfl := Option.some.inj ht
      refine hquiet ?_ rfl
      obtain ⟨hgrows, hsends, herases, -⟩ := s.requests.sendImpl_grows id accepted
        (s.requests.node.respond id data)
      exact h.grows rfl rfl hgrows (hsends ▸ Nat.le_succ _) herases
  | request data accepted =>
      obtain rfl := Option.some.inj ht
      refine hquiet ?_ rfl
      cases hinit : s.requests.node.initialized with
      | true => exact h.request hinit data accepted
      | false =>
          rw [EspNowRequests.request, if_pos hinit]
          exact h.grows rfl rfl (EspNowRequests.call_settled s.requests .error).1 (Nat.le_refl _)
            fun k id hk => EspNowRequests.erases_of_update (by simp) hk
  | sent send index ok =>
      obtain rfl := Option.some.inj ht
      refine hquiet ?_ rfl
      exact h.grows rfl rfl (EspNowRequests.settle_grows s.requests send index _) (Nat.le_refl _)
        fun _ _ hk => hk
  | received packet =>
      cases hreply : replyOf s.requests (.received packet) with
      | none =>
          rw [hreply] at hquiet
          exact hquiet (h.received hreply ht) rfl
      | some reply => exact h.replied hreply ht
  | runTask => exact hquiet (h.runTask ht) rfl
  | others initialized onMessageCb =>
      obtain rfl := Option.some.inj ht
      refine hquiet (h.keep ⟨h.wired.kept, h.wired.fns⟩ ?_ rfl (List.prefix_refl _) h.labelled
        (fun _ _ hn => hn) fun _ => rfl) rfl
      exact h.numbered.keep rfl (Nat.le_refl _) (List.prefix_refl _) fun _ _ hk => hk

/-- **Every response that a request is given is from its peer exactly when no response of another
peer completes under the id of a request that waits; and then what the future of a request
carries is a response with its id from its peer**, in every state of the run. -/
theorem answered_by_peer (peer : ℕ → Mac) (es : List RequestEvent) :
    (Always step (RepliedByPeer peer) {} es ↔ Each step (FromPeer peer) {} es) ∧
      (Each step (FromPeer peer) {} es → Always step (Answered peer) {} es) := by
  have hnone : RepliedByPeer peer {} := fun reply h => by cases h
  refine ⟨always_iff_each (fun _ h => h) (fun _ _ _ => repliedByPeer_step)
    (fun _ _ _ _ => not_repliedByPeer_step) hnone, fun hfrom => ?_⟩
  exact Always.of_each (I := fun s => Kept s ∧ RepliedByPeer peer s)
    (fun _ h => h.1.answered h.2)
    (fun s e t h hc ht => ⟨h.1.step ht, repliedByPeer_step h.2 hc ht⟩) ⟨Kept.start, hnone⟩ hfrom

/-- A request of one byte is delivered, and a peer sends a response with its id, of no bytes. -/
def respondedBy (macAddr : Mac) : List RequestEvent :=
  [.request [1] fun _ => true, .sent 0 0 true, .runTask, .runTask,
    .received { macAddr, size := 5, data := [0, 1, 0, 1, 0], size_eq := rfl }, .runTask, .runTask]

theorem answered_by_peer_alone :
    Always step (Answered fun _ => #v[2, 0, 0, 0, 0, 1]) {}
      (respondedBy #v[2, 0, 0, 0, 0, 1]) :=
  (answered_by_peer _ _).2 fun _ _ => ⟨trivial, fun _ _ => ⟨trivial, fun _ _ => ⟨trivial,
    fun _ _ => ⟨trivial, fun _ _ => ⟨fun _ _ _ _ _ _ => .inr rfl, fun _ _ => ⟨trivial,
      fun _ _ => ⟨trivial, trivial⟩⟩⟩⟩⟩⟩⟩

/-- The response of another peer is what the future of the request carries. -/
theorem answered_by_another :
    ¬ Always step (Answered fun _ => #v[2, 0, 0, 0, 0, 1]) {}
      (respondedBy #v[2, 0, 0, 0, 0, 2]) := by
  intro h
  have hrequest : step {} (.request [1] fun _ => true) = some _ :=
    congrArg (fun t : EspNowRequests => some ({ requests := t, replies := [] } : PeerRequests))
      (EspNowRequests.request_byte (s := {}) rfl 1 fun _ => true)
  have hrun := run_cons hrequest (respondedBy #v[2, 0, 0, 0, 0, 2]).tail
  have hlast := always_iff_reached.mp h _ [] _ (List.append_nil _).symm hrun
  obtain ⟨reply, hreply, -, -, -, -, hbroadcast | hpeer⟩ :=
    hlast { id := 0, send := 0, packets := 1, onError := 5 } (List.mem_singleton_self _) _
      ⟨.derived 5, _, rfl, rfl⟩
  · have hmac : (#v[2, 0, 0, 0, 0, 1] : Mac) = broadcastMac := hbroadcast
    exact absurd hmac (by decide)
  · rw [List.mem_singleton.mp hreply] at hpeer
    exact absurd hpeer (by decide)

end PeerRequests

end EspIot
