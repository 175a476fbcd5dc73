/-
# `EspIot.Network.NowNetwork` — a packet from `respond` to the future of `request`

`NowIo` puts a header in front of its data and leaves the bytes to the interaction layer; on the
other side it takes the header off again:

    respond type count data ──▶ 2 + size bytes ─ ─ ─▶ message ──▶ NowPacket ──▶ ping, discovery

What becomes of the bytes in between is `Network.RequestNetwork`, and this module puts the two ends
of `NowIo` on it.  The packet is an array on the stack: what is not copied into it goes out as it
stood there.  Its size is a `size_t`, and the layer takes a `uint16_t`.
-/
import EspIot.Network.HubDiscovery
import EspIot.Network.NowParse
import EspIot.Network.RequestNetwork

namespace EspIot

open Lib

/-- What `request` and `respond` put into a packet; of a type alone they put in the rest as it
stands here.  No data is the null pointer. -/
structure NowContents where
  type : UInt8
  count : UInt8 := 0
  data : Option (List UInt8) := none
  size : UInt16 := 0

namespace NowContents

variable {c : NowContents} {message : EspNowMessage}

/-- The bytes that the layer is given; `stack` is what stood where the packet lies. -/
def packet (c : NowContents) (stack : ℕ → UInt8) : Except MemFault (List UInt8) :=
  (NowIo.fillPacketData
    ((List.range (nowPacketHeaderLength + c.size.toNat)).map fun i => some (stack i))
    c.type c.count c.data c.size).map fun packet =>
      (packet.take (UInt16.ofNat packet.length).toNat).reduceOption

/-- What is parsed out of a message is what went into the packet. -/
structure ReadFrom (c : NowContents) (message : EspNowMessage) (packet : NowPacket) : Prop where
  parsed : NowPacket.parse message = some packet
  type : packet.type = c.type
  count : packet.count = c.count
  size : packet.size = c.size
  data : ∀ bytes, c.data = some bytes → c.count ≠ 0 →
    packet.data.take c.size.toNat = (bytes.take c.size.toNat).map some

/-- The answer that `ping` and `discovery` wait for. -/
def IsSystemResponse (c : NowContents) : Prop :=
  c.type = systemResponse ∧ c.count = 0 ∧ c.size = 0

/-! ## The packet -/

/-- The header, then as many bytes as the size says: those of the data, if there is a count, and
otherwise those that stood there. -/
theorem fillPacketData_spec {old : List UInt8} {filled : List (Option UInt8)}
    (hold : old.length = nowPacketHeaderLength + c.size.toNat)
    (h : NowIo.fillPacketData (old.map some) c.type c.count c.data c.size = .ok filled) :
    ∃ body : List UInt8, body.length = c.size.toNat ∧
      filled = (c.type :: c.count :: body).map some ∧
      ∀ data, c.data = some data → c.count ≠ 0 → body = data.take c.size.toNat := by
  have hheader : writeAt (old.map some) 0 [some c.type, some c.count] =
      (c.type :: c.count :: old.drop nowPacketHeaderLength).map some := by
    rw [writeAt_zero, ← List.map_drop]
    rfl
  have hrest : (old.drop nowPacketHeaderLength).length = c.size.toNat := by
    rw [List.length_drop, hold, Nat.add_sub_cancel_left]
  simp only [NowIo.fillPacketData, hheader] at h
  cases hdata : c.data with
  | none =>
      simp only [hdata] at h
      exact ⟨_, hrest, (Except.ok.inj h).symm, (fun _ hsome => by cases hsome)⟩
  | some bytes =>
      simp only [hdata] at h
      split at h
      · obtain ⟨hinside, rfl⟩ := memcpy_ok_iff.mp h
        have hlen : (bytes.take c.size.toNat).length = c.size.toNat := by
          rw [List.length_take]
          rcases hinside with hzero | ⟨hread, -⟩
          · omega
          · rw [List.length_map] at hread
            omega
        have hend : (c.type :: c.count :: old.drop nowPacketHeaderLength).drop
            (nowPacketHeaderLength + c.size.toNat) = [] := by
          refine List.drop_of_length_le ?_
          rw [List.length_cons, List.length_cons, hrest, nowPacketHeaderLength]
          omega
        refine ⟨bytes.take c.size.toNat, hlen, ?_, ?_⟩
        · rw [List.drop_zero, ← List.map_take, writeAt, List.length_map, hlen, ← List.map_drop,
            hend, ← List.map_take, List.map_nil, List.append_nil, ← List.map_append]
          rfl
        · intro data hsame _
          rw [Option.some.inj hsame]
      · next hcount =>
          exact ⟨_, hrest, (Except.ok.inj h).symm, fun _ _ hne => absurd hne hcount⟩

theorem packet_spec {stack : ℕ → UInt8} {bytes : List UInt8} (h : c.packet stack = .ok bytes) :
    ∃ body : List UInt8, body.length = c.size.toNat ∧
      bytes = (c.type :: c.count :: body).take (UInt16.ofNat (c.size.toNat + 2)).toNat ∧
      ∀ data, c.data = some data → c.count ≠ 0 → body = data.take c.size.toNat := by
  let old := (List.range (nowPacketHeaderLength + c.size.toNat)).map stack
  have hold : old.length = nowPacketHeaderLength + c.size.toNat := by
    rw [List.length_map, List.length_range]
  have hsome : ((List.range (nowPacketHeaderLength + c.size.toNat)).map fun i => some (stack i)) =
      old.map some := List.map_map.symm
  rw [packet, hsome] at h
  cases hfilled : NowIo.fillPacketData (old.map some) c.type c.count c.data c.size with
  | error fault =>
      rw [hfilled] at h
      cases h
  | ok filled =>
      rw [hfilled] at h
      obtain ⟨body, hbody, rfl, hcopied⟩ := fillPacketData_spec hold hfilled
      refine ⟨body, hbody, ?_, hcopied⟩
      refine (Except.ok.inj h).symm.trans ?_
      show (((c.type :: c.count :: body).map some).take
        (UInt16.ofNat ((c.type :: c.count :: body).map some).length).toNat).reduceOption = _
      rw [← List.map_take, List.length_map, List.length_cons, List.length_cons, hbody]
      exact List.filterMap_map.trans List.filterMap_some

/-! ## What is parsed -/

theorem parse_payload {type count : UInt8} {body : List UInt8}
    (hsize : message.size.toNat = (type :: count :: body).length)
    (hdata : message.data.take (type :: count :: body).length =
      (type :: count :: body).map some) :
    ∃ packet, NowPacket.parse message = some packet ∧ packet.id = message.id ∧
      packet.macAddr = message.macAddr ∧ packet.type = type ∧ packet.count = count ∧
      packet.size.toNat = body.length ∧ packet.data.take body.length = body.map some := by
  obtain ⟨rest, hwhole⟩ : ∃ rest,
      message.data = some type :: some count :: (body.map some ++ rest) := by
    refine ⟨message.data.drop (type :: count :: body).length, ?_⟩
    calc message.data
        = message.data.take (type :: count :: body).length ++
            message.data.drop (type :: count :: body).length := (List.take_append_drop ..).symm
      _ = _ := by rw [hdata]; rfl
  refine ⟨_, NowPacket.parse_cons hwhole, rfl, rfl, rfl, rfl, ?_, ?_⟩
  · show (message.size - UInt16.ofNat nowPacketHeaderLength).toNat = _
    rw [NowPacket.size_toNat, hsize]
    · rfl
    · rw [hsize, nowPacketHeaderLength]
      exact Nat.le_add_left ..
  · exact List.take_left' (List.length_map ..)

theorem ReadFrom.valid_iff {packet : NowPacket} (h : c.ReadFrom message packet) :
    packet.valid = true ↔ c.IsSystemResponse := by
  simp [NowPacket.valid, IsSystemResponse, h.type, h.count, h.size, and_assoc]

theorem size_ne_zero {packet : NowPacket} (hshort : message.size.toNat < nowPacketHeaderLength)
    (hparse : NowPacket.parse message = some packet) : packet.size ≠ 0 := by
  rw [NowPacket.parse_size hparse]
  intro hzero
  rw [sub_eq_zero.mp hzero] at hshort
  exact absurd hshort (by decide)

section Carried
variable {stack : ℕ → UInt8} {bytes : List UInt8}

theorem read_of_fits (h : c.packet stack = .ok bytes)
    (hsize : message.size.toNat = bytes.length)
    (hdata : message.data.take bytes.length = bytes.map some) (hfits : c.size.toNat < 65534) :
    ∃ packet, c.ReadFrom message packet ∧ packet.id = message.id ∧
      packet.macAddr = message.macAddr := by
  obtain ⟨body, hbody, hbytes, hcopied⟩ := packet_spec h
  have hnat : (UInt16.ofNat (c.size.toNat + 2)).toNat = (c.type :: c.count :: body).length := by
    rw [UInt16.toNat_ofNat', List.length_cons, List.length_cons, hbody]
    omega
  rw [hnat, List.take_length] at hbytes
  rw [hbytes] at hsize hdata
  obtain ⟨packet, hparse, hid, hmac, htype, hcount, hpsize, hpdata⟩ := parse_payload hsize hdata
  refine ⟨packet, ⟨hparse, htype, hcount, UInt16.toNat_inj.mp (hpsize.trans hbody), ?_⟩, hid, hmac⟩
  intro data hc hne
  rw [← hcopied data hc hne, ← hbody]
  exact hpdata

theorem length_of_not_fits (h : c.packet stack = .ok bytes) (hfits : ¬ c.size.toNat < 65534) :
    bytes.length < nowPacketHeaderLength := by
  obtain ⟨body, -, hbytes, -⟩ := packet_spec h
  have hlt := c.size.toNat_lt
  rw [hbytes, List.length_take, UInt16.toNat_ofNat', nowPacketHeaderLength]
  omega

/-- `ping` and `discovery` believe a message exactly if it was sent as a system response. -/
theorem believed_iff (h : c.packet stack = .ok bytes) (hsize : message.size.toNat = bytes.length)
    (hdata : message.data.take bytes.length = bytes.map some) :
    (∃ packet, NowPacket.parse message = some packet ∧ packet.valid = true) ↔
      c.IsSystemResponse := by
  by_cases hfits : c.size.toNat < 65534
  · obtain ⟨packet, hread, -, -⟩ := read_of_fits h hsize hdata hfits
    constructor
    · rintro ⟨packet', hparse, hvalid⟩
      cases hread.parsed.symm.trans hparse
      exact hread.valid_iff.mp hvalid
    · intro hresponse
      exact ⟨packet, hread.parsed, hread.valid_iff.mpr hresponse⟩
  · constructor
    · rintro ⟨packet, hparse, hvalid⟩
      have hshort := length_of_not_fits h hfits
      rw [← hsize] at hshort
      simp [NowPacket.valid, size_ne_zero hshort hparse] at hvalid
    · rintro ⟨-, -, hzero⟩
      rw [hzero] at hfits
      exact absurd (by decide) hfits

end Carried

end NowContents

/-! ## The network -/

/-- A call of `respond`, with the peer that made it. -/
structure NowAnswer where
  macAddr : Mac
  id : UInt8
  contents : NowContents

/-- A node and its peers with `NowIo` on them, and the calls of `respond` so far. -/
structure NowNetwork where
  net : RequestNetwork := {}
  answers : List NowAnswer := []

/-- The node requests, or a peer responds; and whatever else the layer below does. -/
inductive NowNetworkEvent
  | request (contents : NowContents) (stack : ℕ → UInt8) (accepted : ℕ → Bool)
  | respond (answer : NowAnswer) (stack : ℕ → UInt8)
  | net (event : RequestNetworkEvent)

namespace NowNetworkEvent

/-- What the layer below is told; nothing responds but `NowIo`. -/
def lower : NowNetworkEvent → Option RequestNetworkEvent
  | .request contents stack accepted =>
      (contents.packet stack).toOption.map fun bytes => .own (.request bytes accepted)
  | .respond answer stack =>
      (answer.contents.packet stack).toOption.map (.respond answer.macAddr answer.id)
  | .net (.respond ..) => none
  | .net event => some event

def answered : NowNetworkEvent → List NowAnswer
  | .respond answer _ => [answer]
  | _ => []

end NowNetworkEvent

namespace NowNetwork

def step (s : NowNetwork) (e : NowNetworkEvent) : Option NowNetwork := do
  let lowered ← e.lower
  let net ← s.net.step lowered
  return { net, answers := s.answers ++ e.answered }

/-- `RequestNetwork.Separate` of what the layer below is told. -/
def Separate (peer : ℕ → Mac) (s : NowNetwork) (e : NowNetworkEvent) : Prop :=
  ∀ lowered, e.lower = some lowered → s.net.Separate peer lowered

/-- **What `request` comes to is what `respond` was given, and a ping is believed exactly if it
was answered as one.** -/
def AnsweredAsGiven (peer : ℕ → Mac) (s : NowNetwork) : Prop :=
  ∀ r ∈ s.net.node.requests.made, ∀ value, s.net.node.Succeeds r value →
    ∃ answer ∈ s.answers, ∃ message, value = some (.message message) ∧ answer.id = r.id ∧
      (peer r.send = broadcastMac ∨ answer.macAddr = peer r.send) ∧
      (answer.contents.size.toNat < 65534 → ∃ packet, answer.contents.ReadFrom message packet ∧
        packet.id = answer.id ∧ packet.macAddr = answer.macAddr) ∧
      ((∃ packet, NowPacket.parse message = some packet ∧ packet.valid = true) ↔
        answer.contents.IsSystemResponse)

/-- The invariant: every response on the way is the packet of an answer. -/
structure Given (peer : ℕ → Mac) (s : NowNetwork) : Prop where
  carried : s.net.Carried peer
  given : ∀ key bytes, (key, bytes) ∈ s.net.sent → key.isResponse = 1 →
    ∃ contents stack, ⟨key.macAddr, key.id, contents⟩ ∈ s.answers ∧
      contents.packet stack = .ok bytes

variable {peer : ℕ → Mac} {s t : NowNetwork}

theorem Given.answered (h : Given peer s) : AnsweredAsGiven peer s := by
  intro r hr value hsucceeds
  obtain ⟨reply, hreply, hvalue, hsend, hid, hresponse, hpeer⟩ :=
    h.carried.kept.answered h.carried.replied r hr value hsucceeds
  obtain ⟨payload, hsent, hsize, hdata⟩ := h.carried.sentAs reply hreply
  obtain ⟨contents, stack, hanswer, hpacket⟩ :=
    h.given reply.key payload hsent (h.carried.flags _ hsent hresponse.isResponse)
  refine ⟨_, hanswer, reply.message, hvalue, hid, ?_, ?_, ?_⟩
  · rw [← hsend]
    exact hpeer
  · intro hfits
    obtain ⟨packet, hread, hpid, hmac⟩ := NowContents.read_of_fits hpacket hsize hdata hfits
    exact ⟨packet, hread, hpid.trans hresponse.id, hmac.trans hresponse.macAddr⟩
  · exact NowContents.believed_iff hpacket hsize hdata

theorem lower_respond {e : NowNetworkEvent} {macAddr : Mac} {id : UInt8} {bytes : List UInt8}
    (h : e.lower = some (.respond macAddr id bytes)) :
    ∃ contents stack, ⟨macAddr, id, contents⟩ ∈ e.answered ∧
      contents.packet stack = .ok bytes := by
  cases e with
  | request contents stack accepted =>
      obtain ⟨sent, -, hne⟩ := Option.map_eq_some_iff.mp h
      cases hne
  | respond answer stack =>
      obtain ⟨sent, hpacket, hsame⟩ := Option.map_eq_some_iff.mp h
      cases hsame
      refine ⟨answer.contents, stack, List.mem_singleton_self _, ?_⟩
      cases hfilled : answer.contents.packet stack with
      | error fault =>
          rw [hfilled] at hpacket
          cases hpacket
      | ok filled =>
          rw [hfilled] at hpacket
          exact congrArg Except.ok (Option.some.inj hpacket)
  | net event =>
      cases event with
      | respond => cases h
      | own | send | arrive | lose => cases h

theorem Given.step {e : NowNetworkEvent} (h : Given peer s) (hseparate : Separate peer s e)
    (ht : s.step e = some t) : Given peer t := by
  obtain ⟨lowered, hlower, hnext⟩ := Option.bind_eq_some_iff.mp ht
  obtain ⟨net, hnet, hsame⟩ := Option.bind_eq_some_iff.mp hnext
  obtain rfl := Option.some.inj hsame
  refine ⟨h.carried.step (hseparate lowered hlower) hnet, ?_⟩
  intro key bytes hsent hkey
  rcases RequestNetwork.sent_response hnet hsent hkey with hold | rfl
  · obtain ⟨contents, stack, hanswer, hpacket⟩ := h.given key bytes hold hkey
    exact ⟨contents, stack, List.mem_append_left _ hanswer, hpacket⟩
  · obtain ⟨contents, stack, hanswer, hpacket⟩ := lower_respond hlower
    exact ⟨contents, stack, List.mem_append_right _ hanswer, hpacket⟩

theorem Given.start : Given peer {} := ⟨.start, fun _ _ h => by cases h⟩

/-- **Through both layers, and whatever is lost, reordered or scheduled in between, a request comes
to the packet that its peer has answered with under its id**, as long as no message is sent under a
key of which something is left, and no other peer answers a request that waits. -/
theorem answered_as_given (peer : ℕ → Mac) (es : List NowNetworkEvent)
    (hseparate : Each step (Separate peer) {} es) : Always step (AnsweredAsGiven peer) {} es :=
  Always.of_each (I := Given peer) (fun _ h => h.answered)
    (fun _ _ _ h hc ht => h.step hc ht) Given.start hseparate

theorem own_separate {e : NowNetworkEvent} {event : RequestEvent}
    (hown : e.lower = some (.own event)) : Separate peer s e := by
  intro lowered hlower
  rw [hown] at hlower
  cases hlower
  exact trivial

theorem own_free {e : NowNetworkEvent} {event : RequestEvent} {key : EspNowMessageKey}
    (hown : e.lower = some (.own event)) (hfree : s.net.network.Free key)
    (ht : s.step e = some t) : t.net.network.Free key := by
  obtain ⟨lowered, hlower, hnext⟩ := Option.bind_eq_some_iff.mp ht
  obtain ⟨net, hnet, hsame⟩ := Option.bind_eq_some_iff.mp hnext
  obtain rfl := Option.some.inj hsame
  rw [hown] at hlower
  cases hlower
  exact RequestNetwork.own_free hfree hnet

/-- The request of `discovery` is answered by a hub. -/
theorem answered_as_given_discovery :
    Always step (AnsweredAsGiven fun _ => broadcastMac) {}
      [.request { type := 0xf1 } (fun _ => 0) fun _ => true, .net (.own (.sent 0 0 true)),
        .net (.own .runTask), .net (.own .runTask),
        .respond ⟨#v[2, 0, 0, 0, 0, 1], 0, { type := systemResponse }⟩ fun _ => 0,
        .net (.arrive 0), .net (.own .runTask), .net (.own .runTask)] := by
  refine answered_as_given _ _ ?_
  have hfree : ({} : NowNetwork).net.network.Free ⟨0, 1, #v[2, 0, 0, 0, 0, 1]⟩ := ⟨nofun, rfl⟩
  have hrequest : (NowNetworkEvent.request { type := 0xf1 } (fun _ => 0) fun _ => true).lower =
      some (.own (.request [0xf1, 0] fun _ => true)) := rfl
  intro s₁ h₁
  refine ⟨own_separate hrequest, fun s₂ h₂ => ⟨own_separate rfl, fun s₃ h₃ =>
    ⟨own_separate rfl, fun s₄ h₄ => ⟨own_separate rfl, fun s₅ _ => ⟨?_, fun s₆ _ => ⟨?_, ?_⟩⟩⟩⟩⟩⟩
  · rintro _ ⟨⟩
    exact own_free rfl (own_free rfl (own_free rfl (own_free hrequest hfree h₁) h₂) h₃) h₄
  · rintro _ ⟨⟩
    exact fun _ _ _ _ _ _ _ _ => .inl rfl
  · exact fun _ _ => ⟨own_separate rfl, fun _ _ => ⟨own_separate rfl, trivial⟩⟩

end NowNetwork

end EspIot
