/-
# `EspIot.Network.NowParse` — a packet and the message it is cut out of

`NowPacket::parse` takes the header from the front of a message and leaves the rest as data:

    data[0]     type
    data[1]     count
    data + 2    the data of the packet, of which there are size - 2 bytes in a `uint16_t`

Nobody asks for the size before: `_on_packet_received` drops a packet without a header of its own,
but the message may be shorter than the header of the next layer.  The probe that
`_configure_peer_channel` sends is one byte.
-/
import EspIot.Lib.Run
import EspIot.Network.Assembly
import EspIot.Network.NowIo

namespace EspIot

open Lib

/-- A byte of a message: one behind its `size` bytes is a fault.  `stale` is what stands where
nobody has written. -/
def EspNowMessage.read (stale : ℕ → UInt8) (message : EspNowMessage) (i : ℕ) :
    Except MemFault UInt8 :=
  if i < message.size.toNat then .ok ((message.data[i]?.join).getD (stale i))
  else .error .overread

namespace NowPacket

/-- `parse`, which may read no more than the message has. -/
def parseWithin (stale : ℕ → UInt8) (message : EspNowMessage) : Except MemFault NowPacket :=
  parseBy (message.read stale) message

/-- The packet was parsed without a fault, its data ends where the message does or before, and its
size is what the header leaves of the message. -/
def Inside (message : EspNowMessage) : Except MemFault NowPacket → Prop
  | .error _ => False
  | .ok packet =>
      packet.offset + packet.size.toNat ≤ message.size.toNat ∧
        (packet.size.toNat : ℤ) = message.size.toNat - nowPacketHeaderLength

variable {stale : ℕ → UInt8} {message : EspNowMessage}

theorem read_ok (stale : ℕ → UInt8) {i : ℕ} (h : i < message.size.toNat) :
    message.read stale i = .ok ((message.data[i]?.join).getD (stale i)) :=
  if_pos h

theorem read_behind {i : ℕ} (h : ¬ i < message.size.toNat) :
    message.read stale i = .error .overread :=
  if_neg h

theorem parseWithin_ok (stale : ℕ → UInt8) (h : nowPacketHeaderLength ≤ message.size.toNat) :
    ∃ packet, parseWithin stale message = .ok packet ∧ packet.offset = nowPacketHeaderLength ∧
      packet.size = message.size - UInt16.ofNat nowPacketHeaderLength := by
  rw [nowPacketHeaderLength] at h
  have htype := read_ok stale (show 0 < message.size.toNat by omega)
  have hcount := read_ok stale (show 1 < message.size.toNat by omega)
  rw [parseWithin, parseBy, htype, hcount]
  exact ⟨_, rfl, rfl, rfl⟩

theorem parseWithin_short (h : ¬ nowPacketHeaderLength ≤ message.size.toNat) :
    parseWithin stale message = .error .overread := by
  rw [nowPacketHeaderLength] at h
  have hcount : message.read stale 1 = .error .overread := read_behind (by omega)
  rw [parseWithin, parseBy, hcount]
  by_cases htype : 0 < message.size.toNat
  · rw [read_ok stale htype]
    rfl
  · rw [read_behind htype]
    rfl

theorem size_toNat (h : nowPacketHeaderLength ≤ message.size.toNat) :
    (message.size - UInt16.ofNat nowPacketHeaderLength).toNat =
      message.size.toNat - nowPacketHeaderLength := by
  have hlt := message.size.toNat_lt
  rw [nowPacketHeaderLength] at h ⊢
  rw [UInt16.toNat_sub]
  show (2 ^ 16 - 2 + message.size.toNat) % 2 ^ 16 = _
  omega

theorem inside_iff (stale : ℕ → UInt8) (message : EspNowMessage) :
    Inside message (parseWithin stale message) ↔
      nowPacketHeaderLength ≤ message.size.toNat := by
  by_cases h : nowPacketHeaderLength ≤ message.size.toNat
  · refine iff_of_true ?_ h
    obtain ⟨packet, hparse, hoffset, hsize⟩ := parseWithin_ok stale h
    have hnat := size_toNat h
    rw [hparse, Inside, hoffset, hsize, hnat]
    omega
  · refine iff_of_false ?_ h
    rw [parseWithin_short h]
    exact not_false

end NowPacket

/-! ## What `NowIo` processes -/

/-- `NowIo` on top of the interaction layer, with the messages that `_process_message` has been
called with and what came of parsing them. -/
structure NowReceiver (P : Type*) where
  interaction : AsyncEspNowInteraction P := {}
  onPacketCb : Bool := false
  processed : List (EspNowMessage × Except MemFault NowPacket) := []

inductive NowReceiverEvent (P : Type*)
  | interaction (event : InteractionEvent P)
  | setOnPacketCb (isSet : Bool)

namespace NowReceiver

variable {P : Type*} (own : P → Bool) (stale : ℕ → UInt8)

/-- `_on_message_received` processes a message if there is somebody to give it to, and the `then` of
`NowIo::request` processes the response; `own` tells its promises from those of others. -/
def processes (s : NowReceiver P) : Recipient P → Bool
  | .onMessage => s.onPacketCb
  | .request promise => own promise
  | .unexpected => false
  | .noCallback => false

/-- `_on_packet_received`, and what `NowIo` does with the message that is complete by it. -/
def receive (s : NowReceiver P) (packet : EspNowPacket) : Option (NowReceiver P) :=
  match s.interaction.onPacketReceived packet with
  | .error _ => none
  | .ok (none, interaction) => some { s with interaction }
  | .ok (some handed, interaction) =>
      if s.processes own handed.recipient then
        some { s with
          interaction
          processed := s.processed ++
            [(handed.message, NowPacket.parseWithin stale handed.message)] }
      else some { s with interaction }

def step (s : NowReceiver P) : NowReceiverEvent P → Option (NowReceiver P)
  | .interaction (.received packet) => s.receive own stale packet
  | .interaction (.others initialized id requests onMessageCb) =>
      some { s with interaction := { s.interaction with initialized, id, requests, onMessageCb } }
  | .setOnPacketCb isSet => some { s with onPacketCb := isSet }

/-- Every message processed was parsed inside its bytes. -/
def AllInside (s : NowReceiver P) : Prop := ∀ x ∈ s.processed, NowPacket.Inside x.1 x.2

/-- The message that a packet completes for `NowIo` has room for a header. -/
def HeaderFits (s : NowReceiver P) : NowReceiverEvent P → Prop
  | .interaction (.received packet) =>
      ∀ handed interaction,
        s.interaction.onPacketReceived packet = .ok (some handed, interaction) →
        s.processes own handed.recipient = true →
        nowPacketHeaderLength ≤ handed.message.size.toNat
  | _ => True

variable {own stale}

/-- A packet completes no message for `NowIo`, or one more is processed. -/
theorem receive_cases {s s' : NowReceiver P} {packet : EspNowPacket}
    (h : s.receive own stale packet = some s') :
    (s'.processed = s.processed ∧ ∀ handed interaction,
      s.interaction.onPacketReceived packet = .ok (some handed, interaction) →
      s.processes own handed.recipient = false) ∨
    ∃ handed interaction,
      s.interaction.onPacketReceived packet = .ok (some handed, interaction) ∧
      s.processes own handed.recipient = true ∧
      s'.processed = s.processed ++
        [(handed.message, NowPacket.parseWithin stale handed.message)] := by
  rw [receive] at h
  split at h
  · cases h
  · rename_i interaction hnone
    cases h
    refine .inl ⟨rfl, ?_⟩
    intro handed interaction' hsome
    rw [hnone] at hsome
    cases hsome
  · rename_i handed interaction hsome
    split at h
    · rename_i hprocessed
      cases h
      exact .inr ⟨handed, interaction, hsome, hprocessed, rfl⟩
    · rename_i hnot
      cases h
      refine .inl ⟨rfl, ?_⟩
      intro handed' interaction' hsome'
      rw [hsome] at hsome'
      cases hsome'
      exact Bool.eq_false_iff.mpr hnot

theorem AllInside.step (s : NowReceiver P) (e : NowReceiverEvent P) (s' : NowReceiver P)
    (h : AllInside s) (hfits : HeaderFits own s e) (hs : s.step own stale e = some s') :
    AllInside s' := by
  cases e with
  | interaction event =>
      cases event with
      | received packet =>
          rcases receive_cases hs with ⟨heq, -⟩ | ⟨handed, interaction, hsome, hprocessed, heq⟩
          · intro x hmem
            exact h x (heq ▸ hmem)
          · intro x hmem
            rw [heq] at hmem
            rcases List.mem_append.mp hmem with hold | hnew
            · exact h x hold
            · rw [List.mem_singleton.mp hnew, NowPacket.inside_iff]
              exact hfits handed interaction hsome hprocessed
      | others initialized id requests onMessageCb =>
          cases hs
          exact h
  | setOnPacketCb isSet =>
      cases hs
      exact h

theorem AllInside.not_of_short (s : NowReceiver P) (e : NowReceiverEvent P) (s' : NowReceiver P)
    (hshort : ¬ HeaderFits own s e) (hs : s.step own stale e = some s') : ¬ AllInside s' := by
  cases e with
  | interaction event =>
      cases event with
      | received packet =>
          intro hinside
          refine hshort ?_
          intro handed interaction hsome hprocessed
          rcases receive_cases hs with ⟨-, hnone⟩ | ⟨handed', interaction', hsome', -, heq⟩
          · rw [hnone handed interaction hsome] at hprocessed
            cases hprocessed
          · cases hsome.symm.trans hsome'
            refine (NowPacket.inside_iff stale handed.message).mp ?_
            refine hinside (handed.message, NowPacket.parseWithin stale handed.message) ?_
            rw [heq]
            exact List.mem_append_right _ (List.mem_singleton_self _)
      | others initialized id requests onMessageCb => exact absurd trivial hshort
  | setOnPacketCb isSet => exact absurd trivial hshort

variable (own)

/-- **A message is parsed inside its bytes exactly when it has two of them**: each message by
itself, and in every run all those that `NowIo` processes, whatever packets the peers send and
whatever stands in the bytes that nobody has written. -/
theorem inside_iff_headerFits (stale : ℕ → UInt8) :
    (∀ message : EspNowMessage, NowPacket.Inside message (NowPacket.parseWithin stale message) ↔
      nowPacketHeaderLength ≤ message.size.toNat) ∧
    ∀ es, Always (step own stale) AllInside {} es ↔
      Each (step own stale) (HeaderFits own) {} es := by
  refine ⟨NowPacket.inside_iff stale, ?_⟩
  intro es
  exact always_iff_each (fun _ h => h) AllInside.step
    (fun s e s' _ => AllInside.not_of_short s e s') fun _ hmem => by cases hmem

/-- `data` of `_configure_peer_channel` -/
def probe : List UInt8 := [0]

/-- The probe is one packet; the peer reads a count behind it, and gives out 65535 bytes of data,
whatever it has read. -/
theorem probe_leaves_message :
    ∃ part, (({} : AsyncEspNowInteraction Unit).send probe).1 = some [part] ∧
      ∃ s message, run (step (fun _ : Unit => true) fun _ => 0) {}
          [.interaction (.others true 0 (fun _ => none) true), .setOnPacketCb true,
            .interaction (.received (part.arrive (Vector.replicate 6 1)))] = some s ∧
        s.processed = [(message, .error .overread)] ∧ message.size = 1 ∧
        (∀ byte : ℕ → UInt8, (NowPacket.parseBy (m := Id) byte message).size = 65535) ∧
        ¬ AllInside s := by
  refine ⟨_, sendImpl_one 0 0, _, _, rfl, rfl, rfl, fun _ => rfl, ?_⟩
  intro hinside
  exact hinside _ (List.mem_singleton_self _)

end NowReceiver

end EspIot
