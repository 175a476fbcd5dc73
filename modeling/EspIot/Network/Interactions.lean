/-
# `EspIot.Network.Interactions` — messages in fragments

`AsyncEspNowInteraction` cuts a message into packets of at most 245 data bytes and
puts the packets it receives together again.

    sender                                receiver
    _send_impl                            _on_packet_received
      header (id, flag, index, count,       drop: too small, ill-formed
              size), data                   look up or create the entry of the key
      one packet after the other            add, count, copy to 245 * index
                                            all parts counted: hand on, erase

An entry is allocated from the first packet of its key; every later one is copied
by its own header.  A copy that leaves the packet or the buffer is a `MemFault`.
-/
import EspIot.Lib.Blocks
import EspIot.Network.AsyncNow

namespace EspIot

open Lib

/-! ## Packets -/

def espNowMaxDataLen : Nat := 250

/-- `EspNowInteractionPacketHeader`, packed; the flag is the byte that has been received, and any
but 0 stands for `true`. -/
structure EspNowInteractionPacketHeader where
  id : UInt8
  isResponse : UInt8
  index : UInt8
  count : UInt8
  size : UInt8
deriving DecidableEq, Repr

namespace EspNowInteraction

def packetHeaderLength : Nat := 5

def maxPacketDataLength : Nat := espNowMaxDataLen - packetHeaderLength

def maxDataLength : Nat := 0xff * maxPacketDataLength

theorem maxPacketDataLength_eq : maxPacketDataLength = 245 := rfl
theorem maxDataLength_eq : maxDataLength = 62475 := rfl

end EspNowInteraction

open EspNowInteraction

namespace EspNowInteractionPacketHeader

def bytes (header : EspNowInteractionPacketHeader) : List UInt8 :=
  [header.id, header.isResponse, header.index, header.count, header.size]

/-- The header at the front of a packet, unless the packet is too small for one. -/
def read : List UInt8 → Option EspNowInteractionPacketHeader
  | id :: isResponse :: index :: count :: size :: _ =>
      some { id, isResponse, index, count, size }
  | _ => none

/-- The filter of `_on_packet_received`, in the words of the source. -/
def illFormed (header : EspNowInteractionPacketHeader) : Bool :=
  header.count != 1 && decide ((header.index.toNat : Int) < header.size.toNat - 1) &&
    header.size.toNat != maxPacketDataLength

/-- The buffer that the first packet of a message allocates. -/
def bufferLength (header : EspNowInteractionPacketHeader) : Nat :=
  if header.count = 1 then header.size.toNat else header.count.toNat * maxPacketDataLength

theorem read_bytes (header : EspNowInteractionPacketHeader) (data : List UInt8) :
    read (header.bytes ++ data) = some header := rfl

end EspNowInteractionPacketHeader

/-- `EspNowPacket`: the sender, and `size` bytes of data. -/
structure EspNowPacket where
  macAddr : Mac
  size : UInt8
  data : List UInt8
  size_eq : size.toNat = data.length
deriving DecidableEq

/-- `_on_receive`: the packet made of what the driver has received. -/
def AsyncEspNow.onReceive (macAddr : Mac) (data : List UInt8) (h : data.length < 256) :
    EspNowPacket where
  macAddr
  size := UInt8.ofNat data.length
  data
  size_eq := by simp [UInt8.toNat_ofNat', Nat.mod_eq_of_lt h]

/-! ## Sending -/

/-- A packet of a message: header and data. -/
structure EspNowFragment where
  header : EspNowInteractionPacketHeader
  bytes : List UInt8
deriving DecidableEq, Repr

def EspNowFragment.packet (fragment : EspNowFragment) : List UInt8 :=
  fragment.header.bytes ++ fragment.bytes

/-- The packet as the driver of the receiver hands it over: no more than a driver carries. -/
def EspNowFragment.arrive (macAddr : Mac) (fragment : EspNowFragment) : EspNowPacket :=
  AsyncEspNow.onReceive macAddr (fragment.packet.take espNowMaxDataLen)
    (Nat.lt_of_le_of_lt (List.length_take_le ..) (by decide))

/-- The loop of `_send_impl`: `data` is what remains. -/
def fragments (id : UInt8) (isResponse : Bool) (count index : UInt8) (data : List UInt8) :
    List EspNowFragment :=
  if h : data = [] then []
  else
    let size := min data.length maxPacketDataLength
    { header := { id, isResponse := isResponse.toUInt8, index, count, size := UInt8.ofNat size },
      bytes := data.take size } ::
        fragments id isResponse count (index + 1) (data.drop size)
termination_by data.length
decreasing_by
  have := List.length_pos_of_ne_nil h
  rw [List.length_drop, maxPacketDataLength_eq]
  omega

def totalPacketsCount (size : Nat) : UInt8 :=
  UInt8.ofNat (size / maxPacketDataLength + if size % maxPacketDataLength ≠ 0 then 1 else 0)

/-- `_send_impl`: the fragments it hands to `AsyncEspNow::send`, in order; `none` where it
refuses the data.  A `uint16_t` size is never over 65535. -/
def sendImpl (id : UInt8) (isResponse : Bool) (data : List UInt8) :
    Option (List EspNowFragment) :=
  if data.length = 0 then none
  else if data.length > maxDataLength then none
  else some (fragments id isResponse (totalPacketsCount data.length) 0 data)

/-! ## Receiving -/

/-- `EspNowMessage`; a byte of `data` that has not been written yet is `none`. -/
structure EspNowMessage where
  id : UInt8
  macAddr : Mac
  receivedCount : UInt8
  partsCount : UInt8
  size : UInt16
  data : List (Option UInt8)
deriving DecidableEq

/-- `EspNowMessageKey`, whose eight bytes are the key of `_messages` -/
structure EspNowMessageKey where
  id : UInt8
  isResponse : UInt8
  macAddr : Mac
deriving DecidableEq

/-- Who gets a complete message: the promise of the request it answers, nobody for a response
that no request waits for, `_on_message_cb`, or nobody where that is not set. -/
inductive Recipient (P : Type*)
  | request (promise : P)
  | unexpected
  | onMessage
  | noCallback
deriving DecidableEq

structure Handed (P : Type*) where
  key : EspNowMessageKey
  recipient : Recipient P
  message : EspNowMessage
deriving DecidableEq

/-- `AsyncEspNowInteraction`; `P` is what `_requests` holds. -/
structure AsyncEspNowInteraction (P : Type*) where
  initialized : Bool := true
  id : UInt8 := 0
  requests : UInt8 → Option P := fun _ => none
  messages : EspNowMessageKey → Option EspNowMessage := fun _ => none
  onMessageCb : Bool := false

/-- What else happens to the receiver between packets: requests come and go, the callback is
set or unset; `_messages` is touched by nobody else. -/
inductive InteractionEvent (P : Type*)
  | received (packet : EspNowPacket)
  | others (initialized : Bool) (id : UInt8) (requests : UInt8 → Option P) (onMessageCb : Bool)

namespace EspNowPacket

/-- The header of a packet that is not dropped. -/
def accepted (packet : EspNowPacket) : Option EspNowInteractionPacketHeader :=
  (EspNowInteractionPacketHeader.read packet.data).filter fun header => !header.illFormed

def key (packet : EspNowPacket) (header : EspNowInteractionPacketHeader) : EspNowMessageKey :=
  { id := header.id, isResponse := header.isResponse, macAddr := packet.macAddr }

def newMessage (packet : EspNowPacket) (header : EspNowInteractionPacketHeader) :
    EspNowMessage where
  id := header.id
  macAddr := packet.macAddr
  receivedCount := 0
  partsCount := header.count
  size := 0
  data := List.replicate header.bufferLength none

/-- The packet is added to a message: its size, its count and its bytes. -/
def addTo (packet : EspNowPacket) (header : EspNowInteractionPacketHeader)
    (message : EspNowMessage) : Except MemFault EspNowMessage :=
  (memcpy message.data (maxPacketDataLength * header.index.toNat) (packet.data.map some)
      packetHeaderLength header.size.toNat).map fun data =>
    { message with
      size := message.size + header.size.toUInt16
      receivedCount := message.receivedCount + 1
      data }

theorem addTo_ok {packet : EspNowPacket} {header : EspNowInteractionPacketHeader}
    {message message' : EspNowMessage} (h : packet.addTo header message = .ok message') :
    CopyInside message.data (maxPacketDataLength * header.index.toNat) (packet.data.map some)
        packetHeaderLength header.size.toNat ∧
      message' = { message with
        size := message.size + header.size.toUInt16
        receivedCount := message.receivedCount + 1
        data := writeAt message.data (maxPacketDataLength * header.index.toNat)
          (((packet.data.map some).drop packetHeaderLength).take header.size.toNat) } := by
  rw [addTo] at h
  cases hm : memcpy message.data (maxPacketDataLength * header.index.toNat)
      (packet.data.map some) packetHeaderLength header.size.toNat with
  | error fault =>
      rw [hm] at h
      cases h
  | ok data =>
      rw [hm] at h
      cases h
      obtain ⟨hin, rfl⟩ := memcpy_ok_iff.mp hm
      exact ⟨hin, rfl⟩

theorem addTo_length {packet : EspNowPacket} {header : EspNowInteractionPacketHeader}
    {message message' : EspNowMessage} (h : packet.addTo header message = .ok message') :
    message'.data.length = message.data.length := by
  obtain ⟨hin, rfl⟩ := addTo_ok h
  rcases hin with h0 | ⟨hread, hwrite⟩
  · rw [h0, List.take_zero, writeAt_nil]
  · refine writeAt_length ?_
    rw [List.length_take]
    omega

theorem newMessage_length (packet : EspNowPacket) {header : EspNowInteractionPacketHeader}
    (h : header.count ≠ 1) :
    (packet.newMessage header).data.length = maxPacketDataLength * header.count.toNat := by
  rw [newMessage, List.length_replicate,
    EspNowInteractionPacketHeader.bufferLength, if_neg h, Nat.mul_comm]

end EspNowPacket

namespace AsyncEspNowInteraction

variable {P : Type*}

/-- The entry a packet is added to: that of its key, or a new one. -/
def entry (s : AsyncEspNowInteraction P) (packet : EspNowPacket)
    (header : EspNowInteractionPacketHeader) : EspNowMessage :=
  (s.messages (packet.key header)).getD (packet.newMessage header)

/-- A complete message goes to its recipient; a request is answered once. -/
def handOn (s : AsyncEspNowInteraction P) (key : EspNowMessageKey) (message : EspNowMessage) :
    Handed P × AsyncEspNowInteraction P :=
  if key.isResponse ≠ 0 then
    match s.requests key.id with
    | some promise =>
        ({ key, recipient := .request promise, message },
          { s with requests := Function.update s.requests key.id none })
    | none => ({ key, recipient := .unexpected, message }, s)
  else if s.onMessageCb then ({ key, recipient := .onMessage, message }, s)
  else ({ key, recipient := .noCallback, message }, s)

/-- `_messages[message_key.u64] = …` and `_messages.erase(message_key.u64)` -/
def setEntry (s : AsyncEspNowInteraction P) (key : EspNowMessageKey)
    (message : Option EspNowMessage) : AsyncEspNowInteraction P :=
  { s with messages := Function.update s.messages key message }

/-- `_on_packet_received`: what is handed on, and the state afterwards. -/
def onPacketReceived (s : AsyncEspNowInteraction P) (packet : EspNowPacket) :
    Except MemFault (Option (Handed P) × AsyncEspNowInteraction P) :=
  match packet.accepted with
  | none => .ok (none, s)
  | some header =>
      let key := packet.key header
      match packet.addTo header (s.entry packet header) with
      | .error fault => .error fault
      | .ok message =>
          if message.receivedCount ≠ message.partsCount then
            .ok (none, s.setEntry key (some message))
          else
            let (handed, s) := s.handOn key message
            .ok (some handed, s.setEntry key none)

/-- Packets received one after the other, with what is handed on. -/
def receiveAll (s : AsyncEspNowInteraction P) :
    List EspNowPacket → Except MemFault (List (Handed P) × AsyncEspNowInteraction P)
  | [] => .ok ([], s)
  | packet :: packets => do
      let (handed, s) ← s.onPacketReceived packet
      let (rest, s) ← s.receiveAll packets
      return (handed.toList ++ rest, s)

def send (s : AsyncEspNowInteraction P) (data : List UInt8) :
    Option (List EspNowFragment) × AsyncEspNowInteraction P :=
  if s.initialized = false then (none, s)
  else (sendImpl s.id false data, { s with id := s.id + 1 })

/-- `respond`: a response under the id of the request. -/
def respond (s : AsyncEspNowInteraction P) (id : UInt8) (data : List UInt8) :
    Option (List EspNowFragment) :=
  if s.initialized = false then none else sendImpl id true data

theorem send_some {s : AsyncEspNowInteraction P} {data : List UInt8}
    {parts : List EspNowFragment} (h : (s.send data).1 = some parts) :
    sendImpl s.id false data = some parts := by
  rw [send] at h
  split at h
  · cases h
  · exact h

theorem respond_some {s : AsyncEspNowInteraction P} {id : UInt8} {data : List UInt8}
    {parts : List EspNowFragment} (h : s.respond id data = some parts) :
    sendImpl id true data = some parts := by
  rw [respond] at h
  split at h
  · cases h
  · exact h

/-! ## What one packet does -/

theorem handOn_messages (s : AsyncEspNowInteraction P) (key : EspNowMessageKey)
    (message : EspNowMessage) : (s.handOn key message).2.messages = s.messages := by
  rw [handOn]
  split
  · split <;> rfl
  · split <;> rfl

/-- Who waits for a message under the key: the request of its id, or the callback. -/
def awaiting (s : AsyncEspNowInteraction P) (key : EspNowMessageKey) : Option (Recipient P) :=
  if key.isResponse ≠ 0 then (s.requests key.id).map .request
  else if s.onMessageCb then some .onMessage
  else none

theorem handOn_recipient (s : AsyncEspNowInteraction P) (key : EspNowMessageKey)
    (message : EspNowMessage) : (s.handOn key message).1.recipient =
      (s.awaiting key).getD (if key.isResponse ≠ 0 then .unexpected else .noCallback) := by
  rw [handOn, awaiting]
  split
  · cases s.requests key.id <;> rfl
  · split <;> rfl

theorem handOn_takers (s : AsyncEspNowInteraction P) (key : EspNowMessageKey)
    (message : EspNowMessage) :
    (s.handOn key message).2.onMessageCb = s.onMessageCb ∧
      (s.handOn key message).2.requests =
        if key.isResponse ≠ 0 then Function.update s.requests key.id none else s.requests := by
  rw [handOn]
  split
  · cases hrequest : s.requests key.id with
    | some promise => exact ⟨rfl, rfl⟩
    | none => exact ⟨rfl, (Function.update_eq_self_iff.mpr hrequest.symm).symm⟩
  · split <;> exact ⟨rfl, rfl⟩

theorem handOn_handed (s : AsyncEspNowInteraction P) (key : EspNowMessageKey)
    (message : EspNowMessage) :
    (s.handOn key message).1.key = key ∧ (s.handOn key message).1.message = message := by
  rw [handOn]
  split
  · split <;> exact ⟨rfl, rfl⟩
  · split <;> exact ⟨rfl, rfl⟩

/-- Every way a received packet can go. -/
theorem received_cases {s : AsyncEspNowInteraction P} {packet : EspNowPacket}
    {handed : Option (Handed P)} {s' : AsyncEspNowInteraction P}
    (h : s.onPacketReceived packet = .ok (handed, s')) :
    (packet.accepted = none ∧ handed = none ∧ s' = s) ∨
    ∃ header message, packet.accepted = some header ∧
      packet.addTo header (s.entry packet header) = .ok message ∧
      (message.receivedCount ≠ message.partsCount ∧ handed = none ∧
          s' = s.setEntry (packet.key header) (some message) ∨
        message.receivedCount = message.partsCount ∧
          handed = some (s.handOn (packet.key header) message).1 ∧
          s' = (s.handOn (packet.key header) message).2.setEntry (packet.key header) none) := by
  rw [onPacketReceived] at h
  split at h
  · rename_i hnone
    cases h
    exact Or.inl ⟨hnone, rfl, rfl⟩
  · rename_i header hsome
    dsimp only at h
    split at h
    · cases h
    · rename_i message hadd
      refine Or.inr ⟨header, message, hsome, hadd, ?_⟩
      split at h
      · rename_i hne
        cases h
        exact Or.inl ⟨hne, rfl, rfl⟩
      · rename_i heq
        cases h
        exact Or.inr ⟨not_not.mp heq, rfl, rfl⟩

theorem receiveAll_cons {s s' t : AsyncEspNowInteraction P} {packet : EspNowPacket}
    {trace : List EspNowPacket} {handed : Option (Handed P)} {rest : List (Handed P)}
    (h : s.onPacketReceived packet = .ok (handed, s')) (hr : s'.receiveAll trace = .ok (rest, t)) :
    s.receiveAll (packet :: trace) = .ok (handed.toList ++ rest, t) := by
  simp [receiveAll, h, hr, bind, Except.bind, pure, Except.pure]

theorem receiveAll_cons_ok {s t : AsyncEspNowInteraction P} {packet : EspNowPacket}
    {trace : List EspNowPacket} {all : List (Handed P)}
    (h : s.receiveAll (packet :: trace) = .ok (all, t)) :
    ∃ handed s' rest, s.onPacketReceived packet = .ok (handed, s') ∧
      s'.receiveAll trace = .ok (rest, t) ∧ all = handed.toList ++ rest := by
  cases hp : s.onPacketReceived packet with
  | error fault => simp [receiveAll, hp, bind, Except.bind] at h
  | ok result =>
      obtain ⟨handed, s'⟩ := result
      cases hr : s'.receiveAll trace with
      | error fault => simp [receiveAll, hp, hr, bind, Except.bind] at h
      | ok result' =>
          obtain ⟨rest, t'⟩ := result'
          rw [receiveAll_cons hp hr] at h
          cases h
          exact ⟨handed, s', rest, rfl, hr, rfl⟩

/-! ## Memory safety -/

/-- Dropped, or copied from inside the packet to inside the buffer of the entry. -/
def CopiesInside (s : AsyncEspNowInteraction P) (packet : EspNowPacket) : Prop :=
  ∀ header, packet.accepted = some header →
    CopyInside (s.entry packet header).data (maxPacketDataLength * header.index.toNat)
      (packet.data.map some) packetHeaderLength header.size.toNat

theorem received_ok_iff (s : AsyncEspNowInteraction P) (packet : EspNowPacket) :
    (∃ out, s.onPacketReceived packet = .ok out) ↔ s.CopiesInside packet := by
  constructor
  · rintro ⟨⟨handed, s'⟩, h⟩ header hh
    rcases received_cases h with ⟨hnone, -⟩ | ⟨header', message, hsome, hadd, -⟩
    · rw [hnone] at hh
      cases hh
    · rw [hsome] at hh
      cases hh
      exact (EspNowPacket.addTo_ok hadd).1
  · intro h
    rw [onPacketReceived]
    split
    · exact ⟨_, rfl⟩
    · rename_i header hsome
      have hadd : ∃ message, packet.addTo header (s.entry packet header) = .ok message := by
        rw [EspNowPacket.addTo]
        rw [memcpy_ok_iff.mpr ⟨h header hsome, rfl⟩]
        exact ⟨_, rfl⟩
      obtain ⟨message, hadd⟩ := hadd
      simp only [hadd]
      split <;> exact ⟨_, rfl⟩

def step (s : AsyncEspNowInteraction P) : InteractionEvent P → Option (AsyncEspNowInteraction P)
  | .received packet => (s.onPacketReceived packet).toOption.map Prod.snd
  | .others initialized id requests onMessageCb =>
      some { s with initialized, id, requests, onMessageCb }

/-- An entry is a message of several parts, with room for each of them. -/
def Allocated (s : AsyncEspNowInteraction P) : Prop :=
  ∀ key message, s.messages key = some message →
    message.partsCount ≠ 1 ∧
      message.data.length = maxPacketDataLength * message.partsCount.toNat

theorem Allocated.received {s s' : AsyncEspNowInteraction P} {packet : EspNowPacket}
    {handed : Option (Handed P)} (h : Allocated s)
    (hs : s.onPacketReceived packet = .ok (handed, s')) : Allocated s' := by
  rcases received_cases hs with ⟨-, -, rfl⟩ | ⟨header, message, -, hadd, hcase⟩
  · exact h
  · have hlen := EspNowPacket.addTo_length hadd
    obtain ⟨-, hmessage⟩ := EspNowPacket.addTo_ok hadd
    rcases hcase with ⟨hne, -, rfl⟩ | ⟨-, -, rfl⟩
    · intro key m hm
      by_cases hkey : key = packet.key header
      · subst hkey
        have hm : message = m := by simpa [setEntry] using hm
        subst hm
        cases hentry : s.messages (packet.key header) with
        | some stored =>
            obtain ⟨hparts, hstored⟩ := h _ _ hentry
            rw [entry, hentry] at hlen hmessage
            rw [hlen, hmessage]
            exact ⟨hparts, hstored⟩
        | none =>
            rw [entry, hentry] at hlen hmessage
            -- a message of one part is complete at once
            have hcount : header.count ≠ 1 := by
              intro hone
              refine hne ?_
              rw [hmessage]
              simp [EspNowPacket.newMessage, hone]
            rw [hlen, hmessage]
            exact ⟨hcount, EspNowPacket.newMessage_length packet hcount⟩
      · refine h key m ?_
        simpa [setEntry, hkey] using hm
    · intro key m hm
      by_cases hkey : key = packet.key header
      · simp [setEntry, hkey] at hm
      · refine h key m ?_
        simpa [setEntry, hkey, handOn_messages] using hm

theorem Allocated.step (s : AsyncEspNowInteraction P) (e : InteractionEvent P)
    (s' : AsyncEspNowInteraction P) (h : Allocated s) (hs : s.step e = some s') :
    Allocated s' := by
  cases e with
  | others initialized id requests onMessageCb =>
      cases hs
      exact h
  | received packet =>
      obtain ⟨out, hout, rfl⟩ := Option.map_eq_some_iff.mp hs
      cases hr : s.onPacketReceived packet with
      | error fault =>
          rw [hr] at hout
          cases hout
      | ok out' =>
          rw [hr] at hout
          cases hout
          exact h.received hr

/-- The condition on the packet and on the entry of its key: the packet has no header or is
ill-formed, or it announces no data, or it has the data it announces and its slot ends
within the slots of the first packet of its key. -/
def InSlot (s : AsyncEspNowInteraction P) (packet : EspNowPacket) : Prop :=
  ∀ header, EspNowInteractionPacketHeader.read packet.data = some header →
    header.illFormed = true ∨ header.size = 0 ∨
      packetHeaderLength + header.size.toNat ≤ packet.size.toNat ∧
        match s.messages (packet.key header) with
        | some message => maxPacketDataLength * header.index.toNat + header.size.toNat ≤
            maxPacketDataLength * message.partsCount.toNat
        | none =>
            if header.count = 1 then header.index = 0
            else maxPacketDataLength * header.index.toNat + header.size.toNat ≤
              maxPacketDataLength * header.count.toNat

theorem entry_room {s : AsyncEspNowInteraction P} (h : Allocated s) (packet : EspNowPacket)
    (header : EspNowInteractionPacketHeader) :
    maxPacketDataLength * header.index.toNat + header.size.toNat ≤
        (s.entry packet header).data.length ↔
      match s.messages (packet.key header) with
      | some message => maxPacketDataLength * header.index.toNat + header.size.toNat ≤
          maxPacketDataLength * message.partsCount.toNat
      | none =>
          if header.count = 1 then header.index = 0
          else maxPacketDataLength * header.index.toNat + header.size.toNat ≤
            maxPacketDataLength * header.count.toNat := by
  rw [entry]
  cases hentry : s.messages (packet.key header) with
  | some message => rw [Option.getD_some, (h _ _ hentry).2]
  | none =>
      rw [Option.getD_none]
      dsimp only
      split
      · rename_i hone
        have hlen : (packet.newMessage header).data.length = header.size.toNat := by
          simp [EspNowPacket.newMessage, EspNowInteractionPacketHeader.bufferLength, hone]
        rw [hlen, maxPacketDataLength_eq, ← UInt8.toNat_inj, UInt8.toNat_zero]
        omega
      · rename_i hne
        rw [EspNowPacket.newMessage_length packet hne]

theorem copiesInside_iff (s : AsyncEspNowInteraction P) (halloc : Allocated s)
    (packet : EspNowPacket) : s.CopiesInside packet ↔ s.InSlot packet := by
  refine forall_congr' ?_
  intro header
  rw [EspNowPacket.accepted, Option.filter_eq_some_iff, Bool.not_eq_true', and_imp]
  refine forall_congr' ?_
  intro _
  rw [CopyInside, List.length_map, ← packet.size_eq, ← UInt8.toNat_inj, UInt8.toNat_zero]
  by_cases hsize : header.size.toNat = 0
  · simp [hsize]
  · rw [← entry_room halloc packet header]
    simp only [hsize, false_or]
    cases header.illFormed <;> simp

/-- **A copy stays inside exactly when the packet has the data it announces and its slot is one
of the message's.**  For every reachable state and every packet. -/
theorem copiesInside_iff_inSlot (s : AsyncEspNowInteraction P) (hs : Reachable step {} s)
    (packet : EspNowPacket) : s.CopiesInside packet ↔ s.InSlot packet :=
  s.copiesInside_iff (hs.invariant (fun _ _ h => by cases h) Allocated.step) packet

/-- A packet of a message of no parts has been received, and its entry stays: what the condition
says of any packet that comes then. -/
theorem copiesInside_after_no_parts :
    ∃ s : AsyncEspNowInteraction Nat,
      step {} (.received (AsyncEspNow.onReceive (Vector.replicate 6 1) [0, 0, 0, 0, 0]
        (by decide))) = some s ∧
      ∀ packet, s.CopiesInside packet ↔ s.InSlot packet :=
  ⟨_, rfl, copiesInside_iff_inSlot _ ⟨[.received (AsyncEspNow.onReceive
    (Vector.replicate 6 1) [0, 0, 0, 0, 0] (by decide))], rfl⟩⟩

/-- A packet of five bytes that announces 200 bytes of data in one part: the copy reads behind
the packet. -/
theorem short_packet_overread :
    ¬ ∀ s : AsyncEspNowInteraction Nat, Reachable step {} s → ∀ packet, s.CopiesInside packet := by
  intro h
  have hin := h {} (Reachable.refl _)
    (AsyncEspNow.onReceive (Vector.replicate 6 1) [0, 0, 0, 1, 200] (by decide))
    { id := 0, isResponse := 0, index := 0, count := 1, size := 200 } rfl
  revert hin
  rw [CopyInside]
  decide

end AsyncEspNowInteraction

end EspIot
