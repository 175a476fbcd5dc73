/-
# `EspIot.Network.Delivery` — what a delivered message is

A receiver with a record of the parts each entry has been given, and of the parts
every message handed on was made of.  Completion counts packets: a message is handed
on when as many have been accepted under its key as its first one announced, and
nobody looks which.  So the record has exactly `count` parts, their sizes add up to
the size, and only where they are the parts of one message, each once, is the message
what they say.
-/
import EspIot.Lib.Lists
import EspIot.Lib.Run
import EspIot.Network.Assembly

namespace EspIot

open Lib EspNowInteraction

/-- A receiver, the parts accepted under each key since its entry was made, and the messages
handed on with the parts they were made of. -/
structure Receiving (P : Type*) where
  receiver : AsyncEspNowInteraction P := {}
  parts : EspNowMessageKey → List EspNowFragment := fun _ => []
  delivered : List (Handed P × List EspNowFragment) := []

namespace Receiving

variable {P : Type*}

/-- One packet, with the record: an accepted packet is one more part of its key; a message
handed on takes the parts with it. -/
def receive (r : Receiving P) (packet : EspNowPacket) : Option (Receiving P) :=
  match r.receiver.onPacketReceived packet with
  | .error _ => none
  | .ok (handed, receiver) =>
      match packet.accepted with
      | none => some { r with receiver }
      | some header =>
          let key := packet.key header
          let parts := r.parts key ++ [packet.fragment header]
          match handed with
          | none => some { r with receiver, parts := Function.update r.parts key parts }
          | some h => some
              { receiver, parts := Function.update r.parts key [],
                delivered := r.delivered ++ [(h, parts)] }

def step (r : Receiving P) : InteractionEvent P → Option (Receiving P)
  | .received packet => r.receive packet
  | .others initialized id requests onMessageCb =>
      some { r with receiver := { r.receiver with initialized, id, requests, onMessageCb } }

/-- The fields of a packet are in range: the index is that of a part, the data is there. -/
def InRange (packet : EspNowPacket) : Prop :=
  ∀ header, EspNowInteractionPacketHeader.read packet.data = some header →
    header.index < header.count ∧
      packetHeaderLength + header.size.toNat ≤ packet.size.toNat

/-- The parts of a message that was handed on: as many as the first one announced. -/
def Complete (message : EspNowMessage) (parts : List EspNowFragment) : Prop :=
  ∃ first, parts.head? = some first ∧ parts.length = first.header.count.toNat ∧
    Assembled first.header parts message ∧
      ∀ part ∈ parts, part.header.index < part.header.count

/-- An entry and its parts: it is what they make, they are in range, and there are fewer than
were announced. -/
structure Entry (entry : Option EspNowMessage) (parts : List EspNowFragment) : Prop where
  holds : Holds entry parts
  inRange : ∀ part ∈ parts, part.header.index < part.header.count
  missing : ∀ first, parts.head? = some first → parts.length < first.header.count.toNat

structure Recorded (r : Receiving P) : Prop where
  entries : ∀ key, Entry (r.receiver.messages key) (r.parts key)
  complete : ∀ x ∈ r.delivered, Complete x.1.message x.2

theorem Entry.empty : Entry none [] := ⟨rfl, by simp, by simp⟩

theorem entries_update {messages messages' : EspNowMessageKey → Option EspNowMessage}
    {parts : EspNowMessageKey → List EspNowFragment} {key : EspNowMessageKey}
    {new : List EspNowFragment} (h : ∀ key', Entry (messages key') (parts key'))
    (hother : ∀ key', key' ≠ key → messages' key' = messages key')
    (hkey : Entry (messages' key) new) (key' : EspNowMessageKey) :
    Entry (messages' key') (Function.update parts key new key') := by
  by_cases heq : key' = key
  · subst heq
    rw [Function.update_self]
    exact hkey
  · rw [Function.update_of_ne heq, hother key' heq]
    exact h key'

theorem receive_cases {r r' : Receiving P} {packet : EspNowPacket}
    (hr : r.receive packet = some r') :
    (packet.accepted = none ∧ r' = r) ∨
    ∃ header handed receiver, packet.accepted = some header ∧
      r.receiver.onPacketReceived packet = .ok (handed, receiver) ∧
      (handed = none ∧ r' = { r with
          receiver
          parts := Function.update r.parts (packet.key header)
            (r.parts (packet.key header) ++ [packet.fragment header]) } ∨
        ∃ h, handed = some h ∧ r' =
          { receiver
            parts := Function.update r.parts (packet.key header) []
            delivered := r.delivered ++
              [(h, r.parts (packet.key header) ++ [packet.fragment header])] }) := by
  rw [Receiving.receive] at hr
  split at hr
  · cases hr
  · rename_i handed receiver hs
    split at hr
    · rename_i hacc
      cases hr
      rcases AsyncEspNowInteraction.received_cases hs with ⟨-, -, rfl⟩ | ⟨header, _, hsome, -⟩
      · exact Or.inl ⟨hacc, rfl⟩
      · rw [hacc] at hsome
        cases hsome
    · rename_i header hacc
      refine Or.inr ⟨header, handed, receiver, hacc, hs, ?_⟩
      cases handed with
      | none => exact Or.inl ⟨rfl, (Option.some.inj hr).symm⟩
      | some h => exact Or.inr ⟨h, rfl, (Option.some.inj hr).symm⟩

/-- The parts of a key with one more accepted: there are no more than the first announced, and
the counter says whether there are as many. -/
theorem Recorded.one_more {r : Receiving P} (h : Recorded r) {key : EspNowMessageKey}
    {part first : EspNowFragment} (hpart : part.header.index < part.header.count)
    (hfirst : (r.parts key ++ [part]).head? = some first) :
    (r.parts key).length + 1 ≤ first.header.count.toNat := by
  cases hparts : r.parts key with
  | nil =>
      rw [hparts] at hfirst
      cases hfirst
      have := UInt8.lt_iff_toNat_lt.mp hpart
      rw [List.length_nil]
      omega
  | cons head rest =>
      rw [hparts] at hfirst
      cases hfirst
      have hmissing := (h.entries key).missing first (by rw [hparts]; rfl)
      rw [hparts] at hmissing
      exact hmissing

theorem Recorded.receive {r r' : Receiving P} (h : Recorded r) {packet : EspNowPacket}
    (hrange : InRange packet) (hr : r.receive packet = some r') : Recorded r' := by
  rcases receive_cases hr with ⟨-, rfl⟩ | ⟨header, handed, receiver, hacc, hs, hcase⟩
  · exact h
  · obtain ⟨first, message, hfirst, hassembled, hown⟩ :=
      received_own hs (h.entries (packet.key header)).holds hacc rfl
    have hother (key : EspNowMessageKey) (hne : key ≠ packet.key header) :
        receiver.messages key = r.receiver.messages key := by
      refine (received_other hs ?_).1
      intro header' hacc'
      rw [hacc] at hacc'
      cases hacc'
      exact Ne.symm hne
    have hpart : (packet.fragment header).header.index < (packet.fragment header).header.count :=
      (hrange header (EspNowPacket.accepted_read hacc).1).1
    have hin : ∀ part ∈ r.parts (packet.key header) ++ [packet.fragment header],
        part.header.index < part.header.count := by
      intro part hp
      rcases List.mem_append.mp hp with hp | hp
      · exact (h.entries _).inRange part hp
      · rw [List.mem_singleton.mp hp]
        exact hpart
    have hle := h.one_more hpart hfirst
    have hcounted : message.receivedCount = message.partsCount ↔
        (r.parts (packet.key header)).length + 1 = first.header.count.toNat := by
      have hlt := first.header.count.toNat_lt
      rw [hassembled.receivedCount, hassembled.partsCount, ← UInt8.toNat_inj,
        UInt8.toNat_ofNat', List.length_append, List.length_singleton]
      omega
    rcases hcase with ⟨rfl, rfl⟩ | ⟨handed, rfl, rfl⟩
    · rcases hown with ⟨hne, -, hm⟩ | ⟨-, hh, -⟩
      · refine ⟨entries_update h.entries hother ⟨?_, hin, ?_⟩, h.complete⟩
        · rw [hm]
          exact ⟨first, hfirst, hassembled⟩
        · intro first' hf
          rw [hfirst] at hf
          cases hf
          have hne' : (r.parts (packet.key header)).length + 1 ≠ first.header.count.toNat :=
            fun heq => hne (hcounted.mpr heq)
          rw [List.length_append, List.length_singleton]
          omega
      · cases hh
    · rcases hown with ⟨-, hh, -⟩ | ⟨heq, hh, hm⟩
      · cases hh
      · cases hh
        refine ⟨entries_update h.entries hother (hm ▸ Entry.empty), ?_⟩
        intro x hx
        rcases List.mem_append.mp hx with hx | hx
        · exact h.complete x hx
        · rw [List.mem_singleton.mp hx]
          refine ⟨first, hfirst, ?_, ?_, hin⟩
          · rw [List.length_append, List.length_singleton]
            exact hcounted.mp heq
          · rw [(r.receiver.handOn_handed _ _).2]
            exact hassembled

/-- The parts are those of one message, each of them once: distinct indices, one count, and all
but the last full. -/
def OneMessage (parts : List EspNowFragment) (count : UInt8) : Prop :=
  (parts.map fun part => part.header.index).Nodup ∧
    ∀ part ∈ parts, part.header.count = count ∧
      (part.header.index.toNat + 1 < count.toNat → part.bytes.length = maxPacketDataLength)

structure InOrder (ordered parts : List EspNowFragment) (count : Nat) : Prop where
  perm : ordered.Perm parts
  index : (ordered.map fun part => part.header.index.toNat) = List.range count

theorem exists_inOrder {parts : List EspNowFragment} {count : UInt8}
    (h : OneMessage parts count) (hlen : parts.length = count.toNat)
    (hin : ∀ part ∈ parts, part.header.index < part.header.count) :
    ∃ ordered, InOrder ordered parts count.toNat := by
  have hnodup : (parts.map fun part => part.header.index.toNat).Nodup := by
    have hmap := h.1.map (f := UInt8.toNat) fun _ _ => UInt8.toNat_inj.mp
    rwa [List.map_map] at hmap
  have hrange : (parts.map fun part => part.header.index.toNat).Perm
      (List.range count.toNat) := by
    refine List.Subperm.perm_of_length_le (hnodup.subperm ?_) (by simp [hlen])
    intro i hi
    obtain ⟨part, hp, rfl⟩ := List.mem_map.mp hi
    have hlt := hin part hp
    rw [(h.2 part hp).1] at hlt
    exact List.mem_range.mpr (UInt8.lt_iff_toNat_lt.mp hlt)
  obtain ⟨ordered, hperm, hmap⟩ := exists_perm_map_eq hrange
  exact ⟨ordered, hperm, hmap⟩

theorem Complete.whole {message : EspNowMessage} {parts : List EspNowFragment}
    (h : Complete message parts) {first : EspNowFragment} (hfirst : parts.head? = some first)
    (hone : OneMessage parts first.header.count) :
    ∃ ordered, InOrder ordered parts first.header.count.toNat ∧
      message.size.toNat = (ordered.map EspNowFragment.bytes).flatten.length ∧
      message.data.take message.size.toNat =
        (ordered.map EspNowFragment.bytes).flatten.map some := by
  obtain ⟨first', hfirst', hlen, hassembled, hin⟩ := h
  rw [hfirst] at hfirst'
  cases hfirst'
  obtain ⟨ordered, hordered⟩ := exists_inOrder hone hlen hin
  have hindex (i : Nat) (part : EspNowFragment) (hi : ordered[i]? = some part) :
      part.header.index.toNat = i := by
    have hget : (ordered.map fun part => part.header.index.toNat)[i]? =
        some part.header.index.toNat := by simp [hi]
    rw [hordered.index] at hget
    obtain ⟨hlt, hget⟩ := List.getElem?_eq_some_iff.mp hget
    rw [List.getElem_range] at hget
    exact hget.symm
  refine ⟨ordered, hordered, hassembled.whole ?_ hordered.perm.symm hindex ?_⟩
  · have := first.header.count.toNat_lt
    omega
  · intro i block hi hlt
    obtain ⟨part, hpart, rfl⟩ : ∃ part, ordered[i]? = some part ∧ part.bytes = block := by
      simpa using hi
    refine (hone.2 part (hordered.perm.mem_iff.mp (List.mem_of_getElem? hpart))).2 ?_
    rw [List.length_map, hordered.perm.length_eq, hlen] at hlt
    rw [hindex i part hpart]
    exact hlt

/-- The place of a packet is in the buffer of its message. -/
def Fits (r : Receiving P) : InteractionEvent P → Prop
  | .received packet => r.receiver.InSlot packet
  | .others .. => True

theorem Recorded.proceeds {r : Receiving P} {e : InteractionEvent P} (h : Recorded r)
    (halloc : r.receiver.Allocated) (hrange : ∀ packet, e = .received packet → InRange packet)
    (hfits : Fits r e) : ∃ r', r.step e = some r' ∧ Recorded r' ∧ r'.receiver.Allocated := by
  cases e with
  | received packet =>
      obtain ⟨⟨handed, receiver⟩, hs⟩ := (r.receiver.received_ok_iff packet).mpr
        ((r.receiver.copiesInside_iff halloc packet).mpr hfits)
      have hreceive : ∃ r', r.receive packet = some r' ∧ r'.receiver = receiver := by
        rw [Receiving.receive, hs]
        dsimp only
        split
        · exact ⟨_, rfl, rfl⟩
        · cases handed with
          | none => exact ⟨_, rfl, rfl⟩
          | some h => exact ⟨_, rfl, rfl⟩
      obtain ⟨r', hr, rfl⟩ := hreceive
      exact ⟨r', hr, h.receive (hrange packet rfl) hr, halloc.received hs⟩
  | others initialized id requests onMessageCb =>
      exact ⟨_, rfl, ⟨h.entries, h.complete⟩, halloc⟩

/-- **A delivered message is made of exactly as many packets as its first one announced.**  For
every sequence of packets with fields in range, each of which fits the buffer of its message,
whatever else happens between them: all of them are received, the parts accepted under the key of a
message handed on, since its entry was made, are `count` in number and their sizes add up to its
size; and where they are the parts of one message, each once, every index is there exactly once and
the message is their concatenation in index order. -/
theorem delivered_whole (es : List (InteractionEvent P))
    (hrange : ∀ packet, .received packet ∈ es → InRange packet) (hfits : Meets step Fits {} es) :
    ∃ r, run step {} es = some r ∧ ∀ handed parts, (handed, parts) ∈ r.delivered →
      ∃ first, parts.head? = some first ∧ parts.length = first.header.count.toNat ∧
        handed.message.size.toNat = (parts.map fun part => part.bytes.length).sum ∧
        (OneMessage parts first.header.count → ∃ ordered,
          InOrder ordered parts first.header.count.toNat ∧
          handed.message.size.toNat = (ordered.map EspNowFragment.bytes).flatten.length ∧
          handed.message.data.take handed.message.size.toNat =
            (ordered.map EspNowFragment.bytes).flatten.map some) := by
  obtain ⟨r, hr, hrecorded, -⟩ := run_of_meets
    (I := fun r : Receiving P => Recorded r ∧ r.receiver.Allocated)
    (A := fun e => ∀ packet, e = .received packet → InRange packet)
    (fun _ _ h hA hC => h.1.proceeds h.2 hA hC)
    (fun e he packet heq => by
      subst heq
      exact hrange packet he)
    ⟨⟨fun _ => Entry.empty, fun _ hx => by cases hx⟩, fun _ _ h => by cases h⟩ hfits
  refine ⟨r, hr, ?_⟩
  intro handed parts hdelivered
  have hcomplete : Complete handed.message parts := hrecorded.complete _ hdelivered
  obtain ⟨first, hfirst, hlen, hassembled, -⟩ := id hcomplete
  refine ⟨first, hfirst, hlen, hassembled.size_toNat ?_, hcomplete.whole hfirst⟩
  have := first.header.count.toNat_lt
  omega

theorem fits_of_step {r r' : Receiving P} {e : InteractionEvent P}
    (halloc : r.receiver.Allocated) (hr : r.step e = some r') :
    Fits r e ∧ r'.receiver.Allocated := by
  cases e with
  | received packet =>
      rw [Receiving.step, Receiving.receive] at hr
      cases hs : r.receiver.onPacketReceived packet with
      | error fault =>
          rw [hs] at hr
          cases hr
      | ok out =>
          have hin := (r.receiver.received_ok_iff packet).mp ⟨_, hs⟩
          refine ⟨(r.receiver.copiesInside_iff halloc packet).mp hin, ?_⟩
          rcases receive_cases hr with ⟨-, rfl⟩ | ⟨_, handed, receiver, -, hs', hcase⟩
          · exact halloc
          · rcases hcase with ⟨-, rfl⟩ | ⟨_, -, rfl⟩ <;> exact halloc.received hs'
  | others initialized id requests onMessageCb =>
      cases hr
      exact ⟨trivial, halloc⟩

theorem arrive_inRange {part : EspNowFragment} {total : Nat} (h : IsPart total part)
    (macAddr : Mac) : InRange (part.arrive macAddr) := by
  intro header hread
  rw [part.arrive_read macAddr] at hread
  cases hread
  refine ⟨UInt8.lt_iff_toNat_lt.mpr (h.count ▸ h.index), ?_⟩
  rw [(part.arrive macAddr).size_eq, part.arrive_data (h.bytes ▸ h.size) macAddr,
    EspNowFragment.packet, List.length_append, h.bytes]
  exact Nat.le_refl _

/-- Two halves of a message, the second first, for a callback that is set before they come; between
them a message of another peer under the same id. -/
def halvesReversed : List (InteractionEvent Nat) :=
  [.others true 0 (fun _ => none) true,
    .received ((halfPart 4 1 9).arrive (Vector.replicate 6 1)),
    .received (AsyncEspNow.onReceive (Vector.replicate 6 2) [4, 0, 0, 1, 2, 10, 20] (by decide)),
    .received ((halfPart 4 0 7).arrive (Vector.replicate 6 1))]

/-- Both messages are delivered, the long one as its two halves. -/
theorem delivered_halves :
    ∃ r, run step {} halvesReversed = some r ∧
      (r.delivered.map fun x => (x.1.recipient, x.2.map fun part => part.header.index)) =
        [(.onMessage, [0]), (.onMessage, [1, 0])] ∧
      ∀ handed parts, (handed, parts) ∈ r.delivered →
        ∃ first, parts.head? = some first ∧ parts.length = first.header.count.toNat ∧
          handed.message.size.toNat = (parts.map fun part => part.bytes.length).sum ∧
          (OneMessage parts first.header.count → ∃ ordered,
            InOrder ordered parts first.header.count.toNat ∧
            handed.message.size.toNat = (ordered.map EspNowFragment.bytes).flatten.length ∧
            handed.message.data.take handed.message.size.toNat =
              (ordered.map EspNowFragment.bytes).flatten.map some) := by
  have hrun : (run step {} halvesReversed).map (fun r => r.delivered.map fun x =>
      (x.1.recipient, x.2.map fun part => part.header.index)) =
        some [(.onMessage, [0]), (.onMessage, [1, 0])] := by decide +kernel
  have hrange : ∀ packet, .received packet ∈ halvesReversed → InRange packet := by
    intro packet hp
    simp only [halvesReversed, List.mem_cons, reduceCtorEq, InteractionEvent.received.injEq,
      List.not_mem_nil, or_false, false_or] at hp
    rcases hp with rfl | rfl | rfl
    · exact arrive_inRange (halfPart_isPart 4 9 (by decide)) _
    · intro header hread
      cases hread
      decide
    · exact arrive_inRange (halfPart_isPart 4 7 (by decide)) _
  obtain ⟨t, ht, -⟩ := Option.map_eq_some_iff.mp hrun
  have hfits : Meets step Fits {} halvesReversed :=
    meets_of_run (I := fun r : Receiving Nat => r.receiver.Allocated)
      (fun _ _ _ => fits_of_step) (fun _ _ h => by cases h) ht
  obtain ⟨r, hr, h⟩ := delivered_whole halvesReversed hrange hfits
  rw [hr] at hrun
  exact ⟨r, hr, Option.some.inj hrun, h⟩

/-- The first of two parts, received twice, is delivered as the whole message; and a part of a
message of five, received for one of two, is copied behind its buffer. -/
theorem repeated_part_delivered :
    (∃ r : Receiving Nat, run step {} [.received ((halfPart 4 0 7).arrive (Vector.replicate 6 1)),
        .received ((halfPart 4 0 7).arrive (Vector.replicate 6 1))] = some r ∧
      InRange ((halfPart 4 0 7).arrive (Vector.replicate 6 1)) ∧
      ∃ handed parts, (handed, parts) ∈ r.delivered ∧
        parts.map (fun part => part.header.index) = [0, 0] ∧
          parts.map (fun part => part.header.count) = [2, 2]) ∧
    ∃ first second : EspNowPacket, InRange first ∧ InRange second ∧
      (∃ header, first.accepted = some header ∧ header.count = 2) ∧
      (∃ header, second.accepted = some header ∧ header.count = 5) ∧
      run step ({} : Receiving Nat) [.received first, .received second] = none := by
  have hinRange := arrive_inRange (halfPart_isPart 4 7 (by decide : (0 : UInt8).toNat < 2))
    (Vector.replicate 6 1)
  have hrun : (run step ({} : Receiving Nat)
      [.received ((halfPart 4 0 7).arrive (Vector.replicate 6 1)),
        .received ((halfPart 4 0 7).arrive (Vector.replicate 6 1))]).map (fun r =>
      r.delivered.map fun x => (x.2.map fun part => part.header.index,
        x.2.map fun part => part.header.count)) = some [([0, 0], [2, 2])] := by decide +kernel
  obtain ⟨r, hr, hdelivered⟩ := Option.map_eq_some_iff.mp hrun
  obtain ⟨⟨handed, parts⟩, hx, heq⟩ := List.map_eq_singleton_iff.mp hdelivered
  refine ⟨⟨r, hr, hinRange, handed, parts, hx ▸ List.mem_singleton_self _,
    (Prod.mk.inj heq).1, (Prod.mk.inj heq).2⟩,
    AsyncEspNow.onReceive (Vector.replicate 6 1) [4, 0, 0, 2, 1, 8] (by decide),
    AsyncEspNow.onReceive (Vector.replicate 6 1) [4, 0, 4, 5, 1, 8] (by decide), ?_, ?_,
    ⟨_, rfl, rfl⟩, ⟨_, rfl, rfl⟩, ?_⟩
  · intro header hread
    cases hread
    decide
  · intro header hread
    cases hread
    decide
  · have hnone : (run step ({} : Receiving Nat) [.received (AsyncEspNow.onReceive
        (Vector.replicate 6 1) [4, 0, 0, 2, 1, 8] (by decide)), .received (AsyncEspNow.onReceive
        (Vector.replicate 6 1) [4, 0, 4, 5, 1, 8] (by decide))]).isNone = true := by
      decide +kernel
    exact Option.isNone_iff_eq_none.mp hnone

end Receiving

end EspIot
