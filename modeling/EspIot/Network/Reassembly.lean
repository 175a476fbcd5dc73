/-
# `EspIot.Network.Reassembly` — from fragments back to messages

The fragments of a message, received in any order among the packets of other
messages: the others do not touch its entry and it does not touch theirs, so the run
splits (`receiveAll_others`, `receiveAll_own`), and the parts that are not dropped
gather in the entry until they are all there.

The filter compares the index with the size of the fragment where it means the
number of parts.  A short last fragment is dropped when `index < size - 1`, that is
when it brings more bytes than there are parts: `Deliverable` is what remains.
-/
import EspIot.Lib.Lists
import EspIot.Network.Assembly
import Mathlib.Data.List.Perm.Basic

namespace EspIot

open Lib EspNowInteraction

/-! ## One message among others -/

/-- The packet has a header, and it names the key. -/
def EspNowPacket.under (key : EspNowMessageKey) (packet : EspNowPacket) : Bool :=
  (EspNowInteractionPacketHeader.read packet.data).any fun header => packet.key header == key

/-- The fragment that the bytes of a packet carry, unless it is dropped. -/
def EspNowFragment.decode (data : List UInt8) : Option EspNowFragment :=
  ((EspNowInteractionPacketHeader.read data).filter fun header => !header.illFormed).map
    fun header => { header, bytes := (data.drop packetHeaderLength).take header.size.toNat }

/-- The parts of a message among the packets received, in the order they come. -/
def ownParts (key : EspNowMessageKey) (trace : List EspNowPacket) : List EspNowFragment :=
  ((trace.filter (EspNowPacket.under key)).map EspNowPacket.data).filterMap EspNowFragment.decode

theorem EspNowPacket.under_iff {key : EspNowMessageKey} {packet : EspNowPacket} :
    packet.under key = true ↔ ∃ header,
      EspNowInteractionPacketHeader.read packet.data = some header ∧ packet.key header = key := by
  simp [under, Option.any_eq_true]

theorem EspNowPacket.decode_data (packet : EspNowPacket) :
    EspNowFragment.decode packet.data = packet.accepted.map packet.fragment := rfl

theorem EspNowFragment.decode_packet {part : EspNowFragment}
    (h : part.bytes.length = part.header.size.toNat) :
    decode part.packet = if part.header.illFormed then none else some part := by
  have hbytes : (part.packet.drop packetHeaderLength).take part.header.size.toNat = part.bytes := by
    have hdrop : part.packet.drop packetHeaderLength = part.bytes := rfl
    rw [hdrop, ← h, List.take_length]
  rw [decode, packet, EspNowInteractionPacketHeader.read_bytes, Option.filter_some]
  cases part.header.illFormed with
  | true => rfl
  | false =>
      rw [packet] at hbytes
      simp [hbytes]

section Own
variable {P : Type*} {s u : AsyncEspNowInteraction P} {key : EspNowMessageKey}
  {packet : EspNowPacket}

/-- The two receivers have the same entries except under the key. -/
def AgreeOff (key : EspNowMessageKey) (s u : AsyncEspNowInteraction P) : Prop :=
  ∀ key', key' ≠ key → s.messages key' = u.messages key'

/-- The same requests wait, and the callback is set or not for both. -/
def SameTakers (s u : AsyncEspNowInteraction P) : Prop :=
  s.requests = u.requests ∧ s.onMessageCb = u.onMessageCb

theorem SameTakers.awaiting (h : SameTakers s u) : s.awaiting key = u.awaiting key := by
  rw [AsyncEspNowInteraction.awaiting, AsyncEspNowInteraction.awaiting, h.1, h.2]

theorem not_under_accepted (h : packet.under key = false)
    (header : EspNowInteractionPacketHeader) (hacc : packet.accepted = some header) :
    packet.key header ≠ key := by
  rintro hkey
  rw [EspNowPacket.under_iff.mpr ⟨header, (EspNowPacket.accepted_read hacc).1, hkey⟩] at h
  cases h

theorem under_accepted (h : packet.under key = true)
    {header : EspNowInteractionPacketHeader} (hacc : packet.accepted = some header) :
    packet.key header = key := by
  obtain ⟨header', hread, hkey⟩ := EspNowPacket.under_iff.mp h
  rw [(EspNowPacket.accepted_read hacc).1] at hread
  cases hread
  exact hkey

/-- A packet of another message is received by either receiver or by neither, with the same
effect. -/
theorem received_agree {handed : Option (Handed P)} {s' : AsyncEspNowInteraction P}
    (hagree : AgreeOff key s u) (hother : packet.under key = false)
    (hs : s.onPacketReceived packet = .ok (handed, s')) :
    ∃ handed' u', u.onPacketReceived packet = .ok (handed', u') ∧ AgreeOff key s' u' ∧
      (SameTakers s u → SameTakers s' u') := by
  have hentry (header : EspNowInteractionPacketHeader) (hacc : packet.accepted = some header) :
      s.entry packet header = u.entry packet header := by
    rw [AsyncEspNowInteraction.entry, AsyncEspNowInteraction.entry,
      hagree _ (not_under_accepted hother header hacc)]
  rcases AsyncEspNowInteraction.received_cases hs with ⟨hnone, -, rfl⟩ |
    ⟨header, message, hsome, hadd, hcase⟩
  · exact ⟨none, u, by simp [AsyncEspNowInteraction.onPacketReceived, hnone], hagree, id⟩
  · rw [hentry header hsome] at hadd
    have hset (m : Option EspNowMessage) (s₁ u₁ : AsyncEspNowInteraction P)
        (h₁ : s₁.messages = s.messages) (h₂ : u₁.messages = u.messages) :
        AgreeOff key (s₁.setEntry (packet.key header) m)
          (u₁.setEntry (packet.key header) m) := by
      intro key' hne
      simp only [AsyncEspNowInteraction.setEntry, Function.update_apply, h₁, h₂,
        hagree key' hne]
    rcases hcase with ⟨hne, -, rfl⟩ | ⟨heq, -, rfl⟩
    · exact ⟨none, u.setEntry (packet.key header) (some message),
        by simp [AsyncEspNowInteraction.onPacketReceived, hsome, hadd, hne],
        hset _ s u rfl rfl, id⟩
    · refine ⟨some (u.handOn (packet.key header) message).1,
        (u.handOn (packet.key header) message).2.setEntry (packet.key header) none,
        by simp [AsyncEspNowInteraction.onPacketReceived, hsome, hadd, heq],
        hset _ _ _ (s.handOn_messages _ _) (u.handOn_messages _ _), ?_⟩
      intro hsame
      obtain ⟨hcallback, hrequests⟩ := s.handOn_takers (packet.key header) message
      obtain ⟨hcallback', hrequests'⟩ := u.handOn_takers (packet.key header) message
      exact ⟨by rw [AsyncEspNowInteraction.setEntry, AsyncEspNowInteraction.setEntry, hrequests,
          hrequests', hsame.1],
        hcallback.trans (hsame.2.trans hcallback'.symm)⟩

theorem received_own_agree {handed : Option (Handed P)} {s' : AsyncEspNowInteraction P}
    (hagree : AgreeOff key s u) (hown : packet.under key = true)
    (hs : s.onPacketReceived packet = .ok (handed, s')) : AgreeOff key s' u := by
  intro key' hne
  rw [(received_other hs fun header hacc => ?_).1]
  · exact hagree key' hne
  · rw [under_accepted hown hacc]
    exact Ne.symm hne

theorem receiveAll_others {trace : List EspNowPacket} {out : List (Handed P) × _}
    (hagree : AgreeOff key s u) (hs : s.receiveAll trace = .ok out) :
    ∃ out', u.receiveAll (trace.filter fun packet => !packet.under key) = .ok out' := by
  induction trace generalizing s u out with
  | nil => exact ⟨_, rfl⟩
  | cons packet trace ih =>
      obtain ⟨handed, s', rest, hp, hr, -⟩ := AsyncEspNowInteraction.receiveAll_cons_ok hs
      cases hunder : packet.under key with
      | true =>
          rw [List.filter_cons_of_neg (by simp [hunder])]
          exact ih (received_own_agree hagree hunder hp) hr
      | false =>
          obtain ⟨handed', u', hu, hagree', -⟩ := received_agree hagree hunder hp
          obtain ⟨rest', hrest⟩ := ih hagree' hr
          rw [List.filter_cons_of_pos (by simp [hunder])]
          exact ⟨_, AsyncEspNowInteraction.receiveAll_cons hu hrest⟩

theorem ownParts_cons (packet : EspNowPacket) (trace : List EspNowPacket) :
    ownParts key (packet :: trace) =
      (if packet.under key then (packet.accepted.map packet.fragment).toList else []) ++
        ownParts key trace := by
  simp only [ownParts]
  cases hunder : packet.under key with
  | false => simp [hunder]
  | true =>
      rw [List.filter_cons_of_pos hunder, List.map_cons, List.filterMap_cons,
        EspNowPacket.decode_data]
      cases packet.accepted <;> rfl

/-- What has come of a message after a trace: as long as parts are missing, its entry; when
they are all there, one message handed on and no entry. -/
def Gathered (key : EspNowMessageKey) (total : Nat) (parts : List EspNowFragment)
    (handed : List (Handed P)) (t : AsyncEspNowInteraction P) : Prop :=
  (parts.length < total → (handed.filter fun h => h.key = key) = [] ∧
    Holds (t.messages key) parts) ∧
  (parts.length = total → ∃ h first, (handed.filter fun h => h.key = key) = [h] ∧
    Assembled first parts h.message ∧ t.messages key = none)

theorem Gathered.skip {total : Nat} {parts : List EspNowFragment} {rest : List (Handed P)}
    {t : AsyncEspNowInteraction P} (h : Gathered key total parts rest t)
    {handed : Option (Handed P)} (hkeys : ∀ h ∈ handed, h.key ≠ key) :
    Gathered key total parts (handed.toList ++ rest) t := by
  cases handed with
  | none => exact h
  | some first =>
      rw [Gathered]
      rw [Option.toList_some, List.singleton_append,
        List.filter_cons_of_neg (by simpa using hkeys first rfl)]
      exact h

theorem Gathered.last {total : Nat} {parts : List EspNowFragment}
    {rest : List (Handed P)} {t : AsyncEspNowInteraction P} (hpos : 0 < total)
    (hrest : Gathered key total [] rest t) {h : Handed P}
    {first : EspNowInteractionPacketHeader} (hlen : parts.length = total) (hk : h.key = key)
    (hassembled : Assembled first parts h.message) :
    Gathered key total parts ((some h).toList ++ rest) t := by
  obtain ⟨hnil, hholds⟩ := hrest.1 hpos
  refine ⟨fun hlt => absurd hlt (by omega), fun _ => ⟨h, first, ?_, hassembled, ?_⟩⟩
  · simp [hk, hnil]
  · cases ht : t.messages key with
    | none => rfl
    | some stored =>
        rw [ht] at hholds
        obtain ⟨first', hf, -⟩ := hholds
        cases hf

/-- A message among others.  Where the others are received, everything is; the parts are
gathered in the entry of the key, and handed on once, when they are all there. -/
theorem receiveAll_own {total : Nat} {trace : List EspNowPacket} {out : List (Handed P) × _}
    {parts : List EspNowFragment} (hagree : AgreeOff key s u)
    (hparts : Holds (s.messages key) parts)
    (hall : ∀ part ∈ parts ++ ownParts key trace, IsPart total part)
    (hlt : parts.length < total) (hle : (parts ++ ownParts key trace).length ≤ total)
    (hu : u.receiveAll (trace.filter fun packet => !packet.under key) = .ok out) :
    ∃ handed t, s.receiveAll trace = .ok (handed, t) ∧
      Gathered key total (parts ++ ownParts key trace) handed t := by
  induction trace generalizing s u parts out with
  | nil =>
      have hnil : parts ++ ownParts key [] = parts := List.append_nil parts
      rw [hnil]
      exact ⟨[], s, rfl, fun _ => ⟨rfl, hparts⟩, fun heq => absurd heq hlt.ne⟩
  | cons packet trace ih =>
      rw [ownParts_cons] at hall hle ⊢
      cases hunder : packet.under key with
      | false =>
          rw [List.filter_cons_of_pos (by simp [hunder])] at hu
          obtain ⟨_, u', rest', hu', hrest', -⟩ := AsyncEspNowInteraction.receiveAll_cons_ok hu
          obtain ⟨handed, s', hs, hagree', -⟩ :=
            received_agree (fun key' hne => (hagree key' hne).symm) hunder hu'
          obtain ⟨hsame, hkeys⟩ := received_other hs (not_under_accepted hunder)
          simp only [hunder, Bool.false_eq_true, if_false, List.nil_append] at hall hle ⊢
          obtain ⟨rest, t, hrest, hgathered⟩ := ih
            (fun key' hne => (hagree' key' hne).symm) (hsame ▸ hparts) hall hlt hle hrest'
          exact ⟨_, t, AsyncEspNowInteraction.receiveAll_cons hs hrest, hgathered.skip hkeys⟩
      | true =>
          rw [List.filter_cons_of_neg (by simp [hunder])] at hu
          cases hacc : packet.accepted with
          | none =>
              have hs : s.onPacketReceived packet = .ok (none, s) := by
                simp [AsyncEspNowInteraction.onPacketReceived, hacc]
              simp only [hunder, if_true, hacc, Option.map_none, Option.toList_none,
                List.nil_append] at hall hle ⊢
              obtain ⟨rest, t, hrest, hgathered⟩ := ih hagree hparts hall hlt hle hu
              exact ⟨_, t, AsyncEspNowInteraction.receiveAll_cons hs hrest, hgathered⟩
          | some header =>
              simp only [hunder, if_true, hacc, Option.map_some, Option.toList_some,
                ← List.append_assoc] at hall hle ⊢
              obtain ⟨handed, s', hs, hmore, hlast⟩ := received_part hparts
                (fun part hp => hall part (List.mem_append_left _ hp)) hlt hacc
                (under_accepted hunder hacc)
              have hagree' := received_own_agree hagree hunder hs
              have hlen : (parts ++ [packet.fragment header]).length = parts.length + 1 :=
                List.length_append
              rcases Nat.lt_or_ge (parts.length + 1) total with hlt' | hge
              · obtain ⟨rfl, hholds⟩ := hmore hlt'
                obtain ⟨rest, t, hrest, hgathered⟩ := ih hagree' hholds hall (hlen ▸ hlt') hle hu
                exact ⟨_, t, AsyncEspNowInteraction.receiveAll_cons hs hrest, hgathered⟩
              · -- this was the last part
                have hnil : ownParts key trace = [] := by
                  rw [List.length_append, hlen] at hle
                  exact List.length_eq_zero_iff.mp (by omega)
                obtain ⟨message, first, rfl, hassembled, hm⟩ := hlast (by omega)
                obtain ⟨hk, hmessage⟩ := s.handOn_handed key message
                obtain ⟨rest, t, hrest, hgathered⟩ := ih hagree'
                  (show Holds (s'.messages key) [] from hm ▸ rfl) (by simp [hnil])
                  (Nat.zero_lt_of_lt hlt) (by simp [hnil]) hu
                rw [hnil] at hgathered ⊢
                rw [List.append_nil]
                exact ⟨_, t, AsyncEspNowInteraction.receiveAll_cons hs hrest,
                  hgathered.last (Nat.zero_lt_of_lt hlt) (by omega) hk (hmessage.symm ▸ hassembled)⟩

end Own

/-! ## Fragmentation and reassembly -/

/-- The lengths whose last fragment gets through the filter: one fragment, all fragments full,
or no more bytes in the last one than there are fragments. -/
def Deliverable (size : Nat) : Prop :=
  size ≤ maxPacketDataLength ∨ size % maxPacketDataLength = 0 ∨
    size % maxPacketDataLength ≤ size / maxPacketDataLength + 1

instance : DecidablePred Deliverable := fun _ => inferInstanceAs (Decidable (_ ∨ _ ∨ _))

namespace Emitted

variable {id isResponse : UInt8} {payload : List UInt8} {parts : List EspNowFragment}

theorem illFormed_iff (h : Emitted id isResponse payload parts) {i : Nat}
    {part : EspNowFragment} (hi : parts[i]? = some part) :
    part.header.illFormed = true ↔
      parts.length ≠ 1 ∧ i + 1 < part.bytes.length ∧
        part.bytes.length ≠ maxPacketDataLength := by
  obtain ⟨hpart, hindex⟩ := h.isPart hi
  have hcount : part.header.count = 1 ↔ parts.length = 1 := by
    rw [← UInt8.toNat_inj, hpart.count, UInt8.toNat_one]
  simp only [EspNowInteractionPacketHeader.illFormed, Bool.and_eq_true, bne_iff_ne, ne_eq,
    decide_eq_true_eq, hcount, hindex, ← hpart.bytes]
  omega

theorem length_eq (h : Emitted id isResponse payload parts) {i : Nat} {part : EspNowFragment}
    (hi : parts[i]? = some part) (hlast : i + 1 = parts.length) :
    payload.length = maxPacketDataLength * i + part.bytes.length := by
  rw [← h.flatten]
  exact flatten_length h.full (by simp [hi]) (by simpa using hlast)

theorem wellFormed_iff (h : Emitted id isResponse payload parts) :
    (∀ part ∈ parts, part.header.illFormed = false) ↔ Deliverable payload.length := by
  have hpos := h.pos
  obtain ⟨last, hlast⟩ : ∃ last, parts[parts.length - 1]? = some last :=
    ⟨_, List.getElem?_eq_getElem (by omega)⟩
  have hlen := h.length_eq hlast (by omega)
  have hsize := (h.header _ _ hlast).2
  have hill := h.illFormed_iff hlast
  rw [maxPacketDataLength_eq] at hlen hsize hill
  rw [Deliverable]
  rw [maxPacketDataLength_eq]
  constructor
  · intro hall
    have hnot : ¬ last.header.illFormed = true := by
      rw [hall last (List.mem_of_getElem? hlast)]
      decide
    rw [hill] at hnot
    omega
  · intro hdel part hp
    obtain ⟨i, hi⟩ := List.getElem?_of_mem hp
    rw [← Bool.not_eq_true, h.illFormed_iff hi, maxPacketDataLength_eq]
    rintro ⟨hne, hindex, hfull⟩
    by_cases hi' : i + 1 < parts.length
    · -- only the last fragment may be short
      have := h.full i part.bytes (by simp [hi]) (by simpa using hi')
      exact hfull (this.trans maxPacketDataLength_eq)
    · have hlt := (List.getElem?_eq_some_iff.mp hi).1
      have heq : i = parts.length - 1 := by omega
      rw [heq, hlast] at hi
      cases hi
      omega

end Emitted

/-- The parts of a message among the packets received are those that get through the filter. -/
theorem ownParts_perm {id isResponse : UInt8} {payload : List UInt8}
    {parts : List EspNowFragment} (h : Emitted id isResponse payload parts)
    {key : EspNowMessageKey} {trace : List EspNowPacket}
    (hperm : ((trace.filter (EspNowPacket.under key)).map EspNowPacket.data).Perm
      (parts.map EspNowFragment.packet)) :
    (ownParts key trace).Perm (parts.filter fun part => !part.header.illFormed) := by
  have hdecode : (parts.map EspNowFragment.packet).filterMap EspNowFragment.decode =
      parts.filter fun part => !part.header.illFormed := by
    rw [List.filterMap_map, ← List.filterMap_eq_filter]
    refine List.filterMap_congr ?_
    intro part hp
    obtain ⟨i, hi⟩ := List.getElem?_of_mem hp
    rw [Function.comp_apply, EspNowFragment.decode_packet (h.isPart hi).1.bytes]
    cases hill : part.header.illFormed <;> simp [Option.guard, hill]
  rw [← hdecode]
  exact hperm.filterMap EspNowFragment.decode

section Takers
variable {P : Type*} {s u : AsyncEspNowInteraction P} {key : EspNowMessageKey}

theorem receiveAll_append_ok {a b : List EspNowPacket} {handed : List (Handed P)}
    {t : AsyncEspNowInteraction P} (hs : s.receiveAll (a ++ b) = .ok (handed, t)) :
    ∃ first v rest, s.receiveAll a = .ok (first, v) ∧ v.receiveAll b = .ok (rest, t) ∧
      handed = first ++ rest := by
  induction a generalizing s handed with
  | nil => exact ⟨[], s, handed, rfl, hs, rfl⟩
  | cons packet a ih =>
      obtain ⟨h, s', all, hp, hall, rfl⟩ := AsyncEspNowInteraction.receiveAll_cons_ok hs
      obtain ⟨first, v, rest, ha, hb, rfl⟩ := ih hall
      exact ⟨_, v, rest, AsyncEspNowInteraction.receiveAll_cons hp ha, hb,
        (List.append_assoc ..).symm⟩

theorem receiveAll_awaiting {trace : List EspNowPacket} {handed : List (Handed P)}
    {t : AsyncEspNowInteraction P} (hs : s.receiveAll trace = .ok (handed, t))
    {recipient : Recipient P} (h : t.awaiting key = some recipient) :
    s.awaiting key = some recipient := by
  induction trace generalizing s handed with
  | nil =>
      cases hs
      exact h
  | cons packet trace ih =>
      obtain ⟨_, s', _, hp, hrest, -⟩ := AsyncEspNowInteraction.receiveAll_cons_ok hs
      exact received_awaiting hp (ih hrest)

theorem received_recipient {packet : EspNowPacket} {handed : Option (Handed P)}
    (hunder : packet.under key = true) (hs : s.onPacketReceived packet = .ok (handed, u)) :
    handed = none ∧ SameTakers u s ∨ ∃ h, handed = some h ∧ h.key = key ∧ h.recipient =
      (s.awaiting key).getD (if key.isResponse ≠ 0 then .unexpected else .noCallback) := by
  rcases AsyncEspNowInteraction.received_cases hs with ⟨-, rfl, rfl⟩ |
    ⟨header, message, hsome, -, hcase⟩
  · exact .inl ⟨rfl, rfl, rfl⟩
  · rw [under_accepted hunder hsome] at hcase
    rcases hcase with ⟨-, rfl, rfl⟩ | ⟨-, rfl, -⟩
    · exact .inl ⟨rfl, rfl, rfl⟩
    · exact .inr ⟨_, rfl, (s.handOn_handed key message).1, s.handOn_recipient key message⟩

theorem receiveAll_takers {trace : List EspNowPacket} {handed others : List (Handed P)}
    {t w : AsyncEspNowInteraction P} (hagree : AgreeOff key s u) (hsame : SameTakers s u)
    (hs : s.receiveAll trace = .ok (handed, t)) (hnone : ∀ h ∈ handed, h.key ≠ key)
    (hu : u.receiveAll (trace.filter fun packet => !packet.under key) = .ok (others, w)) :
    SameTakers t w := by
  induction trace generalizing s u handed others with
  | nil =>
      cases hs
      cases hu
      exact hsame
  | cons packet trace ih =>
      obtain ⟨h, s', rest, hp, hrest, rfl⟩ := AsyncEspNowInteraction.receiveAll_cons_ok hs
      have hrestNone : ∀ h ∈ rest, h.key ≠ key :=
        fun h' hh => hnone h' (List.mem_append_right _ hh)
      cases hunder : packet.under key with
      | true =>
          rw [List.filter_cons_of_neg (by simp [hunder])] at hu
          rcases received_recipient hunder hp with ⟨-, hsame'⟩ | ⟨h', rfl, hkey, -⟩
          · exact ih (received_own_agree hagree hunder hp)
              ⟨hsame'.1.trans hsame.1, hsame'.2.trans hsame.2⟩ hrest hrestNone hu
          · exact absurd hkey (hnone h' (List.mem_append_left _ (List.mem_singleton_self _)))
      | false =>
          rw [List.filter_cons_of_pos (by simp [hunder])] at hu
          obtain ⟨handed', u', hu', hagree', hsame'⟩ := received_agree hagree hunder hp
          obtain ⟨h'', u'', rest', hu'', hrest', -⟩ :=
            AsyncEspNowInteraction.receiveAll_cons_ok hu
          rw [hu'] at hu''
          cases hu''
          exact ih hagree' (hsame' hsame) hrest hrestNone hrest'

theorem receiveAll_other {trace : List EspNowPacket} {handed : List (Handed P)}
    {t : AsyncEspNowInteraction P} (hs : s.receiveAll trace = .ok (handed, t))
    (hother : ∀ packet ∈ trace, packet.under key = false) : ∀ h ∈ handed, h.key ≠ key := by
  induction trace generalizing s handed with
  | nil =>
      cases hs
      exact fun _ hh => by cases hh
  | cons packet trace ih =>
      obtain ⟨h, s', rest, hp, hrest, rfl⟩ := AsyncEspNowInteraction.receiveAll_cons_ok hs
      intro h' hh
      rcases List.mem_append.mp hh with hfirst | hlast
      · exact (received_other hp (not_under_accepted (hother packet List.mem_cons_self))).2 h'
          (Option.mem_toList.mp hfirst)
      · exact ih hrest (fun p hp => hother p (List.mem_cons_of_mem _ hp)) h' hlast

end Takers

/-! ## Exactly once -/

/-- After the trace exactly one message has been handed on under the key, to the request that was
waiting for it or to the callback: it has the size and the bytes of the payload, and its entry is
gone. -/
def HandsOnce {P : Type*} (s : AsyncEspNowInteraction P) (key : EspNowMessageKey)
    (trace : List EspNowPacket) (payload : List UInt8) : Prop :=
  ∃ handed t, s.receiveAll trace = .ok (handed, t) ∧ t.messages key = none ∧
    ∃ h, (handed.filter fun h => h.key = key) = [h] ∧ s.awaiting key = some h.recipient ∧
      h.message.size.toNat = payload.length ∧
        h.message.data.take payload.length = payload.map some

/-- The packets of the other messages that come before the last one of this message leave somebody
who waits for it: the callback is set, or there is a request under its id, which no response of
another peer has taken. -/
def Awaited {P : Type*} (s : AsyncEspNowInteraction P) (key : EspNowMessageKey)
    (trace : List EspNowPacket) : Prop :=
  ∃ before last after, trace = before ++ last :: after ∧ last.under key = true ∧
    (∀ packet ∈ after, packet.under key = false) ∧
    ∃ handed t, s.receiveAll (before.filter fun packet => !packet.under key) = .ok (handed, t) ∧
      (t.awaiting key).isSome = true

section Exact
variable {P : Type*} {id isResponse : UInt8} {payload : List UInt8} {parts : List EspNowFragment}
  {s : AsyncEspNowInteraction P} {key : EspNowMessageKey} {trace : List EspNowPacket}

theorem Emitted.accepted (h : Emitted id isResponse payload parts)
    (hdel : Deliverable payload.length)
    (hperm : ((trace.filter (EspNowPacket.under key)).map EspNowPacket.data).Perm
      (parts.map EspNowFragment.packet))
    {packet : EspNowPacket} (hmem : packet ∈ trace) (hunder : packet.under key = true) :
    ∃ header, packet.accepted = some header := by
  obtain ⟨part, hp, hdata⟩ := List.mem_map.mp (hperm.mem_iff.mp
    (List.mem_map_of_mem (List.mem_filter.mpr ⟨hmem, hunder⟩)))
  obtain ⟨i, hi⟩ := List.getElem?_of_mem hp
  have hdecode := packet.decode_data
  rw [← hdata, EspNowFragment.decode_packet (h.isPart hi).1.bytes,
    h.wellFormed_iff.mpr hdel part hp] at hdecode
  obtain ⟨header, haccepted, -⟩ := Option.map_eq_some_iff.mp hdecode.symm
  exact ⟨header, haccepted⟩

theorem Emitted.ownParts_isPart (h : Emitted id isResponse payload parts)
    (hperm : ((trace.filter (EspNowPacket.under key)).map EspNowPacket.data).Perm
      (parts.map EspNowFragment.packet)) :
    ∀ part ∈ ownParts key trace, IsPart parts.length part := by
  intro part hp
  have hmem := List.mem_of_mem_filter ((ownParts_perm h hperm).mem_iff.mp hp)
  obtain ⟨i, hi⟩ := List.getElem?_of_mem hmem
  exact (h.isPart hi).1

theorem Emitted.length_ownParts_le (h : Emitted id isResponse payload parts)
    (hperm : ((trace.filter (EspNowPacket.under key)).map EspNowPacket.data).Perm
      (parts.map EspNowFragment.packet)) : (ownParts key trace).length ≤ parts.length := by
  rw [(ownParts_perm h hperm).length_eq]
  exact List.length_filter_le ..

theorem Emitted.deliverable_of_length (h : Emitted id isResponse payload parts)
    (hperm : ((trace.filter (EspNowPacket.under key)).map EspNowPacket.data).Perm
      (parts.map EspNowFragment.packet)) (hall : parts.length ≤ (ownParts key trace).length) :
    Deliverable payload.length := by
  rw [← h.wellFormed_iff]
  intro part hp
  by_contra hill
  -- this fragment is dropped
  have hlt : (parts.filter fun part => !part.header.illFormed).length < parts.length :=
    List.length_filter_lt_length_iff_exists.mpr ⟨part, hp, by simpa using hill⟩
  rw [(ownParts_perm h hperm).length_eq] at hall
  omega

theorem receiveAll_gathers {total : Nat} (hs : s.messages key = none) (hpos : 0 < total)
    (hall : ∀ part ∈ ownParts key trace, IsPart total part)
    (hle : (ownParts key trace).length ≤ total) {out : List (Handed P) × AsyncEspNowInteraction P}
    (hu : s.receiveAll (trace.filter fun packet => !packet.under key) = .ok out) :
    ∃ handed t, s.receiveAll trace = .ok (handed, t) ∧
      Gathered key total (ownParts key trace) handed t :=
  receiveAll_own (fun _ _ => rfl) (show Holds (s.messages key) [] from hs ▸ rfl) hall hpos hle hu

/-- Before the last packet of a message nothing is handed on under its key. -/
theorem handed_before (h : Emitted id isResponse payload parts) (hs : s.messages key = none)
    (hdel : Deliverable payload.length) {before after : List EspNowPacket} {last : EspNowPacket}
    (hperm : (((before ++ last :: after).filter (EspNowPacket.under key)).map
      EspNowPacket.data).Perm (parts.map EspNowFragment.packet))
    (hlast : last.under key = true) {first others : List (Handed P)}
    {v w : AsyncEspNowInteraction P} (hv : s.receiveAll before = .ok (first, v))
    (hw : s.receiveAll (before.filter fun packet => !packet.under key) = .ok (others, w)) :
    ∀ m ∈ first, m.key ≠ key := by
  have hsplit : ownParts key (before ++ last :: after) =
      ownParts key before ++ ownParts key (last :: after) := by
    simp [ownParts]
  -- the last packet is one of the parts, so the message is not complete before
  obtain ⟨header, haccepted⟩ := h.accepted hdel hperm
    (List.mem_append_right _ List.mem_cons_self) hlast
  have hlt : (ownParts key before).length < parts.length := by
    have hlen := h.length_ownParts_le hperm
    rw [hsplit, ownParts_cons, if_pos hlast, haccepted, Option.map_some, Option.toList_some,
      List.length_append, List.length_append, List.length_singleton] at hlen
    omega
  have hall : ∀ part ∈ ownParts key before, IsPart parts.length part := fun part hp =>
    h.ownParts_isPart hperm part (hsplit ▸ List.mem_append_left _ hp)
  obtain ⟨first', v', hv', hgathered⟩ := receiveAll_gathers hs h.pos hall hlt.le hw
  rw [hv] at hv'
  cases hv'
  intro m hm heq
  have hmem : m ∈ first.filter fun m => m.key = key := List.mem_filter.mpr ⟨hm, by simpa⟩
  rw [(hgathered.1 hlt).1] at hmem
  cases hmem

theorem handed_recipient (h : Emitted id isResponse payload parts) (hs : s.messages key = none)
    (hdel : Deliverable payload.length)
    (hperm : ((trace.filter (EspNowPacket.under key)).map EspNowPacket.data).Perm
      (parts.map EspNowFragment.packet))
    {before after : List EspNowPacket} {last : EspNowPacket}
    (htrace : trace = before ++ last :: after) (hlast : last.under key = true)
    (hafter : ∀ packet ∈ after, packet.under key = false) {handed : List (Handed P)}
    {t : AsyncEspNowInteraction P} (ht : s.receiveAll trace = .ok (handed, t)) :
    ∃ others w, s.receiveAll (before.filter fun packet => !packet.under key) = .ok (others, w) ∧
      ∀ message ∈ handed, message.key = key → message.recipient =
        (w.awaiting key).getD (if key.isResponse ≠ 0 then .unexpected else .noCallback) := by
  subst htrace
  obtain ⟨first, v, rest, hv, hrest, rfl⟩ := receiveAll_append_ok ht
  obtain ⟨⟨others, w⟩, hw⟩ := receiveAll_others (u := s) (fun _ _ => rfl) hv
  refine ⟨others, w, hw, ?_⟩
  have hnone := handed_before h hs hdel hperm hlast hv hw
  have htakers := receiveAll_takers (u := s) (fun _ _ => rfl) ⟨rfl, rfl⟩ hv hnone hw
  obtain ⟨h', v'', rest', hp, hrest', rfl⟩ := AsyncEspNowInteraction.receiveAll_cons_ok hrest
  intro message hmessage hkey
  rcases List.mem_append.mp hmessage with hfirst | hmessage
  · exact absurd hkey (hnone message hfirst)
  rcases List.mem_append.mp hmessage with hnow | hlater
  · rcases received_recipient hlast hp with ⟨rfl, -⟩ | ⟨m, rfl, -, hrecipient⟩
    · cases hnow
    · rw [List.mem_singleton.mp hnow, hrecipient, htakers.awaiting]
  · exact absurd hkey (receiveAll_other hrest' hafter message hlater)

theorem awaiting_ne_nobody : s.awaiting key ≠
    some (if key.isResponse ≠ 0 then .unexpected else .noCallback) := by
  rw [AsyncEspNowInteraction.awaiting]
  split
  · cases s.requests key.id with
    | none => exact fun h => by cases h
    | some promise => exact fun h => by cases h
  · split
    · exact fun h => by cases h
    · exact fun h => by cases h

theorem mem_of_filter_key {handed : List (Handed P)} {message : Handed P}
    (h : (handed.filter fun h => h.key = key) = [message]) :
    message ∈ handed ∧ message.key = key := by
  have hmem : message ∈ handed.filter fun h => h.key = key := by
    rw [h]
    exact List.mem_singleton_self _
  simpa using hmem

theorem awaited_of_handsOnce (h : Emitted id isResponse payload parts)
    (hs : s.messages key = none)
    (hperm : ((trace.filter (EspNowPacket.under key)).map EspNowPacket.data).Perm
      (parts.map EspNowFragment.packet)) (honce : HandsOnce s key trace payload) :
    Deliverable payload.length ∧ Awaited s key trace ∧
      ∃ out, s.receiveAll (trace.filter fun packet => !packet.under key) = .ok out := by
  obtain ⟨handed, t, ht, -, message, hmessage, hawaits, -⟩ := honce
  obtain ⟨hmem, hkey⟩ := mem_of_filter_key hmessage
  obtain ⟨out, hout⟩ := receiveAll_others (u := s) (fun _ _ => rfl) ht
  obtain ⟨handed', t', ht', hgathered⟩ := receiveAll_gathers hs h.pos (h.ownParts_isPart hperm)
    (h.length_ownParts_le hperm) hout
  rw [ht] at ht'
  cases ht'
  have hdel : Deliverable payload.length := by
    refine h.deliverable_of_length hperm ?_
    by_contra hlt
    rw [(hgathered.1 (Nat.lt_of_not_le hlt)).1] at hmessage
    cases hmessage
  refine ⟨hdel, ?_, out, hout⟩
  have hne : trace.filter (EspNowPacket.under key) ≠ [] := by
    intro hnil
    have hlen := hperm.length_eq
    rw [hnil, List.map_nil, List.length_nil, List.length_map] at hlen
    exact absurd h.pos (hlen ▸ Nat.lt_irrefl 0)
  obtain ⟨before, last, after, htrace, hlast, hafter⟩ := exists_split_last hne
  obtain ⟨others, w, hw, hrecipient⟩ :=
    handed_recipient h hs hdel hperm htrace hlast hafter ht
  refine ⟨before, last, after, htrace, hlast, hafter, others, w, hw, ?_⟩
  cases hwaits : w.awaiting key with
  | some recipient => rfl
  | none =>
      rw [hrecipient message hmem hkey, hwaits] at hawaits
      exact absurd hawaits awaiting_ne_nobody

theorem handsOnce_of_awaited (h : Emitted id isResponse payload parts)
    (hs : s.messages key = none)
    (hperm : ((trace.filter (EspNowPacket.under key)).map EspNowPacket.data).Perm
      (parts.map EspNowFragment.packet)) (hdel : Deliverable payload.length)
    (hawaited : Awaited s key trace) {out : List (Handed P) × AsyncEspNowInteraction P}
    (hout : s.receiveAll (trace.filter fun packet => !packet.under key) = .ok out) :
    HandsOnce s key trace payload := by
  have hown := ownParts_perm h hperm
  rw [List.filter_eq_self.mpr fun part hp => by simp [h.wellFormed_iff.mpr hdel part hp]] at hown
  obtain ⟨before, last, after, htrace, hlast, hafter, others, w, hw, hwaits⟩ := hawaited
  obtain ⟨handed, t, ht, hgathered⟩ := receiveAll_gathers hs h.pos (h.ownParts_isPart hperm)
    (h.length_ownParts_le hperm) hout
  obtain ⟨message, first, hmessage, hassembled, hgone⟩ := hgathered.2 hown.length_eq
  obtain ⟨hmem, hkey⟩ := mem_of_filter_key hmessage
  have hlen := h.le
  obtain ⟨hsize, hdata⟩ := hassembled.whole (hown.length_eq.trans_le (by omega)) hown
    (fun i part hi => (h.isPart hi).2) h.full
  rw [h.flatten] at hsize hdata
  refine ⟨handed, t, ht, hgone, message, hmessage, ?_, hsize, hsize ▸ hdata⟩
  obtain ⟨others', w', hw', hrecipient⟩ :=
    handed_recipient h hs hdel hperm htrace hlast hafter ht
  rw [hw] at hw'
  cases hw'
  obtain ⟨recipient, hrecipient'⟩ := Option.isSome_iff_exists.mp hwaits
  rw [hrecipient message hmem hkey, hrecipient', Option.getD_some]
  exact receiveAll_awaiting hw hrecipient'

end Exact

/-- **Reassembly inverts fragmentation exactly for the deliverable lengths.**  For every payload
of an admitted length, every id, flag and sender, and every trace in which the packets under
the message's key are the fragments of the payload once each in any order, received in a
state without an entry for it: exactly one message is handed on under the key, to the request or
the callback that waits for it, with the size and the bytes of the payload, and the entry is gone,
if and only if the last fragment gets through the filter, somebody waits for the message when it is
complete, and the packets of other messages are received without a memory fault. -/
theorem reassembly_iff_deliverable {P : Type*} (payload : List UInt8)
    (hpos : 1 ≤ payload.length) (hle : payload.length ≤ maxDataLength) (id : UInt8)
    (isResponse : Bool) (macAddr : Mac) :
    ∃ parts, sendImpl id isResponse payload = some parts ∧
      ∀ (s : AsyncEspNowInteraction P) (trace : List EspNowPacket),
        s.messages ⟨id, isResponse.toUInt8, macAddr⟩ = none →
        ((trace.filter (EspNowPacket.under ⟨id, isResponse.toUInt8, macAddr⟩)).map
          EspNowPacket.data).Perm (parts.map EspNowFragment.packet) →
        (HandsOnce s ⟨id, isResponse.toUInt8, macAddr⟩ trace payload ↔
          Deliverable payload.length ∧ Awaited s ⟨id, isResponse.toUInt8, macAddr⟩ trace ∧
          ∃ out, s.receiveAll (trace.filter fun packet =>
            !packet.under ⟨id, isResponse.toUInt8, macAddr⟩) = .ok out) := by
  obtain ⟨parts, hparts⟩ := sendImpl_isSome id isResponse payload hpos hle
  have hemitted := sendImpl_emitted hparts
  refine ⟨parts, hparts, fun s trace hs hperm => ⟨awaited_of_handsOnce hemitted hs hperm, ?_⟩⟩
  rintro ⟨hdel, hawaited, out, hout⟩
  exact handsOnce_of_awaited hemitted hs hperm hdel hawaited hout

theorem Emitted.arrive {id isResponse : UInt8} {payload : List UInt8}
    {parts : List EspNowFragment} (h : Emitted id isResponse payload parts) (macAddr : Mac) :
    ∀ part ∈ parts, (part.arrive macAddr).under ⟨id, isResponse, macAddr⟩ = true ∧
      (part.arrive macAddr).data = part.packet := by
  intro part hp
  obtain ⟨i, hi⟩ := List.getElem?_of_mem hp
  obtain ⟨hheader, -, hle⟩ := h.header i part hi
  have hdata := part.arrive_data hle macAddr
  refine ⟨EspNowPacket.under_iff.mpr ⟨part.header, ?_, ?_⟩, hdata⟩
  · rw [hdata, EspNowFragment.packet, EspNowInteractionPacketHeader.read_bytes]
  · rw [EspNowPacket.key, hheader]
    rfl

theorem Emitted.trace {id isResponse : UInt8} {payload : List UInt8}
    {parts order : List EspNowFragment} (h : Emitted id isResponse payload parts) (macAddr : Mac)
    (hperm : order.Perm parts) :
    (((order.map (EspNowFragment.arrive macAddr)).filter
        (EspNowPacket.under ⟨id, isResponse, macAddr⟩)).map EspNowPacket.data).Perm
          (parts.map EspNowFragment.packet) := by
  have harrive : ∀ packet ∈ order.map (EspNowFragment.arrive macAddr),
      packet.under ⟨id, isResponse, macAddr⟩ = true := by
    intro packet hp
    obtain ⟨part, hpart, rfl⟩ := List.mem_map.mp hp
    exact (h.arrive macAddr part (hperm.mem_iff.mp hpart)).1
  rw [List.filter_eq_self.mpr harrive, List.map_map]
  have hdata : order.map (EspNowPacket.data ∘ EspNowFragment.arrive macAddr) =
      order.map EspNowFragment.packet :=
    List.map_congr_left fun part hp => (h.arrive macAddr part (hperm.mem_iff.mp hp)).2
  rw [hdata]
  exact hperm.map _

/-- A response of 246 bytes, the last fragment first, with a message of somebody else before the
other; the request 3 waits for it. -/
theorem reassembly_reversed :
    ∃ first last, sendImpl 3 true (List.replicate 246 7) = some [first, last] ∧
      HandsOnce ({ requests := fun id => if id = 3 then some 8 else none } :
          AsyncEspNowInteraction Nat) ⟨3, 1, Vector.replicate 6 1⟩
        [last.arrive (Vector.replicate 6 1), AsyncEspNow.onReceive (Vector.replicate 6 2)
          [3, 0, 0, 1, 1, 42] (by decide), first.arrive (Vector.replicate 6 1)]
        (List.replicate 246 7) := by
  obtain ⟨parts, hparts, h⟩ := reassembly_iff_deliverable (P := Nat) (List.replicate 246 7)
    (by rw [List.length_replicate]; decide) (by rw [List.length_replicate]; decide) 3 true
    (Vector.replicate 6 1)
  have hemitted := sendImpl_emitted hparts
  have hlen : parts.length = 2 := by
    rw [hemitted.length, List.length_replicate]
    rfl
  obtain ⟨first, last, rfl⟩ := List.length_eq_two.mp hlen
  obtain ⟨hfirst, hfirstData⟩ := hemitted.arrive (Vector.replicate 6 1) first (by simp)
  obtain ⟨hlast, hlastData⟩ := hemitted.arrive (Vector.replicate 6 1) last (by simp)
  have hother : (AsyncEspNow.onReceive (Vector.replicate 6 2) [3, 0, 0, 1, 1, 42]
    (by decide)).under ⟨3, true.toUInt8, Vector.replicate 6 1⟩ = false := by decide
  refine ⟨first, last, hparts, (h _ _ rfl ?_).mpr ⟨?_, ?_, ?_⟩⟩
  · simp only [List.filter_cons, hfirst, hlast, hother, if_true, Bool.false_eq_true, if_false,
      List.filter_nil, List.map_cons, List.map_nil, hfirstData, hlastData]
    exact List.Perm.swap ..
  · rw [List.length_replicate]
    decide
  · refine ⟨[_, _], _, [], rfl, hfirst, (fun _ hp => by cases hp), ?_⟩
    simp only [List.filter_cons, hlast, hother, Bool.not_true, Bool.not_false, if_true,
      Bool.false_eq_true, if_false, List.filter_nil]
    exact ⟨_, _, rfl, rfl⟩
  · simp only [List.filter_cons, hfirst, hlast, hother, Bool.not_true, Bool.not_false, if_true,
      Bool.false_eq_true, if_false, List.filter_nil]
    exact ⟨_, rfl⟩

/-- 300 bytes for the callback: the second fragment brings 55 bytes, more than there are fragments,
and is dropped. -/
theorem short_last_fragment_lost :
    ∃ parts, sendImpl 3 false (List.replicate 300 7) = some parts ∧
      ¬ HandsOnce ({ onMessageCb := true } : AsyncEspNowInteraction Nat)
        ⟨3, 0, Vector.replicate 6 1⟩
        (parts.map (EspNowFragment.arrive (Vector.replicate 6 1))) (List.replicate 300 7) := by
  obtain ⟨parts, hparts⟩ := sendImpl_isSome 3 false (List.replicate 300 7)
    (by rw [List.length_replicate]; decide) (by rw [List.length_replicate]; decide)
  have hperm := (sendImpl_emitted hparts).trace (Vector.replicate 6 1) (List.Perm.refl parts)
  refine ⟨parts, hparts, ?_⟩
  intro h
  have hdel := (awaited_of_handsOnce (sendImpl_emitted hparts) rfl hperm h).1
  rw [List.length_replicate] at hdel
  revert hdel
  decide

end EspIot
