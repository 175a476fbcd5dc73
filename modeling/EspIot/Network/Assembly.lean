/-
# `EspIot.Network.Assembly` — what an entry of `_messages` is

In terms of the fragments it has been given, an entry is their sizes added up, their
number, and each one copied to its slot (`Assembled`).  All fragments of a message,
in whatever order, make its payload (`Assembled.whole`), and one packet adds one
fragment to the entry of its key and leaves the others alone (`received_own`,
`received_other`).  What is said about messages goes through these.
-/
import EspIot.Network.Interactions

namespace EspIot

open Lib EspNowInteraction

/-! ## The fragments of a message -/

section Fragments
variable (id : UInt8) (isResponse : Bool) (count : UInt8)

/-- The number of fragments, as a number. -/
def partsOf (size : Nat) : Nat :=
  size / maxPacketDataLength + if size % maxPacketDataLength ≠ 0 then 1 else 0

theorem fragments_nil (index : UInt8) : fragments id isResponse count index [] = [] := by
  rw [fragments, dif_pos rfl]

theorem fragments_cons (index : UInt8) {data : List UInt8} (h : data ≠ []) :
    fragments id isResponse count index data =
      { header := { id, isResponse := isResponse.toUInt8, index, count,
                    size := UInt8.ofNat (min data.length maxPacketDataLength) },
        bytes := data.take (min data.length maxPacketDataLength) } ::
          fragments id isResponse count (index + 1)
            (data.drop (min data.length maxPacketDataLength)) := by
  rw [fragments, dif_neg h]

theorem fragments_flatten (index : UInt8) (data : List UInt8) :
    ((fragments id isResponse count index data).map EspNowFragment.bytes).flatten = data := by
  fun_induction fragments id isResponse count index data with
  | case1 => rfl
  | case2 index data h size ih =>
      rw [List.map_cons, List.flatten_cons, ih, List.take_append_drop]

theorem fragments_length (index : UInt8) (data : List UInt8) :
    (fragments id isResponse count index data).length = partsOf data.length := by
  fun_induction fragments id isResponse count index data with
  | case1 => rfl
  | case2 index data h size ih =>
      have hpos := List.length_pos_of_ne_nil h
      have hsize : size = min data.length 245 := rfl
      rw [List.length_cons, ih, partsOf, partsOf, List.length_drop, maxPacketDataLength_eq]
      split <;> split <;> omega

theorem fragments_getElem? (index : UInt8) (data : List UInt8) (i : Nat)
    (fragment : EspNowFragment)
    (h : (fragments id isResponse count index data)[i]? = some fragment) :
    fragment.header = { id, isResponse := isResponse.toUInt8, index := index + UInt8.ofNat i,
                        count, size := UInt8.ofNat fragment.bytes.length } ∧
      0 < fragment.bytes.length ∧ fragment.bytes.length ≤ maxPacketDataLength := by
  fun_induction fragments id isResponse count index data generalizing i with
  | case1 => simp at h
  | case2 index data hne size ih =>
      cases i with
      | zero =>
          have hpos := List.length_pos_of_ne_nil hne
          cases h
          have hlen : (data.take size).length = size := by
            rw [List.length_take]
            omega
          simp only [hlen]
          refine ⟨by simp, ?_, Nat.min_le_right _ _⟩
          simp only [size, maxPacketDataLength_eq]
          omega
      | succ i =>
          obtain ⟨hheader, hlen⟩ := ih i (by simpa using h)
          refine ⟨?_, hlen⟩
          rw [hheader]
          congr 1
          rw [add_assoc]
          congr 1
          refine UInt8.toNat_inj.mp ?_
          rw [UInt8.toNat_add, UInt8.toNat_ofNat', UInt8.toNat_ofNat', UInt8.toNat_one]
          omega

theorem fragments_fullButLast (index : UInt8) (data : List UInt8) :
    FullButLast maxPacketDataLength
      ((fragments id isResponse count index data).map EspNowFragment.bytes) := by
  fun_induction fragments id isResponse count index data with
  | case1 =>
      intro i block hi
      simp at hi
  | case2 index data hne size ih =>
      intro i block hi hlt
      cases i with
      | zero =>
          cases hi
          have hsize : size = min data.length 245 := rfl
          have hpos := List.length_pos_of_ne_nil hne
          rw [List.map_cons, List.length_cons, List.length_map, fragments_length, partsOf,
            List.length_drop, maxPacketDataLength_eq] at hlt
          rw [List.length_take, maxPacketDataLength_eq]
          split at hlt <;> omega
      | succ i => exact ih i block (by simpa using hi) (by simpa using hlt)

end Fragments

/-- What `_send_impl` hands to the driver for a payload. -/
structure Emitted (id isResponse : UInt8) (payload : List UInt8)
    (parts : List EspNowFragment) : Prop where
  flatten : (parts.map EspNowFragment.bytes).flatten = payload
  length : parts.length = partsOf payload.length
  pos : 0 < parts.length
  le : parts.length ≤ 255
  header : ∀ (i : Nat) (part : EspNowFragment), parts[i]? = some part →
    part.header = { id, isResponse, index := UInt8.ofNat i, count := UInt8.ofNat parts.length,
                    size := UInt8.ofNat part.bytes.length } ∧
      0 < part.bytes.length ∧ part.bytes.length ≤ maxPacketDataLength
  full : FullButLast maxPacketDataLength (parts.map EspNowFragment.bytes)

theorem sendImpl_emitted {id : UInt8} {isResponse : Bool} {payload : List UInt8}
    {parts : List EspNowFragment} (h : sendImpl id isResponse payload = some parts) :
    Emitted id isResponse.toUInt8 payload parts := by
  rw [sendImpl] at h
  split at h
  · cases h
  · split at h
    · cases h
    · rename_i hne hle
      cases h
      rw [maxDataLength_eq] at hle
      have hlength := fragments_length id isResponse (totalPacketsCount payload.length) 0 payload
      have hparts : 0 < partsOf payload.length ∧ partsOf payload.length ≤ 255 := by
        rw [partsOf, maxPacketDataLength_eq]
        split <;> omega
      refine ⟨fragments_flatten .., hlength, hlength ▸ hparts.1, hlength ▸ hparts.2, ?_,
        fragments_fullButLast id isResponse _ 0 payload⟩
      intro i part hi
      obtain ⟨hheader, hbytes⟩ := fragments_getElem? _ _ _ _ _ i part hi
      refine ⟨?_, hbytes⟩
      rw [hheader, hlength, UInt8.zero_add]
      rfl

theorem sendImpl_isSome (id : UInt8) (isResponse : Bool) (payload : List UInt8)
    (hpos : 1 ≤ payload.length) (hle : payload.length ≤ maxDataLength) :
    ∃ parts, sendImpl id isResponse payload = some parts := by
  refine ⟨fragments id isResponse (totalPacketsCount payload.length) 0 payload, ?_⟩
  rw [sendImpl]
  rw [if_neg (by omega), if_neg (by omega)]

/-- A part of a message of `total` parts: in its slot, and no larger than one. -/
structure IsPart (total : Nat) (part : EspNowFragment) : Prop where
  count : part.header.count.toNat = total
  index : part.header.index.toNat < total
  bytes : part.bytes.length = part.header.size.toNat
  size : part.header.size.toNat ≤ maxPacketDataLength

theorem Emitted.isPart {id isResponse : UInt8} {payload : List UInt8}
    {parts : List EspNowFragment} (h : Emitted id isResponse payload parts) {i : Nat}
    {part : EspNowFragment} (hi : parts[i]? = some part) :
    IsPart parts.length part ∧ part.header.index.toNat = i := by
  obtain ⟨hheader, -, hle⟩ := h.header i part hi
  have hlt := (List.getElem?_eq_some_iff.mp hi).1
  have hparts := h.le
  have hindex : part.header.index.toNat = i := by
    rw [hheader, UInt8.toNat_ofNat']
    omega
  have hsize : part.header.size.toNat = part.bytes.length := by
    rw [maxPacketDataLength_eq] at hle
    rw [hheader, UInt8.toNat_ofNat']
    omega
  refine ⟨⟨?_, by omega, hsize.symm, by omega⟩, hindex⟩
  rw [hheader, UInt8.toNat_ofNat']
  omega

theorem IsPart.room {total : Nat} {part first : EspNowFragment} (h : IsPart total part)
    (hfirst : IsPart total first) (hne : total ≠ 1 ∨ first = part) :
    maxPacketDataLength * part.header.index.toNat + part.header.size.toNat ≤
      first.header.bufferLength := by
  have hindex := h.index
  have hsize := h.size
  have hcount := hfirst.count
  rw [EspNowInteractionPacketHeader.bufferLength]
  rw [maxPacketDataLength_eq] at hsize ⊢
  split
  · rename_i hone
    rw [hone, UInt8.toNat_one] at hcount
    subst hcount
    have hpart := hne.resolve_left (by simp)
    subst hpart
    omega
  · rw [hcount]
    have := Nat.mul_le_mul_right 245 (Nat.succ_le_of_lt hindex)
    omega

theorem EspNowFragment.arrive_data (part : EspNowFragment)
    (h : part.bytes.length ≤ maxPacketDataLength) (macAddr : Mac) :
    (part.arrive macAddr).data = part.packet := by
  refine List.take_of_length_le ?_
  rw [EspNowFragment.packet, List.length_append, espNowMaxDataLen]
  rw [maxPacketDataLength_eq] at h
  simp only [EspNowInteractionPacketHeader.bytes, List.length_cons, List.length_nil]
  omega

theorem sendImpl_one (id byte : UInt8) : sendImpl id false [byte] =
    some [{ header := { id, isResponse := 0, index := 0, count := 1, size := 1 },
            bytes := [byte] }] := by
  have hdrop : [byte].drop (min [byte].length maxPacketDataLength) = [] := rfl
  rw [sendImpl]
  rw [if_neg (by simp), if_neg (by simp [maxDataLength_eq]), fragments_cons _ _ _ _ (by simp),
    hdrop, fragments_nil]
  simp [totalPacketsCount, maxPacketDataLength_eq, Bool.toUInt8]

/-- 490 equal bytes: a message of two full parts. -/
def long (byte : UInt8) : List UInt8 := List.replicate 490 byte

def halfPart (id index byte : UInt8) : EspNowFragment where
  header := { id, isResponse := 0, index, count := 2, size := 245 }
  bytes := List.replicate 245 byte

theorem halfPart_length (id index byte : UInt8) :
    (halfPart id index byte).bytes.length = maxPacketDataLength :=
  List.length_replicate

theorem halfPart_isPart (id byte : UInt8) {index : UInt8} (h : index.toNat < 2) :
    IsPart 2 (halfPart id index byte) where
  count := rfl
  index := h
  bytes := by rw [halfPart, List.length_replicate]; rfl
  size := Nat.le_refl 245

theorem sendImpl_long (id byte : UInt8) :
    sendImpl id false (long byte) = some [halfPart id 0 byte, halfPart id 1 byte] := by
  have hne {n : Nat} (h : n ≠ 0) : List.replicate n byte ≠ [] := by
    simpa [List.replicate_eq_nil_iff] using h
  rw [sendImpl, long]
  rw [List.length_replicate, if_neg (by decide), if_neg (by decide),
    fragments_cons _ _ _ _ (hne (by decide)), List.length_replicate, List.drop_replicate,
    fragments_cons _ _ _ _ (hne (by decide)), List.length_replicate, List.drop_replicate,
    List.take_replicate, List.take_replicate]
  exact congrArg (fun l => some (_ :: _ :: l)) (fragments_nil ..)

/-! ## What an entry is -/

def EspNowFragment.place (part : EspNowFragment) : Nat × List (Option UInt8) :=
  (maxPacketDataLength * part.header.index.toNat, part.bytes.map some)

/-- The message made of the parts received, in the order they were: allocated for the header
of the first, each part counted, its size added and its bytes copied to their place. -/
structure Assembled (first : EspNowInteractionPacketHeader) (parts : List EspNowFragment)
    (message : EspNowMessage) : Prop where
  partsCount : message.partsCount = first.count
  receivedCount : message.receivedCount = UInt8.ofNat parts.length
  size : message.size = UInt16.ofNat (parts.map fun part => part.bytes.length).sum
  data : message.data = overlay (List.replicate first.bufferLength none)
    (parts.map EspNowFragment.place)
  bytes : ∀ part ∈ parts, part.bytes.length = part.header.size.toNat
  fits : ∀ part ∈ parts, Fits first.bufferLength part.place

/-- The entry of a key, in terms of the parts received since it was made. -/
def Holds : Option EspNowMessage → List EspNowFragment → Prop
  | none, parts => parts = []
  | some message, parts => ∃ first, parts.head? = some first ∧
      Assembled first.header parts message

def EspNowPacket.fragment (packet : EspNowPacket) (header : EspNowInteractionPacketHeader) :
    EspNowFragment where
  header
  bytes := (packet.data.drop packetHeaderLength).take header.size.toNat

theorem EspNowPacket.accepted_read {packet : EspNowPacket}
    {header : EspNowInteractionPacketHeader} (h : packet.accepted = some header) :
    EspNowInteractionPacketHeader.read packet.data = some header ∧ header.illFormed = false := by
  simpa [accepted, Option.filter_eq_some_iff] using h

theorem Assembled.new (packet : EspNowPacket) (header : EspNowInteractionPacketHeader) :
    Assembled header [] (packet.newMessage header) where
  partsCount := rfl
  receivedCount := rfl
  size := rfl
  data := rfl
  bytes := by simp
  fits := by simp

theorem Assembled.data_length {first : EspNowInteractionPacketHeader}
    {parts : List EspNowFragment} {message : EspNowMessage}
    (h : Assembled first parts message) : message.data.length = first.bufferLength := by
  rw [h.data, overlay_length, List.length_replicate]
  intro place hplace
  obtain ⟨part, hp, rfl⟩ := List.mem_map.mp hplace
  rw [List.length_replicate]
  exact h.fits part hp

theorem Assembled.add {first : EspNowInteractionPacketHeader} {parts : List EspNowFragment}
    {message message' : EspNowMessage} {packet : EspNowPacket}
    {header : EspNowInteractionPacketHeader} (h : Assembled first parts message)
    (hadd : packet.addTo header message = .ok message') :
    Assembled first (parts ++ [packet.fragment header]) message' := by
  obtain ⟨hin, rfl⟩ := EspNowPacket.addTo_ok hadd
  have hlen := h.data_length
  have hbytes : (packet.fragment header).bytes.length = header.size.toNat := by
    rw [CopyInside, List.length_map] at hin
    rw [EspNowPacket.fragment, List.length_take, List.length_drop]
    omega
  have hplace : (packet.fragment header).place = (maxPacketDataLength * header.index.toNat,
      ((packet.data.map some).drop packetHeaderLength).take header.size.toNat) := by
    simp [EspNowFragment.place, EspNowPacket.fragment]
  refine { partsCount := h.partsCount, receivedCount := ?_, size := ?_, data := ?_,
           bytes := ?_, fits := ?_ }
  · simp [h.receivedCount]
  · simp [h.size, hbytes]
  · rw [List.map_append, List.map_singleton, overlay_concat, hplace, ← h.data]
  · intro part hp
    rcases List.mem_append.mp hp with hp | hp
    · exact h.bytes part hp
    · rw [List.mem_singleton.mp hp]
      exact hbytes
  · intro part hp
    rcases List.mem_append.mp hp with hp | hp
    · exact h.fits part hp
    · rw [List.mem_singleton.mp hp, hplace, Fits, List.length_take, List.length_drop, ← hlen]
      rcases hin with h0 | ⟨hread, hwrite⟩
      · exact Or.inl (by rw [h0, List.take_zero])
      · exact Or.inr (by omega)

theorem sum_bytes_lt {parts : List EspNowFragment}
    (hbytes : ∀ part ∈ parts, part.bytes.length = part.header.size.toNat) :
    (parts.map fun part => part.bytes.length).sum ≤ 255 * parts.length := by
  induction parts with
  | nil => simp
  | cons part parts ih =>
      have hpart := hbytes part List.mem_cons_self
      have hlt := part.header.size.toNat_lt
      have hrest := ih fun part' hp => hbytes part' (List.mem_cons_of_mem _ hp)
      rw [List.map_cons, List.sum_cons, List.length_cons]
      omega

theorem Assembled.size_toNat {first : EspNowInteractionPacketHeader}
    {parts : List EspNowFragment} {message : EspNowMessage} (h : Assembled first parts message)
    (hle : parts.length ≤ 256) :
    message.size.toNat = (parts.map fun part => part.bytes.length).sum := by
  have hsum := sum_bytes_lt h.bytes
  rw [h.size, UInt16.toNat_ofNat']
  omega

/-- **All the parts make the whole.**  Where the parts are, in index order, the blocks of a
payload, the message is that payload, in whatever order they came. -/
theorem Assembled.whole {first : EspNowInteractionPacketHeader}
    {parts ordered : List EspNowFragment} {message : EspNowMessage}
    (h : Assembled first parts message) (hle : parts.length ≤ 256) (hperm : parts.Perm ordered)
    (hindex : ∀ (i : Nat) (part : EspNowFragment), ordered[i]? = some part →
      part.header.index.toNat = i)
    (hfull : FullButLast maxPacketDataLength (ordered.map EspNowFragment.bytes)) :
    message.size.toNat = (ordered.map EspNowFragment.bytes).flatten.length ∧
      message.data.take message.size.toNat =
        (ordered.map EspNowFragment.bytes).flatten.map some := by
  have hsize : message.size.toNat = (ordered.map EspNowFragment.bytes).flatten.length := by
    rw [h.size_toNat hle, (hperm.map _).sum_nat, List.length_flatten, List.map_map]
    rfl
  refine ⟨hsize, ?_⟩
  have hwhole : message.size.toNat =
      ((ordered.map EspNowFragment.bytes).flatten.map some).length := by
    rw [List.length_map, hsize]
  rw [hwhole, h.data]
  refine overlay_take ?_ ?_ ?_
  · intro place hplace
    obtain ⟨part, hp, rfl⟩ := List.mem_map.mp hplace
    rw [List.length_replicate]
    exact h.fits part hp
  · intro place hplace
    obtain ⟨part, hp, rfl⟩ := List.mem_map.mp hplace
    obtain ⟨i, hi⟩ := List.getElem?_of_mem (hperm.mem_iff.mp hp)
    have hseg := segment_flatten hfull
      (by simp [hi] : (ordered.map EspNowFragment.bytes)[i]? = some part.bytes)
    rw [← hindex i part hi] at hseg
    rw [← List.map_drop]
    exact hseg.map some
  · intro j hj
    rw [List.length_map] at hj
    obtain ⟨i, block, hi, hle, hlt⟩ := cover_flatten hfull hj
    obtain ⟨part, hpart, rfl⟩ : ∃ part, ordered[i]? = some part ∧ part.bytes = block := by
      simpa using hi
    have hmem : part ∈ parts := hperm.mem_iff.mpr (List.mem_of_getElem? hpart)
    refine ⟨part.place, List.mem_map_of_mem hmem, ?_⟩
    rw [EspNowFragment.place, List.length_map, hindex i part hpart]
    exact ⟨hle, hlt⟩

theorem EspNowFragment.arrive_read (part : EspNowFragment) (macAddr : Mac) :
    EspNowInteractionPacketHeader.read (part.arrive macAddr).data = some part.header := by
  have hdata : (part.arrive macAddr).data =
      part.header.bytes ++ part.bytes.take maxPacketDataLength := rfl
  rw [hdata, EspNowInteractionPacketHeader.read_bytes]

theorem IsPart.arrive {part : EspNowFragment} {total : Nat} (h : IsPart total part)
    (macAddr : Mac) :
    (part.arrive macAddr).accepted =
        (if part.header.illFormed then none else some part.header) ∧
      (part.arrive macAddr).fragment part.header = part := by
  have hdata := part.arrive_data (h.bytes ▸ h.size) macAddr
  constructor
  · rw [EspNowPacket.accepted, hdata, EspNowFragment.packet,
      EspNowInteractionPacketHeader.read_bytes, Option.filter_some]
    cases part.header.illFormed <;> rfl
  · have hdrop : part.packet.drop packetHeaderLength = part.bytes := rfl
    rw [EspNowPacket.fragment, hdata, hdrop, ← h.bytes, List.take_length]

/-! ## What one packet does to one key -/

section Received
variable {P : Type*} {s s' : AsyncEspNowInteraction P} {packet : EspNowPacket}
  {handed : Option (Handed P)} {key : EspNowMessageKey} {parts : List EspNowFragment}

/-- A packet that is accepted under the key: it is one more part of the entry, which is handed
on when all parts are counted. -/
theorem received_own {header : EspNowInteractionPacketHeader}
    (hs : s.onPacketReceived packet = .ok (handed, s')) (hparts : Holds (s.messages key) parts)
    (hacc : packet.accepted = some header) (hkey : packet.key header = key) :
    ∃ first message, (parts ++ [packet.fragment header]).head? = some first ∧
      Assembled first.header (parts ++ [packet.fragment header]) message ∧
      (message.receivedCount ≠ message.partsCount ∧ handed = none ∧
          s'.messages key = some message ∨
        message.receivedCount = message.partsCount ∧
          handed = some (s.handOn key message).1 ∧ s'.messages key = none) := by
  subst hkey
  rcases AsyncEspNowInteraction.received_cases hs with ⟨hnone, -⟩ |
    ⟨header', message, hsome, hadd, hcase⟩
  · rw [hnone] at hacc
    cases hacc
  · rw [hsome] at hacc
    cases hacc
    obtain ⟨first, hfirst, hassembled⟩ : ∃ first,
        (parts ++ [packet.fragment header]).head? = some first ∧
        Assembled first.header (parts ++ [packet.fragment header]) message := by
      rw [AsyncEspNowInteraction.entry] at hadd
      cases hentry : s.messages (packet.key header) with
      | none =>
          rw [hentry] at hadd hparts
          cases hparts
          exact ⟨_, rfl, (Assembled.new packet header).add hadd⟩
      | some stored =>
          rw [hentry] at hadd hparts
          obtain ⟨first, hfirst, hstored⟩ := hparts
          refine ⟨first, ?_, hstored.add hadd⟩
          rw [List.head?_append, hfirst]
          rfl
    refine ⟨first, message, hfirst, hassembled, ?_⟩
    rcases hcase with ⟨hne, hh, rfl⟩ | ⟨heq, hh, rfl⟩
    · exact Or.inl ⟨hne, hh, by simp [AsyncEspNowInteraction.setEntry]⟩
    · exact Or.inr ⟨heq, hh, by simp [AsyncEspNowInteraction.setEntry]⟩

theorem received_other (hs : s.onPacketReceived packet = .ok (handed, s'))
    (hother : ∀ header, packet.accepted = some header → packet.key header ≠ key) :
    s'.messages key = s.messages key ∧ ∀ h ∈ handed, h.key ≠ key := by
  rcases AsyncEspNowInteraction.received_cases hs with ⟨-, rfl, rfl⟩ |
    ⟨header, message, hsome, -, hcase⟩
  · exact ⟨rfl, by simp⟩
  · have hne := hother header hsome
    rcases hcase with ⟨-, rfl, rfl⟩ | ⟨-, rfl, rfl⟩
    · exact ⟨by simp [AsyncEspNowInteraction.setEntry, Ne.symm hne], by simp⟩
    · refine ⟨?_, ?_⟩
      · simp [AsyncEspNowInteraction.setEntry, Ne.symm hne,
          AsyncEspNowInteraction.handOn_messages]
      · intro h hh
        cases hh
        rw [(s.handOn_handed _ _).1]
        exact hne

/-- One more part of the message: it fits, and it completes the message when it is the last
one missing. -/
theorem received_part {total : Nat} {parts : List EspNowFragment}
    {header : EspNowInteractionPacketHeader} (hparts : Holds (s.messages key) parts)
    (hall : ∀ part ∈ parts ++ [packet.fragment header], IsPart total part)
    (hlt : parts.length < total) (hacc : packet.accepted = some header)
    (hkey : packet.key header = key) :
    ∃ handed s', s.onPacketReceived packet = .ok (handed, s') ∧
      (parts.length + 1 < total → handed = none ∧
        Holds (s'.messages key) (parts ++ [packet.fragment header])) ∧
      (parts.length + 1 = total → ∃ message first, handed = some (s.handOn key message).1 ∧
        Assembled first (parts ++ [packet.fragment header]) message ∧
          s'.messages key = none) := by
  have hpart : IsPart total (packet.fragment header) := hall _ (by simp)
  have hinside : s.CopiesInside packet := by
    intro header' hh
    rw [hacc] at hh
    cases hh
    have hbytes : min header.size.toNat (packet.data.length - packetHeaderLength) =
        header.size.toNat := by
      rw [← List.length_drop, ← List.length_take]
      exact hpart.bytes
    have hroom : maxPacketDataLength * header.index.toNat + header.size.toNat ≤
        (s.entry packet header).data.length := by
      rw [AsyncEspNowInteraction.entry]
      rw [hkey]
      cases hentry : s.messages key with
      | none =>
          rw [Option.getD_none, EspNowPacket.newMessage, List.length_replicate]
          exact hpart.room hpart (Or.inr rfl)
      | some stored =>
          rw [hentry] at hparts
          obtain ⟨first, hfirst, hstored⟩ := hparts
          rw [Option.getD_some, hstored.data_length]
          have hmem : first ∈ parts := List.mem_of_head? hfirst
          have hpos := List.length_pos_of_mem hmem
          exact hpart.room (hall first (by simp [hmem])) (Or.inl (by omega))
    by_cases hzero : header.size.toNat = 0
    · exact Or.inl hzero
    · exact Or.inr ⟨by rw [List.length_map]; omega, hroom⟩
  obtain ⟨⟨handed, s'⟩, hs⟩ := (AsyncEspNowInteraction.received_ok_iff s packet).mpr hinside
  obtain ⟨first, message, hfirst, hassembled, hcase⟩ := received_own hs hparts hacc hkey
  have hcount := (hall first (List.mem_of_head? hfirst)).count
  have htotal := first.header.count.toNat_lt
  -- the counter has not wrapped, so it is compared with the number of parts
  have hdone : message.receivedCount = message.partsCount ↔ parts.length + 1 = total := by
    rw [hassembled.receivedCount, hassembled.partsCount, ← UInt8.toNat_inj, UInt8.toNat_ofNat',
      hcount, List.length_append, List.length_singleton]
    omega
  refine ⟨handed, s', hs, ?_, ?_⟩
  · intro hmore
    rcases hcase with ⟨-, hh, hm⟩ | ⟨heq, -, -⟩
    · rw [hm]
      exact ⟨hh, first, hfirst, hassembled⟩
    · exact absurd (hdone.mp heq) (by omega)
  · intro hlast
    rcases hcase with ⟨hne, -, -⟩ | ⟨-, hh, hm⟩
    · exact absurd (hdone.mpr hlast) hne
    · exact ⟨message, first.header, hh, hassembled, hm⟩

theorem received_onMessageCb (hs : s.onPacketReceived packet = .ok (handed, s')) :
    s'.onMessageCb = s.onMessageCb := by
  rcases AsyncEspNowInteraction.received_cases hs with ⟨-, -, rfl⟩ | ⟨_, message, -, -, hcase⟩
  · rfl
  · rcases hcase with ⟨-, -, rfl⟩ | ⟨-, -, rfl⟩
    · rfl
    · exact (s.handOn_takers _ message).1

theorem received_requests (hs : s.onPacketReceived packet = .ok (handed, s')) {id : UInt8}
    {promise : P} (h : s'.requests id = some promise) : s.requests id = some promise := by
  rcases AsyncEspNowInteraction.received_cases hs with ⟨-, -, rfl⟩ |
    ⟨header, message, -, -, hcase⟩
  · exact h
  · rcases hcase with ⟨-, -, rfl⟩ | ⟨-, -, rfl⟩
    · exact h
    · have hrequests := (s.handOn_takers (packet.key header) message).2
      rw [AsyncEspNowInteraction.setEntry, hrequests] at h
      split at h
      · rw [Function.update_apply] at h
        split at h
        · cases h
        · exact h
      · exact h

theorem received_awaiting (hs : s.onPacketReceived packet = .ok (handed, s'))
    {recipient : Recipient P} (h : s'.awaiting key = some recipient) :
    s.awaiting key = some recipient := by
  rw [AsyncEspNowInteraction.awaiting] at h ⊢
  split at h
  · next hresponse =>
      obtain ⟨promise, hrequest, rfl⟩ := Option.map_eq_some_iff.mp h
      rw [if_pos hresponse, received_requests hs hrequest]
      rfl
  · next hresponse =>
      rw [if_neg hresponse, ← received_onMessageCb hs]
      exact h

end Received

end EspIot
