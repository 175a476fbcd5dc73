/-
# `EspIot.Network.NowIo` — lists of items in a packet

`NowIo::send` and `NowIo::request` put two bytes of header, a type and a count, in
front of the items and give the packet to the interaction layer; `NowPacket::parse`
takes it apart on the other side.  On the way there

    items.size()               to a uint8_t, the count
    sizeof(T) * items.size()   to a uint16_t, the size
    2 + size                   to a uint16_t, what the layer is given

and the items are copied only if the count is not zero by then.  Nothing checks
that the numbers fit, and `transfers_iff` says that all three have to.

The layer is open: it errors, or it delivers what it was given.  A byte that has
not been written is `none`, as in `Network.Interactions`.
-/
import EspIot.Network.Interactions

namespace EspIot

open Lib

/-! ## The packet -/

/-- `sizeof(NowPacketHeader)`, a type and a count -/
def nowPacketHeaderLength : ℕ := 2

/-- `NowPacket`; the pointer `data` is `offset` bytes into the message, here with what the message
holds from there on. -/
structure NowPacket where
  id : UInt8
  macAddr : Mac
  type : UInt8
  count : UInt8
  offset : ℕ
  data : List (Option UInt8)
  size : UInt16
deriving DecidableEq

namespace NowPacket

/-- `NowPacket::parse`; `byte` reads a byte of the message. -/
def parseBy {m : Type → Type} [Monad m] (byte : ℕ → m UInt8) (message : EspNowMessage) :
    m NowPacket := do
  let type ← byte 0
  let count ← byte 1
  return {
    id := message.id
    type
    count
    macAddr := message.macAddr
    offset := nowPacketHeaderLength
    data := message.data.drop nowPacketHeaderLength
    size := message.size - UInt16.ofNat nowPacketHeaderLength }

/-- The packet that a message is parsed to; `none` where nobody has written the header. -/
def parse (message : EspNowMessage) : Option NowPacket :=
  parseBy (fun i => message.data[i]?.join) message

theorem parse_cons {message : EspNowMessage} {type count : UInt8} {data : List (Option UInt8)}
    (h : message.data = some type :: some count :: data) :
    parse message = some {
      id := message.id, macAddr := message.macAddr, type, count, offset := nowPacketHeaderLength,
      data, size := message.size - UInt16.ofNat nowPacketHeaderLength } := by
  rw [parse, parseBy, h]
  rfl

theorem parse_size {message : EspNowMessage} {packet : NowPacket}
    (h : parse message = some packet) :
    packet.size = message.size - UInt16.ofNat nowPacketHeaderLength := by
  obtain ⟨type, -, hrest⟩ := Option.bind_eq_some_iff.mp h
  obtain ⟨count, -, hpacket⟩ := Option.bind_eq_some_iff.mp hrest
  cases hpacket
  rfl

end NowPacket

/-! ## Sending -/

/-- Which function of the interaction layer is called. -/
inductive NowCall
  | send
  | request
deriving DecidableEq

/-- The interaction layer, as far as the packets go: `none` is an errored future, and otherwise
exactly the bytes and the size that were given are delivered.  What the buffer of the message has
behind them is unwritten. -/
structure InteractionLayer where
  deliver : NowCall → Mac → List (Option UInt8) → UInt16 → Option EspNowMessage
  exact : ∀ call mac data size message, deliver call mac data size = some message →
    message.size = size ∧
      ∃ rest, message.data = data.take size.toNat ++ List.replicate rest none

namespace NowIo

/-- `_fill_packet_data`; no data is the null pointer. -/
def fillPacketData (packet : List (Option UInt8)) (type count : UInt8)
    (data : Option (List UInt8)) (size : UInt16) : Except MemFault (List (Option UInt8)) :=
  let packet := writeAt packet 0 [some type, some count]
  match data with
  | some bytes =>
      if count ≠ 0 then memcpy packet nowPacketHeaderLength (bytes.map some) 0 size.toNat
      else .ok packet
  | none => .ok packet

/-- The body that `send` and `request` share, up to the layer. -/
def transmit (layer : InteractionLayer) (call : NowCall) (mac : Mac) (type count : UInt8)
    (data : Option (List UInt8)) (size : UInt16) : Except MemFault (Option EspNowMessage) := do
  let packet ← fillPacketData (List.replicate (nowPacketHeaderLength + size.toNat) none)
    type count data size
  return layer.deliver call mac packet (UInt16.ofNat packet.length)

def send (layer : InteractionLayer) := transmit layer .send

/-- `request`, up to the delivery of the packet -/
def request (layer : InteractionLayer) := transmit layer .request

end NowIo

/-- A vector or an array of items of `size` bytes each.  `data()` of an empty vector may be
null. -/
structure NowItems (size : ℕ) where
  items : List (Vector UInt8 size)
  null : Bool
  null_empty : null = true → items = []

namespace NowItems

variable {size : ℕ} (items : NowItems size)

/-- The bytes of the items, one item after the other. -/
def bytes : List UInt8 := (items.items.map Vector.toList).flatten

def data : Option (List UInt8) := if items.null then none else some items.bytes

/-- `items.size()` as a `uint8_t` -/
def count : UInt8 := UInt8.ofNat items.items.length

/-- `sizeof(T) * items.size()` as a `uint16_t` -/
def byteSize : UInt16 := UInt16.ofNat (size * items.items.length)

theorem bytes_length : items.bytes.length = size * items.items.length := by
  rw [bytes, List.length_flatten, List.map_map]
  have hsize : (List.length ∘ Vector.toList : Vector UInt8 size → ℕ) = fun _ => size :=
    funext fun _ => Vector.length_toList
  rw [hsize, List.map_const', List.sum_replicate_nat, Nat.mul_comm]

end NowItems

namespace NowIo

variable {size : ℕ}

/-- The `send` templates of lists -/
def sendItems (layer : InteractionLayer) (mac : Mac) (type : UInt8) (items : NowItems size) :
    Except MemFault (Option EspNowMessage) :=
  send layer mac type items.count items.data items.byteSize

/-- The `request` templates of lists -/
def requestItems (layer : InteractionLayer) (mac : Mac) (type : UInt8) (items : NowItems size) :
    Except MemFault (Option EspNowMessage) :=
  request layer mac type items.count items.data items.byteSize

/-! ## What arrives -/

/-- The future is errored and nothing is delivered, or what is parsed on the other side is the
type, the number of the items, and their bytes. -/
def Transfers (type : UInt8) (items : NowItems size) :
    Except MemFault (Option EspNowMessage) → Prop
  | .error _ => False
  | .ok none => True
  | .ok (some message) => ∃ packet, NowPacket.parse message = some packet ∧
      packet.type = type ∧ packet.count.toNat = items.items.length ∧
      packet.size.toNat = items.bytes.length ∧
      packet.data.take packet.size.toNat = items.bytes.map some

/-- The packet of a list: the header, then as many bytes as the size says, which are those of the
items unless the count has become zero. -/
theorem fillPacketData_items (type : UInt8) (items : NowItems size) :
    ∃ body : List (Option UInt8),
      fillPacketData (List.replicate (nowPacketHeaderLength + items.byteSize.toNat) none) type
        items.count items.data items.byteSize = .ok (some type :: some items.count :: body) ∧
      body.length = items.byteSize.toNat ∧
      (items.count ≠ 0 → body = (items.bytes.take items.byteSize.toNat).map some) := by
  have hheader : writeAt (List.replicate (nowPacketHeaderLength + items.byteSize.toNat) none) 0
      [some type, some items.count] =
        some type :: some items.count :: List.replicate items.byteSize.toNat none := by
    rw [writeAt_zero, List.drop_replicate]
    show _ :: _ :: List.replicate (2 + items.byteSize.toNat - 2) none = _
    rw [Nat.add_sub_cancel_left]
  have hle : items.byteSize.toNat ≤ items.bytes.length := by
    rw [NowItems.byteSize, UInt16.toNat_ofNat', items.bytes_length]
    exact Nat.mod_le ..
  simp only [fillPacketData, hheader]
  by_cases hcount : items.count = 0
  · refine ⟨List.replicate items.byteSize.toNat none, ?_, List.length_replicate,
      fun h => absurd hcount h⟩
    cases items.data with
    | none => rfl
    | some bytes => exact if_neg (not_not.mpr hcount)
  · -- a list with a count is not empty, and its data is not null
    have hnull : items.null = false := by
      by_contra hnull
      have hnil := items.null_empty (by simpa using hnull)
      rw [NowItems.count, hnil] at hcount
      exact hcount rfl
    have hcopy : memcpy (some type :: some items.count ::
        List.replicate items.byteSize.toNat none) nowPacketHeaderLength (items.bytes.map some) 0
          items.byteSize.toNat = .ok (some type :: some items.count ::
            (items.bytes.take items.byteSize.toNat).map some) := by
      refine memcpy_ok_iff.mpr ⟨.inr ⟨?_, ?_⟩, ?_⟩
      · rwa [List.length_map, Nat.zero_add]
      · rw [List.length_cons, List.length_cons, List.length_replicate, nowPacketHeaderLength]
        omega
      · rw [List.drop_zero, ← List.map_take]
        show _ = [some type, some items.count] ++ _ ++ _
        rw [List.drop_of_length_le]
        · rw [List.append_nil]
          rfl
        · rw [List.length_cons, List.length_cons, List.length_replicate, List.length_map,
            List.length_take, nowPacketHeaderLength]
          omega
    refine ⟨(items.bytes.take items.byteSize.toNat).map some, ?_, ?_, fun _ => rfl⟩
    · rw [NowItems.data, hnull]
      exact (if_pos hcount).trans hcopy
    · rw [List.length_map, List.length_take]
      omega

theorem parse_whole {message : EspNowMessage} {type count : UInt8} {body : List (Option UInt8)}
    {rest : ℕ} (hfits : body.length < 65534)
    (hsize : message.size = UInt16.ofNat (some type :: some count :: body).length)
    (hdata : message.data = (some type :: some count :: body).take message.size.toNat ++
      List.replicate rest none) :
    ∃ packet, NowPacket.parse message = some packet ∧ packet.type = type ∧
      packet.count = count ∧ packet.size.toNat = body.length ∧
      packet.data = body ++ List.replicate rest none := by
  have hlen : (some type :: some count :: body).length = body.length + 2 := rfl
  have hnat : message.size.toNat = body.length + 2 := by
    rw [hsize, hlen, UInt16.toNat_ofNat']
    omega
  rw [List.take_of_length_le (by omega)] at hdata
  refine ⟨_, NowPacket.parse_cons hdata, rfl, rfl, ?_, rfl⟩
  show (message.size - 2).toNat = _
  rw [UInt16.toNat_sub, hnat, show (2 : UInt16).toNat = 2 from rfl]
  omega

theorem parse_wrapped {message : EspNowMessage} {type count : UInt8} {body : List (Option UInt8)}
    {rest : ℕ} (hover : 65534 ≤ body.length) (hbody : body.length < 65536)
    (hsize : message.size = UInt16.ofNat (some type :: some count :: body).length)
    (hdata : message.data = (some type :: some count :: body).take message.size.toNat ++
      List.replicate rest none) :
    NowPacket.parse message = none := by
  have hlen : (some type :: some count :: body).length = body.length + 2 := rfl
  have hnat : message.size.toNat = body.length + 2 - 65536 := by
    rw [hsize, hlen, UInt16.toNat_ofNat']
    omega
  rw [NowPacket.parse, NowPacket.parseBy, hdata, hnat]
  rcases Nat.lt_or_ge body.length 65535 with hlast | hlast
  · -- no byte has arrived
    rw [show body.length + 2 - 65536 = 0 by omega]
    cases rest <;> rfl
  · -- the type has, the count has not
    rw [show body.length + 2 - 65536 = 1 by omega]
    cases rest <;> rfl

/-- The layer answers with an errored future. -/
def Refused (layer : InteractionLayer) (call : NowCall) (mac : Mac) (type : UInt8)
    (items : NowItems size) : Prop :=
  transmit layer call mac type items.count items.data items.byteSize = .ok none

/-- The numbers fit where they go: the count its byte, and the packet the size. -/
def Fits (items : NowItems size) : Prop :=
  items.items.length < 256 ∧ items.bytes.length < 65534

theorem Fits.count {items : NowItems size} (h : Fits items) :
    items.count.toNat = items.items.length := by
  rw [NowItems.count, UInt8.toNat_ofNat']
  exact Nat.mod_eq_of_lt h.1

theorem Fits.byteSize {items : NowItems size} (h : Fits items) :
    items.byteSize.toNat = items.bytes.length := by
  have hlt := h.2
  rw [NowItems.byteSize, UInt16.toNat_ofNat', ← items.bytes_length]
  omega

theorem transfers_delivered_iff {layer : InteractionLayer} {call : NowCall} {mac : Mac}
    {type : UInt8} {items : NowItems size} (h : ¬ Refused layer call mac type items) :
    Transfers type items
        (transmit layer call mac type items.count items.data items.byteSize) ↔ Fits items := by
  obtain ⟨body, hfill, hbody, hcopied⟩ := fillPacketData_items type items
  rw [Refused] at h
  simp only [transmit, hfill, bind, Except.bind, pure, Except.pure] at h ⊢
  cases hdeliver : layer.deliver call mac (some type :: some items.count :: body)
      (UInt16.ofNat (some type :: some items.count :: body).length) with
  | none => exact absurd (congrArg Except.ok hdeliver) h
  | some message =>
      obtain ⟨hsize, rest, hdata⟩ := layer.exact _ _ _ _ _ hdeliver
      rw [← hsize] at hdata
      constructor
      · rintro ⟨packet, hparse, -, hcount, hbytes, -⟩
        have hsmall : body.length < 65534 := by
          by_contra hover
          have hlt := items.byteSize.toNat_lt
          rw [parse_wrapped (Nat.le_of_not_lt hover) (by omega) hsize hdata] at hparse
          cases hparse
        obtain ⟨p, hp, -, hc, hs, -⟩ := parse_whole hsmall hsize hdata
        cases hp.symm.trans hparse
        refine ⟨?_, ?_⟩
        · rw [← hcount]
          exact packet.count.toNat_lt
        · rw [← hbytes, hs]
          exact hsmall
      · intro hfits
        rw [hfits.byteSize] at hbody
        obtain ⟨packet, hparse, htype, hcount, hs, hd⟩ :=
          parse_whole (hbody ▸ hfits.2) hsize hdata
        refine ⟨packet, hparse, htype, ?_, hs.trans hbody, ?_⟩
        · rw [hcount, hfits.count]
        · rw [hs, hd, List.take_left]
          by_cases hzero : items.count = 0
          · -- nothing is copied, and there is nothing to copy
            have hempty : items.items = [] := by
              have hlen := hfits.count
              rw [hzero] at hlen
              exact List.length_eq_zero_iff.mp hlen.symm
            have hnone : items.bytes = [] := by
              rw [NowItems.bytes, hempty]
              rfl
            rw [hnone] at hbody ⊢
            exact List.length_eq_zero_iff.mp hbody
          · rw [hcopied hzero, hfits.byteSize, List.take_length]

/-- **A list is transferred, by `send` and by `request`, exactly when the layer refuses the packet
or there are less than 256 items of less than 65534 bytes together.** -/
theorem transfers_iff (layer : InteractionLayer) (mac : Mac) (type : UInt8)
    (items : NowItems size) :
    (Transfers type items (sendItems layer mac type items) ↔
      Refused layer .send mac type items ∨ Fits items) ∧
    (Transfers type items (requestItems layer mac type items) ↔
      Refused layer .request mac type items ∨ Fits items) := by
  have hcall : ∀ call, Transfers type items
      (transmit layer call mac type items.count items.data items.byteSize) ↔
        Refused layer call mac type items ∨ Fits items := by
    intro call
    by_cases h : Refused layer call mac type items
    · refine iff_of_true ?_ (.inl h)
      rw [h]
      trivial
    · rw [transfers_delivered_iff h, or_iff_right h]
  exact ⟨hcall .send, hcall .request⟩

/-- The layer that delivers every packet. -/
def lossless : InteractionLayer where
  deliver _ mac data size :=
    some { id := 0, macAddr := mac, receivedCount := 1, partsCount := 1, size,
           data := data.take size.toNat }
  exact _ _ _ _ _ h := by
    cases h
    exact ⟨rfl, 0, (List.append_nil _).symm⟩

theorem lossless_sendItems {items : NowItems size} (h : ¬ Fits items) (mac : Mac) (type : UInt8) :
    ¬ Transfers type items (sendItems lossless mac type items) := by
  have hdelivered : ¬ Refused lossless .send mac type items := by
    intro hrefused
    obtain ⟨body, hfill, -⟩ := fillPacketData_items type items
    rw [Refused, transmit, hfill] at hrefused
    cases hrefused
  exact fun htransfers => h ((transfers_delivered_iff hdelivered).mp htransfers)

/-- An array of items of one byte, all the same. -/
def sameBytes (byte : UInt8) (n : ℕ) : NowItems 1 where
  items := List.replicate n #v[byte]
  null := false
  null_empty h := by cases h

/-- 256 items of a byte: the packet says that there are none, and they have not been copied. -/
theorem count_wraps :
    ¬ Transfers 3 (sameBytes 7 256)
      (sendItems lossless #v[1, 2, 3, 4, 5, 6] 3 (sameBytes 7 256)) := by
  refine lossless_sendItems ?_ _ 3
  intro hfits
  have hlen : (sameBytes 7 256).items.length = 256 := List.length_replicate
  have hlt := hfits.1
  rw [hlen] at hlt
  exact Nat.lt_irrefl 256 hlt

end NowIo

end EspIot
