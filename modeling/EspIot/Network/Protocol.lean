/-
# `EspIot.Network.Protocol` — the packet format of network/protocol

`PacketHeader` is the packed struct of type.h with a one-byte `PacketEnumT`, so
seven bytes; the fields of two bytes are little-endian, as on both ESP
platforms.  `parsePacket` is `BinaryProtocol::parse_packet`, whose `length` is a
`uint8_t`, and `WellFormed` is the grammar it is meant to accept.  For packets
of fewer than 256 bytes the two agree (`parsePacket_ok_iff`).
-/
import EspIot.Lib.Bytes

namespace EspIot

open Lib

inductive ResponseCode
  | ok
  | badRequest
  | badCommand
  | tooManyRequest
  | packetLengthExceeded
  | internalError
deriving DecidableEq, Repr

def ResponseCode.codeString : ResponseCode → String
  | .ok => "OK"
  | .badRequest => "BAD REQUEST"
  | .badCommand => "BAD COMMAND"
  | .tooManyRequest => "TOO MANY REQUESTS"
  | .packetLengthExceeded => "PACKET LENGTH EXCEEDED"
  | .internalError => "INTERNAL ERROR"

/-- `Response`, its union split by `ResponseType`. -/
inductive Response
  | code (code : ResponseCode)
  | string (str : List UInt8)
  | binary (buffer : List UInt8)
deriving DecidableEq, Repr

def packetSignature : UInt16 := 0xDABA

/-- `sizeof(PacketHeader<PacketEnumT>)` for a one-byte enumeration -/
def packetHeaderSize : Nat := 7

@[ext] structure PacketHeader where
  signature : UInt16
  requestId : UInt16
  type : UInt8
  size : UInt16
deriving DecidableEq, Repr

def PacketHeader.bytes (h : PacketHeader) : List UInt8 :=
  le16 h.signature ++ le16 h.requestId ++ [h.type] ++ le16 h.size

/-- The header a pointer to `buffer` reads. -/
def PacketHeader.read (buffer : List UInt8) : PacketHeader where
  signature := ofLe16 (buffer.getD 0 0) (buffer.getD 1 0)
  requestId := ofLe16 (buffer.getD 2 0) (buffer.getD 3 0)
  type := buffer.getD 4 0
  size := ofLe16 (buffer.getD 5 0) (buffer.getD 6 0)

/-- `Packet`: the header and the pointer behind it, here the memory it points to. -/
structure Packet where
  header : PacketHeader
  data : List UInt8
deriving DecidableEq, Repr

/-- The bytes a handler may read: `header->size` of them. -/
def Packet.body (p : Packet) : List UInt8 := p.data.take p.header.size.toNat

inductive PacketParsingResponse
  | ok (packet : Packet) (requestId : UInt16)
  | fail (response : Response) (requestId : UInt16)
deriving DecidableEq, Repr

namespace PacketParsingResponse

def success : PacketParsingResponse → Bool
  | ok _ _ => true
  | fail _ _ => false

def requestId : PacketParsingResponse → UInt16
  | ok _ r => r
  | fail _ r => r

end PacketParsingResponse

def parsePacket (buffer : List UInt8) (length : UInt8) : PacketParsingResponse :=
  if length.toNat < packetHeaderSize then .fail (.code .packetLengthExceeded) 0
  else
    let packet := PacketHeader.read buffer
    if packet.signature ≠ packetSignature then .fail (.code .badRequest) packet.requestId
    else if packetHeaderSize + packet.size.toNat ≠ length.toNat then
      .fail (.code .badRequest) packet.requestId
    else .ok { header := packet, data := buffer.drop packetHeaderSize } packet.requestId

/-! ## The grammar -/

/-- `b` is the packet of a header and a body: the layout, the signature, and a body of
exactly `size` bytes. -/
def IsPacket (b : List UInt8) (h : PacketHeader) (body : List UInt8) : Prop :=
  h.signature = packetSignature ∧ body.length = h.size.toNat ∧ b = h.bytes ++ body

def WellFormed (b : List UInt8) : Prop := ∃ h body, IsPacket b h body

@[simp] theorem PacketHeader.bytes_length (h : PacketHeader) :
    h.bytes.length = packetHeaderSize := rfl

theorem PacketHeader.read_bytes (h : PacketHeader) (rest : List UInt8) :
    PacketHeader.read (h.bytes ++ rest) = h :=
  PacketHeader.ext (ofLe16_le16 h.signature) (ofLe16_le16 h.requestId) rfl (ofLe16_le16 h.size)

theorem PacketHeader.bytes_read : ∀ (b : List UInt8), packetHeaderSize ≤ b.length →
    (PacketHeader.read b).bytes = b.take packetHeaderSize
  | s₀ :: s₁ :: r₀ :: r₁ :: t :: n₀ :: n₁ :: rest, _ => by
      simp [PacketHeader.read, PacketHeader.bytes, le16_ofLe16, packetHeaderSize]
  | [], h | [_], h | [_, _], h | [_, _, _], h | [_, _, _, _], h | [_, _, _, _, _], h
  | [_, _, _, _, _, _], h => absurd h (by simp [packetHeaderSize])

theorem PacketHeader.read_append (b rest : List UInt8) (h : packetHeaderSize ≤ b.length) :
    PacketHeader.read (b ++ rest) = PacketHeader.read b := by
  have hb : (PacketHeader.read b).bytes ++ b.drop packetHeaderSize = b := by
    rw [PacketHeader.bytes_read b h, List.take_append_drop]
  calc PacketHeader.read (b ++ rest)
      = PacketHeader.read ((PacketHeader.read b).bytes ++ (b.drop packetHeaderSize ++ rest)) := by
        rw [← List.append_assoc, hb]
    _ = PacketHeader.read b := PacketHeader.read_bytes _ _

theorem isPacket_iff {b : List UInt8} {h : PacketHeader} {body : List UInt8} :
    IsPacket b h body ↔ packetHeaderSize ≤ b.length ∧ h = PacketHeader.read b ∧
      body = b.drop packetHeaderSize ∧ h.signature = packetSignature ∧
      packetHeaderSize + h.size.toNat = b.length := by
  constructor
  · rintro ⟨hsig, hlen, rfl⟩
    refine ⟨by simp, (PacketHeader.read_bytes h body).symm, ?_, hsig, ?_⟩
    · rw [List.drop_append_of_le_length (by simp), List.drop_of_length_le (by simp),
        List.nil_append]
    · simp [hlen]
  · rintro ⟨hle, rfl, rfl, hsig, hlen⟩
    refine ⟨hsig, ?_, ?_⟩
    · rw [List.length_drop]
      omega
    · rw [PacketHeader.bytes_read b hle, List.take_append_drop]

/-- **Below 256 bytes the parser accepts exactly the grammar**, whatever memory follows the
packet, and what it returns is the packet. -/
theorem parsePacket_ok_iff {b rest : List UInt8} (hb : b.length < 256) (packet : Packet)
    (requestId : UInt16) :
    parsePacket (b ++ rest) (UInt8.ofNat b.length) = .ok packet requestId ↔
      IsPacket b packet.header (b.drop packetHeaderSize) ∧ requestId = packet.header.requestId ∧
        packet.data = b.drop packetHeaderSize ++ rest := by
  have hlen : (UInt8.ofNat b.length).toNat = b.length := by
    rw [UInt8.toNat_ofNat']
    omega
  rw [isPacket_iff]
  rw [parsePacket]
  dsimp only
  rw [hlen]
  rcases Nat.lt_or_ge b.length packetHeaderSize with hlt | hle
  · rw [if_pos hlt]
    constructor
    · intro h; cases h
    · rintro ⟨⟨hge, -⟩, -⟩
      omega
  · rw [if_neg (by omega), PacketHeader.read_append b rest hle,
      List.drop_append_of_le_length hle]
    constructor
    · intro h
      split at h
      · cases h
      · rename_i hsig
        split at h
        · cases h
        · rename_i hsize
          cases h
          exact ⟨⟨hle, rfl, rfl, not_not.mp hsig, not_not.mp hsize⟩, rfl, rfl⟩
    · rintro ⟨⟨-, hh, -, hsig, hsize⟩, rfl, hdata⟩
      rw [hh] at hsig hsize
      rw [if_neg (not_not.mpr hsig), if_neg (not_not.mpr hsize)]
      cases packet
      simp_all

/-- What the parser does with a length that does not fit its `uint8_t` parameter: a packet of
256 to 262 bytes is taken for one shorter than a header. -/
theorem parsePacket_wrapped (buffer : List UInt8) {n : Nat} (hlo : 256 ≤ n)
    (hhi : n < 256 + packetHeaderSize) :
    parsePacket buffer (UInt8.ofNat n) = .fail (.code .packetLengthExceeded) 0 := by
  have hlen : (UInt8.ofNat n).toNat < packetHeaderSize := by
    rw [UInt8.toNat_ofNat']
    unfold packetHeaderSize at *
    omega
  rw [parsePacket]
  rw [if_pos hlen]

end EspIot
