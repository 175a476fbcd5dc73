/-
# `EspIot.Network.Ws` — the request path of the WebSocket server

`on_event` copies each data frame into a slot of the request queue, and
`handle_connection` takes one request a call, parses it and answers.  The length
of the frame is a `size_t` in the socket, a `size_t` in the slot, and a
`uint8_t` in the parameter of `parse_packet`, while a slot holds up to
`WS_MAX_PACKET_SIZE` = 260 bytes.

The registered commands, data requests and parameters stay behind
`handlePacketData`, a parameter of this module: nothing before the parser reads
them.  The two lists `queued` and `taken` are the history of the server, the
frames it accepted and what the parser made of each request it took.
-/
import EspIot.Lib.Run
import EspIot.Misc.CircularBuffer
import EspIot.Network.Protocol
import Mathlib.Data.List.Forall2

namespace EspIot

open Lib

def wsMaxPacketSize : Nat := 260

def wsMaxPacketBodySize : Nat := 4096

def wsMaxPacketQueue : Nat := 10

instance : NeZero wsMaxPacketQueue := ⟨by decide⟩

/-- `WebSocketRequest`: the slot's array keeps its length, and behind the `size` bytes of a
request it keeps what an earlier request left there. -/
structure WebSocketRequest where
  clientId : UInt32
  size : Nat
  data : List UInt8
  data_length : data.length = wsMaxPacketSize

/-- A slot as `CircularBuffer` initialises it. -/
def WebSocketRequest.init : WebSocketRequest :=
  ⟨0, 0, List.replicate wsMaxPacketSize 0, List.length_replicate⟩

/-- `on_event` fills the slot it has acquired. -/
def WebSocketRequest.store (r : WebSocketRequest) (client : UInt32) (bytes : List UInt8)
    (h : bytes.length ≤ wsMaxPacketSize) : WebSocketRequest where
  clientId := client
  size := bytes.length
  data := writeAt r.data 0 bytes
  data_length := by
    rw [writeAt_length (by rw [r.data_length]; omega), r.data_length]

def ascii (s : String) : List UInt8 := s.toList.map fun c => UInt8.ofNat c.toNat

/-- The type and the data of a response frame, from the switch of `send_response`. -/
def Response.payload : Response → UInt8 × List UInt8
  | .code c => (0xf0, ascii c.codeString)
  | .string str => (0xf0, str)
  | .binary buffer =>
      if buffer.length > wsMaxPacketBodySize then
        (0xf0, ascii ResponseCode.internalError.codeString)
      else (0xf1, buffer)

/-- The frame `send_response` sends; the `uint16_t` size decides how much data goes out. -/
def Response.frame (requestId : UInt16) (r : Response) : List UInt8 :=
  let header : PacketHeader :=
    { signature := packetSignature, requestId, type := r.payload.1,
      size := UInt16.ofNat r.payload.2.length }
  header.bytes ++ r.payload.2.take header.size.toNat

/-- `WebSocketServer`: the queue, the connected clients, the frames sent so far, the state `app`
behind the handlers, and the history. -/
structure WebSocketServer (σ : Type*) where
  requestQueue : CircularBuffer WebSocketRequest wsMaxPacketQueue
  clientCount : UInt32
  sent : List (UInt32 × List UInt8)
  app : σ
  queued : List (UInt32 × List UInt8)
  taken : List (UInt32 × PacketParsingResponse)

inductive WsEvent
  | connect
  | disconnect
  | data (client : UInt32) (bytes : List UInt8)
  | handleConnection
deriving DecidableEq

namespace WebSocketServer

variable {σ : Type*}

def init (app : σ) : WebSocketServer σ where
  requestQueue := CircularBuffer.init WebSocketRequest.init
  clientCount := 0
  sent := []
  app := app
  queued := []
  taken := []

def sendResponse (s : WebSocketServer σ) (client : UInt32) (requestId : UInt16) (r : Response) :
    WebSocketServer σ :=
  { s with sent := s.sent ++ [(client, r.frame requestId)] }

/-- `on_event` with `WS_EVT_DATA` -/
def onData (s : WebSocketServer σ) (client : UInt32) (bytes : List UInt8) : WebSocketServer σ :=
  if bytes.length = 0 then s.sendResponse client 0xFFFF (.code .packetLengthExceeded)
  else if h : bytes.length > wsMaxPacketSize then
    s.sendResponse client 0xFFFF (.code .packetLengthExceeded)
  else
    match s.requestQueue.acquire with
    | none => s.sendResponse client 0xFFFF (.code .tooManyRequest)
    | some (slot, queue) =>
        { s with
            requestQueue :=
              queue.fill slot ((queue.read slot).store client bytes (Nat.le_of_not_gt h))
            queued := s.queued ++ [(client, bytes)] }

section
variable (handlePacketData : UInt32 → Packet → σ → Response × σ)

/-- `handle_connection`: at most one request a call.  `request.size` is converted to the
`uint8_t` parameter of `parse_packet`. -/
def handleConnection (s : WebSocketServer σ) : WebSocketServer σ :=
  match s.requestQueue.pop with
  | none => s
  | some (slot, queue) =>
      let request := queue.read slot
      let parsingResponse := parsePacket request.data (UInt8.ofNat request.size)
      let s := { s with
        requestQueue := queue
        taken := s.taken ++ [(request.clientId, parsingResponse)] }
      match parsingResponse with
      | .ok packet requestId =>
          let (response, app) := handlePacketData request.clientId packet s.app
          { s with app }.sendResponse request.clientId requestId response
      | .fail response requestId => s.sendResponse request.clientId requestId response

def step (s : WebSocketServer σ) : WsEvent → Option (WebSocketServer σ)
  | .connect => some { s with clientCount := s.clientCount + 1 }
  | .disconnect =>
      some (if s.clientCount > 0 then { s with clientCount := s.clientCount - 1 } else s)
  | .data client bytes => some (s.onData client bytes)
  | .handleConnection => some (s.handleConnection handlePacketData)

end

/-! ## The queue holds the frames -/

/-- The slot holds the frame, and the frame is one that is admitted. -/
def Holds (r : WebSocketRequest) (frame : UInt32 × List UInt8) : Prop :=
  r.clientId = frame.1 ∧ r.size = frame.2.length ∧ (∃ rest, r.data = frame.2 ++ rest) ∧
    frame.2.length ≠ 0 ∧ frame.2.length ≤ wsMaxPacketSize

/-- The parser has seen the frame, whatever memory follows it in its slot. -/
def Parsed (result : UInt32 × PacketParsingResponse) (frame : UInt32 × List UInt8) : Prop :=
  result.1 = frame.1 ∧
    (∃ rest, result.2 = parsePacket (frame.2 ++ rest) (UInt8.ofNat frame.2.length)) ∧
    frame.2.length ≠ 0 ∧ frame.2.length ≤ wsMaxPacketSize

/-- The frames accepted are those already taken, in order, then those in the queue, in order. -/
def Fifo (s : WebSocketServer σ) : Prop :=
  ∃ past pending, s.queued = past ++ pending ∧ List.Forall₂ Parsed s.taken past ∧
    List.Forall₂ Holds s.requestQueue.contents pending

theorem store_holds (r : WebSocketRequest) (client : UInt32) (bytes : List UInt8)
    (h : bytes.length ≤ wsMaxPacketSize) (h0 : bytes.length ≠ 0) :
    Holds (r.store client bytes h) (client, bytes) :=
  ⟨rfl, rfl, ⟨_, writeAt_zero ..⟩, h0, h⟩

theorem Holds.parsed {r : WebSocketRequest} {frame : UInt32 × List UInt8} (h : Holds r frame) :
    Parsed (r.clientId, parsePacket r.data (UInt8.ofNat r.size)) frame := by
  obtain ⟨hc, hs, ⟨rest, hd⟩, h0, hle⟩ := h
  exact ⟨hc, ⟨rest, by rw [hd, hs]⟩, h0, hle⟩

theorem init_fifo (app : σ) : Fifo (init app) :=
  ⟨[], [], rfl, .nil, by simp [init]⟩

theorem onData_fifo {s : WebSocketServer σ} (h : Fifo s) (client : UInt32)
    (bytes : List UInt8) : Fifo (s.onData client bytes) := by
  rw [onData]
  split
  · exact h
  · rename_i h0
    split
    · exact h
    · rename_i hle
      cases ha : s.requestQueue.acquire with
      | none => exact h
      | some slotQueue =>
          obtain ⟨past, pending, hq, htaken, hcont⟩ := h
          refine ⟨past, pending ++ [(client, bytes)], ?_, htaken, ?_⟩
          · simp only [hq, List.append_assoc]
          · rw [CircularBuffer.contents_acquire_fill ha]
            exact List.rel_append hcont
              (.cons (store_holds _ client bytes (Nat.le_of_not_gt hle) h0) .nil)

theorem handleConnection_fifo (handlePacketData : UInt32 → Packet → σ → Response × σ)
    {s : WebSocketServer σ} (h : Fifo s) : Fifo (s.handleConnection handlePacketData) := by
  rw [handleConnection]
  cases hp : s.requestQueue.pop with
  | none => exact h
  | some slotQueue =>
      obtain ⟨slot, queue⟩ := slotQueue
      obtain ⟨past, pending, hq, htaken, hcont⟩ := h
      rw [CircularBuffer.contents_pop hp] at hcont
      obtain ⟨frame, pending, hhead, htail, rfl⟩ := List.forall₂_cons_left_iff.mp hcont
      have hnext : List.Forall₂ Parsed (s.taken ++
          [((queue.read slot).clientId,
            parsePacket (queue.read slot).data (UInt8.ofNat (queue.read slot).size))])
          (past ++ [frame]) :=
        List.rel_append htaken (.cons hhead.parsed .nil)
      have hqueued : s.queued = (past ++ [frame]) ++ pending := by rw [hq]; simp
      dsimp only
      split <;> exact ⟨past ++ [frame], pending, hqueued, hnext, htail⟩

theorem step_fifo (handlePacketData : UInt32 → Packet → σ → Response × σ)
    (s : WebSocketServer σ) (e : WsEvent) (s' : WebSocketServer σ) (h : Fifo s)
    (hs : s.step handlePacketData e = some s') : Fifo s' := by
  cases e with
  | connect => cases hs; exact h
  | disconnect =>
      simp only [step] at hs
      split at hs <;> (cases hs; exact h)
  | data client bytes => cases hs; exact onData_fifo h client bytes
  | handleConnection => cases hs; exact handleConnection_fifo handlePacketData h

/-! ## Acceptance -/

/-- The parser has accepted exactly the grammar on `b`, and on success the packet it returns
is the one `b` encodes. -/
def ParsesExactly (b : List UInt8) (result : PacketParsingResponse) : Prop :=
  (result.success = true ↔ WellFormed b) ∧
    ∀ packet requestId, result = .ok packet requestId →
      IsPacket b packet.header packet.body ∧ requestId = packet.header.requestId

/-- For a frame of an admitted length the parser is exact, except on a well-formed frame of
256 bytes or more, whose length its `uint8_t` parameter cannot hold. -/
theorem Parsed.parsesExactly_iff {result : UInt32 × PacketParsingResponse}
    {frame : UInt32 × List UInt8} (h : Parsed result frame) :
    ParsesExactly frame.2 result.2 ↔ ¬ (256 ≤ frame.2.length ∧ WellFormed frame.2) := by
  obtain ⟨-, ⟨rest, hresult⟩, -, hle⟩ := h
  rw [hresult]
  rcases Nat.lt_or_ge frame.2.length 256 with hlt | hge
  · refine iff_of_true ⟨⟨?_, ?_⟩, ?_⟩ (fun hbad => by omega)
    · intro hok
      cases hp : parsePacket (frame.2 ++ rest) (UInt8.ofNat frame.2.length) with
      | ok packet requestId =>
          exact ⟨_, _, ((parsePacket_ok_iff hlt packet requestId).mp hp).1⟩
      | fail response requestId =>
          rw [hp] at hok
          cases hok
    · rintro ⟨header, body, hb⟩
      have hbody := (isPacket_iff.mp hb).2.2.1
      have hok : parsePacket (frame.2 ++ rest) (UInt8.ofNat frame.2.length) =
          .ok ⟨header, frame.2.drop packetHeaderSize ++ rest⟩ header.requestId :=
        (parsePacket_ok_iff hlt _ _).mpr ⟨hbody ▸ hb, rfl, rfl⟩
      rw [hok]
      rfl
    · intro packet requestId hok
      obtain ⟨hb, hid, hdata⟩ := (parsePacket_ok_iff hlt packet requestId).mp hok
      have hbody : packet.body = frame.2.drop packetHeaderSize := by
        rw [Packet.body, hdata, ← hb.2.1, List.take_left']
        rfl
      rw [hbody]
      exact ⟨hb, hid⟩
  · have hwrap := parsePacket_wrapped (frame.2 ++ rest) hge
      (by unfold wsMaxPacketSize at hle; unfold packetHeaderSize; omega)
    rw [hwrap]
    constructor
    · rintro ⟨hok, -⟩ ⟨-, hwell⟩
      exact absurd (hok.mpr hwell) (by decide)
    · intro hnot
      refine ⟨⟨fun hok => absurd hok (by decide), fun hwell => absurd ⟨hge, hwell⟩ hnot⟩, ?_⟩
      intro packet requestId hok
      cases hok

/-- **The request path accepts exactly the packet grammar, except from 256 bytes on.**  In every
run of the server, whatever the handlers do, the `k`-th request taken from the queue is the
`k`-th frame queued, of 1 to `WS_MAX_PACKET_SIZE` bytes; and the parser has accepted exactly
the grammar on it, with its fields, if and only if it is not a well-formed packet of 256
bytes or more. -/
theorem request_path_exact (handlePacketData : UInt32 → Packet → σ → Response × σ) (app : σ)
    (es : List WsEvent) (s : WebSocketServer σ)
    (hs : run (step handlePacketData) (init app) es = some s)
    (k : Nat) (client : UInt32) (result : PacketParsingResponse)
    (hk : s.taken[k]? = some (client, result)) :
    ∃ b, s.queued[k]? = some (client, b) ∧ b.length ≠ 0 ∧ b.length ≤ wsMaxPacketSize ∧
      (ParsesExactly b result ↔ ¬ (256 ≤ b.length ∧ WellFormed b)) := by
  obtain ⟨past, pending, hq, htaken, -⟩ :=
    run_invariant (step_fifo handlePacketData) (init_fifo app) hs
  obtain ⟨hlt, hget⟩ := List.getElem?_eq_some_iff.mp hk
  have hlt' : k < past.length := htaken.length_eq ▸ hlt
  have hparsed : Parsed (client, result) past[k] := hget ▸ htaken.get hlt hlt'
  refine ⟨past[k].2, ?_, hparsed.2.2.1, hparsed.2.2.2, hparsed.parsesExactly_iff⟩
  rw [hq, List.getElem?_append_left hlt', List.getElem?_eq_getElem hlt']
  exact congrArg some (Prod.ext hparsed.1.symm rfl)

/-- One packet without a body, queued by client 3 and taken. -/
theorem request_path_exact_short :
    ∃ (s : WebSocketServer Unit) (result : PacketParsingResponse),
      run (step fun _ _ app => (.code .ok, app)) (init ())
        [.data 3 [0xBA, 0xDA, 7, 0, 1, 0, 0], .handleConnection] = some s ∧
      s.taken[0]? = some (3, result) ∧
      ∃ b, s.queued[0]? = some (3, b) ∧ b.length ≠ 0 ∧ b.length ≤ wsMaxPacketSize ∧
        (ParsesExactly b result ↔ ¬ (256 ≤ b.length ∧ WellFormed b)) :=
  ⟨_, _, rfl, rfl, request_path_exact _ () [.data 3 [0xBA, 0xDA, 7, 0, 1, 0, 0], .handleConnection]
    _ rfl 0 3 _ rfl⟩

/-- A well-formed packet of 256 bytes: seven of header, 249 of body. -/
def longPacket : List UInt8 :=
  PacketHeader.bytes ⟨packetSignature, 7, 1, 249⟩ ++ List.replicate 249 0

set_option maxRecDepth 4000 in
/-- It is queued, and refused when it is taken. -/
theorem longPacket_refused :
    ∃ (s : WebSocketServer Unit) (response : Response),
      run (step fun _ _ app => (.code .ok, app)) (init ()) [.data 3 longPacket, .handleConnection]
        = some s ∧
      s.queued = [(3, longPacket)] ∧ s.taken = [(3, .fail response 0)] ∧
      ¬ ParsesExactly longPacket (.fail response 0) := by
  refine ⟨_, _, rfl, rfl, rfl, ?_⟩
  rintro ⟨hok, -⟩
  exact absurd (hok.mpr ⟨⟨packetSignature, 7, 1, 249⟩, List.replicate 249 0, rfl, rfl, rfl⟩)
    (by decide)

end WebSocketServer

end EspIot
