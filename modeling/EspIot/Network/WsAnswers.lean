/-
# `EspIot.Network.WsAnswers` — which frame answers which data event

The WebSocket server answers from two places: `on_event` refuses a frame at
once, `handle_connection` answers one queued frame a call.  A `WsLedger` keeps
the books beside the server.  It numbers the data events in their order of
arrival, sorts them into refused and accepted by what the event itself shows,
and charges every frame the server sends to an event: what `on_event` sends to
the event it is called for, what `handle_connection` sends to the accepted event
that has waited longest.  The theorem is that the books balance.
-/
import EspIot.Network.Ws

namespace EspIot

open Lib

/-- The event is one that `on_event` does not queue. -/
def WebSocketServer.Refuses {σ : Type*} (s : WebSocketServer σ) (bytes : List UInt8) : Prop :=
  bytes.length = 0 ∨ bytes.length > wsMaxPacketSize ∨ s.requestQueue.canAcquire = false

instance {σ : Type*} (s : WebSocketServer σ) (bytes : List UInt8) : Decidable (s.Refuses bytes) :=
  inferInstanceAs (Decidable (_ ∨ _ ∨ _))

/-- A response frame, the number of the data event it is charged to, and whether that event had
been accepted. -/
structure WsAnswer where
  number : ℕ
  accepted : Bool
  client : UInt32
  frame : List UInt8
deriving DecidableEq

/-- The server and its books: the data events so far, the numbers of the accepted ones, those of
them that wait, and the answers given. -/
structure WsLedger (σ : Type*) where
  server : WebSocketServer σ
  arrived : List (UInt32 × List UInt8) := []
  accepted : List ℕ := []
  waiting : List ℕ := []
  answers : List WsAnswer := []

namespace WsLedger

variable {σ : Type*}

def init (app : σ) : WsLedger σ := { server := .init app }

def newFrames (l : WsLedger σ) (s : WebSocketServer σ) : List (UInt32 × List UInt8) :=
  s.sent.drop l.server.sent.length

/-- The books after the server has gone to `s`. -/
def charge (l : WsLedger σ) (e : WsEvent) (s : WebSocketServer σ) : WsLedger σ :=
  match e with
  | .data client bytes =>
      let number := l.arrived.length
      let new := if l.server.Refuses bytes then [] else [number]
      { server := s
        arrived := l.arrived ++ [(client, bytes)]
        accepted := l.accepted ++ new
        waiting := l.waiting ++ new
        answers := l.answers ++ (l.newFrames s).map fun f => ⟨number, false, f.1, f.2⟩ }
  | .handleConnection =>
      { l with
        server := s
        waiting := l.waiting.tail
        answers := l.answers ++
          (l.newFrames s).map fun f => ⟨l.waiting.headD l.arrived.length, true, f.1, f.2⟩ }
  | _ =>
      { l with
        server := s
        answers := l.answers ++
          (l.newFrames s).map fun f => ⟨l.arrived.length, false, f.1, f.2⟩ }

section
variable (handlePacketData : UInt32 → Packet → σ → Response × σ)

def step (l : WsLedger σ) (e : WsEvent) : Option (WsLedger σ) :=
  (l.server.step handlePacketData e).map (l.charge e)

end

/-- The request id that `parse_packet` finds in a frame: the packet's own where the length, as its
`uint8_t` parameter has it, is at least that of a header. -/
def packetRequestId (bytes : List UInt8) : UInt16 :=
  if packetHeaderSize ≤ bytes.length % 256 then (PacketHeader.read bytes).requestId else 0

/-- The response a data event is due: the refused by what they are refused for, the accepted by
what the parser finds, and by the handler where it finds a packet. -/
inductive Due (handlePacketData : UInt32 → Packet → σ → Response × σ) (client : UInt32)
    (bytes : List UInt8) : Bool → Response → Prop
  | length (h : bytes.length = 0 ∨ bytes.length > wsMaxPacketSize) :
      Due handlePacketData client bytes false (.code .packetLengthExceeded)
  | full (h : bytes.length ≠ 0 ∧ bytes.length ≤ wsMaxPacketSize) :
      Due handlePacketData client bytes false (.code .tooManyRequest)
  | noHeader (h : bytes.length % 256 < packetHeaderSize) :
      Due handlePacketData client bytes true (.code .packetLengthExceeded)
  | noPacket (h : packetHeaderSize ≤ bytes.length % 256)
      (hbad : (PacketHeader.read bytes).signature ≠ packetSignature ∨
        packetHeaderSize + (PacketHeader.read bytes).size.toNat ≠ bytes.length % 256) :
      Due handlePacketData client bytes true (.code .badRequest)
  | handled (packet : Packet) (app : σ)
      (h : IsPacket (bytes.take (bytes.length % 256)) packet.header packet.body) :
      Due handlePacketData client bytes true (handlePacketData client packet app).1

/-- What a frame says: the type and the data of its packet. -/
def Says : Response → UInt8 → List UInt8 → Prop
  | .code code, type, data => type = 0xf0 ∧ data = ascii code.codeString
  | .string str, type, data => type = 0xf0 ∧ data = str.take (str.length % 65536)
  | .binary buffer, type, data =>
      if buffer.length ≤ wsMaxPacketBodySize then type = 0xf1 ∧ data = buffer
      else type = 0xf0 ∧ data = ascii ResponseCode.internalError.codeString

/-- What the answer to a data event has to be: a packet with the signature and the request id of
the event, which says the response that is due. -/
def Answers (handlePacketData : UInt32 → Packet → σ → Response × σ) (a : WsAnswer)
    (bytes : List UInt8) : Prop :=
  ∃ header data response, IsPacket a.frame header data ∧
    header.requestId = (if a.accepted then packetRequestId bytes else 0xFFFF) ∧
    Due handlePacketData a.client bytes a.accepted response ∧ Says response header.type data

structure Balanced (handlePacketData : UInt32 → Packet → σ → Response × σ) (l : WsLedger σ) :
    Prop where
  /-- Every frame sent is charged. -/
  charged : l.answers.map (fun a => (a.client, a.frame)) = l.server.sent
  /-- Every event has one answer, or waits for it. -/
  once : (l.answers.map WsAnswer.number ++ l.waiting).Perm (List.range l.arrived.length)
  /-- The accepted events are answered in the order of their arrival. -/
  order : (l.answers.filter WsAnswer.accepted).map WsAnswer.number ++ l.waiting = l.accepted
  sorted : l.accepted.Pairwise (· < ·)
  below : ∀ n ∈ l.accepted, n < l.arrived.length
  right : ∀ a ∈ l.answers, ∃ bytes, l.arrived[a.number]? = some (a.client, bytes) ∧
    Answers handlePacketData a bytes
  /-- The queue holds the frames of the events that wait. -/
  queue : List.Forall₂
    (fun slot n => ∃ frame, l.arrived[n]? = some frame ∧ WebSocketServer.Holds slot frame)
    l.server.requestQueue.contents l.waiting

variable {handlePacketData : UInt32 → Packet → σ → Response × σ}

theorem init_balanced (app : σ) : Balanced handlePacketData (init app) where
  charged := rfl
  once := .refl _
  order := rfl
  sorted := .nil
  below _ h := by cases h
  right _ h := by cases h
  queue := by simp [init, WebSocketServer.init]

/-! ## What the server sends in a step -/

theorem newFrames_sendResponse (l : WsLedger σ) (s : WebSocketServer σ)
    (hs : s.sent = l.server.sent) (client : UInt32) (requestId : UInt16) (r : Response) :
    l.newFrames (s.sendResponse client requestId r) = [(client, r.frame requestId)] := by
  simp [newFrames, WebSocketServer.sendResponse, hs]

theorem newFrames_none (l : WsLedger σ) {s : WebSocketServer σ} (hs : s.sent = l.server.sent) :
    l.newFrames s = [] := by
  simp [newFrames, hs]

theorem ascii_codeString_length (code : ResponseCode) : (ascii code.codeString).length < 65536 := by
  cases code <;> decide

theorem frame_says (requestId : UInt16) (response : Response) :
    ∃ header data, IsPacket (response.frame requestId) header data ∧
      header.requestId = requestId ∧ Says response header.type data := by
  have hlen : (response.payload.2.take (UInt16.ofNat response.payload.2.length).toNat).length =
      (UInt16.ofNat response.payload.2.length).toNat := by
    rw [List.length_take, UInt16.toNat_ofNat']
    omega
  refine ⟨_, _, ⟨rfl, hlen, rfl⟩, rfl, ?_⟩
  have hwhole {data : List UInt8} (h : data.length < 65536) :
      data.take (UInt16.ofNat data.length).toNat = data := by
    rw [UInt16.toNat_ofNat', Nat.mod_eq_of_lt h, List.take_length]
  cases response with
  | code code => exact ⟨rfl, hwhole (ascii_codeString_length code)⟩
  | string str => exact ⟨rfl, congrArg str.take UInt16.toNat_ofNat'⟩
  | binary buffer =>
      simp only [Says, Response.payload]
      by_cases h : buffer.length ≤ wsMaxPacketBodySize
      · have hlt : buffer.length < 65536 := Nat.lt_of_le_of_lt h (by decide)
        rw [if_pos h, if_neg (Nat.not_lt.mpr h)]
        exact ⟨rfl, hwhole hlt⟩
      · rw [if_neg h, if_pos (Nat.lt_of_not_le h)]
        exact ⟨rfl, hwhole (ascii_codeString_length _)⟩

theorem answers_frame {number : ℕ} {client : UInt32} {accepted : Bool} {bytes : List UInt8}
    {response : Response} (hdue : Due handlePacketData client bytes accepted response) :
    Answers handlePacketData ⟨number, accepted, client,
      response.frame (if accepted then packetRequestId bytes else 0xFFFF)⟩ bytes := by
  obtain ⟨header, data, hpacket, hid, hsays⟩ :=
    frame_says (if accepted then packetRequestId bytes else 0xFFFF) response
  exact ⟨header, data, response, hpacket, hid, hdue, hsays⟩

theorem isPacket_slot {bytes rest : List UInt8} (h : packetHeaderSize ≤ bytes.length % 256)
    (hsig : (PacketHeader.read bytes).signature = packetSignature)
    (hsize : packetHeaderSize + (PacketHeader.read bytes).size.toNat = bytes.length % 256) :
    let packet : Packet :=
      { header := PacketHeader.read bytes, data := (bytes ++ rest).drop packetHeaderSize }
    IsPacket (bytes.take (bytes.length % 256)) packet.header packet.body := by
  have hle : bytes.length % 256 ≤ bytes.length := Nat.mod_le ..
  have htake : (bytes.take (bytes.length % 256)).length = bytes.length % 256 :=
    List.length_take_of_le hle
  have hheader : packetHeaderSize ≤ (bytes.take (bytes.length % 256)).length := by
    rw [htake]
    exact h
  have hread : PacketHeader.read bytes = PacketHeader.read (bytes.take (bytes.length % 256)) := by
    conv_lhs => rw [← List.take_append_drop (bytes.length % 256) bytes]
    exact PacketHeader.read_append _ _ hheader
  refine isPacket_iff.mpr ⟨hheader, hread, ?_, hsig, hsize.trans htake.symm⟩
  have hrest : (PacketHeader.read bytes).size.toNat ≤ (bytes.drop packetHeaderSize).length := by
    rw [List.length_drop]
    omega
  rw [Packet.body, List.drop_append_of_le_length (Nat.le_trans h hle),
    List.take_append_of_le_length hrest, List.drop_take, ← hsize, Nat.add_sub_cancel_left]

theorem parsePacket_slot (bytes rest : List UInt8) :
    let parsed := parsePacket (bytes ++ rest) (UInt8.ofNat bytes.length)
    let header := PacketHeader.read bytes
    (bytes.length % 256 < packetHeaderSize ∧ parsed = .fail (.code .packetLengthExceeded) 0) ∨
    (packetHeaderSize ≤ bytes.length % 256 ∧ (header.signature ≠ packetSignature ∨
        packetHeaderSize + header.size.toNat ≠ bytes.length % 256) ∧
      parsed = .fail (.code .badRequest) header.requestId) ∨
    (packetHeaderSize ≤ bytes.length % 256 ∧
      ∃ packet : Packet, IsPacket (bytes.take (bytes.length % 256)) packet.header packet.body ∧
        parsed = .ok packet header.requestId) := by
  intro parsed header
  have hlen : (UInt8.ofNat bytes.length).toNat = bytes.length % 256 := by
    rw [UInt8.toNat_ofNat']
  have hparsed : parsed = parsePacket (bytes ++ rest) (UInt8.ofNat bytes.length) := rfl
  rw [parsePacket] at hparsed
  dsimp only at hparsed
  rw [hlen] at hparsed
  by_cases h : packetHeaderSize ≤ bytes.length % 256
  · rw [if_neg (Nat.not_lt.mpr h),
      PacketHeader.read_append bytes rest (Nat.le_trans h (Nat.mod_le ..))] at hparsed
    refine .inr ?_
    by_cases hsig : header.signature = packetSignature
    · rw [if_neg (not_not.mpr hsig)] at hparsed
      by_cases hsize : packetHeaderSize + header.size.toNat = bytes.length % 256
      · rw [if_neg (not_not.mpr hsize)] at hparsed
        exact .inr ⟨h, _, isPacket_slot h hsig hsize, hparsed⟩
      · rw [if_pos hsize] at hparsed
        exact .inl ⟨h, .inr hsize, hparsed⟩
    · rw [if_pos hsig] at hparsed
      exact .inl ⟨h, .inl hsig, hparsed⟩
  · rw [if_pos (Nat.not_le.mp h)] at hparsed
    exact .inl ⟨Nat.not_le.mp h, hparsed⟩

theorem parsePacket_requestId (bytes rest : List UInt8) :
    (parsePacket (bytes ++ rest) (UInt8.ofNat bytes.length)).requestId = packetRequestId bytes := by
  rw [packetRequestId]
  rcases parsePacket_slot bytes rest with ⟨h, hp⟩ | ⟨h, -, hp⟩ | ⟨h, packet, -, hp⟩
  · rw [hp, if_neg (Nat.not_le.mpr h)]
    rfl
  · rw [hp, if_pos h]
    rfl
  · rw [hp, if_pos h]
    rfl

theorem due_of_fail {client : UInt32} {bytes rest : List UInt8} {response : Response}
    {requestId : UInt16}
    (hp : parsePacket (bytes ++ rest) (UInt8.ofNat bytes.length) = .fail response requestId) :
    Due handlePacketData client bytes true response := by
  rcases parsePacket_slot bytes rest with ⟨h, hp'⟩ | ⟨h, hbad, hp'⟩ | ⟨-, packet, -, hp'⟩
  · rw [hp] at hp'
    cases hp'
    exact .noHeader h
  · rw [hp] at hp'
    cases hp'
    exact .noPacket h hbad
  · rw [hp] at hp'
    cases hp'

theorem due_of_ok {client : UInt32} {bytes rest : List UInt8} {packet : Packet}
    {requestId : UInt16}
    (hp : parsePacket (bytes ++ rest) (UInt8.ofNat bytes.length) = .ok packet requestId) (app : σ) :
    Due handlePacketData client bytes true (handlePacketData client packet app).1 := by
  rcases parsePacket_slot bytes rest with ⟨-, hp'⟩ | ⟨-, -, hp'⟩ | ⟨-, packet', hpacket, hp'⟩
  · rw [hp] at hp'
    cases hp'
  · rw [hp] at hp'
    cases hp'
  · rw [hp] at hp'
    cases hp'
    exact .handled packet app hpacket

/-! ## One step -/

theorem arrived_append {l : WsLedger σ} {n : ℕ} {frame : UInt32 × List UInt8}
    (h : l.arrived[n]? = some frame) (x : UInt32 × List UInt8) :
    (l.arrived ++ [x])[n]? = some frame := by
  obtain ⟨hlt, -⟩ := List.getElem?_eq_some_iff.mp h
  rw [List.getElem?_append_left hlt, h]

theorem Balanced.refuse {l : WsLedger σ} (h : Balanced handlePacketData l) {client : UInt32}
    {bytes : List UInt8} (href : l.server.Refuses bytes) {code : ResponseCode}
    (hdue : Due handlePacketData client bytes false (.code code)) :
    Balanced handlePacketData
      (l.charge (.data client bytes) (l.server.sendResponse client 0xFFFF (.code code))) := by
  have hnew := newFrames_sendResponse l l.server rfl client 0xFFFF (.code code)
  simp only [charge, if_pos href, hnew, List.map_cons, List.map_nil, List.append_nil]
  refine ⟨?_, ?_, ?_, h.sorted, ?_, ?_, ?_⟩
  · simp [h.charged, WebSocketServer.sendResponse]
  · have hperm := (h.once.append_right [l.arrived.length])
    rw [List.length_append, List.length_singleton, List.range_succ]
    refine List.Perm.trans ?_ hperm
    rw [List.map_append, List.append_assoc, List.append_assoc]
    exact List.Perm.append_left _ List.perm_append_comm
  · simpa using h.order
  · intro n hn
    have := h.below n hn
    rw [List.length_append]
    omega
  · intro a ha
    rcases List.mem_append.mp ha with ha | ha
    · obtain ⟨b, hb, hright⟩ := h.right a ha
      exact ⟨b, arrived_append hb _, hright⟩
    · rw [List.mem_singleton.mp ha]
      exact ⟨bytes, by simp, answers_frame hdue⟩
  · exact h.queue.imp fun _ _ ⟨frame, hf, hholds⟩ => ⟨frame, arrived_append hf _, hholds⟩

theorem Balanced.accept {l : WsLedger σ} (h : Balanced handlePacketData l) {client : UInt32}
    {bytes : List UInt8} (href : ¬ l.server.Refuses bytes) {s : WebSocketServer σ}
    (hsent : s.sent = l.server.sent)
    {slot : WebSocketRequest} (hslot : WebSocketServer.Holds slot (client, bytes))
    (hqueue : s.requestQueue.contents = l.server.requestQueue.contents ++ [slot]) :
    Balanced handlePacketData (l.charge (.data client bytes) s) := by
  simp only [charge, if_neg href, newFrames_none l hsent, List.map_nil, List.append_nil]
  refine ⟨?_, ?_, ?_, ?_, ?_, ?_, ?_⟩
  · rw [hsent]
    exact h.charged
  · rw [List.length_append, List.length_singleton, List.range_succ, ← List.append_assoc]
    exact h.once.append_right _
  · rw [← List.append_assoc, h.order]
  · refine List.pairwise_append.mpr ⟨h.sorted, List.pairwise_singleton _ _, ?_⟩
    intro n hn m hm
    rw [List.mem_singleton.mp hm]
    exact h.below n hn
  · intro n hn
    rw [List.length_append, List.length_singleton]
    rcases List.mem_append.mp hn with hn | hn
    · have := h.below n hn
      omega
    · rw [List.mem_singleton.mp hn]
      omega
  · intro a ha
    obtain ⟨b, hb, hright⟩ := h.right a ha
    exact ⟨b, arrived_append hb _, hright⟩
  · rw [hqueue]
    refine List.rel_append (h.queue.imp fun _ _ ⟨frame, hf, hholds⟩ =>
      ⟨frame, arrived_append hf _, hholds⟩) (.cons ⟨(client, bytes), by simp, hslot⟩ .nil)

theorem Balanced.data {l : WsLedger σ} (h : Balanced handlePacketData l) (client : UInt32)
    (bytes : List UInt8) :
    Balanced handlePacketData (l.charge (.data client bytes) (l.server.onData client bytes)) := by
  rw [WebSocketServer.onData]
  split
  · rename_i h0
    exact h.refuse (.inl h0) (.length (.inl h0))
  · rename_i h0
    split
    · rename_i hlong
      exact h.refuse (.inr (.inl hlong)) (.length (.inr hlong))
    · rename_i hle
      cases ha : l.server.requestQueue.acquire with
      | none =>
          exact h.refuse (.inr (.inr (CircularBuffer.acquire_eq_none.mp ha)))
            (.full ⟨h0, Nat.le_of_not_gt hle⟩)
      | some slotQueue =>
          have href : ¬ l.server.Refuses bytes := by
            rintro (h' | h' | h')
            · exact h0 h'
            · exact hle h'
            · rw [CircularBuffer.acquire_eq_none.mpr h'] at ha
              cases ha
          exact h.accept href (by rfl)
            (WebSocketServer.store_holds _ client bytes (Nat.le_of_not_gt hle) h0)
            (CircularBuffer.contents_acquire_fill ha _)

theorem Balanced.answer {l : WsLedger σ} (h : Balanced handlePacketData l) {slot : WebSocketRequest}
    {rest : List WebSocketRequest} (hcont : l.server.requestQueue.contents = slot :: rest)
    {s : WebSocketServer σ} (hqueue : s.requestQueue.contents = rest) (response : Response)
    (hsent : s.sent = l.server.sent ++ [(slot.clientId, response.frame
      (parsePacket slot.data (UInt8.ofNat slot.size)).requestId)])
    (hdue : ∀ frame, WebSocketServer.Holds slot frame →
      Due handlePacketData frame.1 frame.2 true response) :
    Balanced handlePacketData (l.charge .handleConnection s) := by
  have hq := h.queue
  rw [hcont] at hq
  obtain ⟨n, waiting, ⟨frame, hframe, hholds⟩, hrest, hwait⟩ := List.forall₂_cons_left_iff.mp hq
  have hnew : l.newFrames s = [(slot.clientId, response.frame
      (parsePacket slot.data (UInt8.ofNat slot.size)).requestId)] := by
    rw [newFrames, hsent, List.drop_left]
  simp only [charge, hnew, hwait, List.tail_cons, List.headD_cons, List.map_cons, List.map_nil]
  have horder := h.order
  have honce := h.once
  rw [hwait] at horder honce
  refine ⟨?_, ?_, ?_, h.sorted, h.below, ?_, ?_⟩
  · simp [h.charged, hsent]
  · rw [List.map_append, List.append_assoc]
    exact honce
  · rw [List.filter_append, List.map_append, List.append_assoc]
    exact horder
  · intro a ha
    rcases List.mem_append.mp ha with ha | ha
    · exact h.right a ha
    · rw [List.mem_singleton.mp ha]
      have hdue := hdue frame hholds
      obtain ⟨hclient, hsize, ⟨tail, hdata⟩, -, -⟩ := hholds
      refine ⟨frame.2, by rw [hframe, hclient], ?_⟩
      rw [hclient, hdata, hsize, parsePacket_requestId]
      exact answers_frame hdue
  · rw [hqueue]
    exact hrest

/-- Where nothing is queued, nothing waits, and a call charges nothing. -/
theorem Balanced.charge_idle {l : WsLedger σ} (h : Balanced handlePacketData l)
    (hp : l.server.requestQueue.pop = none) : l.charge .handleConnection l.server = l := by
  have hempty : l.server.requestQueue.contents = [] := by
    have hused := CircularBuffer.pop_eq_none.mp hp
    simpa [CircularBuffer.canPop, ← List.length_eq_zero_iff] using hused
  have hwait : l.waiting = [] := by
    have hq := h.queue
    rw [hempty] at hq
    exact List.forall₂_nil_left_iff.mp hq
  simp only [charge, newFrames_none l rfl, List.map_nil, List.append_nil, hwait, List.tail_nil]
  rw [← hwait]

theorem Balanced.handleConnection (handlePacketData : UInt32 → Packet → σ → Response × σ)
    {l : WsLedger σ} (h : Balanced handlePacketData l) :
    Balanced handlePacketData
      (l.charge .handleConnection (l.server.handleConnection handlePacketData)) := by
  rw [WebSocketServer.handleConnection]
  cases hp : l.server.requestQueue.pop with
  | none =>
      show Balanced handlePacketData (l.charge .handleConnection l.server)
      rw [h.charge_idle hp]
      exact h
  | some slotQueue =>
      obtain ⟨slot, queue⟩ := slotQueue
      have hcont := CircularBuffer.contents_pop hp
      dsimp only
      cases hr : parsePacket (queue.read slot).data (UInt8.ofNat (queue.read slot).size) with
      | ok packet requestId =>
          refine h.answer hcont rfl
            (handlePacketData (queue.read slot).clientId packet l.server.app).1 ?_ ?_
          · rw [hr]
            rfl
          · rintro frame ⟨hclient, hsize, ⟨tail, hdata⟩, -, -⟩
            rw [hdata, hsize] at hr
            rw [hclient]
            exact due_of_ok hr _
      | fail response requestId =>
          refine h.answer hcont rfl response ?_ ?_
          · rw [hr]
            rfl
          · rintro frame ⟨hclient, hsize, ⟨tail, hdata⟩, -, -⟩
            rw [hdata, hsize] at hr
            exact due_of_fail hr

theorem Balanced.step (handlePacketData : UInt32 → Packet → σ → Response × σ) {l l' : WsLedger σ}
    {e : WsEvent} (h : Balanced handlePacketData l) (hs : l.step handlePacketData e = some l') :
    Balanced handlePacketData l' := by
  -- a connection or a disconnection sends nothing
  have hquiet : ∀ s : WebSocketServer σ, s.sent = l.server.sent →
      s.requestQueue = l.server.requestQueue →
        Balanced handlePacketData { l with server := s } := by
    intro s hsent hqueue
    refine ⟨?_, h.once, h.order, h.sorted, h.below, h.right, ?_⟩
    · rw [hsent]
      exact h.charged
    · rw [hqueue]
      exact h.queue
  obtain ⟨s, hserver, rfl⟩ := Option.map_eq_some_iff.mp hs
  cases e with
  | connect =>
      cases hserver
      simp only [charge, newFrames, List.drop_length, List.map_nil, List.append_nil]
      exact hquiet _ rfl rfl
  | disconnect =>
      have hsent : s.sent = l.server.sent ∧ s.requestQueue = l.server.requestQueue := by
        simp only [WebSocketServer.step] at hserver
        split at hserver <;> (cases hserver; exact ⟨rfl, rfl⟩)
      simp only [charge, newFrames_none l hsent.1, List.map_nil, List.append_nil]
      exact hquiet s hsent.1 hsent.2
  | data client bytes =>
      cases hserver
      exact h.data client bytes
  | handleConnection =>
      cases hserver
      exact h.handleConnection handlePacketData

/-! ## Every run -/

theorem run_balanced (handlePacketData : UInt32 → Packet → σ → Response × σ) (app : σ)
    {es : List WsEvent} {l : WsLedger σ}
    (h : run (step handlePacketData) (init app) es = some l) : Balanced handlePacketData l :=
  run_invariant (fun _ _ _ hI hs => hI.step handlePacketData hs) (init_balanced app) h

theorem run_server (handlePacketData : UInt32 → Packet → σ → Response × σ) {es : List WsEvent} :
    ∀ {l l' : WsLedger σ}, run (step handlePacketData) l es = some l' →
      run (WebSocketServer.step handlePacketData) l.server es = some l'.server := by
  induction es with
  | nil =>
      intro l l' h
      cases h
      rfl
  | cons e es ih =>
      intro l l' h
      obtain ⟨m, hm, hrest⟩ := run_cons_some h
      obtain ⟨s, hs, rfl⟩ := Option.map_eq_some_iff.mp hm
      have hserver : (l.charge e s).server = s := by cases e <;> rfl
      rw [run_cons hs]
      have := ih hrest
      rwa [hserver] at this

/-- **Every data event gets exactly one answer.**  Whatever the handlers do, in every run: the
frames sent are the answers, each to the client of its event; every event either has exactly one
answer or is accepted and waits, and a refused one is answered before the next event; the accepted
events are answered in the order of their arrival, with their own request id, the refused ones with
`0xFFFF`; and the accepted events are the answered ones and the `used` of the queue. -/
theorem every_event_answered (handlePacketData : UInt32 → Packet → σ → Response × σ) (app : σ)
    (es : List WsEvent) {l : WsLedger σ}
    (h : run (step handlePacketData) (init app) es = some l) :
    run (WebSocketServer.step handlePacketData) (.init app) es = some l.server ∧
      l.answers.map (fun a => (a.client, a.frame)) = l.server.sent ∧
      (l.answers.map WsAnswer.number ++ l.waiting).Perm (List.range l.arrived.length) ∧
      (l.answers.filter WsAnswer.accepted).map WsAnswer.number ++ l.waiting = l.accepted ∧
      l.accepted.Pairwise (· < ·) ∧
      (∀ a ∈ l.answers, ∃ bytes, l.arrived[a.number]? = some (a.client, bytes) ∧
        Answers handlePacketData a bytes) ∧
      l.accepted.length =
        (l.answers.filter WsAnswer.accepted).length + l.server.requestQueue.used := by
  have hB := run_balanced handlePacketData app h
  refine ⟨run_server handlePacketData h, hB.charged, hB.once, hB.order, hB.sorted, hB.right, ?_⟩
  have hused : l.waiting.length = l.server.requestQueue.used := by
    rw [← hB.queue.length_eq, CircularBuffer.contents_length]
  rw [← hB.order, List.length_append, List.length_map, hused]

/-- An empty frame is refused; a packet without a body is queued and answered when its turn
comes. -/
theorem every_event_answered_twice :
    ∃ l : WsLedger Unit,
      run (step fun _ _ app => (.code .ok, app)) (init ())
        [.data 3 [], .data 4 [0xBA, 0xDA, 7, 0, 1, 0, 0], .handleConnection] = some l ∧
      l.answers =
        [⟨0, false, 3, [0xBA, 0xDA, 0xFF, 0xFF, 0xF0, 22, 0] ++ ascii "PACKET LENGTH EXCEEDED"⟩,
          ⟨1, true, 4, [0xBA, 0xDA, 7, 0, 0xF0, 2, 0] ++ ascii "OK"⟩] ∧
      (∀ a ∈ l.answers, ∃ bytes, l.arrived[a.number]? = some (a.client, bytes) ∧
        Answers (fun _ _ (app : Unit) => (.code .ok, app)) a bytes) ∧
      l.accepted.length =
        (l.answers.filter WsAnswer.accepted).length + l.server.requestQueue.used :=
  ⟨_, rfl, by decide, (every_event_answered (fun _ _ app => (.code .ok, app)) ()
    [.data 3 [], .data 4 [0xBA, 0xDA, 7, 0, 1, 0, 0], .handleConnection] rfl).2.2.2.2.2⟩

end WsLedger

end EspIot
