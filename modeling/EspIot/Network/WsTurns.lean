/-
# `EspIot.Network.WsTurns` — `handle_connection` while `on_event` goes on storing

`handle_connection` runs on the main loop and works on the slot that `pop` gave
it: the parser reads it, the handler reads it through the packet, and the client
to answer is read from it at the end.  `on_event` runs on the task of the socket
library and stores requests meanwhile.

    idle ──pop──▶ taken ──parse_packet──▶ parsed ──handle_packet_data──▶ answering
    taken ──refused by the parser──▶ answering ──send_response──▶ idle

`read` records what each of these steps has read, with the frame that was queued.
-/
import EspIot.Misc.PoppedSlots
import EspIot.Network.Ws

namespace EspIot

open Lib

/-- Where `handle_connection` stands, with its locals. -/
inductive WsTurn
  | idle
  | taken (slot : Fin wsMaxPacketQueue)
  | parsed (slot : Fin wsMaxPacketQueue) (requestId : UInt16)
  | answering (slot : Fin wsMaxPacketQueue) (requestId : UInt16) (response : Response)

/-- The slot `request` refers to. -/
def WsTurn.slot : WsTurn → Option (Fin wsMaxPacketQueue)
  | idle => none
  | taken slot | parsed slot _ | answering slot _ _ => some slot

/-- The request queue in use, `handle_connection` in progress, the state `app` behind the handlers
and the frames sent.  Beside them the frames that wait in the queue, the one the slot popped last
was filled with, and what was read of it. -/
structure WsTurns (σ : Type*) where
  ring : SlotRun WebSocketRequest wsMaxPacketQueue := .start .init
  turn : WsTurn := .idle
  app : σ
  sent : List (UInt32 × List UInt8) := []
  pending : List (UInt32 × List UInt8) := []
  request : Option (UInt32 × List UInt8) := none
  read : List (WebSocketRequest × Option (UInt32 × List UInt8)) := []

/-- A data frame of a client; `handle_connection` is called; it takes its next step. -/
inductive WsTurnEvent
  | data (client : UInt32) (bytes : List UInt8)
  | handleConnection
  | advance

namespace WsTurns

variable {σ : Type*}

def sendResponse (s : WsTurns σ) (client : UInt32) (requestId : UInt16) (r : Response) :
    WsTurns σ :=
  { s with sent := s.sent ++ [(client, r.frame requestId)] }

/-- `on_event` with `WS_EVT_DATA` -/
def onData (s : WsTurns σ) (client : UInt32) (bytes : List UInt8) : WsTurns σ :=
  if bytes.length = 0 then s.sendResponse client 0xFFFF (.code .packetLengthExceeded)
  else if h : bytes.length ≤ wsMaxPacketSize then
    if s.ring.buffer.canAcquire = false then
      s.sendResponse client 0xFFFF (.code .tooManyRequest)
    else
      { s with
        ring := s.ring.store fun r => r.store client bytes h
        pending := s.pending ++ [(client, bytes)] }
  else s.sendResponse client 0xFFFF (.code .packetLengthExceeded)

/-- The start of `handle_connection`, up to `pop`. -/
def take (s : WsTurns σ) : WsTurns σ :=
  match s.ring.buffer.pop with
  | none => { s with ring := s.ring.pop, request := none }
  | some (slot, _) =>
      { s with
        ring := s.ring.pop, turn := .taken slot
        pending := s.pending.tail, request := s.pending.head? }

/-- A step of `handle_connection` reads the slot. -/
def reads (s : WsTurns σ) (slot : Fin wsMaxPacketQueue) : WsTurns σ :=
  { s with read := s.read ++ [(s.ring.buffer.read slot, s.request)] }

section
variable (handlePacketData : UInt32 → Packet → σ → Response × σ)

/-- The next step of `handle_connection`.  The packet that the handler is given points into the
slot. -/
def advance (s : WsTurns σ) : Option (WsTurns σ) :=
  match s.turn with
  | .idle => none
  | .taken slot =>
      let request := s.ring.buffer.read slot
      match parsePacket request.data (UInt8.ofNat request.size) with
      | .ok _ requestId => some { s.reads slot with turn := .parsed slot requestId }
      | .fail response requestId =>
          some { s.reads slot with turn := .answering slot requestId response }
  | .parsed slot requestId =>
      let request := s.ring.buffer.read slot
      let packet : Packet :=
        { header := .read request.data, data := request.data.drop packetHeaderSize }
      let (response, app) := handlePacketData request.clientId packet s.app
      some { s.reads slot with app, turn := .answering slot requestId response }
  | .answering slot requestId response =>
      let request := s.ring.buffer.read slot
      some ({ s.reads slot with turn := .idle }.sendResponse request.clientId requestId response)

def step (s : WsTurns σ) : WsTurnEvent → Option (WsTurns σ)
  | .data client bytes => some (s.onData client bytes)
  | .handleConnection =>
      match s.turn with
      | .idle => some s.take
      | _ => none
  | .advance => s.advance handlePacketData

end

/-- **The popped request is stable while it is processed**: its slot was not handed out again, and
whatever was read of it is the frame that was queued. -/
def Undisturbed (s : WsTurns σ) : Prop :=
  s.ring.Stable ∧
    ∀ x ∈ s.read, ∃ frame, x.2 = some frame ∧ WebSocketServer.Holds x.1 frame

/-- While a popped slot is in use, the queue is not filled up. -/
def LeavesRoom (s : WsTurns σ) : WsTurnEvent → Prop
  | .data _ bytes => bytes.length ≠ 0 → bytes.length ≤ wsMaxPacketSize →
      s.ring.popped.isSome → s.ring.buffer.used + 1 ≠ wsMaxPacketQueue
  | _ => True

/-! ## The invariant -/

/-- The slots hold the frames, and so did the one in use when it was popped. -/
structure Queued (s : WsTurns σ) : Prop where
  inFront : s.ring.InFront
  waiting : List.Forall₂ WebSocketServer.Holds s.ring.buffer.contents s.pending
  popped : ∀ slot value, s.ring.popped = some (slot, value) →
    ∃ frame, s.request = some frame ∧ WebSocketServer.Holds value frame
  inUse : ∀ slot, s.turn.slot = some slot → ∃ value, s.ring.popped = some (slot, value)

theorem queued_start (app : σ) : Queued ({ app } : WsTurns σ) where
  inFront slot value h := by cases h
  waiting := .nil
  popped slot value h := by cases h
  inUse slot h := by cases h

theorem Queued.store {s : WsTurns σ} (h : Queued s) {client : UInt32} {bytes : List UInt8}
    (hlength : bytes.length ≤ wsMaxPacketSize) (h0 : bytes.length ≠ 0)
    (hacquire : s.ring.buffer.canAcquire ≠ false)
    (hroom : s.ring.popped.isSome → s.ring.buffer.used + 1 ≠ wsMaxPacketQueue) :
    Queued { s with
      ring := s.ring.store fun r => r.store client bytes hlength
      pending := s.pending ++ [(client, bytes)] } := by
  cases ha : s.ring.buffer.acquire with
  | none => exact absurd (CircularBuffer.acquire_eq_none.mp ha) hacquire
  | some slotBuffer =>
      obtain ⟨slot, buffer⟩ := slotBuffer
      have hpopped : (s.ring.store fun r => r.store client bytes hlength).popped =
          s.ring.popped := by
        rw [SlotRun.store, ha]
      refine ⟨SlotRun.store_inFront h.inFront hroom, ?_, ?_, ?_⟩
      · show List.Forall₂ _ (s.ring.store _).buffer.contents _
        rw [SlotRun.store, ha]
        show List.Forall₂ _ (buffer.fill slot _).contents _
        rw [CircularBuffer.contents_acquire_fill ha]
        exact List.rel_append h.waiting (.cons (WebSocketServer.store_holds _ _ _ _ h0) .nil)
      · intro slot value hvalue
        exact h.popped slot value (hpopped ▸ hvalue)
      · intro slot hslot
        obtain ⟨value, hvalue⟩ := h.inUse slot hslot
        exact ⟨value, hpopped.trans hvalue⟩

theorem Queued.take {s : WsTurns σ} (h : Queued s) (hidle : s.turn = .idle) :
    Queued s.take := by
  rw [WsTurns.take]
  cases hp : s.ring.buffer.pop with
  | none =>
      have hring : s.ring.pop = { s.ring with popped := none, handedOut := false } := by
        rw [SlotRun.pop, hp]
      refine ⟨s.ring.pop_inFront, ?_, ?_, ?_⟩
      · show List.Forall₂ _ s.ring.pop.buffer.contents s.pending
        rw [hring]
        exact h.waiting
      · intro slot value hvalue
        rw [hring] at hvalue
        cases hvalue
      · intro slot hslot
        have hnone : s.turn.slot = some slot := hslot
        rw [hidle] at hnone
        cases hnone
  | some slotBuffer =>
      obtain ⟨slot, buffer⟩ := slotBuffer
      have hring : s.ring.pop =
          { buffer, popped := some (slot, buffer.read slot), handedOut := false } := by
        rw [SlotRun.pop, hp]
      have hwaiting := h.waiting
      rw [CircularBuffer.contents_pop hp] at hwaiting
      obtain ⟨frame, pending, hhead, htail, hpending⟩ := List.forall₂_cons_left_iff.mp hwaiting
      dsimp only
      refine ⟨s.ring.pop_inFront, ?_, ?_, ?_⟩
      · show List.Forall₂ _ s.ring.pop.buffer.contents s.pending.tail
        rw [hring, hpending]
        exact htail
      · intro slot' value hvalue
        rw [hring] at hvalue
        cases hvalue
        exact ⟨frame, by rw [hpending]; rfl, hhead⟩
      · intro slot' hslot
        cases hslot
        exact ⟨buffer.read slot, by rw [hring]⟩

/-! ## Steps -/

theorem reads_undisturbed {s : WsTurns σ} (hs : Undisturbed s) (h : Queued s)
    {slot : Fin wsMaxPacketQueue} (hslot : s.turn.slot = some slot) :
    Undisturbed (s.reads slot) := by
  refine ⟨hs.1, ?_⟩
  intro x hx
  rcases List.mem_append.mp hx with hold | hnew
  · exact hs.2 x hold
  · obtain ⟨value, hvalue⟩ := h.inUse slot hslot
    obtain ⟨frame, hrequest, hholds⟩ := h.popped slot value hvalue
    rw [List.mem_singleton.mp hnew]
    refine ⟨frame, hrequest, ?_⟩
    show WebSocketServer.Holds (s.ring.buffer.read slot) frame
    rw [(hs.1 slot value hvalue).2]
    exact hholds

section
variable {handlePacketData : UInt32 → Packet → σ → Response × σ}

/-- A step of `handle_connection` reads the slot, and leaves the queue as it is. -/
theorem advance_cases {s t : WsTurns σ} (ht : s.advance handlePacketData = some t) :
    ∃ slot, s.turn.slot = some slot ∧ t.ring = s.ring ∧ t.pending = s.pending ∧
      t.request = s.request ∧ t.read = (s.reads slot).read ∧
      ∀ slot', t.turn.slot = some slot' → slot' = slot := by
  rw [advance] at ht
  cases hturn : s.turn with
  | idle =>
      rw [hturn] at ht
      cases ht
  | taken slot =>
      rw [hturn] at ht
      dsimp only at ht
      refine ⟨slot, rfl, ?_⟩
      split at ht
      · cases ht
        exact ⟨rfl, rfl, rfl, rfl, fun _ h => (Option.some.inj h).symm⟩
      · cases ht
        exact ⟨rfl, rfl, rfl, rfl, fun _ h => (Option.some.inj h).symm⟩
  | parsed slot requestId =>
      rw [hturn] at ht
      cases ht
      exact ⟨slot, rfl, rfl, rfl, rfl, rfl, fun _ h => (Option.some.inj h).symm⟩
  | answering slot requestId response =>
      rw [hturn] at ht
      cases ht
      exact ⟨slot, rfl, rfl, rfl, rfl, rfl, fun _ h => (by cases h)⟩

theorem step_undisturbed {s t : WsTurns σ} {e : WsTurnEvent} (hs : Undisturbed s) (h : Queued s)
    (hroom : LeavesRoom s e) (ht : s.step handlePacketData e = some t) :
    Undisturbed t ∧ Queued t := by
  cases e with
  | data client bytes =>
      cases ht
      rw [onData]
      split
      · exact ⟨hs, ⟨h.inFront, h.waiting, h.popped, h.inUse⟩⟩
      · rename_i h0
        split
        · rename_i hlength
          split
          · exact ⟨hs, ⟨h.inFront, h.waiting, h.popped, h.inUse⟩⟩
          · rename_i hacquire
            have hroom' := hroom h0 hlength
            exact ⟨⟨SlotRun.store_stable hs.1 h.inFront hroom', hs.2⟩,
              h.store hlength h0 hacquire hroom'⟩
        · exact ⟨hs, ⟨h.inFront, h.waiting, h.popped, h.inUse⟩⟩
  | handleConnection =>
      simp only [step] at ht
      split at ht
      · rename_i hidle
        cases ht
        refine ⟨?_, h.take hidle⟩
        rw [take]
        split
        · exact ⟨s.ring.pop_stable, hs.2⟩
        · exact ⟨s.ring.pop_stable, hs.2⟩
      · cases ht
  | advance =>
      obtain ⟨slot, hslot, hring, hpending, hrequest, hread, hturn⟩ := advance_cases ht
      obtain ⟨hstable, hreads⟩ := reads_undisturbed hs h hslot
      refine ⟨⟨hring ▸ hstable, hread ▸ hreads⟩, ⟨hring ▸ h.inFront, ?_, ?_, ?_⟩⟩
      · rw [hring, hpending]
        exact h.waiting
      · rw [hring, hrequest]
        exact h.popped
      · intro slot' hslot'
        rw [hturn slot' hslot', hring]
        exact h.inUse slot hslot

theorem not_undisturbed_step {s t : WsTurns σ} {e : WsTurnEvent} (h : Queued s)
    (hroom : ¬ LeavesRoom s e) (ht : s.step handlePacketData e = some t) : ¬ Undisturbed t := by
  cases e with
  | data client bytes =>
      have hroom' : ¬ (bytes.length ≠ 0 → bytes.length ≤ wsMaxPacketSize →
        s.ring.popped.isSome → s.ring.buffer.used + 1 ≠ wsMaxPacketQueue) := hroom
      rw [Classical.not_imp, Classical.not_imp] at hroom'
      obtain ⟨h0, hlength, hfills⟩ := hroom'
      have hacquire : s.ring.buffer.canAcquire ≠ false := by
        rw [CircularBuffer.canAcquire, Ne, decide_eq_false_iff_not, not_not]
        rw [Classical.not_imp, not_not] at hfills
        exact Nat.lt_of_succ_le hfills.2.le
      cases ht
      rw [onData, if_neg h0, dif_pos hlength, if_neg hacquire]
      intro hs
      exact SlotRun.not_stable_store h.inFront hfills hs.1
  | handleConnection | advance => exact absurd trivial hroom

end

/-! ## A turn without interruption -/

theorem parsePacket_ok {buffer : List UInt8} {length : UInt8} {packet : Packet}
    {requestId : UInt16} (h : parsePacket buffer length = .ok packet requestId) :
    packet = { header := .read buffer, data := buffer.drop packetHeaderSize } := by
  rw [parsePacket] at h
  split at h
  · cases h
  · dsimp only at h
    split at h
    · cases h
    · split at h
      · cases h
      · cases h
        rfl

theorem turn_whole (handlePacketData : UInt32 → Packet → σ → Response × σ) {s : WsTurns σ}
    {v : WebSocketServer σ} (hidle : s.turn = .idle) (hqueue : s.ring.buffer = v.requestQueue)
    (hsent : s.sent = v.sent) (happ : s.app = v.app) :
    ∃ n t, run (step handlePacketData) s (.handleConnection :: List.replicate n .advance) = some t ∧
      t.turn = .idle ∧ t.ring.buffer = (v.handleConnection handlePacketData).requestQueue ∧
      t.sent = (v.handleConnection handlePacketData).sent ∧
      t.app = (v.handleConnection handlePacketData).app := by
  have htake : step handlePacketData s .handleConnection = some s.take := by
    simp only [step, hidle]
  rw [WebSocketServer.handleConnection, ← hqueue]
  cases hp : s.ring.buffer.pop with
  | none =>
      refine ⟨0, s.take, by rw [run_cons htake]; rfl, ?_⟩
      rw [take, hp]
      refine ⟨hidle, ?_, hsent, happ⟩
      show s.ring.pop.buffer = v.requestQueue
      rw [SlotRun.pop, hp]
      exact hqueue
  | some slotBuffer =>
      obtain ⟨slot, buffer⟩ := slotBuffer
      have hring : s.ring.pop.buffer = buffer := by rw [SlotRun.pop, hp]
      have hturn : s.take.turn = .taken slot := by rw [take, hp]
      have hring' : s.take.ring.buffer = buffer := by
        rw [take, hp]
        exact hring
      have hsame : s.take.sent = v.sent ∧ s.take.app = v.app := by
        rw [take, hp]
        exact ⟨hsent, happ⟩
      -- the answer ends every turn
      have hanswer : ∀ (u : WsTurns σ) requestId response, u.ring.buffer = buffer →
          u.turn = .answering slot requestId response →
          step handlePacketData u .advance = some ({ u.reads slot with turn := .idle }.sendResponse
            (buffer.read slot).clientId requestId response) := by
        intro u requestId response hu hturn
        simp only [step, advance, hturn, hu]
      dsimp only
      cases hparse : parsePacket (buffer.read slot).data (UInt8.ofNat (buffer.read slot).size) with
      | fail response requestId =>
          have hfirst : step handlePacketData s.take .advance =
              some { s.take.reads slot with turn := .answering slot requestId response } := by
            simp only [step, advance, hturn, hring', hparse]
          have hlast := hanswer
            { s.take.reads slot with turn := .answering slot requestId response } requestId
            response hring' rfl
          refine ⟨2, _, (run_cons htake _).trans ((run_cons hfirst _).trans (run_cons hlast _)),
            rfl, hring', ?_, hsame.2⟩
          exact congrArg (· ++ _) hsame.1
      | ok packet requestId =>
          have hfirst : step handlePacketData s.take .advance =
              some { s.take.reads slot with turn := .parsed slot requestId } := by
            simp only [step, advance, hturn, hring', hparse]
          have hhandle : ∃ u, step handlePacketData
              { s.take.reads slot with turn := .parsed slot requestId } .advance = some u ∧
              u.ring = s.take.ring ∧ u.sent = s.take.sent ∧
              u.app = (handlePacketData (buffer.read slot).clientId packet v.app).2 ∧
              u.turn = .answering slot requestId
                (handlePacketData (buffer.read slot).clientId packet v.app).1 := by
            rw [parsePacket_ok hparse, ← hring', ← hsame.2]
            exact ⟨_, rfl, rfl, rfl, rfl, rfl⟩
          obtain ⟨u, hhandle, huring, husent, huapp, huturn⟩ := hhandle
          have hubuffer : u.ring.buffer = buffer := by rw [huring, hring']
          have hlast := hanswer u requestId _ hubuffer huturn
          refine ⟨3, _, (run_cons htake _).trans ((run_cons hfirst _).trans
            ((run_cons hhandle _).trans (run_cons hlast _))), rfl, hubuffer, ?_, huapp⟩
          exact congrArg (· ++ _) (husent.trans hsame.1)

/-! ## Runs -/

/-- **A popped slot is the consumer's until its next pop exactly when no `acquire` fills the ring up
while it is in use**: for rings of every size and content; and for the request queue, with whatever
is stored meanwhile, the request that is parsed, handled and answered is then the one that was
queued. -/
theorem popped_slot_stable {α : Type*} (n : ℕ) (default : α) (es : List (SlotEvent α))
    (handlePacketData : UInt32 → Packet → σ → Response × σ) (app : σ) (ws : List WsTurnEvent) :
    (Always SlotRun.step SlotRun.Stable (SlotRun.start default : SlotRun α (n + 1)) es ↔
      Each SlotRun.step SlotRun.LeavesRoom (SlotRun.start default : SlotRun α (n + 1)) es) ∧
    (Always (step handlePacketData) Undisturbed { app } ws ↔
      Each (step handlePacketData) LeavesRoom { app } ws) := by
  refine ⟨SlotRun.stable_iff default es, ?_⟩
  refine always_iff_each (I := fun s => Undisturbed s ∧ Queued s) (fun _ h => h.1) ?_ ?_ ?_
  · intro s e t hI hroom ht
    exact step_undisturbed hI.1 hI.2 hroom ht
  · intro s e t hI hroom ht
    exact not_undisturbed_step hI.2 hroom ht
  · refine ⟨⟨?_, ?_⟩, queued_start app⟩
    · intro slot value h
      cases h
    · intro x hx
      cases hx

/-- Ten frames of client 1 wait; the first is popped, and the frame of client 2 gets its slot. -/
def crowded : List WsTurnEvent :=
  List.replicate 10 (.data 1 [1]) ++ [.handleConnection, .data 2 [2], .advance]

/-- The parser is given the frame of client 2 in place of the one that was queued. -/
theorem popped_request_overwritten :
    ¬ Always (step fun _ _ app => (.code .ok, app)) Undisturbed { app := () } crowded := by
  intro h
  have hrun : ∃ t, run (step fun _ _ app => (.code .ok, app)) { app := () } crowded = some t ∧
      t.read.map (fun x => (x.1.clientId, x.2.map Prod.fst)) = [(2, some 1)] := ⟨_, rfl, rfl⟩
  obtain ⟨t, hrun, hread⟩ := hrun
  obtain ⟨-, hholds⟩ := always_iff_reached.mp h crowded [] t (List.append_nil _).symm hrun
  obtain ⟨x, hx, hpair⟩ := List.mem_map.mp (hread ▸ List.mem_singleton_self (2, some 1))
  obtain ⟨frame, hframe, hclient, -⟩ := hholds x hx
  rw [hframe, Option.map_some, hclient] at hpair
  cases (Prod.ext_iff.mp hpair).1.symm.trans (Option.some.inj (Prod.ext_iff.mp hpair).2)

end WsTurns

end EspIot
