/-
# `EspIot.Network.Discovery` — a scan of the channels for a peer or a hub

A scan tries one channel after the other, until it gets an answer:

    idle ──▶ trying c ──answer, timeout──▶ tried r ──next──▶ trying (c + 1)
                                              │
                                              ├──▶ resolved r
                                              └──▶ verifying c ──▶ resolved r      (a hub)

`trying` is a pending future of `_configure_peer_channel` or of `_discover_hub_channel`, and
`tried` one that has settled and whose callback `sequential` has still to run.

The channel that a scan finds is the counter's, carried through the attempt; the radio's is what
the driver has made of it.  `change_channel` asks the driver for three things and answers with
the result of the first: the other two stand in expression statements.

One scan goes on at a time.  In `discover_peer_channel` the third argument of `sequential` moves the
pointer that the first one reads and the second one copies, and the language leaves it to the
compiler which comes first.
-/
import EspIot.Lib.Run
import Mathlib.Data.UInt

namespace EspIot

open Lib

/-! ## The radio -/

/-- `channel` is the one it was last set to. -/
structure Radio where
  channel : UInt8
  promiscuous : Bool := false
deriving DecidableEq, Repr

/-- What one `change_channel` meets: whether `begin` has been called, and which of the three calls
of the driver answer `ESP_OK`. -/
structure ChannelCalls where
  initialized : Bool := true
  promiscuousOn : Bool := true
  setChannel : Bool := true
  promiscuousOff : Bool := true
deriving DecidableEq, Repr

namespace Radio

def setPromiscuous (on ok : Bool) (r : Radio) : Radio :=
  if ok then { r with promiscuous := on } else r

def setChannel (channel : UInt8) (ok : Bool) (r : Radio) : Radio :=
  if ok then { r with channel } else r

def changeChannel (channel : UInt8) (calls : ChannelCalls) (r : Radio) : Bool × Radio :=
  if !calls.initialized then (false, r)
  else
    let success := calls.promiscuousOn
    let r := r.setPromiscuous true calls.promiscuousOn
    -- the results of the two below are dropped
    let r := if success then r.setChannel channel calls.setChannel else r
    let r := if success then r.setPromiscuous false calls.promiscuousOff else r
    (success, r)

/-- The radio is where a `change_channel` that has answered `true` was to bring it. -/
def On (channel : UInt8) (r : Radio) : Prop := r.channel = channel ∧ r.promiscuous = false

end Radio

/-- The driver has set the channel, or the radio was on it; and promiscuous mode is off again. -/
def ChannelCalls.Land (channel : UInt8) (before : Radio) (calls : ChannelCalls) : Prop :=
  (calls.setChannel = true ∨ before.channel = channel) ∧ calls.promiscuousOff = true

/-- Where `change_channel` answers `true`, the other two results show in the radio only. -/
theorem Radio.changeChannel_radio {channel : UInt8} {calls : ChannelCalls} {r : Radio}
    (h : (r.changeChannel channel calls).1 = true) :
    (r.changeChannel channel calls).2 =
      { channel := if calls.setChannel then channel else r.channel
        promiscuous := !calls.promiscuousOff } := by
  rw [changeChannel] at h ⊢
  cases hinitialized : calls.initialized with
  | false =>
      rw [hinitialized] at h
      cases h
  | true =>
      rw [hinitialized] at h
      have hon : calls.promiscuousOn = true := h
      rw [hon]
      cases calls.setChannel <;> cases calls.promiscuousOff <;> rfl

theorem Radio.changeChannel_on {channel : UInt8} {calls : ChannelCalls} {r : Radio}
    (h : (r.changeChannel channel calls).1 = true) :
    (r.changeChannel channel calls).2.On channel ↔ calls.Land channel r := by
  rw [changeChannel_radio h, On, ChannelCalls.Land]
  dsimp only
  refine and_congr ?_ (Bool.not_eq_false' _).to_iff
  cases calls.setChannel with
  | true => exact ⟨fun _ => .inl rfl, fun _ => rfl⟩
  | false => exact ⟨.inr, fun hset => hset.resolve_left Bool.false_ne_true⟩

/-! ## The scan -/

inductive DiscoveryTarget
  | peer
  | hub
deriving DecidableEq, Repr

/-- The answer of an attempt and of a scan is a channel, or it is an error.  `request` is what the
request of the attempt has come to, where there is one.  A scan is `faulted` that has read the null
pointer. -/
inductive DiscoveryPhase
  | idle
  | trying (channel : UInt8) (request : Option Bool)
  | tried (result : Option UInt8)
  | verifying (channel : UInt8)
  | resolved (result : Option UInt8)
  | faulted
deriving DecidableEq, Repr

/-- The channel that the scan is at or has found. -/
def DiscoveryPhase.channel : DiscoveryPhase → Option UInt8
  | trying channel _ | verifying channel => some channel
  | tried result | resolved result => result
  | idle | faulted => none

/-- What the compiler has evaluated before the pointer is moved: the first attempt, and the lambda
`has_next_fn`. -/
structure ArgumentOrder where
  attemptFirst : Bool := true
  hasNextFirst : Bool := true
deriving DecidableEq, Repr

/-- A scan with its counter, and the radio.  `calls` are the answers of the driver in the attempt
made last, `before` is the radio before it. -/
structure Discovery where
  radio : Radio
  order : ArgumentOrder := {}
  target : DiscoveryTarget := .peer
  counter : UInt8 := 0
  phase : DiscoveryPhase := .idle
  calls : ChannelCalls := {}
  before : Radio := radio
deriving DecidableEq, Repr

/-- A scan begins; the packet to the peer is sent or is not; the request to the hub ends; the first
of request and delay has ended, with or without success; the callback of `sequential` runs; the
ping of the hub ends. -/
inductive DiscoveryEvent
  | discover (target : DiscoveryTarget) (calls : ChannelCalls)
  | sent (ok : Bool)
  | requested (ok : Bool)
  | raced (ok : Bool)
  | next (calls : ChannelCalls)
  | pinged (ok : Bool)
deriving DecidableEq, Repr

namespace Discovery

/-- An attempt at the counter's channel, which it moves: `_configure_peer_channel` and
`_discover_hub_channel` begin alike. -/
def attempt (calls : ChannelCalls) (s : Discovery) : Discovery :=
  let channel := s.counter
  let s := { s with counter := s.counter + 1 }
  if 14 < channel then { s with phase := .tried none }
  else
    let r := s.radio.changeChannel channel calls
    { s with
      radio := r.2
      phase := if !r.1 then .tried none else .trying channel none
      calls
      before := s.radio }

/-- `has_next_fn` -/
def hasNext (result : Option UInt8) (s : Discovery) : Bool := result.isNone && s.counter < 14

/-- The first attempt reads a pointer that has been moved away. -/
def attemptFaults (s : Discovery) : Bool := s.target = .peer && !s.order.attemptFirst

theorem attemptFaults_hub {s : Discovery} (h : s.target = .hub) : s.attemptFaults = false := by
  rw [attemptFaults, h]
  rfl

/-- `has_next_fn` does; it reads it only after an attempt that has failed. -/
def hasNextFaults (result : Option UInt8) (s : Discovery) : Bool :=
  s.target = .peer && !s.order.hasNextFirst && result.isNone

/-- What the scan does with the result of `sequential`: that for a hub is verified. -/
def conclude (result : Option UInt8) (s : Discovery) : Discovery :=
  match result with
  | none => { s with phase := .resolved none }
  | some channel =>
      { s with
        phase := if s.target = .hub then .verifying channel else .resolved (some channel) }

def step (s : Discovery) : DiscoveryEvent → Option Discovery
  | .discover target calls =>
      match s.phase with
      | .idle | .resolved _ =>
          let s := { s with target, counter := 0 }
          some (if s.attemptFaults then { s with phase := .faulted } else s.attempt calls)
      | _ => none
  | .sent ok =>
      match s.target, s.phase with
      | .peer, .trying channel _ =>
          some { s with phase := .tried (if ok then some channel else none) }
      | _, _ => none
  | .requested ok =>
      match s.target, s.phase with
      | .hub, .trying channel none => some { s with phase := .trying channel (some ok) }
      | _, _ => none
  | .raced ok =>
      match s.target, s.phase with
      | .hub, .trying channel request =>
          some { s with
            phase := .tried (if ok && request = some true then some channel else none) }
      | _, _ => none
  | .next calls =>
      match s.phase with
      | .tried result =>
          some (if s.hasNextFaults result then { s with phase := .faulted }
            else if s.hasNext result then s.attempt calls
            else s.conclude result)
      | _ => none
  | .pinged ok =>
      match s.phase with
      | .verifying channel => some { s with phase := .resolved (if ok then some channel else none) }
      | _ => none

/-- **The channel that was found is the radio's, and promiscuous mode is off.** -/
def Matches (s : Discovery) : Prop :=
  ∀ channel, s.phase = .resolved (some channel) → s.radio.On channel

/-- A scan resolves with the channel of an attempt in which the driver has set it, or the radio was
on it, and has switched promiscuous mode off. -/
def Lands (s : Discovery) : DiscoveryEvent → Prop
  | .next _ => s.target = .peer → ∀ channel, s.phase = .tried (some channel) →
      s.calls.Land channel s.before
  | .pinged ok => ok = true → ∀ channel, s.phase = .verifying channel →
      s.calls.Land channel s.before
  | _ => True

/-! ## The attempt behind a channel -/

/-- The radio is what the last attempt has left. -/
structure Inv (s : Discovery) : Prop where
  attempted : ∀ channel, s.phase.channel = some channel →
    (s.before.changeChannel channel s.calls).1 = true ∧
      s.radio = (s.before.changeChannel channel s.calls).2
  landed : ∀ channel, s.phase = .resolved (some channel) → s.calls.Land channel s.before

theorem Inv.on_iff {s : Discovery} (h : Inv s) {channel : UInt8}
    (hchannel : s.phase.channel = some channel) :
    s.radio.On channel ↔ s.calls.Land channel s.before := by
  obtain ⟨hsuccess, hradio⟩ := h.attempted channel hchannel
  rw [hradio]
  exact Radio.changeChannel_on hsuccess

theorem Inv.matches {s : Discovery} (h : Inv s) : Matches s := by
  intro channel hphase
  have hchannel : s.phase.channel = some channel := by
    rw [hphase]
    rfl
  exact (h.on_iff hchannel).mpr (h.landed channel hphase)

theorem inv_attempt (calls : ChannelCalls) (s : Discovery) : Inv (s.attempt calls) := by
  rw [attempt]
  dsimp only
  split
  · exact ⟨nofun, nofun⟩
  · cases hsuccess : (s.radio.changeChannel s.counter calls).1 with
    | true =>
        refine ⟨?_, nofun⟩
        intro channel hchannel
        cases hchannel
        exact ⟨hsuccess, rfl⟩
    | false => exact ⟨nofun, nofun⟩

theorem Inv.setPhase {s : Discovery} (h : Inv s) {phase : DiscoveryPhase}
    (hchannel : ∀ channel, phase.channel = some channel → s.phase.channel = some channel)
    (hland : ∀ channel, phase = .resolved (some channel) → s.calls.Land channel s.before) :
    Inv { s with phase } where
  attempted channel hphase := h.attempted channel (hchannel channel hphase)
  landed := hland

theorem Inv.concludes {s : Discovery} (h : Inv s) {result : Option UInt8}
    (hphase : s.phase = .tried result)
    (hland : s.target = .peer → ∀ channel, s.phase = .tried (some channel) →
      s.calls.Land channel s.before) : Inv (s.conclude result) := by
  have hsame : ∀ channel, result = some channel → s.phase.channel = some channel := by
    intro channel hresult
    rw [hphase]
    exact hresult
  cases result with
  | none => exact h.setPhase nofun nofun
  | some channel =>
      rw [conclude]
      refine h.setPhase ?_ ?_
      · intro channel' hchannel
        split at hchannel
        · exact hsame channel' hchannel
        · exact hsame channel' hchannel
      · intro channel' hresolved
        split at hresolved
        · cases hresolved
        · next hpeer =>
            cases hresolved
            refine hland ?_ channel hphase
            cases htarget : s.target with
            | peer => rfl
            | hub => exact absurd htarget hpeer

theorem Inv.step {s t : Discovery} {e : DiscoveryEvent} (h : Inv s) (hland : s.Lands e)
    (ht : s.step e = some t) : Inv t := by
  cases e with
  | discover target calls =>
      have hbegins : Inv (if { s with target, counter := 0 }.attemptFaults then
          { s with target, counter := 0, phase := .faulted }
            else { s with target, counter := 0 }.attempt calls) := by
        split
        · exact ⟨nofun, nofun⟩
        · exact inv_attempt _ _
      rw [Discovery.step] at ht
      split at ht
      · cases ht
        exact hbegins
      · cases ht
        exact hbegins
      · cases ht
  | sent ok =>
      rw [Discovery.step] at ht
      split at ht
      · next channel request _ hphase =>
          cases ht
          refine h.setPhase ?_ nofun
          rw [hphase]
          intro channel' hchannel
          cases ok with
          | true => exact hchannel
          | false => cases hchannel
      · cases ht
  | requested ok =>
      rw [Discovery.step] at ht
      split at ht
      · next channel _ hphase =>
          cases ht
          refine h.setPhase ?_ nofun
          rw [hphase]
          intro channel' hchannel
          exact hchannel
      · cases ht
  | raced ok =>
      rw [Discovery.step] at ht
      split at ht
      · next channel request _ hphase =>
          cases ht
          refine h.setPhase ?_ nofun
          rw [hphase]
          intro channel' hchannel
          rw [DiscoveryPhase.channel] at hchannel
          split at hchannel
          · exact hchannel
          · cases hchannel
      · cases ht
  | next calls =>
      rw [Discovery.step] at ht
      split at ht
      · next result hphase =>
          cases ht
          split
          · exact ⟨nofun, nofun⟩
          · split
            · exact inv_attempt _ _
            · exact h.concludes hphase hland
      · cases ht
  | pinged ok =>
      rw [Discovery.step] at ht
      split at ht
      · next channel hphase =>
          cases ht
          cases ok with
          | false => exact h.setPhase nofun nofun
          | true =>
              refine h.setPhase ?_ ?_
              · rw [hphase]
                intro channel' hchannel
                exact hchannel
              · intro channel' hresolved
                cases hresolved
                exact hland rfl channel hphase
      · cases ht

/-! ## The channel that is found -/

theorem Inv.mismatch {s t : Discovery} {e : DiscoveryEvent} (h : Inv s) (hnot : ¬ s.Lands e)
    (ht : s.step e = some t) : ¬ Matches t := by
  intro hmatches
  cases e with
  | next calls =>
      refine hnot ?_
      intro hpeer channel hphase
      have hchannel : s.phase.channel = some channel := by
        rw [hphase]
        rfl
      rw [Discovery.step, hphase] at ht
      cases ht
      have hhub : s.target ≠ .hub := by
        rw [hpeer]
        exact nofun
      have hon := hmatches channel
      rw [hasNextFaults, hasNext, Option.isNone_some, Bool.and_false, Bool.false_and,
        if_neg Bool.false_ne_true, if_neg Bool.false_ne_true, conclude, if_neg hhub] at hon
      exact (h.on_iff hchannel).mp (hon rfl)
  | pinged ok =>
      refine hnot ?_
      intro hok channel hphase
      have hchannel : s.phase.channel = some channel := by
        rw [hphase]
        rfl
      rw [Discovery.step, hphase] at ht
      cases ht
      have hon := hmatches channel
      rw [hok] at hon
      exact (h.on_iff hchannel).mp (hon rfl)
  | discover | sent | requested | raced => exact hnot trivial

/-- **Every scan of a run ends with the radio on the channel that it has found, and with promiscuous
mode off, exactly where in each attempt that a scan resolves with the driver has set the channel,
or the radio was on it, and has switched promiscuous mode off**, whatever the compiler evaluates
first. -/
theorem matches_iff_lands (radio : Radio) (order : ArgumentOrder) (es : List DiscoveryEvent) :
    Always step Matches { radio, order } es ↔ Each step Lands { radio, order } es := by
  refine always_iff_each (fun _ h => Inv.matches h) ?_ ?_
    (⟨nofun, nofun⟩ : Inv { radio, order })
  · intro s e t h hland ht
    exact h.step hland ht
  · intro s e t h hnot ht
    exact h.mismatch hnot ht

/-- The driver refuses the first channel; a hub answers on the one the radio is on, and answers the
ping. -/
theorem found_off_channel :
    ¬ Always step Matches { radio := { channel := 6 } }
      [.discover .hub { setChannel := false }, .requested true, .raced true, .next {},
        .pinged true] := by
  intro h
  have hmatches := always_iff_reached.mp h _ [] _ (List.append_nil _).symm rfl
  exact absurd (hmatches 0 (by decide)).1 (by decide)

/-- Where the pointer is moved before the first attempt, a scan for a peer ends there. -/
theorem peer_faults {s t : Discovery} {calls : ChannelCalls} (horder : s.order.attemptFirst = false)
    (ht : s.step (.discover .peer calls) = some t) : t.phase = .faulted := by
  have hfaults : { s with target := .peer, counter := 0 }.attemptFaults = true := by
    rw [attemptFaults, horder]
    rfl
  rw [Discovery.step] at ht
  split at ht
  · cases ht
    rw [if_pos hfaults]
  · cases ht
    rw [if_pos hfaults]
  · cases ht

end Discovery

end EspIot
