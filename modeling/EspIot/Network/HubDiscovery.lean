/-
# `EspIot.Network.HubDiscovery` — whose address a scan for a hub gives out

`discover_hub` writes the address of the hub into a buffer of its caller.  The one who writes is
the continuation of `discovery`, whenever a valid answer comes to its request; and a request has no
timeout.  An attempt that the 100 ms of its channel have ended leaves one behind:

    discovery 0 ── 100 ms ──▶ given up ─ ─ ─ ─ ─ ─ answered late ─▶ out
    discovery 1 ── answered ─▶ out ── ping out ──▶ resolved 1

`Discovery` is the scan itself; here stand the requests beside it, the buffer, and the address
that the ping of the last line was sent to.  A caller gives the same buffer to all its scans.
-/
import EspIot.Network.Discovery
import EspIot.Network.NowIo

namespace EspIot

open Lib

def systemResponse : UInt8 := 0xff

/-- What `ping` and `discovery` take for an answer. -/
def NowPacket.valid (response : NowPacket) : Bool :=
  response.type = systemResponse && response.count = 0 && response.size = 0

/-- The future of one `discovery`: an error is an answer that is not valid, or a request that
failed. -/
inductive Probe
  | pending
  | errored
  | answered (macAddr : Mac)
deriving DecidableEq, Repr

/-- A scan for a hub.  `probes` are the calls of `discovery` with their channels, oldest first, and
`current` is that of the attempt that goes on or has succeeded; `out` is `out_mac_addr`. -/
structure HubScan where
  scan : Discovery
  probes : List (UInt8 × Probe) := []
  current : Option ℕ := none
  out : Mac
  pinged : Option Mac := none
deriving DecidableEq

/-- A scan begins; a probe is answered, or its request fails; the future of the current probe ends;
the first of request and delay has ended; the callback of `sequential` runs; the address found is
pinged; the ping ends. -/
inductive HubEvent
  | discoverHub (calls : ChannelCalls)
  | responded (probe : ℕ) (response : NowPacket)
  | failed (probe : ℕ)
  | requested
  | raced (ok : Bool)
  | next (calls : ChannelCalls)
  | ping
  | pinged (ok : Bool)
deriving DecidableEq

namespace HubScan

def probe (s : HubScan) : Option (UInt8 × Probe) := s.current.bind (s.probes[·]?)

/-- An attempt has called `discovery`, or could not; or the scan is at its end. -/
def probing (s : HubScan) (scan : Discovery) : HubScan :=
  match scan.phase with
  | .trying channel _ =>
      { s with
        scan
        probes := s.probes ++ [(channel, .pending)]
        current := some s.probes.length
        pinged := none }
  | .verifying _ => { s with scan }
  | _ => { s with scan, current := none, pinged := none }

/-- The attempt or the scan has ended; nobody waits for its probe where it has failed. -/
def concluded (s : HubScan) (scan : Discovery) : HubScan :=
  if scan.phase.channel.isSome then { s with scan }
  else { s with scan, current := none, pinged := none }

def settle (s : HubScan) (p : ℕ) (probe : Probe) : Option HubScan :=
  match s.probes[p]? with
  | some (channel, .pending) => some { s with probes := s.probes.set p (channel, probe) }
  | _ => none

/-- The continuation of `discovery`. -/
def respond (s : HubScan) (p : ℕ) (response : NowPacket) : Option HubScan :=
  if response.valid then
    { s with out := response.macAddr }.settle p (.answered response.macAddr)
  else s.settle p .errored

/-- The events of the scan itself that an event is. -/
def scanEvents (s : HubScan) : HubEvent → List DiscoveryEvent
  | .discoverHub calls => [.discover .hub calls]
  | .requested =>
      match s.probe with
      | some (_, .answered _) => [.requested true]
      | some (_, .errored) => [.requested false]
      | _ => []
  | .raced ok => [.raced ok]
  | .next calls => [.next calls]
  | .pinged ok => [.pinged ok]
  | .responded _ _ | .failed _ | .ping => []

def step (s : HubScan) : HubEvent → Option HubScan
  | .discoverHub calls => (s.scan.step (.discover .hub calls)).map s.probing
  | .responded p response => s.respond p response
  | .failed p => s.settle p .errored
  | .requested =>
      match s.probe with
      | some (_, .answered _) => (s.scan.step (.requested true)).map fun scan => { s with scan }
      | some (_, .errored) => (s.scan.step (.requested false)).map fun scan => { s with scan }
      | _ => none
  | .raced ok => (s.scan.step (.raced ok)).map s.concluded
  | .next calls => (s.scan.step (.next calls)).map s.probing
  | .ping =>
      match s.scan.phase, s.pinged with
      | .verifying _, none => some { s with pinged := some s.out }
      | _, _ => none
  | .pinged ok =>
      match s.pinged with
      | some _ => (s.scan.step (.pinged ok)).map s.concluded
      | none => none

/-- The device that answered the current probe. -/
def answerer (s : HubScan) : Option Mac :=
  match s.probe with
  | some (_, .answered macAddr) => some macAddr
  | _ => none

/-- **The caller holds the address of the device that answered on the channel of the attempt, the
ping is sent to that device, and no scan resolves with a channel without it.** -/
structure Verified (s : HubScan) : Prop where
  held : ∀ macAddr, s.answerer = some macAddr → s.out = macAddr
  pinged : ∀ macAddr, s.pinged = some macAddr → s.answerer = some macAddr
  resolved : ∀ channel, s.scan.phase = .resolved (some channel) →
    s.pinged.isSome ∧ s.probe.map Prod.fst = some channel

/-- No other device answers a probe any more, once the current one is answered. -/
def SameDevice (s : HubScan) : HubEvent → Prop
  | .responded _ response => response.valid = true →
      ∀ macAddr, s.answerer = some macAddr → response.macAddr = macAddr
  | _ => True

/-! ## The current probe -/

/-- What a scan for a hub knows in each of its phases. -/
def At (s : HubScan) : DiscoveryPhase → Prop
  | .idle | .tried none | .resolved none | .faulted => s.current = none ∧ s.pinged = none
  | .trying channel request =>
      s.pinged = none ∧ ∃ state, s.probe = some (channel, state) ∧
        (request = some true → ∃ macAddr, state = .answered macAddr)
  | .tried (some channel) =>
      s.scan.target = .hub ∧ s.pinged = none ∧
        ∃ macAddr, s.probe = some (channel, .answered macAddr)
  | .verifying channel => ∃ macAddr, s.probe = some (channel, .answered macAddr)
  | .resolved (some channel) =>
      s.pinged.isSome ∧ ∃ macAddr, s.probe = some (channel, .answered macAddr)

structure Known (s : HubScan) : Prop where
  phase : s.At s.scan.phase
  held : ∀ macAddr, s.answerer = some macAddr → s.out = macAddr
  pinged : ∀ macAddr, s.pinged = some macAddr → s.answerer = some macAddr

theorem answerer_eq {s : HubScan} {channel : UInt8} {macAddr : Mac}
    (h : s.probe = some (channel, .answered macAddr)) : s.answerer = some macAddr := by
  rw [answerer, h]

theorem answerer_pending {s : HubScan} {channel : UInt8}
    (h : s.probe = some (channel, .pending)) : s.answerer = none := by
  rw [answerer, h]

theorem answerer_congr {s t : HubScan} (h : t.probe = s.probe) : t.answerer = s.answerer := by
  rw [answerer, answerer, h]

theorem answerer_quiet {s : HubScan} (h : s.current = none) : s.answerer = none := by
  rw [answerer, probe, h]
  rfl

theorem Known.verified {s : HubScan} (h : Known s) : Verified s where
  held := h.held
  pinged := h.pinged
  resolved channel hphase := by
    have hat := h.phase
    rw [hphase] at hat
    obtain ⟨hpinged, macAddr, hprobe⟩ := hat
    exact ⟨hpinged, by rw [hprobe]; rfl⟩

theorem Known.quiet {s : HubScan} (hphase : s.scan.phase.channel = none)
    (hcurrent : s.current = none) (hpinged : s.pinged = none) : Known s where
  phase := by
    match hs : s.scan.phase, hphase with
    | .idle, _ => exact ⟨hcurrent, hpinged⟩
    | .tried none, _ => exact ⟨hcurrent, hpinged⟩
    | .resolved none, _ => exact ⟨hcurrent, hpinged⟩
    | .faulted, _ => exact ⟨hcurrent, hpinged⟩
  held macAddr h := by
    rw [answerer_quiet hcurrent] at h
    cases h
  pinged macAddr h := by
    rw [hpinged] at h
    cases h

/-! ## What each event does -/

/-- A probe that ends is an old one, or the current one. -/
theorem settle_cases {s t : HubScan} {p : ℕ} {state : Probe} (h : s.settle p state = some t) :
    (t.scan = s.scan ∧ t.out = s.out ∧ t.current = s.current ∧ t.pinged = s.pinged) ∧
      (t.probe = s.probe ∨
        ∃ channel, s.probe = some (channel, .pending) ∧ t.probe = some (channel, state)) := by
  rw [settle] at h
  split at h
  · next channel hp =>
      cases h
      refine ⟨⟨rfl, rfl, rfl, rfl⟩, ?_⟩
      rw [probe, probe]
      cases hcurrent : s.current with
      | none => exact .inl rfl
      | some q =>
          rw [Option.bind_some, Option.bind_some]
          by_cases hq : p = q
          · subst hq
            refine .inr ⟨channel, hp, ?_⟩
            obtain ⟨hlt, _⟩ := List.getElem?_eq_some_iff.mp hp
            exact List.getElem?_set_self hlt
          · exact .inl (List.getElem?_set_ne hq)
  · cases h

theorem At.settle {s t : HubScan} {p : ℕ} {state : Probe} {phase : DiscoveryPhase}
    (h : s.At phase) (ht : s.settle p state = some t) : t.At phase := by
  obtain ⟨⟨hscan, _, hcurrent, hpinged⟩, hprobe⟩ := settle_cases ht
  -- a probe that has been answered is not the one that ends
  have hsame : ∀ {channel macAddr}, s.probe = some (channel, .answered macAddr) →
      t.probe = some (channel, .answered macAddr) := by
    intro channel macAddr hs
    rcases hprobe with hkept | ⟨channel', hpending, _⟩
    · exact hkept.trans hs
    · rw [hs] at hpending
      cases hpending
  match phase, h with
  | .idle, h | .tried none, h | .resolved none, h | .faulted, h =>
      exact ⟨hcurrent.trans h.1, hpinged.trans h.2⟩
  | .trying channel request, ⟨hnone, state', hs, hheard⟩ =>
      refine ⟨hpinged.trans hnone, ?_⟩
      rcases hprobe with hkept | ⟨channel', hpending, hset⟩
      · exact ⟨state', hkept.trans hs, hheard⟩
      · rw [hs] at hpending
        cases hpending
        refine ⟨state, hset, ?_⟩
        intro hrequest
        obtain ⟨macAddr, hanswered⟩ := hheard hrequest
        cases hanswered
  | .tried (some channel), ⟨hhub, hnone, macAddr, hs⟩ =>
      exact ⟨hscan ▸ hhub, hpinged.trans hnone, macAddr, hsame hs⟩
  | .verifying channel, ⟨macAddr, hs⟩ => exact ⟨macAddr, hsame hs⟩
  | .resolved (some channel), ⟨hsome, macAddr, hs⟩ =>
      exact ⟨hpinged ▸ hsome, macAddr, hsame hs⟩

theorem Known.errored {s t : HubScan} {p : ℕ} (h : Known s)
    (ht : s.settle p .errored = some t) : Known t := by
  obtain ⟨⟨hscan, hout, _, hpinged⟩, hprobe⟩ := settle_cases ht
  have hanswerer : t.answerer = s.answerer := by
    rcases hprobe with hkept | ⟨channel, hpending, hset⟩
    · exact answerer_congr hkept
    · rw [answerer_pending hpending, answerer, hset]
  refine ⟨?_, ?_, ?_⟩
  · rw [hscan]
    exact h.phase.settle ht
  · rw [hanswerer, hout]
    exact h.held
  · rw [hanswerer, hpinged]
    exact h.pinged

theorem Known.answered {s t : HubScan} {p : ℕ} {macAddr : Mac} (h : Known s)
    (hsame : ∀ macAddr', s.answerer = some macAddr' → macAddr = macAddr')
    (ht : { s with out := macAddr }.settle p (.answered macAddr) = some t) : Known t := by
  have hphase : t.At s.scan.phase := At.settle (s := { s with out := macAddr }) h.phase ht
  obtain ⟨⟨hscan, hout, _, hpinged⟩, hprobe⟩ := settle_cases ht
  refine ⟨hscan ▸ hphase, ?_, ?_⟩
  · intro macAddr' hanswerer
    rw [hout]
    rcases hprobe with hkept | ⟨channel, _, hset⟩
    · exact hsame macAddr' ((answerer_congr hkept).symm.trans hanswerer)
    · rw [answerer_eq hset] at hanswerer
      exact Option.some.inj hanswerer
  · intro macAddr' hsome
    have hanswerer := h.pinged macAddr' (hpinged.symm.trans hsome)
    rcases hprobe with hkept | ⟨channel, hpending, _⟩
    · exact (answerer_congr hkept).trans hanswerer
    · have hnone : s.answerer = none := answerer_pending hpending
      rw [hnone] at hanswerer
      cases hanswerer

theorem attempt_phase (calls : ChannelCalls) (scan : Discovery) :
    (scan.attempt calls).phase = .trying scan.counter none ∨
      (scan.attempt calls).phase = .tried none := by
  rw [Discovery.attempt]
  dsimp only
  split
  · exact .inr rfl
  · cases (scan.radio.changeChannel scan.counter calls).1 with
    | true => exact .inl rfl
    | false => exact .inr rfl

theorem known_attempt (calls : ChannelCalls) (scan : Discovery) (s : HubScan) :
    Known (s.probing (scan.attempt calls)) := by
  rcases attempt_phase calls scan with hphase | hphase
  · have hprobe : (s.probing (scan.attempt calls)).probe = some (scan.counter, .pending) := by
      rw [probing, hphase]
      exact List.getElem?_concat_length
    have hpinged : (s.probing (scan.attempt calls)).pinged = none := by
      rw [probing, hphase]
    have hscan : (s.probing (scan.attempt calls)).scan.phase = .trying scan.counter none := by
      rw [probing, hphase]
      exact hphase
    refine ⟨?_, ?_, ?_⟩
    · rw [hscan]
      exact ⟨hpinged, .pending, hprobe, nofun⟩
    · intro macAddr hanswerer
      rw [answerer_pending hprobe] at hanswerer
      cases hanswerer
    · intro macAddr hsome
      rw [hpinged] at hsome
      cases hsome
  · rw [probing, hphase]
    refine Known.quiet ?_ rfl rfl
    show (scan.attempt calls).phase.channel = none
    rw [hphase]
    rfl

theorem Known.goesOn {s : HubScan} (h : Known s) {scan : Discovery}
    (hat : At { s with scan } scan.phase) : Known { s with scan } :=
  ⟨hat, h.held, h.pinged⟩

theorem Known.concluded {s : HubScan} (h : Known s) {scan : Discovery}
    (hat : scan.phase.channel.isSome → At { s with scan } scan.phase) :
    Known (s.concluded scan) := by
  rw [HubScan.concluded]
  split
  · next hsome => exact h.goesOn (hat hsome)
  · next hnone => exact Known.quiet (Option.not_isSome_iff_eq_none.mp hnone) rfl rfl

/-! ## Every run -/

/-- The attempt's request resolves, of which the probe that is answered knows the device. -/
theorem Known.requested {s t : HubScan} (h : Known s) (ht : s.step .requested = some t) :
    Known t := by
  have hat := h.phase
  rw [HubScan.step] at ht
  split at ht
  · next channel macAddr hprobe =>
      rw [Discovery.step] at ht
      split at ht
      · next channel' _ hphase =>
          cases ht
          rw [hphase] at hat
          obtain ⟨hnone, state, hs, _⟩ := hat
          refine h.goesOn ⟨hnone, state, hs, ?_⟩
          intro _
          rw [hs] at hprobe
          cases hprobe
          exact ⟨macAddr, rfl⟩
      · cases ht
  · rw [Discovery.step] at ht
    split at ht
    · next channel' _ hphase =>
        cases ht
        rw [hphase] at hat
        obtain ⟨hnone, state, hs, _⟩ := hat
        exact h.goesOn ⟨hnone, state, hs, fun h => by cases h⟩
    · cases ht
  · cases ht

theorem Known.raced {s t : HubScan} {ok : Bool} (h : Known s)
    (ht : s.step (.raced ok) = some t) : Known t := by
  have hat := h.phase
  rw [HubScan.step, Discovery.step] at ht
  split at ht
  · next channel request htarget hphase =>
      cases ht
      rw [hphase] at hat
      obtain ⟨hnone, state, hs, hheard⟩ := hat
      refine h.concluded ?_
      dsimp only
      split
      · next hwon =>
          intro _
          obtain ⟨macAddr, rfl⟩ := hheard (of_decide_eq_true (Bool.and_elim_right hwon))
          exact ⟨htarget, hnone, macAddr, hs⟩
      · intro hsome
        cases hsome
  · cases ht

theorem Known.next {s t : HubScan} {calls : ChannelCalls} (h : Known s)
    (ht : s.step (.next calls) = some t) : Known t := by
  have hat := h.phase
  rw [HubScan.step, Discovery.step] at ht
  split at ht
  · next result hphase =>
      cases ht
      split
      · exact Known.quiet rfl rfl rfl
      · split
        · exact known_attempt ..
        · rw [hphase] at hat
          cases result with
          | none => exact Known.quiet rfl rfl rfl
          | some channel =>
              obtain ⟨hhub, _, hprobe⟩ := hat
              rw [Discovery.conclude, if_pos hhub]
              exact h.goesOn hprobe
  · cases ht

theorem Known.ping {s t : HubScan} (h : Known s) (ht : s.step .ping = some t) : Known t := by
  have hat := h.phase
  rw [HubScan.step] at ht
  split at ht
  · next channel hphase _ =>
      cases ht
      rw [hphase] at hat
      obtain ⟨macAddr, hprobe⟩ := hat
      refine ⟨?_, h.held, ?_⟩
      · show At { s with pinged := some s.out } s.scan.phase
        rw [hphase]
        exact ⟨macAddr, hprobe⟩
      · intro macAddr' hout
        cases hout
        have hanswerer := answerer_eq hprobe
        rw [h.held macAddr hanswerer]
        exact hanswerer
  · cases ht

theorem Known.pingAnswered {s t : HubScan} {ok : Bool} (h : Known s)
    (ht : s.step (.pinged ok) = some t) : Known t := by
  have hat := h.phase
  rw [HubScan.step] at ht
  split at ht
  · next macAddr hpinged =>
      rw [Discovery.step] at ht
      split at ht
      · next channel hphase =>
          cases ht
          rw [hphase] at hat
          refine h.concluded ?_
          cases ok with
          | false =>
              intro hsome
              cases hsome
          | true =>
              intro _
              exact ⟨by rw [hpinged]; rfl, hat⟩
      · cases ht
  · cases ht

theorem Known.step {s t : HubScan} {e : HubEvent} (h : Known s) (hsame : s.SameDevice e)
    (ht : s.step e = some t) : Known t := by
  cases e with
  | discoverHub calls =>
      rw [HubScan.step, Discovery.step] at ht
      dsimp only at ht
      rw [Discovery.attemptFaults_hub rfl, if_neg Bool.false_ne_true] at ht
      split at ht
      · cases ht
        exact known_attempt ..
      · cases ht
        exact known_attempt ..
      · cases ht
  | responded p response =>
      rw [HubScan.step, respond] at ht
      split at ht
      · next hvalid => exact h.answered (hsame hvalid) ht
      · exact h.errored ht
  | failed p => exact h.errored ht
  | requested => exact h.requested ht
  | raced ok => exact h.raced ht
  | next calls => exact h.next ht
  | ping => exact h.ping ht
  | pinged ok => exact h.pingAnswered ht

theorem overwritten {s t : HubScan} {e : HubEvent} (hnot : ¬ s.SameDevice e)
    (ht : s.step e = some t) : ¬ Verified t := by
  intro hverified
  cases e with
  | responded p response =>
      obtain ⟨hvalid, hother⟩ := Classical.not_imp.mp hnot
      obtain ⟨macAddr, hanswerer⟩ := not_forall.mp hother
      obtain ⟨hanswerer, hne⟩ := Classical.not_imp.mp hanswerer
      rw [step, respond, if_pos hvalid] at ht
      obtain ⟨⟨_, hout, _⟩, hprobe⟩ := settle_cases ht
      rcases hprobe with hkept | ⟨channel, hpending, _⟩
      · refine hne ?_
        rw [← hverified.held macAddr ((answerer_congr hkept).trans hanswerer), hout]
      · have hnone : s.answerer = none := answerer_pending hpending
        rw [hnone] at hanswerer
        cases hanswerer
  | discoverHub | failed | requested | raced | next | ping | pinged => exact hnot trivial

/-- **In every run the caller holds the address of the device that answered on the channel found,
and it is that device that was pinged, exactly where no other device answers a probe, of an
earlier attempt or scan, after it.** -/
theorem verified_iff_same_device (radio : Radio) (out : Mac) (es : List HubEvent) :
    Always step Verified { scan := { radio }, out } es ↔
      Each step SameDevice { scan := { radio }, out } es :=
  always_iff_each (fun _ h => Known.verified h) (fun _ _ _ h hsame ht => h.step hsame ht)
    (fun _ _ _ _ hnot ht => overwritten hnot ht) (Known.quiet rfl rfl rfl)

/-- The probe on the first channel is answered late, after the hub on the second has been heard:
the ping goes to the wrong device. -/
example (late hub out : Mac) (hne : late ≠ hub) :
    ¬ Each step SameDevice { scan := { radio := { channel := 0 } }, out }
      [.discoverHub {}, .raced false, .next {}, .responded 1 ⟨1, hub, 0xff, 0, 2, [], 0⟩,
        .responded 0 ⟨0, late, 0xff, 0, 2, [], 0⟩] := by
  intro h
  obtain ⟨hlate, -⟩ := ((((h _ rfl).2 _ rfl).2 _ rfl).2 _ rfl).2 _ rfl
  exact hne (hlate rfl hub rfl)

/-! ## The scan inside -/

theorem step_scan {s t : HubScan} {e : HubEvent} (h : s.step e = some t) :
    Lib.run Discovery.step s.scan (s.scanEvents e) = some t.scan := by
  have hone : ∀ {d : DiscoveryEvent} {f : Discovery → HubScan}, (∀ scan, (f scan).scan = scan) →
      (s.scan.step d).map f = some t → Lib.run Discovery.step s.scan [d] = some t.scan := by
    intro d f hf hmap
    obtain ⟨scan, hscan, rfl⟩ := Option.map_eq_some_iff.mp hmap
    rw [run_cons hscan, run_nil, hf]
  have hprobing : ∀ scan, (s.probing scan).scan = scan := by
    intro scan
    rw [probing]
    split <;> rfl
  have hconcluded : ∀ scan, (s.concluded scan).scan = scan := by
    intro scan
    rw [concluded]
    split <;> rfl
  cases e with
  | discoverHub calls => exact hone hprobing h
  | responded p response =>
      rw [step, respond] at h
      split at h
      · exact congrArg some (settle_cases h).1.1.symm
      · exact congrArg some (settle_cases h).1.1.symm
  | failed p => exact congrArg some (settle_cases h).1.1.symm
  | requested =>
      rw [step] at h
      rw [scanEvents]
      split at h
      · exact hone (fun _ => rfl) h
      · exact hone (fun _ => rfl) h
      · cases h
  | raced ok => exact hone hconcluded h
  | next calls => exact hone hprobing h
  | ping =>
      rw [step] at h
      split at h
      · cases h
        rfl
      · cases h
  | pinged ok =>
      rw [step] at h
      split at h
      · exact hone hconcluded h
      · cases h

theorem run_scan {s t : HubScan} {es : List HubEvent} (h : Lib.run step s es = some t) :
    Lib.run Discovery.step s.scan (trace step scanEvents s es) = some t.scan :=
  run_simulates (fun _ _ _ => step_scan) h

end HubScan

end EspIot
