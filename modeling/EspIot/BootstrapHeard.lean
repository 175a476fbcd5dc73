/-
# `EspIot.BootstrapHeard` — what the subscribers hear of the start

Every change of state is told to every subscriber of every state, and to those of that state: once
each, whatever is nested in what (`heard_once`).  A subscriber that runs a pass of its own lets
the others hear of the change it makes before they hear of the one they are told of now:

    publish(WIFI_CONNECT)
      first subscriber ──event_loop──▶ publish(INITIALIZING)
                                         first subscriber, second subscriber
      second subscriber hears WIFI_CONNECT

`heard_in_order` is for the runs in which no pass begins while somebody is still to be told.
-/
import EspIot.BootstrapRuns

namespace EspIot

open Lib

variable {σ κ : Type*}

namespace BootstrapFrame

def pending : BootstrapFrame σ κ → List (BootstrapState × Subscription σ κ)
  | .publishing p => p.left.map (p.type, ·)
  | .handling _ => []

end BootstrapFrame

namespace Bootstrap

/-- What the publications on their way are still to tell. -/
def pending (s : Bootstrap σ κ) : List (BootstrapState × Subscription σ κ) :=
  s.frames.flatMap BootstrapFrame.pending

variable (topic : EventTopic BootstrapState σ κ)

/-- What a change to a state has the topic tell. -/
def toTell (state : BootstrapState) : List (BootstrapState × Subscription σ κ) :=
  (topic.listeners state).map (state, ·)

/-- What has been told and what is still to be told is what has been published. -/
def ToldOnce (s : Bootstrap σ κ) : Prop :=
  (s.heard ++ s.pending).Perm (s.published.flatMap (toTell topic))

/-- No pass begins while somebody is still to be told of a change. -/
def Unnested (s : Bootstrap σ κ) : BootstrapEvent → Prop
  | .serviceLoop .. => s.pending = []
  | _ => True

/-- The states are heard of in the order they come in. -/
def HeardInOrder (s : Bootstrap σ κ) : Prop :=
  (s.heard.map fun told => told.1.rank).Pairwise (· ≤ ·)

instance [DecidableEq σ] [DecidableEq κ] (s : Bootstrap σ κ) (e : BootstrapEvent) :
    Decidable (Unnested s e) :=
  match e with
  | .serviceLoop .. => inferInstanceAs (Decidable (s.pending = []))
  | .elapse _ | .connect .. | .call _ | .handle | .ret => inferInstanceAs (Decidable True)

instance : DecidablePred (HeardInOrder (σ := σ) (κ := κ)) :=
  fun s => inferInstanceAs
    (Decidable ((s.heard.map fun told => told.1.rank).Pairwise fun a b => a ≤ b))

variable {topic} {config : BootstrapConfig}

variable (topic) in
theorem serviceLoop_tells (s : Bootstrap σ κ) (isAp linked : Bool) (checks begins : ℕ) :
    let t := s.serviceLoop topic isAp linked checks begins
    t.heard = s.heard ∧
      (t.state = s.state ∧ t.pending = s.pending ∧ t.published = s.published ∨
        s.state.rank < t.state.rank ∧ t.pending = toTell topic t.state ++ s.pending ∧
          t.published = s.published ++ [t.state]) := by
  intro t
  cases hstate : s.state with
  | uninitialized =>
      have ht : t = _ := serviceLoop_uninitialized hstate isAp linked checks begins
      rw [ht]
      exact ⟨rfl, .inr ⟨Nat.lt_succ_self 0, rfl, rfl⟩⟩
  | wifiConnect =>
      have ht : t = _ := serviceLoop_wifiConnect hstate isAp linked checks begins
      rw [ht]
      split
      · exact ⟨rfl, .inr ⟨Nat.lt_succ_self 1, rfl, rfl⟩⟩
      · exact ⟨rfl, .inl ⟨hstate, rfl, rfl⟩⟩
  | initializing =>
      have ht : t = _ := serviceLoop_initializing hstate isAp linked checks begins
      rw [ht]
      exact ⟨rfl, .inr ⟨Nat.lt_succ_self 2, rfl, rfl⟩⟩
  | ready =>
      have ht : t = _ := serviceLoop_ready hstate isAp linked checks begins
      rw [ht]
      exact ⟨rfl, .inl ⟨hstate, rfl, rfl⟩⟩

theorem step_call_tells {s t : Bootstrap σ κ} {i : ℕ} (h : s.step topic (.call i) = some t) :
    ∃ told, t.state = s.state ∧ t.published = s.published ∧ t.heard = s.heard ++ [told] ∧
      s.pending.Perm (told :: t.pending) := by
  obtain ⟨p, q, frames, hframes, hcall, rfl⟩ := step_call h
  obtain ⟨sub, htype, hcalled, hleft⟩ := Publication.call_left hcall
  refine ⟨(p.type, sub), rfl, rfl, ?_, ?_⟩
  · show s.heard ++ _ = _
    rw [hcalled, List.drop_left]
    rfl
  · rw [pending, hframes]
    show (p.left.map (p.type, ·) ++ _).Perm ((p.type, sub) :: (q.left.map (q.type, ·) ++ _))
    rw [htype]
    exact (hleft.map (p.type, ·)).append_right _

theorem step_tells_nobody {s t : Bootstrap σ κ} {e : BootstrapEvent}
    (h : s.step topic e = some t) (hcall : ∀ i, e ≠ .call i)
    (hloop : ∀ isAp linked checks begins, e ≠ .serviceLoop isAp linked checks begins) :
    t.state = s.state ∧ t.heard = s.heard ∧ t.pending = s.pending ∧ t.published = s.published := by
  cases e with
  | elapse millis =>
      cases h
      exact ⟨rfl, rfl, rfl, rfl⟩
  | connect mode connectionInterval begins =>
      cases h
      exact ⟨rfl, rfl, rfl, rfl⟩
  | serviceLoop isAp linked checks begins => exact absurd rfl (hloop isAp linked checks begins)
  | call i => exact absurd rfl (hcall i)
  | handle =>
      obtain ⟨call, rest, frames, hframes, rfl⟩ := step_handle h
      have hpending : s.pending = frames.flatMap BootstrapFrame.pending := by
        rw [pending, hframes]
        rfl
      rw [handleCall]
      split
      · exact ⟨rfl, rfl, hpending.symm, rfl⟩
      · exact ⟨rfl, rfl, hpending.symm, rfl⟩
  | ret =>
      obtain ⟨frame, frames, hframes, rfl, hleft⟩ := step_ret h
      refine ⟨rfl, rfl, ?_, rfl⟩
      rw [pending, pending, hframes, List.flatMap_cons]
      cases frame with
      | handling rest => rfl
      | publishing p =>
          rw [BootstrapFrame.pending, hleft p rfl]
          rfl

/-! ## Once -/

theorem ToldOnce.step {s t : Bootstrap σ κ} (h : ToldOnce topic s) {e : BootstrapEvent}
    (ht : s.step topic e = some t) : ToldOnce topic t := by
  rw [ToldOnce] at h ⊢
  by_cases hcall : ∃ i, e = .call i
  · obtain ⟨i, rfl⟩ := hcall
    obtain ⟨told, -, hpublished, hheard, hpending⟩ := step_call_tells ht
    rw [hpublished, hheard, List.append_assoc]
    exact (hpending.symm.append_left _).trans h
  · by_cases hloop : ∃ isAp linked checks begins, e = .serviceLoop isAp linked checks begins
    · obtain ⟨isAp, linked, checks, begins, rfl⟩ := hloop
      cases ht
      obtain ⟨hheard, ⟨-, hpending, hpublished⟩ | ⟨-, hpending, hpublished⟩⟩ :=
        serviceLoop_tells topic s isAp linked checks begins
      · rw [hheard, hpending, hpublished]
        exact h
      · rw [hheard, hpending, hpublished, List.flatMap_append, List.flatMap_singleton]
        refine (List.perm_append_comm.append_left _).trans ?_
        rw [← List.append_assoc]
        exact h.append_right _
    · obtain ⟨-, hheard, hpending, hpublished⟩ := step_tells_nobody ht
        (fun i heq => hcall ⟨i, heq⟩) fun _ _ _ _ heq => hloop ⟨_, _, _, _, heq⟩
      rw [hheard, hpending, hpublished]
      exact h

/-- **What the subscribers have heard in a run, with what the publications on their way are still
to tell, is every state from power-up to the present one, once for each of its listeners.** -/
theorem heard_once (topic : EventTopic BootstrapState σ κ) (config : BootstrapConfig)
    (chipId : String) (now : ℕ) (es : List BootstrapEvent) (s : Bootstrap σ κ)
    (hs : run (step topic) (begin config chipId now) es = some s) :
    (s.heard ++ s.pending).Perm (s.state.path.flatMap (toTell topic)) := by
  have hstarted : s.Started config :=
    (run_invariant (fun _ _ _ h he => Inv.step h he) (begin_inv config chipId now) hs).started
  rw [← hstarted.published]
  have hbegin : ToldOnce topic (begin config chipId now) := List.Perm.refl []
  exact run_invariant (fun _ _ _ h he => ToldOnce.step h he) hbegin hs

/-- A subscriber of every state and one of INITIALIZING, while the first is still to be told of
INITIALIZING. -/
theorem heard_once_half :
    ∃ s : Bootstrap ℕ ℕ,
      run (step (EventTopic.subscribeAll [⟨1, none, 1⟩, ⟨2, some .initializing, 2⟩]))
          (begin stationConfig "ABCD" 0)
          [.serviceLoop false false 0 0, .call 0, .serviceLoop false true 0 0] = some s ∧
        (s.heard ++ s.pending).Perm (s.state.path.flatMap
          (toTell (EventTopic.subscribeAll [⟨1, none, 1⟩, ⟨2, some .initializing, 2⟩]))) :=
  ⟨_, rfl, heard_once _ _ _ _
    [.serviceLoop false false 0 0, .call 0, .serviceLoop false true 0 0] _ rfl⟩

/-! ## In order -/

/-- All that is still to be told is the present state, and nothing newer has been heard. -/
structure Current (s : Bootstrap σ κ) : Prop where
  pending : ∀ told ∈ s.pending, told.1 = s.state
  heard : ∀ told ∈ s.heard, told.1.rank ≤ s.state.rank
  ordered : s.HeardInOrder

theorem Current.step {s t : Bootstrap σ κ} (h : s.Current) {e : BootstrapEvent}
    (hunnested : s.Unnested e) (ht : s.step topic e = some t) : t.Current := by
  by_cases hcall : ∃ i, e = .call i
  · obtain ⟨i, rfl⟩ := hcall
    obtain ⟨told, hstate, -, hheard, hpending⟩ := step_call_tells ht
    have htold : told.1 = s.state := h.pending told (hpending.mem_iff.mpr List.mem_cons_self)
    refine ⟨?_, ?_, ?_⟩
    · intro other hother
      rw [hstate]
      exact h.pending other (hpending.mem_iff.mpr (List.mem_cons_of_mem _ hother))
    · intro other hother
      rw [hheard] at hother
      rw [hstate]
      rcases List.mem_append.mp hother with hold | hnew
      · exact h.heard other hold
      · rw [List.mem_singleton.mp hnew]
        exact Nat.le_of_eq (congrArg BootstrapState.rank htold)
    · rw [HeardInOrder, hheard, List.map_append, List.pairwise_append]
      refine ⟨h.ordered, List.pairwise_singleton _ _, ?_⟩
      intro a ha b hb
      obtain ⟨other, hother, rfl⟩ := List.mem_map.mp ha
      rw [List.map_singleton, List.mem_singleton] at hb
      rw [hb, htold]
      exact h.heard other hother
  · by_cases hloop : ∃ isAp linked checks begins, e = .serviceLoop isAp linked checks begins
    · obtain ⟨isAp, linked, checks, begins, rfl⟩ := hloop
      cases ht
      have hnone : s.pending = [] := hunnested
      obtain ⟨hheard, ⟨hstate, hpending, -⟩ | ⟨hrank, hpending, -⟩⟩ :=
        serviceLoop_tells topic s isAp linked checks begins
      · refine ⟨?_, ?_, ?_⟩
        · rw [hpending, hstate]
          exact h.pending
        · rw [hheard, hstate]
          exact h.heard
        · rw [HeardInOrder, hheard]
          exact h.ordered
      · rw [hnone, List.append_nil] at hpending
        refine ⟨?_, ?_, ?_⟩
        · intro told htold
          rw [hpending] at htold
          obtain ⟨sub, -, rfl⟩ := List.mem_map.mp htold
          rfl
        · intro told htold
          rw [hheard] at htold
          exact Nat.le_trans (h.heard told htold) (Nat.le_of_lt hrank)
        · rw [HeardInOrder, hheard]
          exact h.ordered
    · obtain ⟨hstate, hheard, hpending, -⟩ := step_tells_nobody ht
        (fun i heq => hcall ⟨i, heq⟩) fun _ _ _ _ heq => hloop ⟨_, _, _, _, heq⟩
      refine ⟨?_, ?_, ?_⟩
      · rw [hpending, hstate]
        exact h.pending
      · rw [hheard, hstate]
        exact h.heard
      · rw [HeardInOrder, hheard]
        exact h.ordered

/-- **Where no pass begins while somebody is still to be told of a change, every subscriber hears
the states in the order they come in.** -/
theorem heard_in_order (topic : EventTopic BootstrapState σ κ) (config : BootstrapConfig)
    (chipId : String) (now : ℕ) (es : List BootstrapEvent)
    (hunnested : Each (step topic) Unnested (begin config chipId now) es) :
    Always (step topic) HeardInOrder (begin config chipId now) es := by
  refine Always.of_each (I := Current) (fun s h => h.ordered) ?_ ⟨by nofun, by nofun, ?_⟩ hunnested
  · intro s e t h hallowed ht
    exact h.step hallowed ht
  · exact List.Pairwise.nil

/-- Two subscribers are told of WIFI_CONNECT before the next pass. -/
theorem heard_in_order_two :
    Always (step (EventTopic.subscribeAll [⟨1, none, 1⟩, ⟨2, none, 2⟩])) HeardInOrder
      (begin (σ := ℕ) (κ := ℕ) stationConfig "ABCD" 0)
      [.serviceLoop false false 0 0, .call 0, .call 0, .serviceLoop false true 0 0, .call 1] :=
  heard_in_order _ _ _ _ _ (by decide)

/-- The first subscriber told runs the next pass: the second hears of INITIALIZING first. -/
example : ¬ Always (step (EventTopic.subscribeAll [⟨1, none, 1⟩, ⟨2, none, 2⟩])) HeardInOrder
    (begin (σ := ℕ) (κ := ℕ) stationConfig "ABCD" 0)
    [.serviceLoop false false 0 0, .call 1, .serviceLoop false true 0 0, .call 0, .call 0, .ret,
      .call 0] := by
  decide

end Bootstrap

end EspIot
