/-
# `EspIot.Misc.TimerStale` — the slot array under a running callback

`handle_timers` keeps `auto &entry` while it calls `entry.callback`, and the callback may
add timers.  When every slot is taken `_add` calls `_grow`, which moves the entries to a
new array and deletes the old one: the callback object that is being executed is in it, and
so is the `entry` whose `repeat` is read when the callback has returned.

A frame remembers the generation of the array it was called from, so this is about the
generations on the stack (`Current`).  A timeout whose callback is running still takes up
its slot: seven other timers are enough to fill the first array.
-/
import EspIot.Misc.Timer

namespace EspIot.TimerRun

open Lib

variable {Fn : Type*}

/-- Each callback on the stack, and the reference that its pass comes back to, belongs to the
current array. -/
def Current (s : TimerRun Fn) : Prop :=
  ∀ i generation callback parameter,
    .running i generation callback parameter ∈ s.frames → generation = s.timer.generation

/-- An add by a callback finds a free slot, or no memory to grow. -/
def KeepsArray (s : TimerRun Fn) : TimerEvent Fn → Prop
  | .add _ _ _ _ _ memory => s.frames = [] ∨ s.timer.freeCount ≠ 0 ∨ memory = false
  | _ => True

theorem add_generation (s : TimerRun Fn) (callback : Fn) (interval : UInt32) (repeats : Bool)
    (parameter : ℕ) (now : UInt32) (memory : Bool) :
    (s.add callback interval repeats parameter now memory).timer.generation =
      if s.timer.freeCount = 0 ∧ memory = true then s.timer.generation + 1
      else s.timer.generation := by
  have hgrow : (if s.timer.freeCount = 0 then s.timer.grow memory else s.timer).generation =
      if s.timer.freeCount = 0 ∧ memory = true then s.timer.generation + 1
      else s.timer.generation := by
    by_cases hfree : s.timer.freeCount = 0
    · cases memory <;> simp [Timer.grow, hfree]
    · simp [hfree]
  rw [add, ← hgrow]
  unfold Timer.add
  generalize (if s.timer.freeCount = 0 then s.timer.grow memory else s.timer) = t
  dsimp only
  cases t.entries.findIdx? (fun entry => !entry.active) with
  | none => rfl
  | some i => rfl

theorem add_frames (s : TimerRun Fn) (callback : Fn) (interval : UInt32) (repeats : Bool)
    (parameter : ℕ) (now : UInt32) (memory : Bool) :
    (s.add callback interval repeats parameter now memory).frames = s.frames := by
  rw [add]
  split <;> rfl

theorem clear_generation (t : Timer Fn) (i : ℕ) : (t.clear i).generation = t.generation := by
  rcases t.clear_cases i with ⟨heq, -⟩ | ⟨_, -, -, heq⟩
  · rw [heq]
  · rw [heq]

theorem Current.of_subset {s s' : TimerRun Fn} (h : Current s)
    (hgeneration : s'.timer.generation = s.timer.generation)
    (hframes : ∀ i generation callback parameter,
      .running i generation callback parameter ∈ s'.frames →
        .running i generation callback parameter ∈ s.frames) : Current s' := by
  intro i generation callback parameter hmem
  rw [hgeneration]
  exact h i generation callback parameter (hframes _ _ _ _ hmem)

theorem Current.add {s : TimerRun Fn} (h : Current s) {callback : Fn} {interval : UInt32}
    {repeats : Bool} {parameter : ℕ} {now : UInt32} {memory : Bool}
    (hc : KeepsArray s (.add callback interval repeats parameter now memory)) :
    Current (s.add callback interval repeats parameter now memory) := by
  rcases hc with hempty | hkeeps
  · intro i generation callback' parameter' hmem
    rw [add_frames, hempty] at hmem
    cases hmem
  · refine h.of_subset ?_ (fun _ _ _ _ hmem => add_frames s .. ▸ hmem)
    rw [add_generation, if_neg]
    rintro ⟨hfree, hmemory⟩
    rcases hkeeps with hne | hno
    · exact hne hfree
    · rw [hno] at hmemory
      cases hmemory

theorem Current.fire {s : TimerRun Fn} (h : Current s) {i : ℕ} {rest : List (TimerFrame Fn)}
    (hrest : ∀ {frame}, frame ∈ rest → frame ∈ s.frames) (entry : TimerEntry Fn) (now : UInt32) :
    Current (s.fire i entry now rest) := by
  intro j generation callback parameter hmem
  rcases List.mem_cons.mp hmem with hnew | hold
  · cases hnew
    rfl
  · exact h j generation callback parameter (hrest hold)

theorem Current.finish {s : TimerRun Fn} (h : Current s) {i generation : ℕ}
    {rest : List (TimerFrame Fn)} (hrest : ∀ {frame}, frame ∈ rest → frame ∈ s.frames)
    (stale : Bool) : Current (s.finish i generation stale rest) := by
  have hframes : (s.finish i generation stale rest).frames = .pass (i + 1) :: rest := by
    rw [TimerRun.finish]
    split <;> rfl
  refine h.of_subset ?_ ?_
  · rw [TimerRun.finish]
    split
    · rfl
    · exact clear_generation _ i
  · intro j g c p hmem
    rw [hframes] at hmem
    exact hrest (by simpa using hmem)

theorem Current.step (s : TimerRun Fn) (e : TimerEvent Fn) (s' : TimerRun Fn) (h : Current s)
    (hc : KeepsArray s e) (hs : s.step e = some s') : Current s' := by
  cases e with
  | add callback interval repeats parameter now memory =>
      obtain ⟨-, rfl⟩ := step_add hs
      exact h.add hc
  | clear i =>
      obtain ⟨-, rfl⟩ := step_clear hs
      exact h.of_subset (clear_generation _ i) fun _ _ _ _ hmem => hmem
  | handle =>
      rcases step_handle hs with rfl | rfl
      · exact h
      · exact h.of_subset rfl fun _ _ _ _ hmem => by simpa using hmem
  | visit now =>
      obtain ⟨i, rest, hf, hcases⟩ := step_visit hs
      have hrest : ∀ {frame}, frame ∈ rest → frame ∈ s.frames := by
        intro frame hmem
        rw [hf]
        exact List.mem_cons_of_mem _ hmem
      rcases hcases with ⟨-, rfl⟩ | ⟨entry, -, ⟨-, rfl⟩ | ⟨-, rfl⟩⟩
      · exact h.of_subset rfl fun _ _ _ _ hmem => hrest hmem
      · exact h.fire hrest entry now
      · exact h.of_subset rfl fun _ _ _ _ hmem => hrest (by simpa using hmem)
  | ret stale =>
      obtain ⟨i, generation, callback, parameter, rest, hf, rfl⟩ := step_ret hs
      refine h.finish ?_ stale
      intro frame hmem
      rw [hf]
      exact List.mem_cons_of_mem _ hmem

theorem Current.not_of_grown (s : TimerRun Fn) (e : TimerEvent Fn) (s' : TimerRun Fn)
    (h : Current s) (hc : ¬ KeepsArray s e) (hs : s.step e = some s') : ¬ Current s' := by
  cases e with
  | add callback interval repeats parameter now memory =>
      obtain ⟨hframes, hrest⟩ := not_or.mp hc
      obtain ⟨hfree, hmemory⟩ := not_or.mp hrest
      obtain ⟨hcan, rfl⟩ := step_add hs
      intro hcurrent
      -- the code that adds is the callback on top of the stack
      obtain ⟨i, generation, callback', parameter', rest, hf⟩ :
          ∃ i generation callback parameter rest,
            s.frames = .running i generation callback parameter :: rest := by
        rw [canCall] at hcan
        cases hf : s.frames with
        | nil => exact absurd hf hframes
        | cons frame rest =>
            cases frame with
            | pass i => simp [hf] at hcan
            | running i generation callback parameter => exact ⟨_, _, _, _, _, rfl⟩
      have hmem : .running i generation callback' parameter' ∈ s.frames := by
        rw [hf]
        exact List.mem_cons_self
      have hold : generation = s.timer.generation := h _ _ _ _ hmem
      have hnew := hcurrent i generation callback' parameter' (by rw [add_frames]; exact hmem)
      rw [add_generation, if_pos ⟨not_not.mp hfree, by simpa using hmemory⟩, ← hold] at hnew
      exact Nat.succ_ne_self _ hnew.symm
  | clear i => exact absurd trivial hc
  | handle => exact absurd trivial hc
  | visit now => exact absurd trivial hc
  | ret stale => exact absurd trivial hc

/-- **No pass and no callback uses a deleted slot array, exactly when no callback adds a timer to
an array that is full while there is memory for a larger one.** -/
theorem current_iff_keepsArray (es : List (TimerEvent Fn)) :
    Always step Current ({} : TimerRun Fn) es ↔ Each step KeepsArray {} es :=
  always_iff_each (fun _ h => h) Current.step Current.not_of_grown
    fun _ _ _ _ hmem => by cases hmem

/-- Eight timeouts fill the array; the callback of the first adds a ninth. -/
theorem entry_dangles :
    ¬ Always step Current ({} : TimerRun ℕ)
      (List.replicate 8 (.add 0 0 false 0 0 true) ++
        [.handle, .visit 0, .add 1 5 false 0 0 true]) := by
  intro h
  have hcurrent : Current _ := always_iff_reached.mp h _ [] _ (List.append_nil _).symm rfl
  exact absurd (hcurrent 0 1 (some 0) 0 List.mem_cons_self) (by decide)

end EspIot.TimerRun
