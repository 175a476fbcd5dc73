/-
# `EspIot.Misc.TimerBooks` — the books of a timer

`_free_count` is changed in three functions and the flag it counts in four, some of them
called from callbacks in the middle of a pass.  A book beside the timer has the timers that
are alive, from the `_add` that returned their id to the `_clear` that is called with it:

    add            a timer more, unless it returns -1
    clear          the timer with this id less, if there is one
    visit          a timeout that is called back runs from now on
    ret            `_clear(i)` less, unless the slot repeats

`Exact` says that the book and the slots tell the same.  A clear call may name any id below
`_count`, whether its slot is in use or not.  `_count` has 32 bits, and an array of more
entries than that is one for which there never is memory.
-/
import EspIot.Misc.TimerSlots

namespace EspIot

open Lib

/-- A timer that is alive.  `running` is a timeout that has been called back: its interval has been
overwritten, so that a nested pass does not call it again. -/
structure LiveTimer (Fn : Type*) where
  id : ℕ
  repeats : Bool
  callback : Fn
  parameter : ℕ
  period : UInt32
  running : Bool := false
deriving DecidableEq

/-- A timer in the middle of a run, and its book. -/
structure TimerBook (Fn : Type*) where
  run : TimerRun Fn := {}
  live : List (LiveTimer Fn) := []

namespace TimerBook

variable {Fn : Type*}

/-- What `new(std::nothrow)` answers to `_grow`. -/
def granted (s : TimerBook Fn) (memory : Bool) : Bool :=
  memory && decide (s.run.timer.entries.length + timerGrowAmount < 2 ^ 32)

/-- `add_timeout`, `add_interval` -/
def add (s : TimerBook Fn) (callback : Fn) (interval : UInt32) (repeats : Bool) (parameter : ℕ)
    (now : UInt32) (memory : Bool) : TimerBook Fn where
  run := s.run.add callback interval repeats parameter now (s.granted memory)
  live :=
    match (s.run.timer.add callback interval repeats parameter now (s.granted memory)).2 with
    | none => s.live
    | some id => s.live ++ [{ id, repeats, callback, parameter, period := interval }]

/-- `_clear(id)`, in the book. -/
def without (live : List (LiveTimer Fn)) (id : ℕ) : List (LiveTimer Fn) :=
  live.filter fun l => l.id ≠ id

def called (l : LiveTimer Fn) : LiveTimer Fn :=
  if l.repeats = true then l else { l with running := true }

def due (s : TimerBook Fn) (now : UInt32) : Option ℕ :=
  match s.run.frames with
  | .pass i :: _ => if (s.run.timer.entries[i]?).any (Timer.due · now) = true then some i else none
  | _ => none

/-- The slot that is cleared when a callback returns. -/
def done (s : TimerBook Fn) (stale : Bool) : Option ℕ :=
  match s.run.frames with
  | .running i generation _ _ :: _ =>
      if s.run.timer.repeatAfter i generation stale = true then none else some i
  | _ => none

def step (s : TimerBook Fn) : TimerEvent Fn → Option (TimerBook Fn)
  | .add callback interval repeats parameter now memory =>
      if s.run.canCall then some (s.add callback interval repeats parameter now memory) else none
  | .clear id =>
      if s.run.canCall ∧ id < s.run.timer.entries.length then
        some { run := s.run.clear id, live := without s.live id }
      else none
  | .handle => (s.run.step .handle).map fun run => { s with run }
  | .visit now =>
      (s.run.step (.visit now)).map fun run =>
        { run, live := s.live.map fun l => if s.due now = some l.id then called l else l }
  | .ret stale =>
      (s.run.step (.ret stale)).map fun run =>
        { run
          live :=
            match s.done stale with
            | none => s.live
            | some id => without s.live id }

structure Holds (l : LiveTimer Fn) (entry : TimerEntry Fn) : Prop where
  repeats : entry.repeats = l.repeats
  callback : entry.callback = some l.callback
  parameter : entry.parameter = l.parameter
  interval : entry.interval = if l.running = true then 0xFFFFFFFF else l.period

/-- **The books are exact.** -/
structure Exact (t : Timer Fn) (live : List (LiveTimer Fn)) : Prop where
  /-- `_count` is below `2 ^ 32`. -/
  fits : t.entries.length < 2 ^ 32
  /-- `_free_count` counts the slots that are not active. -/
  free : t.Counted
  /-- No two timers that are alive share an id. -/
  ids : (live.map LiveTimer.id).Nodup
  /-- Each is in the slot of its id, active and as it was added. -/
  held : ∀ l ∈ live, t.Has (Holds l) l.id
  /-- No other slot is active. -/
  used : ∀ i, t.Has (fun _ => True) i → ∃ l ∈ live, l.id = i

variable {t : Timer Fn} {live : List (LiveTimer Fn)}

/-! ## What is in the book -/

theorem mem_without {l : LiveTimer Fn} {id : ℕ} :
    l ∈ without live id ↔ l ∈ live ∧ l.id ≠ id := by
  rw [without, List.mem_filter, decide_eq_true_eq]

@[simp] theorem called_id (l : LiveTimer Fn) : (called l).id = l.id := by
  rw [called]
  split <;> rfl

theorem Exact.active (h : Exact t live) {l : LiveTimer Fn} (hl : l ∈ live) :
    t.Has (fun _ => True) l.id := by
  obtain ⟨entry, he, hactive, -⟩ := h.held l hl
  exact ⟨entry, he, hactive, trivial⟩

theorem Exact.free_eq (h : Exact t live) :
    t.freeCount.toNat = t.entries.countP fun entry => !entry.active := by
  have hle := List.countP_le_length (p := fun entry => !entry.active) (l := t.entries)
  have hfits := h.fits
  rw [h.free]
  exact Nat.mod_eq_of_lt (by omega)

/-! ## What each operation does to the books -/

theorem Exact.clear (h : Exact t live) (id : ℕ) : Exact (t.clear id) (without live id) where
  fits := by
    rw [Timer.clear_length]
    exact h.fits
  free := h.free.clear id
  ids := (List.Sublist.map LiveTimer.id List.filter_sublist).nodup h.ids
  held l hmem := by
    obtain ⟨hlive, hne⟩ := mem_without.mp hmem
    exact (t.has_clear id (Holds l) l.id).mpr ⟨hne, h.held l hlive⟩
  used i hactive := by
    obtain ⟨hne, hbefore⟩ := (t.has_clear id (fun _ => True) i).mp hactive
    obtain ⟨l, hl, rfl⟩ := h.used i hbefore
    exact ⟨l, mem_without.mpr ⟨hl, hne⟩, rfl⟩

theorem Holds.called {l : LiveTimer Fn} {entry : TimerEntry Fn} (h : Holds l entry) (now : UInt32) :
    Holds (called l) (Timer.arm entry now) := by
  rw [TimerBook.called, Timer.arm]
  cases hrepeats : l.repeats with
  | true =>
      rw [if_pos (h.repeats.trans hrepeats), if_pos rfl]
      exact ⟨h.repeats, h.callback, h.parameter, h.interval⟩
  | false =>
      have honce : ¬ entry.repeats = true := by
        rw [h.repeats, hrepeats]
        exact Bool.noConfusion
      rw [if_neg honce, if_neg Bool.noConfusion]
      exact ⟨h.repeats.trans hrepeats, h.callback, h.parameter, rfl⟩

theorem Exact.fire (h : Exact t live) {i : ℕ} {entry : TimerEntry Fn}
    (he : t.entries[i]? = some entry) (now : UInt32) :
    Exact { t with entries := t.entries.set i (Timer.arm entry now) }
      (live.map fun l => if i = l.id then called l else l) where
  fits := by
    rw [List.length_set]
    exact h.fits
  free := h.free.arm he now
  ids := by
    have hsame : (live.map fun l => if i = l.id then called l else l).map LiveTimer.id =
        live.map LiveTimer.id := by
      rw [List.map_map]
      refine List.map_congr_left ?_
      intro l _
      show (if i = l.id then called l else l).id = l.id
      split <;> simp
    rw [hsame]
    exact h.ids
  held l' hmem := by
    obtain ⟨l, hl, rfl⟩ := List.mem_map.mp hmem
    obtain ⟨entry', he', hactive, hholds⟩ := h.held l hl
    by_cases hid : i = l.id
    · subst hid
      rw [he] at he'
      cases he'
      rw [if_pos rfl, called_id]
      refine (Timer.has_set_self (List.getElem?_eq_some_iff.mp he).1 ..).mpr ⟨?_, hholds.called now⟩
      rw [Timer.arm_active]
      exact hactive
    · rw [if_neg hid]
      exact (Timer.has_set_of_ne hid ..).mpr (h.held l hl)
  used j hactive := by
    obtain ⟨l, hl, hid⟩ := h.used j ((Timer.has_arm he now Iff.rfl j).mp hactive)
    refine ⟨_, List.mem_map.mpr ⟨l, hl, rfl⟩, ?_⟩
    split
    · rw [called_id]
      exact hid
    · exact hid

section
variable (callback : Fn) (interval : UInt32) (repeats : Bool) (parameter : ℕ) (now : UInt32)
  (memory : Bool)

theorem add_fresh {i : ℕ}
    (hi : (t.add callback interval repeats parameter now memory).2 = some i) :
    ¬ t.Has (fun _ => True) i := by
  obtain ⟨g, hg, hadd⟩ := t.add_cases callback interval repeats parameter now memory
  rw [show t.Has (fun _ => True) i ↔ g.Has (fun _ => True) i by
    rcases hg with rfl | rfl
    · rfl
    · exact (t.has_grow memory _ i).symm]
  rcases hadd with hadd | ⟨j, old, hold, hfree, hadd⟩
  · rw [hadd] at hi
    cases hi
  · rw [hadd] at hi
    cases hi
    rintro ⟨entry, he, hactive, -⟩
    rw [hold] at he
    cases he
    exact Bool.noConfusion (hfree.symm.trans hactive)

theorem add_slot {i : ℕ} (hi : t.Has (fun _ => True) i) :
    (t.add callback interval repeats parameter now memory).1.entries[i]? = t.entries[i]? := by
  obtain ⟨entry, he, hactive, -⟩ := hi
  obtain ⟨g, hg, hadd⟩ := t.add_cases callback interval repeats parameter now memory
  have hgrown : g.entries[i]? = t.entries[i]? := by
    rcases hg with rfl | rfl
    · rfl
    · exact t.grow_prefix memory (List.getElem?_eq_some_iff.mp he).1
  rcases hadd with hadd | ⟨j, old, hold, hfree, hadd⟩
  · rw [hadd]
    exact hgrown
  · have hne : j ≠ i := by
      rintro rfl
      rw [hgrown, he] at hold
      cases hold
      exact Bool.noConfusion (hfree.symm.trans hactive)
    rw [hadd]
    show (g.entries.set j _)[i]? = _
    rw [List.getElem?_set_ne hne]
    exact hgrown

theorem add_fits (h : Exact t live)
    (hfits : memory = true → t.entries.length + timerGrowAmount < 2 ^ 32) :
    (t.add callback interval repeats parameter now memory).1.entries.length < 2 ^ 32 := by
  obtain ⟨g, hg, hadd⟩ := t.add_cases callback interval repeats parameter now memory
  have hgrown : g.entries.length < 2 ^ 32 := by
    rcases hg with rfl | rfl
    · exact h.fits
    · rw [Timer.grow]
      split
      · rename_i hmemory
        rw [List.length_append, List.length_replicate]
        exact hfits hmemory
      · exact h.fits
  rcases hadd with hadd | ⟨i, old, -, -, hadd⟩
  · rw [hadd]
    exact hgrown
  · rw [hadd]
    show (g.entries.set i _).length < 2 ^ 32
    rw [List.length_set]
    exact hgrown

theorem Exact.add (h : Exact t live)
    (hfits : memory = true → t.entries.length + timerGrowAmount < 2 ^ 32) :
    Exact (t.add callback interval repeats parameter now memory).1
      (match (t.add callback interval repeats parameter now memory).2 with
        | none => live
        | some id => live ++ [{ id, repeats, callback, parameter, period := interval }]) := by
  have hfree := h.free.add callback interval repeats parameter now memory
  have hbound := add_fits callback interval repeats parameter now memory h hfits
  have hhas := fun P j => t.has_add callback interval repeats parameter now memory P j
  have hstays : ∀ l ∈ live, (t.add callback interval repeats parameter now memory).1.Has
      (Holds l) l.id := fun l hl => (hhas _ _).mpr (.inl (h.held l hl))
  cases hanswer : (t.add callback interval repeats parameter now memory).2 with
  | none =>
      refine ⟨hbound, hfree, h.ids, hstays, ?_⟩
      intro i hactive
      rcases (hhas _ i).mp hactive with hbefore | ⟨hsome, -⟩
      · exact h.used i hbefore
      · rw [hanswer] at hsome
        cases hsome
  | some id =>
      have hfresh := add_fresh callback interval repeats parameter now memory hanswer
      refine ⟨hbound, hfree, ?_, ?_, ?_⟩
      · rw [List.map_append, List.nodup_append]
        refine ⟨h.ids, List.nodup_singleton _, ?_⟩
        rintro j hj k hk rfl
        obtain ⟨l, hl, rfl⟩ := List.mem_map.mp hj
        obtain rfl : l.id = id := List.mem_singleton.mp hk
        exact hfresh (h.active hl)
      · intro l hmem
        rcases List.mem_append.mp hmem with hbefore | hlast
        · exact hstays l hbefore
        · rw [List.mem_singleton.mp hlast]
          exact (hhas _ id).mpr (.inr ⟨hanswer, rfl, rfl, rfl, rfl⟩)
      · intro i hactive
        rcases (hhas _ i).mp hactive with hbefore | ⟨hsome, -⟩
        · obtain ⟨l, hl, hid⟩ := h.used i hbefore
          exact ⟨l, List.mem_append_left _ hl, hid⟩
        · rw [hanswer] at hsome
          cases hsome
          exact ⟨_, List.mem_append_right _ (List.mem_singleton.mpr rfl), rfl⟩

theorem Exact.add_none (h : Exact t live)
    (hnone : (t.add callback interval repeats parameter now memory).2 = none) :
    t.freeCount = 0 ∧ memory = false := by
  have hroom : ¬ t.Room memory := by
    rw [← t.add_isSome_iff callback interval repeats parameter now memory, hnone]
    exact Bool.noConfusion
  rw [Timer.Room, not_or] at hroom
  have hzero : t.freeCount = 0 := by
    by_contra hne
    have hpos : 0 < t.entries.countP fun entry => !entry.active := by
      rw [← h.free_eq]
      exact Nat.pos_of_ne_zero fun hz => hne (UInt32.toNat_inj.mp hz)
    obtain ⟨entry, hmem, hfree⟩ := List.countP_pos_iff.mp hpos
    exact hroom.1 ⟨entry, hmem, by simpa using hfree⟩
  refine ⟨hzero, ?_⟩
  cases memory with
  | false => rfl
  | true => exact absurd ⟨hzero, rfl⟩ hroom.2

end

/-! ## Runs -/

theorem live_add (s : TimerBook Fn) (callback : Fn) (interval : UInt32) (repeats : Bool)
    (parameter : ℕ) (now : UInt32) (memory : Bool) {l : LiveTimer Fn} (hl : l ∈ s.live) :
    l ∈ (s.add callback interval repeats parameter now memory).live := by
  rw [add]
  dsimp only
  split
  · exact hl
  · exact List.mem_append_left _ hl

theorem due_pass {s : TimerBook Fn} {i : ℕ} {rest : List (TimerFrame Fn)}
    (hf : s.run.frames = .pass i :: rest) (now : UInt32) :
    s.due now =
      if (s.run.timer.entries[i]?).any (Timer.due · now) = true then some i else none := by
  rw [due, hf]

theorem done_running {s : TimerBook Fn} {i generation parameter : ℕ} {callback : Option Fn}
    {rest : List (TimerFrame Fn)}
    (hf : s.run.frames = .running i generation callback parameter :: rest) (stale : Bool) :
    s.done stale =
      if s.run.timer.repeatAfter i generation stale = true then none else some i := by
  rw [done, hf]

theorem Exact.visit {s : TimerBook Fn} (h : Exact s.run.timer s.live) {now : UInt32}
    {run : TimerRun Fn} (hrun : s.run.step (.visit now) = some run) :
    Exact run.timer (s.live.map fun l => if s.due now = some l.id then called l else l) := by
  obtain ⟨i, rest, hf, hcases⟩ := TimerRun.step_visit hrun
  have hdue := due_pass hf now
  have hstays : s.due now = none → run.timer = s.run.timer →
      Exact run.timer (s.live.map fun l => if s.due now = some l.id then called l else l) := by
    intro hnone hsame
    have hid : (fun l : LiveTimer Fn => if s.due now = some l.id then called l else l) = id := by
      funext l
      rw [hnone]
      exact if_neg nofun
    rw [hsame, hid, List.map_id]
    exact h
  rcases hcases with ⟨hend, rfl⟩ | ⟨entry, he, ⟨hfires, rfl⟩ | ⟨hwaits, rfl⟩⟩
  · refine hstays ?_ rfl
    rw [hdue, hend]
    rfl
  · have hsome : s.due now = some i := by
      rw [hdue, he]
      exact if_pos hfires
    have hfired := h.fire he now
    simp only [hsome, Option.some.injEq]
    exact hfired
  · refine hstays ?_ rfl
    rw [hdue, he]
    exact if_neg (by rw [Option.any_some, hwaits]; exact Bool.noConfusion)

theorem exact_step {s s' : TimerBook Fn} {e : TimerEvent Fn} (h : Exact s.run.timer s.live)
    (hs : s.step e = some s') : Exact s'.run.timer s'.live := by
  cases e with
  | add callback interval repeats parameter now memory =>
      rw [step] at hs
      split at hs
      · cases hs
        have hfits : s.granted memory = true →
            s.run.timer.entries.length + timerGrowAmount < 2 ^ 32 := by
          intro hgranted
          exact of_decide_eq_true (Bool.and_eq_true_iff.mp hgranted).2
        show Exact (s.run.add _ _ _ _ _ _).timer _
        rw [TimerRun.add_timer]
        exact h.add callback interval repeats parameter now (s.granted memory) hfits
      · cases hs
  | clear id =>
      rw [step] at hs
      split at hs
      · cases hs
        exact h.clear id
      · cases hs
  | handle =>
      obtain ⟨run, hrun, rfl⟩ := Option.map_eq_some_iff.mp hs
      rcases TimerRun.step_handle hrun with rfl | rfl
      · exact h
      · exact h
  | visit now =>
      obtain ⟨run, hrun, rfl⟩ := Option.map_eq_some_iff.mp hs
      exact h.visit hrun
  | ret stale =>
      obtain ⟨run, hrun, rfl⟩ := Option.map_eq_some_iff.mp hs
      obtain ⟨i, generation, callback, parameter, rest, hf, rfl⟩ := TimerRun.step_ret hrun
      rw [done_running hf, TimerRun.finish]
      split
      · exact h
      · exact h.clear i

theorem exact_start : Exact ({} : TimerBook Fn).run.timer ({} : TimerBook Fn).live where
  fits := Nat.two_pow_pos 32
  free := rfl
  ids := List.nodup_nil
  held l hmem := by cases hmem
  used i hactive := by
    obtain ⟨entry, he, -⟩ := hactive
    cases he

/-- **After every run the books are exact: `_free_count` is the number of slots that are not active,
and at most `_count`; no two timers that are alive share an id, and each is in its slot as it
was added.  An add changes none of them, whether the array grows for it or not, and returns -1
only where there was no memory to grow.** -/
theorem timer_books_exact {es : List (TimerEvent Fn)} {s : TimerBook Fn}
    (hrun : Lib.run step ({} : TimerBook Fn) es = some s) :
    s.run.timer.freeCount.toNat = s.run.timer.entries.countP (fun entry => !entry.active) ∧
      s.run.timer.freeCount.toNat ≤ s.run.timer.entries.length ∧
      s.run.timer.entries.length < 2 ^ 32 ∧
      (s.live.map LiveTimer.id).Nodup ∧
      (∀ l ∈ s.live, s.run.timer.Has (Holds l) l.id) ∧
      (∀ i, s.run.timer.Has (fun _ => True) i → ∃ l ∈ s.live, l.id = i) ∧
      ∀ callback interval repeats parameter now memory,
        (∀ l ∈ s.live, l ∈ (s.add callback interval repeats parameter now memory).live ∧
          (s.add callback interval repeats parameter now memory).run.timer.entries[l.id]? =
            s.run.timer.entries[l.id]?) ∧
        ((s.run.timer.add callback interval repeats parameter now (s.granted memory)).2 = none →
          s.run.timer.freeCount = 0 ∧ s.granted memory = false) := by
  have h : Exact s.run.timer s.live :=
    run_invariant (I := fun s : TimerBook Fn => Exact s.run.timer s.live)
      (fun _ _ _ h hs => exact_step h hs) exact_start hrun
  have hle : s.run.timer.entries.countP (fun entry => !entry.active) ≤ _ := List.countP_le_length
  refine ⟨h.free_eq, ?_, h.fits, h.ids, h.held, h.used, ?_⟩
  · rw [h.free_eq]
    exact hle
  · intro callback interval repeats parameter now memory
    refine ⟨?_, h.add_none callback interval repeats parameter now _⟩
    intro l hl
    refine ⟨s.live_add callback interval repeats parameter now memory hl, ?_⟩
    show (s.run.add _ _ _ _ _ _).timer.entries[l.id]? = _
    rw [TimerRun.add_timer]
    exact add_slot callback interval repeats parameter now _ (h.active hl)

/-- A timeout clears its own slot and a free one, and adds an interval, which gets the slot. -/
theorem timer_books_exact_reused :
    ∃ s, Lib.run step ({} : TimerBook ℕ)
        [.add 7 100 false 0 0 true, .handle, .visit 100, .clear 0, .clear 3,
          .add 9 5 true 1 100 false, .ret false] = some s ∧
      s.live = [{ id := 0, repeats := true, callback := 9, parameter := 1, period := 5 }] ∧
      s.run.timer.entries.countP (fun entry => !entry.active) = 7 := by
  obtain ⟨s, hrun, hlive, hfree⟩ : ∃ s, Lib.run step ({} : TimerBook ℕ)
        [.add 7 100 false 0 0 true, .handle, .visit 100, .clear 0, .clear 3,
          .add 9 5 true 1 100 false, .ret false] = some s ∧
      s.live = [{ id := 0, repeats := true, callback := 9, parameter := 1, period := 5 }] ∧
      s.run.timer.freeCount = 7 := ⟨_, rfl, rfl, rfl⟩
  refine ⟨s, hrun, hlive, ?_⟩
  rw [← (timer_books_exact hrun).1, hfree]
  rfl

end TimerBook

end EspIot
