/-
# `EspIot.Misc.TimerRuns` — which timers a re-entrant pass may take away

A timer that `add` returned should stay in its slot until it fires (a timeout)
or until a clear call names its id.  The one place where this can fail is the
line after the callback in `handle_timers`,

    if (!entry.repeat) _clear(i);

which decides by what slot `i` holds *now*: a callback that frees its own slot
and adds a timeout gets the same slot back, and the new timer is cleared as if
it were the one that had just run.  The same line reads `entry` through a
reference that a growth inside the callback has left dangling.

`Owned` is the bookkeeping invariant: the ledger's owner of a slot is the timer
that is in it.  `Owned` and `NotLost` together are kept by every step except a
return that clears a slot holding something else, and such a return always
loses a timer; so the condition on returns is exact.
-/
import EspIot.Lib.Lists
import EspIot.Misc.Timer

namespace EspIot.TimerRun

open EspIot.Lib

variable {Fn : Type*}

/-- The slot content is what the timer was added with. -/
structure Matches (a : AddedTimer Fn) (entry : TimerEntry Fn) : Prop where
  active : entry.active = true
  repeats : entry.repeats = a.repeats
  callback : entry.callback = some a.callback
  parameter : entry.parameter = a.parameter

/-- Timer `k` is in its slot, active, and as it was added. -/
def Stays (entries : List (TimerEntry Fn)) (l : TimerLedger Fn) (k : Nat) (a : AddedTimer Fn) :
    Prop :=
  l.owner a.id = some k ∧ ∃ entry, entries[a.id]? = some entry ∧ Matches a entry

/-- Timer `k` may be gone: a clear call named its id, or it is a timeout and has fired. -/
def MayGo (l : TimerLedger Fn) (k : Nat) (a : AddedTimer Fn) : Prop :=
  l.cleared k = true ∨ (a.repeats = false ∧ l.fired k = true)

/-- No timer is lost: each one that was returned is in its slot or may be gone. -/
def NotLost (s : TimerRun Fn) : Prop :=
  ∀ k a, s.ledger.added[k]? = some a →
    Stays s.timer.entries s.ledger k a ∨ MayGo s.ledger k a

/-- The ledger's owners are the active slots, and no owner has been cleared. -/
structure Owned (entries : List (TimerEntry Fn)) (l : TimerLedger Fn) : Prop where
  owner : ∀ i k, l.owner i = some k →
    ∃ a, l.added[k]? = some a ∧ a.id = i ∧ Stays entries l k a ∧ l.cleared k = false
  active : ∀ i entry, entries[i]? = some entry → entry.active = true →
    ∃ k, l.owner i = some k
  cleared : ∀ k, l.cleared k = true → k < l.added.length
  notLost : ∀ k a, l.added[k]? = some a → Stays entries l k a ∨ MayGo l k a

theorem Owned.free {entries : List (TimerEntry Fn)} {l : TimerLedger Fn} (h : Owned entries l)
    {i : Nat} (hi : ∀ entry, entries[i]? = some entry → entry.active = false) :
    l.owner i = none := by
  cases ho : l.owner i with
  | none => rfl
  | some k =>
      obtain ⟨a, -, rfl, ⟨-, entry, he, hm⟩, -⟩ := h.owner i k ho
      have := hi entry he
      rw [hm.active] at this
      exact absurd this (by decide)

/-! ## The operations -/

theorem Owned.grow {t : Timer Fn} {l : TimerLedger Fn} (h : Owned t.entries l) (memory : Bool) :
    Owned (t.grow memory).entries l := by
  have hstay : ∀ k a, Stays t.entries l k a → Stays (t.grow memory).entries l k a := by
    rintro k a ⟨ho, entry, he, hm⟩
    refine ⟨ho, entry, ?_, hm⟩
    rw [Timer.grow_prefix t memory (List.getElem?_eq_some_iff.mp he).1]
    exact he
  refine ⟨?_, ?_, h.cleared, ?_⟩
  · intro i k ho
    obtain ⟨a, ha, hid, hs, hc⟩ := h.owner i k ho
    exact ⟨a, ha, hid, hstay k a hs, hc⟩
  · intro i entry he hact
    exact h.active i entry (Timer.grow_active t memory he hact) hact
  · intro k a ha
    exact (h.notLost k a ha).imp_left (hstay k a)

theorem Owned.take {entries : List (TimerEntry Fn)} {l : TimerLedger Fn} (h : Owned entries l)
    {i : Nat} {old new : TimerEntry Fn} {a : AddedTimer Fn} (hold : entries[i]? = some old)
    (hfree : old.active = false) (hid : a.id = i) (hm : Matches a new) :
    Owned (entries.set i new)
      { l with
          added := l.added ++ [a]
          owner := Function.update l.owner i (some l.added.length) } := by
  have hi : i < entries.length := (List.getElem?_eq_some_iff.mp hold).1
  have hnone : l.owner i = none :=
    h.free fun entry he => by rw [hold] at he; cases he; exact hfree
  have hstay : ∀ k b, Stays entries l k b → Stays (entries.set i new)
      { l with added := l.added ++ [a],
               owner := Function.update l.owner i (some l.added.length) } k b := by
    rintro k b ⟨ho, entry, he, hb⟩
    have hne : b.id ≠ i := fun hbi => by rw [hbi, hnone] at ho; cases ho
    refine ⟨by simpa [Function.update_of_ne hne] using ho, entry, ?_, hb⟩
    rw [List.getElem?_set_ne (Ne.symm hne)]
    exact he
  have hnew : Stays (entries.set i new)
      { l with added := l.added ++ [a],
               owner := Function.update l.owner i (some l.added.length) } l.added.length a := by
    subst hid
    exact ⟨by simp, new, by rw [List.getElem?_set_self hi], hm⟩
  refine ⟨?_, ?_, ?_, ?_⟩
  · intro j k ho
    by_cases hj : j = i
    · subst hj
      obtain rfl : l.added.length = k := by simpa using ho
      refine ⟨a, by simp, hid, hnew, ?_⟩
      by_contra hc
      exact absurd (h.cleared _ (by simpa using hc)) (Nat.lt_irrefl _)
    · have ho' : l.owner j = some k := by simpa [Function.update_of_ne hj] using ho
      obtain ⟨b, hb, hbid, hs, hc⟩ := h.owner j k ho'
      have hk : k < l.added.length := (List.getElem?_eq_some_iff.mp hb).1
      exact ⟨b, by rw [List.getElem?_append_left hk]; exact hb, hbid, hstay k b hs, hc⟩
  · intro j entry he hact
    by_cases hj : j = i
    · subst hj
      exact ⟨_, Function.update_self ..⟩
    · rw [List.getElem?_set_ne (Ne.symm hj)] at he
      obtain ⟨k, hk⟩ := h.active j entry he hact
      exact ⟨k, by simpa [Function.update_of_ne hj] using hk⟩
  · intro k hk
    have := h.cleared k hk
    simp only [List.length_append, List.length_cons, List.length_nil]
    omega
  · intro k b hb
    rcases getElem?_concat_cases hb with hb | ⟨rfl, rfl⟩
    · exact (h.notLost k b hb).imp_left (hstay k b)
    · exact Or.inl hnew

theorem Owned.release {t : Timer Fn} {l : TimerLedger Fn} (h : Owned t.entries l) (i : Nat)
    (cleared : Nat → Bool) (hmono : ∀ k, l.cleared k = true → cleared k = true)
    (hnew : ∀ k a, l.added[k]? = some a → cleared k = true → l.cleared k = true ∨ a.id = i)
    (hlt : ∀ k, cleared k = true → k < l.added.length)
    (hgo : ∀ k a, l.owner i = some k → l.added[k]? = some a →
      MayGo { l with cleared := cleared } k a) :
    Owned (t.clear i).entries
      { l with owner := Function.update l.owner i none, cleared := cleared } := by
  have hne : ∀ j, j ≠ i → (t.clear i).entries[j]? = t.entries[j]? := by
    intro j hj
    rcases t.clear_cases i with ⟨heq, -⟩ | ⟨_, -, -, heq⟩
    · rw [heq]
    · rw [heq, List.getElem?_set_ne (Ne.symm hj)]
  have hself : ∀ entry, (t.clear i).entries[i]? = some entry → entry.active = false := by
    intro entry he
    rcases t.clear_cases i with ⟨heq, hin⟩ | ⟨_, hold, -, heq⟩
    · rw [heq] at he; exact hin entry he
    · rw [heq, List.getElem?_set_self (List.getElem?_eq_some_iff.mp hold).1] at he
      cases he; rfl
  have hstay : ∀ k a, a.id ≠ i → Stays t.entries l k a → Stays (t.clear i).entries
      { l with owner := Function.update l.owner i none, cleared := cleared } k a := by
    rintro k a hid ⟨ho, entry, he, hm⟩
    exact ⟨by simpa [Function.update_of_ne hid] using ho, entry, by rw [hne _ hid]; exact he, hm⟩
  refine ⟨?_, ?_, hlt, ?_⟩
  · intro j k ho
    have hj : j ≠ i := by
      rintro rfl
      simp at ho
    have ho' : l.owner j = some k := by simpa [Function.update_of_ne hj] using ho
    obtain ⟨a, ha, rfl, hs, hc⟩ := h.owner j k ho'
    refine ⟨a, ha, rfl, hstay k a hj hs, ?_⟩
    cases hck : cleared k with
    | false => exact hck
    | true =>
        rcases hnew k a ha hck with h' | h'
        · rw [hc] at h'; cases h'
        · exact absurd h' hj
  · intro j entry he hact
    have hj : j ≠ i := by
      rintro rfl
      rw [hself entry he] at hact
      cases hact
    rw [hne j hj] at he
    obtain ⟨k, hk⟩ := h.active j entry he hact
    exact ⟨k, by simpa [Function.update_of_ne hj] using hk⟩
  · intro k a ha
    rcases h.notLost k a ha with hs | hc | hf
    · by_cases hid : a.id = i
      · exact Or.inr (hgo k a (hid ▸ hs.1) ha)
      · exact Or.inl (hstay k a hid hs)
    · exact Or.inr (Or.inl (hmono k hc))
    · exact Or.inr (Or.inr hf)

theorem Owned.fire {entries : List (TimerEntry Fn)} {l : TimerLedger Fn} (h : Owned entries l)
    {i : Nat} {entry : TimerEntry Fn} (hold : entries[i]? = some entry) (now : UInt32)
    (fired : Nat → Bool) (hmono : ∀ k, l.fired k = true → fired k = true) :
    Owned (entries.set i (Timer.arm entry now)) { l with fired := fired } := by
  have hi : i < entries.length := (List.getElem?_eq_some_iff.mp hold).1
  have hstay : ∀ k a, Stays entries l k a →
      Stays (entries.set i (Timer.arm entry now)) { l with fired := fired } k a := by
    rintro k a ⟨ho, e, he, hm⟩
    by_cases hid : a.id = i
    · subst hid
      rw [hold] at he
      cases he
      refine ⟨ho, _, List.getElem?_set_self hi, ?_⟩
      exact ⟨by simp [hm.active], by simp [hm.repeats], by simp [hm.callback],
        by simp [hm.parameter]⟩
    · exact ⟨ho, e, by rw [List.getElem?_set_ne (Ne.symm hid)]; exact he, hm⟩
  refine ⟨?_, ?_, h.cleared, ?_⟩
  · intro j k ho
    obtain ⟨a, ha, hid, hs, hc⟩ := h.owner j k ho
    exact ⟨a, ha, hid, hstay k a hs, hc⟩
  · intro j e he hact
    by_cases hj : j = i
    · subst hj
      rw [List.getElem?_set_self hi] at he
      cases he
      exact h.active j entry hold (by simpa using hact)
    · rw [List.getElem?_set_ne (Ne.symm hj)] at he
      exact h.active j e he hact
  · intro k a ha
    rcases h.notLost k a ha with hs | hc | ⟨hr, hf⟩
    · exact Or.inl (hstay k a hs)
    · exact Or.inr (Or.inl hc)
    · exact Or.inr (Or.inr ⟨hr, hmono k hf⟩)

/-! ## Steps and runs -/

def Kept (s : TimerRun Fn) : Prop := Owned s.timer.entries s.ledger

/-- Slot `i` is free, or still holds a timeout that has fired. -/
def FreeOrDone (s : TimerRun Fn) (i : Nat) : Prop :=
  s.live i = false ∨
    ∃ k a, s.ledger.owner i = some k ∧ s.ledger.added[k]? = some a ∧ a.repeats = false ∧
      s.ledger.fired k = true

/-- When a callback of slot `i` returns and the pass goes on to `_clear(i)`, slot `i` is free
or still holds a timeout that has fired. -/
def CleanReturn (s : TimerRun Fn) : TimerEvent Fn → Prop
  | .ret stale =>
      match s.frames with
      | .running i generation _ _ :: _ =>
          s.timer.repeatAfter i generation stale = true ∨ s.FreeOrDone i
      | _ => True
  | _ => True

theorem live_false {s : TimerRun Fn} {i : Nat} (h : s.live i = false) :
    ∀ entry, s.timer.entries[i]? = some entry → entry.active = false := by
  intro entry he
  simpa [live, he] using h

theorem Kept.add {s : TimerRun Fn} (h : Kept s) (callback : Fn) (interval : UInt32)
    (repeats : Bool) (parameter : Nat) (now : UInt32) (memory : Bool) :
    Kept (s.add callback interval repeats parameter now memory) := by
  obtain ⟨g, hg, hadd⟩ := s.timer.add_cases callback interval repeats parameter now memory
  have hgrown : Owned g.entries s.ledger := by
    rcases hg with rfl | rfl
    · exact h
    · exact Owned.grow h memory
  rcases hadd with hadd | ⟨i, old, hold, hfree, hadd⟩
  · simpa [Kept, TimerRun.add, hadd] using hgrown
  · simp only [Kept, TimerRun.add, hadd]
    exact hgrown.take hold hfree rfl ⟨rfl, rfl, rfl, rfl⟩

theorem Kept.clear {s : TimerRun Fn} (h : Kept s) (i : Nat) : Kept (s.clear i) := by
  refine Owned.release h i _ ?_ ?_ ?_ ?_
  · intro k hk
    simp [hk]
  · intro k a ha hk
    simpa [ha] using hk
  · intro k hk
    rcases Bool.or_eq_true_iff.mp hk with hk | hk
    · exact h.cleared k hk
    · cases ha : s.ledger.added[k]? with
      | none => simp [ha] at hk
      | some a => exact (List.getElem?_eq_some_iff.mp ha).1
  · intro k a ho ha
    obtain ⟨b, hb, hid, -⟩ := h.owner i k ho
    rw [ha] at hb
    cases hb
    exact Or.inl (by simp [ha, hid])

theorem Kept.step (s : TimerRun Fn) (e : TimerEvent Fn) (s' : TimerRun Fn) (h : Kept s)
    (hc : CleanReturn s e) (hs : s.step e = some s') : Kept s' := by
  cases e with
  | add callback interval repeats parameter now memory =>
      obtain ⟨-, rfl⟩ := step_add hs
      exact h.add callback interval repeats parameter now memory
  | clear i =>
      obtain ⟨-, rfl⟩ := step_clear hs
      exact h.clear i
  | handle =>
      rcases step_handle hs with rfl | rfl
      · exact h
      · exact h
  | visit now =>
      obtain ⟨i, rest, -, ⟨-, rfl⟩ | ⟨entry, he, ⟨-, rfl⟩ | ⟨-, rfl⟩⟩⟩ := step_visit hs
      · exact h
      · exact h.fire he now _ fun k hk => by simp [hk]
      · exact h
  | ret stale =>
      obtain ⟨i, generation, _, _, rest, hf, rfl⟩ := step_ret hs
      simp only [CleanReturn, hf] at hc
      rw [finish]
      split
      · exact h
      · rename_i hr
        have hdone := hc.resolve_left hr
        refine h.release i s.ledger.cleared (fun _ hk => hk) (fun _ _ _ hk => Or.inl hk)
          h.cleared ?_
        intro k a ho ha
        rcases hdone with hlive | ⟨k', b, ho', hb, hrep, hfired⟩
        · rw [h.free (live_false hlive)] at ho
          cases ho
        · rw [ho] at ho'
          cases ho'
          rw [ha] at hb
          cases hb
          exact Or.inr ⟨hrep, hfired⟩

theorem unclean_return_loses (s : TimerRun Fn) (e : TimerEvent Fn) (s' : TimerRun Fn)
    (h : Kept s) (hc : ¬ CleanReturn s e) (hs : s.step e = some s') :
    ¬ NotLost s' := by
  cases e with
  | ret stale =>
      obtain ⟨i, generation, _, _, rest, hf, rfl⟩ := step_ret hs
      simp only [CleanReturn, hf, not_or] at hc
      obtain ⟨hr, hdone⟩ := hc
      obtain ⟨hlive, hnot⟩ := not_or.mp hdone
      obtain ⟨entry, he, hact⟩ : ∃ entry, s.timer.entries[i]? = some entry ∧
          entry.active = true := by
        simpa [live, Option.any_eq_true] using hlive
      obtain ⟨k, ho⟩ := h.active i entry he hact
      obtain ⟨a, ha, hid, -, hcl⟩ := h.owner i k ho
      intro hlost
      simp only [finish, if_neg hr] at hlost
      rcases hlost k a ha with ⟨hown, -⟩ | hgo | ⟨hrep, hfired⟩
      · simp [hid] at hown
      · simp [hcl] at hgo
      · exact hnot ⟨k, a, ho, ha, hrep, hfired⟩
  | add _ _ _ _ _ _ => exact absurd trivial hc
  | clear _ => exact absurd trivial hc
  | handle => exact absurd trivial hc
  | visit _ => exact absurd trivial hc

theorem Kept.init : Kept ({} : TimerRun Fn) :=
  ⟨fun _ _ h => by simp at h, fun _ _ h => by simp at h, fun _ h => by simp at h,
    fun _ _ h => by simp at h⟩

/-- **No timer is lost, exactly when every return is clean.**  Over every run of a fresh
`Timer`, callbacks re-entering the class as they like: each timer that was returned stays
active in its slot until it fires (a timeout) or a clear call names its id, if and only if
`_clear(i)` after a callback never meets a slot that holds another or an unfired timer. -/
theorem notLost_iff_cleanReturn (es : List (TimerEvent Fn)) :
    Always step NotLost {} es ↔ Each step CleanReturn {} es :=
  always_iff_each (fun _ h => h.notLost) Kept.step unclean_return_loses Kept.init

/-- A timeout whose callback clears its own id and adds a timeout: the new timer gets the
slot of the running one and is cleared when the callback returns. -/
theorem replaced_timeout_lost :
    ¬ Always step NotLost ({} : TimerRun Nat)
      [.add 0 0 false 0 0 true, .handle, .visit 0, .clear 0, .add 1 5 false 0 0 true,
       .ret false] := by
  intro h
  have hlost : NotLost _ :=
    ((((((h.2 _ rfl).2 _ rfl).2 _ rfl).2 _ rfl).2 _ rfl).2 _ rfl)
  rcases hlost 1 _ rfl with ⟨ho, -⟩ | hc | ⟨-, hf⟩
  · exact absurd ho (by decide)
  · exact absurd hc (by decide)
  · exact absurd hf (by decide)

end EspIot.TimerRun
