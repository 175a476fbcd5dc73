/-
# `EspIot.Misc.TimerSlots` — what the active slots hold

What the users of a `Timer` need to know about it: `Has t P i` says that slot
`i` is active and its entry is a `P`, and there is one lemma for each operation
that says what it does to `Has`.  A new timer goes to a slot that held nothing,
`clear` empties one slot, growth changes nothing, and the writes of a pass change
nothing that is not about the clock.  `Counted` is what `_free_count` says about the slots that are
not active.
-/
import EspIot.Misc.Timer

namespace EspIot.Timer

variable {Fn : Type*}

/-- Slot `i` is active and holds such an entry. -/
def Has (t : Timer Fn) (P : TimerEntry Fn → Prop) (i : ℕ) : Prop :=
  ∃ entry, t.entries[i]? = some entry ∧ entry.active = true ∧ P entry

/-- `_add` finds a slot: one is free, or there is memory to grow when none is. -/
def Room (t : Timer Fn) (memory : Bool) : Prop :=
  (∃ entry ∈ t.entries, entry.active = false) ∨ (t.freeCount = 0 ∧ memory = true)

theorem Has.lt {t : Timer Fn} {P : TimerEntry Fn → Prop} {i : ℕ} (h : t.Has P i) :
    i < t.entries.length := by
  obtain ⟨entry, he, -⟩ := h
  exact (List.getElem?_eq_some_iff.mp he).1

theorem has_set_of_ne {t : Timer Fn} {i j : ℕ} (hij : i ≠ j) (entry : TimerEntry Fn)
    (freeCount : UInt32) (generation : ℕ) (P : TimerEntry Fn → Prop) :
    Has { entries := t.entries.set i entry, freeCount, generation } P j ↔ t.Has P j := by
  show (∃ e, (t.entries.set i entry)[j]? = some e ∧ _) ↔ _
  rw [List.getElem?_set_ne hij]
  rfl

theorem has_set_self {t : Timer Fn} {i : ℕ} (hi : i < t.entries.length) (entry : TimerEntry Fn)
    (freeCount : UInt32) (generation : ℕ) (P : TimerEntry Fn → Prop) :
    Has { entries := t.entries.set i entry, freeCount, generation } P i ↔
      entry.active = true ∧ P entry := by
  show (∃ e, (t.entries.set i entry)[i]? = some e ∧ _) ↔ _
  rw [List.getElem?_set_self hi]
  constructor
  · rintro ⟨e, he, hact, hp⟩
    cases he
    exact ⟨hact, hp⟩
  · rintro ⟨hact, hp⟩
    exact ⟨entry, rfl, hact, hp⟩

theorem has_grow (t : Timer Fn) (memory : Bool) (P : TimerEntry Fn → Prop) (i : ℕ) :
    (t.grow memory).Has P i ↔ t.Has P i := by
  constructor
  · rintro ⟨entry, he, hact, hp⟩
    exact ⟨entry, t.grow_active memory he hact, hact, hp⟩
  · rintro ⟨entry, he, hact, hp⟩
    refine ⟨entry, ?_, hact, hp⟩
    rw [t.grow_prefix memory (List.getElem?_eq_some_iff.mp he).1]
    exact he

theorem has_clear (t : Timer Fn) (i : ℕ) (P : TimerEntry Fn → Prop) (j : ℕ) :
    (t.clear i).Has P j ↔ j ≠ i ∧ t.Has P j := by
  by_cases hij : i = j
  · subst hij
    refine iff_of_false ?_ (fun h => h.1 rfl)
    rintro ⟨entry, he, hact, -⟩
    rcases t.clear_cases i with ⟨heq, hfree⟩ | ⟨old, hold, -, heq⟩
    · rw [heq] at he
      rw [hfree entry he] at hact
      cases hact
    · rw [heq, List.getElem?_set_self (List.getElem?_eq_some_iff.mp hold).1] at he
      cases he
      cases hact
  · rw [and_iff_right (Ne.symm hij)]
    rcases t.clear_cases i with ⟨heq, -⟩ | ⟨old, -, -, heq⟩
    · rw [heq]
    · rw [heq]
      exact has_set_of_ne hij ..

theorem clear_length (t : Timer Fn) (i : ℕ) : (t.clear i).entries.length = t.entries.length := by
  rcases t.clear_cases i with ⟨heq, -⟩ | ⟨old, -, -, heq⟩
  · rw [heq]
  · rw [heq]
    exact List.length_set

theorem clear_room (t : Timer Fn) {i : ℕ} (hi : i < t.entries.length) (memory : Bool) :
    (t.clear i).Room memory := by
  have hlt : i < (t.clear i).entries.length := by
    rw [clear_length]
    exact hi
  refine .inl ⟨(t.clear i).entries[i], List.getElem_mem hlt, ?_⟩
  rcases t.clear_cases i with ⟨heq, hfree⟩ | ⟨old, -, -, heq⟩
  · refine hfree _ ?_
    simp only [heq]
    exact List.getElem?_eq_getElem hi
  · simp only [heq, List.getElem_set_self]

section
variable (t : Timer Fn) (callback : Fn) (interval : UInt32) (repeats : Bool) (parameter : ℕ)
  (now : UInt32) (memory : Bool)

/-- A new timer is held by the slot `_add` returns, and the others hold what they held. -/
theorem has_add (P : TimerEntry Fn → Prop) (j : ℕ) :
    (t.add callback interval repeats parameter now memory).1.Has P j ↔
      t.Has P j ∨ ((t.add callback interval repeats parameter now memory).2 = some j ∧
        P { active := true, createdAt := now, interval, repeats, callback := some callback,
            parameter }) := by
  obtain ⟨g, hg, hadd⟩ := t.add_cases callback interval repeats parameter now memory
  have hgrown : g.Has P j ↔ t.Has P j := by
    rcases hg with rfl | rfl
    · rfl
    · exact t.has_grow memory P j
  rcases hadd with hadd | ⟨i, old, hold, hfree, hadd⟩
  · rw [hadd, hgrown]
    exact ⟨Or.inl, fun h => h.resolve_right fun h => by cases h.1⟩
  · have hi : i < g.entries.length := (List.getElem?_eq_some_iff.mp hold).1
    rw [hadd, ← hgrown]
    by_cases hij : i = j
    · subst hij
      rw [has_set_self hi]
      have hnot : ¬ g.Has P i := by
        rintro ⟨entry, he, hact, -⟩
        rw [hold] at he
        cases he
        rw [hfree] at hact
        cases hact
      simp [hnot]
    · rw [has_set_of_ne hij]
      simp [hij]

theorem add_length_le :
    t.entries.length ≤
      (t.add callback interval repeats parameter now memory).1.entries.length := by
  obtain ⟨g, hg, hadd⟩ := t.add_cases callback interval repeats parameter now memory
  have hgrown : t.entries.length ≤ g.entries.length := by
    rcases hg with rfl | rfl
    · exact Nat.le_refl _
    · rw [grow]
      split
      · simp
      · exact Nat.le_refl _
  rcases hadd with hadd | ⟨j, old, hold, hfree, hadd⟩
  · rw [hadd]
    exact hgrown
  · rw [hadd]
    show t.entries.length ≤ (g.entries.set j _).length
    rw [List.length_set]
    exact hgrown

theorem add_isSome_iff :
    (t.add callback interval repeats parameter now memory).2.isSome = true ↔ t.Room memory := by
  have hfind : ∀ entries : List (TimerEntry Fn),
      (entries.findIdx? fun entry => !entry.active) = none ↔
        ¬ ∃ entry ∈ entries, entry.active = false := by
    intro entries
    rw [List.findIdx?_eq_none_iff]
    simp
  have hadd : ∀ g : Timer Fn, g = (if t.freeCount = 0 then t.grow memory else t) →
      ((t.add callback interval repeats parameter now memory).2.isSome = true ↔
        ∃ entry ∈ g.entries, entry.active = false) := by
    intro g hg
    have hiff := hfind g.entries
    unfold add
    dsimp only
    rw [← hg]
    split
    · rename_i i hsome
      refine iff_of_true rfl ?_
      by_contra hnone
      rw [hiff.mpr hnone] at hsome
      cases hsome
    · rename_i hnone
      exact iff_of_false (fun h => by cases h) (hiff.mp hnone)
  rw [hadd _ rfl]
  by_cases hfree : t.freeCount = 0
  · rw [if_pos hfree]
    cases memory with
    | false => simp [grow, Room]
    | true =>
        -- eight free slots are appended
        refine iff_of_true ⟨{}, ?_, rfl⟩ (.inr ⟨hfree, rfl⟩)
        simp [grow, timerGrowAmount]
  · rw [if_neg hfree]
    simp [Room, hfree]

end

theorem has_arm {t : Timer Fn} {i : ℕ} {entry : TimerEntry Fn} (he : t.entries[i]? = some entry)
    (now : UInt32) {P : TimerEntry Fn → Prop} (hP : P (arm entry now) ↔ P entry) (j : ℕ) :
    Has { t with entries := t.entries.set i (arm entry now) } P j ↔ t.Has P j := by
  by_cases hij : i = j
  · subst hij
    rw [has_set_self (List.getElem?_eq_some_iff.mp he).1, arm_active, hP]
    constructor
    · rintro ⟨hact, hp⟩
      exact ⟨entry, he, hact, hp⟩
    · rintro ⟨e, he', hact, hp⟩
      rw [he] at he'
      cases he'
      exact ⟨hact, hp⟩
  · exact has_set_of_ne hij ..

/-! ## The free slots -/

/-- `_free_count` counts the free slots, in 32 bits. -/
def Counted (t : Timer Fn) : Prop :=
  t.freeCount.toNat = t.entries.countP (fun entry => !entry.active) % 2 ^ 32

theorem Counted.grow {t : Timer Fn} (h : t.Counted) (memory : Bool) : (t.grow memory).Counted := by
  rw [Timer.grow]
  split
  · have hadded : (List.replicate timerGrowAmount ({} : TimerEntry Fn)).countP
        (fun entry => !entry.active) = 8 := rfl
    rw [Counted] at h
    rw [Counted, List.countP_append, hadded, UInt32.toNat_add, h]
    show (_ + 8) % 2 ^ 32 = _
    omega
  · exact h

theorem Counted.take {t : Timer Fn} (h : t.Counted) {i : ℕ} {old new : TimerEntry Fn}
    (hold : t.entries[i]? = some old) (hfree : old.active = false) (hactive : new.active = true) :
    Counted { t with entries := t.entries.set i new, freeCount := t.freeCount - 1 } := by
  obtain ⟨hi, rfl⟩ := List.getElem?_eq_some_iff.mp hold
  have hpos : 0 < t.entries.countP (fun entry => !entry.active) :=
    List.countP_pos_iff.mpr ⟨_, List.getElem_mem hi, by rw [hfree]; rfl⟩
  rw [Counted] at h
  rw [Counted]
  dsimp only
  rw [List.countP_set hi, hfree, hactive, UInt32.toNat_sub, h]
  show (2 ^ 32 - 1 + _) % 2 ^ 32 = (_ - 1 + 0) % 2 ^ 32
  omega

theorem Counted.clear {t : Timer Fn} (h : t.Counted) (i : ℕ) : (t.clear i).Counted := by
  rcases t.clear_cases i with ⟨heq, -⟩ | ⟨old, hold, hactive, heq⟩
  · rw [heq]
    exact h
  · obtain ⟨hi, rfl⟩ := List.getElem?_eq_some_iff.mp hold
    rw [Counted] at h
    rw [heq, Counted]
    dsimp only
    rw [List.countP_set hi, hactive, UInt32.toNat_add, h]
    show (_ + 1) % 2 ^ 32 = (_ - 0 + 1) % 2 ^ 32
    omega

theorem Counted.add {t : Timer Fn} (h : t.Counted) (callback : Fn) (interval : UInt32)
    (repeats : Bool) (parameter : ℕ) (now : UInt32) (memory : Bool) :
    (t.add callback interval repeats parameter now memory).1.Counted := by
  obtain ⟨g, hg, hadd⟩ := t.add_cases callback interval repeats parameter now memory
  have hgrown : g.Counted := by
    rcases hg with rfl | rfl
    · exact h
    · exact h.grow memory
  rcases hadd with hadd | ⟨i, old, hold, hfree, hadd⟩
  · rw [hadd]
    exact hgrown
  · rw [hadd]
    exact hgrown.take hold hfree rfl

theorem Counted.arm {t : Timer Fn} (h : t.Counted) {i : ℕ} {entry : TimerEntry Fn}
    (he : t.entries[i]? = some entry) (now : UInt32) :
    Counted { t with entries := t.entries.set i (arm entry now) } := by
  obtain ⟨hi, rfl⟩ := List.getElem?_eq_some_iff.mp he
  have hle := List.boole_getElem_le_countP (p := fun entry => !entry.active) hi
  rw [Counted] at h
  rw [Counted]
  dsimp only
  rw [List.countP_set hi, arm_active, h]
  omega

theorem Counted.idle {t : Timer Fn} (h : t.Counted) (hidle : t.idle = true) :
    ∀ entry ∈ t.entries, entry.active = false := by
  intro entry hmem
  rcases Bool.or_eq_true_iff.mp hidle with hempty | hcount
  · rw [List.isEmpty_iff.mp hempty] at hmem
    cases hmem
  · have hlen := beq_iff_eq.mp hcount
    have hle := List.countP_le_length (p := fun entry => !entry.active) (l := t.entries)
    rw [Counted] at h
    have hall : t.entries.countP (fun entry => !entry.active) = t.entries.length := by
      have := Nat.mod_le (t.entries.countP fun entry => !entry.active) (2 ^ 32)
      omega
    simpa using List.countP_eq_length.mp hall entry hmem

end EspIot.Timer

namespace EspIot.TimerRun

variable {Fn : Type*}

theorem add_timer (s : TimerRun Fn) (callback : Fn) (interval : UInt32) (repeats : Bool)
    (parameter : ℕ) (now : UInt32) (memory : Bool) :
    (s.add callback interval repeats parameter now memory).timer =
      (s.timer.add callback interval repeats parameter now memory).1 := by
  rw [add]
  split <;> (rename_i h; rw [h])

end EspIot.TimerRun
