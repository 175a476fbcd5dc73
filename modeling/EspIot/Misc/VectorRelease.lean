/-
# `EspIot.Misc.VectorRelease` — what a vector leaves behind

The elements are in order: whatever is called, each one is constructed in a raw slot, is used
while it is there, and is destroyed once, by `pop`, by the loop of `reserve` or by the
destructor.  So are the buffers, up to the last one.  The destructor starts with

    if (_size == 0) return;

and a vector that is empty may still have its buffer:

    _size > 0                  elements destroyed, buffer freed
    _size == 0, no buffer      nothing to do
    _size == 0, a buffer       nothing done, the buffer stays
-/
import EspIot.Misc.VectorRuns

namespace EspIot.Misc

open Lib
open Lib.RawStorage

namespace Vector

variable {α : Type*} {T : ElementType} {v : Vector α} {xs : List α}

/-- **Nothing has stopped the program, the destructor goes through, and every buffer has been
freed.** -/
def Releases (T : ElementType) (s : Except Stop (Vector α)) : Prop :=
  ∃ v storage, s = .ok v ∧ v.destruct T = .ok storage ∧ ∀ b ∈ storage, b = none

theorem destroyFrom_live (n spare : ℕ) (rest : List α) :
    ∀ i, destroyFrom (some n) rest.length i
        (live n (List.replicate i none ++ filled rest spare)) =
      .ok (live n (List.replicate (i + rest.length + spare) none)) := by
  induction rest with
  | nil =>
      intro i
      simp [destroyFrom]
  | cons a rest ih =>
      intro i
      have hslot : (List.replicate i none ++ filled (a :: rest) spare)[i]? = some (some a) := by
        simp [filled]
      have hgone : (List.replicate i none ++ filled (a :: rest) spare).set i none =
          List.replicate (i + 1) none ++ filled rest spare := by
        simp [filled, List.replicate_succ']
      rw [List.length_cons, destroyFrom, destroy_ok (live_slot n _ hslot), live_put, hgone]
      show destroyFrom _ _ (i + 1) _ = _
      rw [ih (i + 1)]
      congr 3
      omega

/-- A vector with elements: they are destroyed, or need not be, and the buffer is freed. -/
theorem destruct_elements {capacity size : UInt32} {n spare : ℕ} (hsize : size.toNat = xs.length)
    (hne : size ≠ 0) :
    destruct T { capacity, size, data := some n, storage := live n (filled xs spare) } =
      .ok (List.replicate (n + 1) none) := by
  rw [destruct, if_neg hne]
  by_cases hT : T.triviallyConstructible = false
  · have hloop := destroyFrom_live n spare xs 0
    rw [List.replicate_zero, List.nil_append] at hloop
    rw [if_pos hT, hsize, hloop]
    exact live_free n (done_replicate _ _)
  · rw [if_neg hT]
    rw [Bool.not_eq_false] at hT
    exact live_free n (.inl (T.destructible hT))

theorem Holds.destruct (h : Holds v xs) :
    ∃ storage, v.destruct T = .ok storage ∧
      (∀ slots, some slots ∈ storage → ∀ x ∈ slots, x = none) ∧
      ((∀ b ∈ storage, b = none) ↔ 0 < v.size ∨ v.capacity = 0) := by
  cases h with
  | nothing =>
      refine ⟨[], rfl, ?_, ?_⟩
      · intro slots hmem
        cases hmem
      · exact ⟨fun _ => .inr rfl, fun _ b hmem => by cases hmem⟩
  | @elements capacity size n spare xs hpos hcapacity hsize =>
      by_cases hempty : size = 0
      · -- nothing is done
        obtain rfl : xs = [] := by
          rw [hempty] at hsize
          exact List.length_eq_zero_iff.mp hsize.symm
        refine ⟨live n (filled [] spare), if_pos hempty, ?_, ?_⟩
        · intro slots hmem x hx
          rw [live, List.mem_append, List.mem_replicate, List.mem_singleton] at hmem
          rcases hmem with ⟨-, hfreed⟩ | hlast
          · cases hfreed
          · cases hlast
            rw [filled_nil, List.mem_replicate] at hx
            exact hx.2
        · constructor
          · intro hall
            have hlast := hall (some (filled [] spare)) (List.mem_append_right _
              (List.mem_singleton.mpr rfl))
            cases hlast
          · rintro (hmore | hnone)
            · rw [hempty] at hmore
              exact absurd hmore (UInt32.lt_irrefl 0)
            · exact absurd hnone (UInt32.pos_iff_ne_zero.mp hpos)
      · refine ⟨_, destruct_elements hsize hempty, ?_, ?_⟩
        · intro slots hmem
          cases (List.mem_replicate.mp hmem).2
        · refine ⟨fun _ => .inl (UInt32.pos_iff_ne_zero.mpr hempty), fun _ b hmem => ?_⟩
          exact (List.mem_replicate.mp hmem).2

/-- **After every run the elements are destroyed once each, and the buffers are all freed exactly
where the vector is not empty, or has never had one.** -/
theorem vector_releases_iff {made : VectorMade α} {es : List (VectorCall α)}
    {s₀ s : Except Stop (Vector α)} (hmade : make T made = some s₀)
    (hrun : run (step T) s₀ es = some s) :
    ∃ v storage, s = .ok v ∧ v.destruct T = .ok storage ∧
      (∀ slots, some slots ∈ storage → ∀ x ∈ slots, x = none) ∧
      (Releases T s ↔ 0 < v.size ∨ v.capacity = 0) := by
  obtain ⟨v, rfl, hholds⟩ := run_holds hmade hrun
  obtain ⟨storage, hdestruct, hslots, hfreed⟩ := hholds.destruct (T := T)
  refine ⟨v, storage, rfl, hdestruct, hslots, ?_⟩
  rw [← hfreed]
  constructor
  · rintro ⟨v', storage', hv, hdestruct', hall⟩
    cases hv
    rw [hdestruct] at hdestruct'
    cases hdestruct'
    exact hall
  · exact fun hall => ⟨v, storage, rfl, hdestruct, hall⟩

/-- A number pushed and taken away again: the buffer for eight stays. -/
theorem vector_popped_leaks :
    make ⟨4, true, true, true, true, by decide, id⟩ (.nothing : VectorMade ℕ) = some (.ok {}) ∧
      run (step ⟨4, true, true, true, true, by decide, id⟩) (.ok {}) [.push 7, .pop] =
        some (.ok { capacity := 8, size := 0, data := some 0, storage := live 0 (filled [] 8) }) ∧
      ¬ Releases ⟨4, true, true, true, true, by decide, id⟩
        (.ok { capacity := 8, size := 0, data := some 0, storage := live 0 (filled [] 8) } :
          Except Stop (Vector ℕ)) := by
  refine ⟨rfl, by decide, ?_⟩
  rintro ⟨v, storage, hv, hdestruct, hall⟩
  cases hv
  cases hdestruct
  exact absurd (hall _ (List.mem_singleton.mpr rfl)) (by decide)

/-- A string, and one that makes the vector grow. -/
theorem vector_releases_two :
    Releases ⟨16, true, true, false, false, by decide, id⟩
      (.ok { capacity := 9, size := 2, data := some 1, storage := live 1 (filled ["a", "b"] 7) } :
        Except Stop (Vector String)) := by
  have hmade : make ⟨16, true, true, false, false, by decide, id⟩ (.ofList "" ["a"]) =
      some (.ok
        { capacity := 1, size := 1, data := some 0, storage := live 0 (filled ["a"] 0) }) := by
    decide
  have hrun : run (step ⟨16, true, true, false, false, by decide, id⟩)
      (.ok { capacity := 1, size := 1, data := some 0, storage := live 0 (filled ["a"] 0) })
      [.push "b"] =
      some (.ok { capacity := 9, size := 2, data := some 1,
                  storage := live 1 (filled ["a", "b"] 7) }) := by
    decide
  obtain ⟨v, storage, hv, -, -, hiff⟩ := vector_releases_iff hmade hrun
  cases hv
  exact hiff.mpr (.inl (by decide))

end Vector

end EspIot.Misc
