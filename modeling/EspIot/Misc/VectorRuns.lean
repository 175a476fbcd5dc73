/-
# `EspIot.Misc.VectorRuns` — a vector is the list its calls lead to

A vector is made in one of three ways, and then called.  `onList` is what each call does to a
list; `vector_refines_list` says that the vector shows that list after every run, whatever its
element type, and that its capacity has never become less.

A call is not taken where there is no memory for the buffer it asks for: an object has at most
`2 ^ 31 - 1` bytes, on a machine of 32 bits.  A call that aborts ends the program, so no run
goes on behind it; what else could stop one would stay in the state.
-/
import EspIot.Lib.Run
import EspIot.Misc.Vector

namespace EspIot.Misc

open Lib
open Lib.RawStorage

/-- The calls on a vector, those that only read it included. -/
inductive VectorCall (α : Type*)
  | emplace (made : α)
  | push (value : α)
  | pushMove (value : α)
  | pop
  | resize (size : UInt32) (value : α)
  | reserve (capacity : UInt32)
  | clear
  | write (index : UInt32) (value : α)
  | read (index : UInt32)
  | iterate
deriving DecidableEq, Repr

/-- The ways to make one; `default` is `T{}`. -/
inductive VectorMade (α : Type*)
  | nothing
  | ofSize (size : UInt32) (value : α)
  | ofList (default : α) (init : List α)
deriving DecidableEq, Repr

def VectorCall.onList {α : Type*} (xs : List α) : VectorCall α → List α
  | .emplace a | .push a | .pushMove a => xs ++ [a]
  | .pop => xs.dropLast
  | .resize size a => xs.take size.toNat ++ List.replicate (size.toNat - xs.length) a
  | .clear => []
  | .write index a => xs.set index.toNat a
  | .reserve _ | .read _ | .iterate => xs

def VectorMade.list {α : Type*} : VectorMade α → List α
  | .nothing => []
  | .ofSize size a => List.replicate size.toNat a
  | .ofList _ init => init

namespace Vector

variable {α : Type*} (T : ElementType)

/-- The largest object there is, in bytes. -/
def maxObject : ℕ := 2 ^ 31 - 1

/-- There is memory for so many elements. -/
def Available (count : ℕ) : Prop := count * T.sizeof ≤ maxObject

instance (count : ℕ) : Decidable (Available T count) := Nat.decLe _ _

/-- For how many elements a call allocates a buffer. -/
def asks (v : Vector α) : VectorCall α → ℕ
  | .emplace _ | .push _ | .pushMove _ =>
      if v.size = v.capacity then v.capacity.toNat + v.growth.toNat else 0
  | .resize size _ => if size ≤ v.capacity then 0 else size.toNat
  | .reserve capacity => if capacity ≤ v.capacity then 0 else capacity.toNat
  | .pop | .clear | .write _ _ | .read _ | .iterate => 0

def call (v : Vector α) : VectorCall α → Except Stop (Vector α)
  | .emplace made => v.emplace T made
  | .push value => v.push T value
  | .pushMove value => v.pushMove T value
  | .pop => v.pop T
  | .resize size value => v.resize T size value
  | .reserve capacity => (v.reserve T capacity).map Prod.snd
  | .clear => v.clear T
  | .write index value => v.write index value
  | .read index => (v.get index).map fun _ => v
  | .iterate => v.elements.map fun _ => v

def Outside (v : Vector α) : VectorCall α → Prop
  | .write index _ | .read index => v.size ≤ index
  | _ => False

/-- The program goes on, unless it aborts. -/
def unlessAborted (r : Except Stop (Vector α)) : Option (Except Stop (Vector α)) :=
  match r with
  | .error .abort => none
  | r => some r

def step : Except Stop (Vector α) → VectorCall α → Option (Except Stop (Vector α))
  | .error _, _ => none
  | .ok v, e => if Available T (v.asks e) then unlessAborted (v.call T e) else none

def make : VectorMade α → Option (Except Stop (Vector α))
  | .nothing => some (.ok {})
  | .ofSize size value =>
      if Available T size.toNat then unlessAborted (ofSize T size value) else none
  | .ofList default init =>
      if Available T init.length then unlessAborted (ofList T default init) else none

/-- **The vector shows this list, through each of its windows.** -/
structure Shows (v : Vector α) (xs : List α) : Prop where
  size : v.size.toNat = xs.length
  size_le : v.size ≤ v.capacity
  at_null : ∀ index, v.at? index = none ↔ xs.length ≤ index.toNat
  at_read : ∀ index data i, v.at? index = some (data, i) →
    ∃ a, xs[index.toNat]? = some a ∧ v.storage.read data i = .ok a
  index : ∀ index, v.get index = match xs[index.toNat]? with
    | none => .error .abort
    | some a => .ok a
  elements : v.elements = .ok xs

variable {T} {v : Vector α} {xs : List α}

/-! ## One call -/

theorem Available.lt {count : ℕ} (h : Available T count) : count < 2 ^ 32 := by
  have hone : count * 1 ≤ count * T.sizeof := Nat.mul_le_mul_left count T.sizeof_pos
  have hmax : maxObject < 2 ^ 32 := by decide
  rw [Available] at h
  omega

theorem Holds.shows (h : Holds v xs) : Shows v xs where
  size := h.size_eq
  size_le := by
    rw [UInt32.le_iff_toNat_le, h.size_eq]
    exact h.length_le
  at_null index := by
    rw [at?_eq_none, UInt32.le_iff_toNat_le, h.size_eq]
  at_read index data i hat := by
    have hget := h.get index
    rw [at?] at hat
    rw [Vector.get, Vector.index] at hget
    by_cases hindex : v.size ≤ index
    · rw [if_pos hindex] at hat
      cases hat
    · rw [if_neg hindex] at hat hget
      cases hat
      cases ha : xs[index.toNat]? with
      | some a =>
          rw [ha] at hget
          exact ⟨a, rfl, hget⟩
      | none =>
          rw [List.getElem?_eq_none_iff, ← h.size_eq] at ha
          exact absurd (UInt32.le_iff_toNat_le.mpr ha) hindex
  index := h.get
  elements := h.elements_eq

/-- What a call leaves, or why the program aborts. -/
theorem Holds.call_cases (h : Holds v xs) {e : VectorCall α} (hfits : Available T (v.asks e)) :
    (∃ w, v.call T e = .ok w ∧ Holds w (e.onList xs) ∧ v.capacity ≤ w.capacity) ∨
      (T.relocatable = false ∨ v.Outside e) ∧ v.call T e = .error .abort := by
  have hyields : ∀ {P : Vector α → Prop} {r : Except Stop (Vector α)}, Yields T P r →
      (∃ w, r = .ok w ∧ P w) ∨ (T.relocatable = false ∨ v.Outside e) ∧ r = .error .abort := by
    rintro P r (hok | ⟨hT, hstop⟩)
    · exact .inl hok
    · exact .inr ⟨.inl hT, hstop⟩
  have happend : ∀ a : α, Available T (v.asks (.push a)) →
      Yields T (fun w => Holds w (xs ++ [a]) ∧ v.capacity ≤ w.capacity) (v.append T a) := by
    intro a hpush
    refine h.append ?_ a
    intro hfull
    rw [asks, if_pos hfull] at hpush
    exact hpush.lt
  cases e with
  | emplace a => exact hyields (happend a hfits)
  | push a => exact hyields (happend a hfits)
  | pushMove a => exact hyields (happend a hfits)
  | pop =>
      obtain ⟨w, hw, hholds, hcapacity⟩ := h.pop (T := T)
      exact .inl ⟨w, hw, hholds, UInt32.le_of_eq hcapacity.symm⟩
  | resize size a => exact hyields (h.resize size a)
  | reserve capacity =>
      show (∃ w, (v.reserve T capacity).map Prod.snd = _ ∧ _) ∨ _ ∧
        (v.reserve T capacity).map Prod.snd = _
      rcases h.reserve (T := T) capacity with ⟨b, w, hw, hholds, hle, -⟩ | ⟨hT, hstop⟩
      · rw [hw]
        exact .inl ⟨w, rfl, hholds, hle⟩
      · rw [hstop]
        exact .inr ⟨.inl hT, rfl⟩
  | clear =>
      obtain ⟨w, hw, hholds, hcapacity⟩ := h.clear (T := T)
      exact .inl ⟨w, hw, hholds, UInt32.le_of_eq hcapacity.symm⟩
  | write index a =>
      by_cases hindex : v.size ≤ index
      · right
        refine ⟨.inr hindex, ?_⟩
        show v.write index a = _
        rw [Vector.write, Vector.index, if_pos hindex]
      · obtain ⟨w, hw, hholds, hcapacity⟩ := h.write (UInt32.not_le.mp hindex) a
        exact .inl ⟨w, hw, hholds, UInt32.le_of_eq hcapacity.symm⟩
  | read index =>
      show (∃ w, (v.get index).map _ = _ ∧ _) ∨ _ ∧ (v.get index).map _ = _
      have hget := h.get index
      cases ha : xs[index.toNat]? with
      | some a =>
          rw [ha] at hget
          rw [hget]
          exact .inl ⟨v, rfl, h, UInt32.le_refl _⟩
      | none =>
          rw [ha] at hget
          rw [hget]
          rw [List.getElem?_eq_none_iff, ← h.size_eq] at ha
          exact .inr ⟨.inr (UInt32.le_iff_toNat_le.mpr ha), rfl⟩
  | iterate =>
      left
      refine ⟨v, ?_, h, UInt32.le_refl _⟩
      show v.elements.map _ = _
      rw [h.elements_eq]
      rfl

theorem Holds.step (h : Holds v xs) {e : VectorCall α} {s : Except Stop (Vector α)}
    (hs : Vector.step T (.ok v) e = some s) :
    ∃ w, s = .ok w ∧ Holds w (e.onList xs) ∧ v.capacity ≤ w.capacity := by
  rw [Vector.step] at hs
  split at hs
  · rename_i hfits
    rcases h.call_cases hfits with ⟨w, hw, hholds, hle⟩ | ⟨-, hstop⟩
    · rw [hw] at hs
      cases hs
      exact ⟨w, rfl, hholds, hle⟩
    · rw [hstop] at hs
      cases hs
  · cases hs

/-- Where there is memory, a call goes through: its elements can be moved, and its index is not past
the end. -/
theorem Holds.step_isSome (h : Holds v xs) (hT : T.relocatable = true) {e : VectorCall α}
    (hfits : Available T (v.asks e)) (hinside : ¬ v.Outside e) :
    (Vector.step T (.ok v) e).isSome = true := by
  rw [Vector.step, if_pos hfits]
  rcases h.call_cases hfits with ⟨w, hw, -⟩ | ⟨hwhy, -⟩
  · rw [hw]
    rfl
  · rcases hwhy with hnot | hout
    · rw [hT] at hnot
      cases hnot
    · exact absurd hout hinside

theorem Yields.unlessAborted {P : Vector α → Prop} {r : Except Stop (Vector α)}
    {s : Except Stop (Vector α)} (h : Yields T P r) (hs : unlessAborted r = some s) :
    ∃ w, s = .ok w ∧ P w := by
  rcases h with ⟨w, rfl, hw⟩ | ⟨-, rfl⟩
  · cases hs
    exact ⟨w, rfl, hw⟩
  · cases hs

theorem make_holds {made : VectorMade α} {s : Except Stop (Vector α)} (hs : make T made = some s) :
    ∃ w, s = .ok w ∧ Holds w made.list := by
  cases made with
  | nothing =>
      cases hs
      exact ⟨{}, rfl, .nothing⟩
  | ofSize size a =>
      rw [make] at hs
      split at hs
      · exact (Yields.ofSize size a).unlessAborted hs
      · cases hs
  | ofList default init =>
      rw [make] at hs
      split at hs
      · rename_i hfits
        exact (Yields.ofList default hfits.lt).unlessAborted hs
      · cases hs

/-! ## Runs -/

theorem Holds.run {es : List (VectorCall α)} :
    ∀ {v : Vector α} {xs : List α} {s : Except Stop (Vector α)}, Holds v xs →
      run (Vector.step T) (.ok v) es = some s →
      ∃ w, s = .ok w ∧ Holds w (es.foldl VectorCall.onList xs) ∧ v.capacity ≤ w.capacity := by
  induction es with
  | nil =>
      intro v xs s h hrun
      cases hrun
      exact ⟨v, rfl, h, UInt32.le_refl _⟩
  | cons e es ih =>
      intro v xs s h hrun
      obtain ⟨t, ht, hrest⟩ := run_cons_some hrun
      obtain ⟨u, rfl, hholds, hle⟩ := h.step ht
      obtain ⟨w, rfl, hholds', hle'⟩ := ih hholds hrest
      exact ⟨w, rfl, hholds', UInt32.le_trans hle hle'⟩

theorem run_holds {made : VectorMade α} {es : List (VectorCall α)} {s₀ s : Except Stop (Vector α)}
    (hmade : make T made = some s₀) (hrun : run (Vector.step T) s₀ es = some s) :
    ∃ v, s = .ok v ∧ Holds v (es.foldl VectorCall.onList made.list) := by
  obtain ⟨v₀, rfl, hholds⟩ := make_holds hmade
  obtain ⟨v, rfl, hholds', -⟩ := hholds.run hrun
  exact ⟨v, rfl, hholds'⟩

/-- **After every run the vector shows the list its calls lead to, no call has made its capacity
less, and the next call goes through where its elements can be moved or copied.** -/
theorem vector_refines_list {made : VectorMade α} {es : List (VectorCall α)}
    {s₀ s : Except Stop (Vector α)} (hmade : make T made = some s₀)
    (hrun : run (step T) s₀ es = some s) :
    ∃ v, s = .ok v ∧ Shows v (es.foldl VectorCall.onList made.list) ∧
      (∀ fs gs u, es = fs ++ gs → run (step T) s₀ fs = some (.ok u) → u.capacity ≤ v.capacity) ∧
      ∀ e, T.relocatable = true → Available T (v.asks e) → ¬ v.Outside e →
        (step T s e).isSome = true := by
  obtain ⟨v, rfl, hholds⟩ := run_holds hmade hrun
  refine ⟨v, rfl, hholds.shows, ?_, ?_⟩
  · intro fs gs u hes hfs
    obtain ⟨u', hu, hholds'⟩ := run_holds hmade hfs
    cases hu
    rw [hes, run_append_of hfs] at hrun
    obtain ⟨w, hw, -, hle⟩ := hholds'.run hrun
    cases hw
    exact hle
  · intro e hT hfits hinside
    exact hholds.step_isSome hT hfits hinside

/-- Three numbers, a fourth that makes the vector grow, a number written, and one taken away. -/
theorem vector_refines_list_grown :
    ∃ v : Vector ℕ, v.capacity = 11 ∧ v.data = some 1 ∧ Shows v [9, 2, 3] := by
  have hmade : make ⟨4, true, true, true, true, by decide, id⟩ (.ofList 0 [1, 2, 3]) =
      some (.ok
        { capacity := 3, size := 3, data := some 0, storage := live 0 (filled [1, 2, 3] 0) }) := by
    decide
  have hrun : run (step ⟨4, true, true, true, true, by decide, id⟩)
      (.ok { capacity := 3, size := 3, data := some 0, storage := live 0 (filled [1, 2, 3] 0) })
      [.push 4, .write 0 9, .pop] =
      some (.ok
        { capacity := 11, size := 3, data := some 1, storage := live 1 (filled [9, 2, 3] 8) }) := by
    decide
  obtain ⟨v, hv, hshows, -⟩ := vector_refines_list hmade hrun
  cases hv
  exact ⟨_, rfl, rfl, hshows⟩

end Vector

end EspIot.Misc
