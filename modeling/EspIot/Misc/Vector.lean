/-
# `EspIot.Misc.Vector` — the vector of misc/vector.h

The elements stand in a buffer of bytes, at its front, and are constructed and destroyed in
place:

    _data  ──▶  │ x₀ │ x₁ │ … │ xₙ₋₁ │ raw │ … │ raw │
                 0               _size         _capacity

`Holds v xs` says that this is what the vector looks like, with `xs` in it; each operation has
one lemma that says what list it leaves.  An operation also stops where an element cannot be
moved to a larger buffer, because its type can be neither moved nor copied (`Yields`).

The memory is `Lib.RawStorage`, where a slot that is used, constructed or destroyed out of order
stops the program.  A buffer has as many slots as are asked for: `sizeof(T) * capacity` is
taken not to overflow, and there is memory for it.  Lean has a `Vector` of its own, so this
one has a namespace of its own.
-/
import EspIot.Lib.Lists
import EspIot.Lib.RawStorage
import Mathlib.Data.UInt

namespace EspIot.Misc

open Lib
open Lib.RawStorage

/-- What the templates ask about `T`.  A type that is constructed trivially is also destroyed
trivially: the trait includes the destructor. -/
structure ElementType where
  sizeof : ℕ
  moveConstructible : Bool
  copyConstructible : Bool
  triviallyConstructible : Bool
  triviallyDestructible : Bool
  sizeof_pos : 0 < sizeof
  destructible : triviallyConstructible = true → triviallyDestructible = true

/-- An element can be given a place in another buffer. -/
def ElementType.relocatable (T : ElementType) : Bool := T.moveConstructible || T.copyConstructible

/-- `Vector<T>`, with the memory it has from `new`. -/
structure Vector (α : Type*) where
  capacity : UInt32 := 0
  size : UInt32 := 0
  data : Pointer := none
  storage : RawStorage α := []
deriving DecidableEq, Repr

namespace Vector

variable {α : Type*} (T : ElementType)

/-! ## The operations -/

/-- A turn of the loop of `reserve`: moved or copied, the value is the same, and what a move leaves
behind is destroyed. -/
def relocate (old new : Pointer) (i : ℕ) (s : RawStorage α) : Except Stop (RawStorage α) :=
  if T.relocatable = true then do
    let item ← s.read old i
    let s ← s.construct new i item
    s.destroy old i
  else throw .abort

def relocateFrom (old new : Pointer) : ℕ → ℕ → RawStorage α → Except Stop (RawStorage α)
  | 0, _, s => .ok s
  | count + 1, i, s => do
      let s ← relocate T old new i s
      relocateFrom old new count (i + 1) s

def reserve (capacity : UInt32) (v : Vector α) : Except Stop (Bool × Vector α) :=
  if capacity ≤ v.capacity then .ok (false, v)
  else do
    let (data, storage) := v.storage.alloc capacity.toNat
    let storage ← relocateFrom T v.data data v.size.toNat 0 storage
    let storage ← free T.triviallyDestructible storage v.data
    return (true, { v with capacity, data, storage })

def growth (v : Vector α) : UInt32 := max 8 (min 64 v.capacity)

def growIfNeeded (v : Vector α) : Except Stop (Vector α) :=
  if v.size = v.capacity then do
    let (_, v) ← v.reserve T (v.capacity + v.growth)
    return v
  else .ok v

/-- The three ways to add an element; `value` is what the new slot is constructed with. -/
def append (value : α) (v : Vector α) : Except Stop (Vector α) := do
  let v ← v.growIfNeeded T
  let storage ← v.storage.construct v.data v.size.toNat value
  return { v with size := v.size + 1, storage }

/-- `emplace`, where the arguments make this element. -/
def emplace (made : α) (v : Vector α) : Except Stop (Vector α) := v.append T made

def push (value : α) (v : Vector α) : Except Stop (Vector α) := v.append T value

/-- `push(T &&)` -/
def pushMove (value : α) (v : Vector α) : Except Stop (Vector α) := v.append T value

def pop (v : Vector α) : Except Stop (Vector α) :=
  if v.size = 0 then .ok v
  else do
    let size := v.size - 1
    let storage ←
      if T.triviallyDestructible = false then v.storage.destroy v.data size.toNat
      else v.storage.retire v.data size.toNat
    return { v with size, storage }

/-- `while (size < _size) pop();` — one turn for each element too many. -/
def popWhile (size : UInt32) : ℕ → Vector α → Except Stop (Vector α)
  | 0, v => .ok v
  | turns + 1, v =>
      if size < v.size then do
        let v ← v.pop T
        popWhile size turns v
      else .ok v

/-- `while (size > _size) push(value);` — one turn for each element missing. -/
def pushWhile (size : UInt32) (value : α) : ℕ → Vector α → Except Stop (Vector α)
  | 0, v => .ok v
  | turns + 1, v =>
      if v.size < size then do
        let v ← v.push T value
        pushWhile size value turns v
      else .ok v

def resize (size : UInt32) (value : α) (v : Vector α) : Except Stop (Vector α) :=
  if size = v.size then .ok v
  else do
    let (_, v) ← v.reserve T size
    let v ← v.popWhile T size (v.size.toNat - size.toNat)
    v.pushWhile T size value (size.toNat - v.size.toNat)

def clear (v : Vector α) : Except Stop (Vector α) := v.popWhile T 0 v.size.toNat

/-- `at`: the place of the element, or the null pointer. -/
def at? (index : UInt32) (v : Vector α) : Option (Pointer × ℕ) :=
  if v.size ≤ index then none else some (v.data, index.toNat)

/-- `operator[]`: the place of the element. -/
def index (index : UInt32) (v : Vector α) : Except Stop (Pointer × ℕ) :=
  if v.size ≤ index then .error .abort else .ok (v.data, index.toNat)

/-- `v[index] = value` -/
def write (index : UInt32) (value : α) (v : Vector α) : Except Stop (Vector α) :=
  match v.index index with
  | .error stop => .error stop
  | .ok (data, i) => do
      let storage ← v.storage.assign data i value
      return { v with storage }

/-- `v[index]`, read. -/
def get (index : UInt32) (v : Vector α) : Except Stop α :=
  match v.index index with
  | .error stop => .error stop
  | .ok (data, i) => v.storage.read data i

/-- What stands from `begin()` to `end()`. -/
def elements (v : Vector α) : Except Stop (List α) :=
  (List.range v.size.toNat).mapM fun i => v.storage.read v.data i

/-- `Vector(size, value)` -/
def ofSize (size : UInt32) (value : α) : Except Stop (Vector α) :=
  ({} : Vector α).resize T size value

/-- The loop of the constructor from a list. -/
def assignFrom : List α → UInt32 → Vector α → Except Stop (Vector α)
  | [], _, v => .ok v
  | item :: init, index, v => do
      let v ← v.write index item
      assignFrom init (index + 1) v

/-- `Vector(init)`; `default` is `T{}`. -/
def ofList (default : α) (init : List α) : Except Stop (Vector α) := do
  let v ← ofSize T (UInt32.ofNat init.length) default
  v.assignFrom init 0

def destroyFrom (p : Pointer) : ℕ → ℕ → RawStorage α → Except Stop (RawStorage α)
  | 0, _, s => .ok s
  | count + 1, i, s => do
      let s ← s.destroy p i
      destroyFrom p count (i + 1) s

/-- `~Vector`, and the memory it leaves. -/
def destruct (v : Vector α) : Except Stop (RawStorage α) :=
  if v.size = 0 then .ok v.storage
  else do
    let storage ←
      if T.triviallyConstructible = false then destroyFrom v.data v.size.toNat 0 v.storage
      else .ok v.storage
    free T.triviallyDestructible storage v.data

/-! ## What a vector holds -/

/-- The representation: no buffer yet, or one with the elements at its front. -/
inductive Holds : Vector α → List α → Prop
  | nothing : Holds {} []
  | elements {capacity size : UInt32} {n spare : ℕ} {xs : List α} (hpos : 0 < capacity)
      (hcapacity : capacity.toNat = xs.length + spare) (hsize : size.toNat = xs.length) :
      Holds { capacity, size, data := some n, storage := live n (filled xs spare) } xs

/-- The operation leaves a vector with `P`, or it stops the program because elements of the type
cannot be moved. -/
def Yields (P : Vector α → Prop) (r : Except Stop (Vector α)) : Prop :=
  (∃ w, r = .ok w ∧ P w) ∨ T.relocatable = false ∧ r = .error .abort

variable {T} {v w : Vector α} {xs ys : List α}

theorem Yields.ok {P : Vector α → Prop} (h : P w) : Yields T P (.ok w) := .inl ⟨w, rfl, h⟩

theorem Yields.bind {P Q : Vector α → Prop} {r : Except Stop (Vector α)}
    {f : Vector α → Except Stop (Vector α)} (h : Yields T P r)
    (hf : ∀ w, P w → Yields T Q (f w)) : Yields T Q (r >>= f) := by
  rcases h with ⟨w, rfl, hw⟩ | ⟨hT, rfl⟩
  · exact hf w hw
  · exact .inr ⟨hT, rfl⟩

theorem Yields.imp {P Q : Vector α → Prop} {r : Except Stop (Vector α)} (h : Yields T P r)
    (hPQ : ∀ w, P w → Q w) : Yields T Q r := by
  rcases h with ⟨w, rfl, hw⟩ | hstop
  · exact .ok (hPQ w hw)
  · exact .inr hstop

theorem Holds.size_eq (h : Holds v xs) : v.size.toNat = xs.length := by
  cases h with
  | nothing => rfl
  | elements _ _ hsize => exact hsize

theorem Holds.length_le (h : Holds v xs) : xs.length ≤ v.capacity.toNat := by
  cases h with
  | nothing => exact Nat.zero_le _
  | elements _ hcapacity _ =>
      rw [hcapacity]
      exact Nat.le_add_right _ _

theorem Holds.size_zero (h : Holds v xs) : v.size = 0 ↔ xs = [] := by
  rw [← UInt32.toNat_inj, h.size_eq]
  exact List.length_eq_zero_iff

/-! ## Reallocation -/

/-- The loop of `reserve`, some elements on: they are in the new buffer, and no longer in the old
one. -/
theorem relocateFrom_both (hT : T.relocatable = true) (n spare spare' : ℕ) (rest : List α) :
    ∀ done : List α,
      relocateFrom T (some n) (some (n + 1)) rest.length done.length
          (both n (List.replicate done.length none ++ filled rest spare)
            (filled done (rest.length + spare'))) =
        .ok (both n (List.replicate (done.length + rest.length + spare) none)
          (filled (done ++ rest) spare')) := by
  induction rest with
  | nil =>
      intro done
      simp [relocateFrom]
  | cons a rest ih =>
      intro done
      have hold : (List.replicate done.length none ++ filled (a :: rest) spare)[done.length]? =
          some (some a) := by
        simp [filled]
      have hnew : (filled done ((a :: rest).length + spare'))[done.length]? = some none :=
        filled_at_spare (by rw [List.length_cons]; omega)
      have hspare : (a :: rest).length + spare' = (rest.length + spare') + 1 := by
        rw [List.length_cons]
        omega
      have hemptied : (List.replicate done.length none ++ filled (a :: rest) spare).set done.length
          none = List.replicate (done ++ [a]).length none ++ filled rest spare := by
        simp [filled, List.replicate_succ']
      have hturn : relocate T (some n) (some (n + 1)) done.length
          (both n (List.replicate done.length none ++ filled (a :: rest) spare)
            (filled done ((a :: rest).length + spare'))) =
          .ok (both n (List.replicate (done ++ [a]).length none ++ filled rest spare)
            (filled (done ++ [a]) (rest.length + spare'))) := by
        rw [relocate, if_pos hT, read_ok (both_slot_old n _ _ hold)]
        show (do let s ← construct _ _ _ a; destroy s _ _) = _
        rw [construct_ok (both_slot_new n _ _ hnew), both_put_new]
        show destroy _ _ _ = _
        rw [destroy_ok (both_slot_old n _ _ hold), both_put_old, hemptied, hspare, filled_push]
      have hlength : (done ++ [a]).length = done.length + 1 := List.length_append
      rw [List.length_cons, relocateFrom, ← List.length_cons, hturn]
      show relocateFrom T _ _ _ (done.length + 1) _ = _
      rw [← hlength, ih (done ++ [a]), List.append_assoc, List.singleton_append, hlength,
        List.length_cons]
      congr 3
      omega

theorem relocateFrom_all (h : T.relocatable = true ∨ xs = []) (n spare spare' : ℕ) :
    relocateFrom T (some n) (some (n + 1)) xs.length 0
        (both n (filled xs spare) (List.replicate (xs.length + spare') none)) =
      .ok (both n (List.replicate (xs.length + spare) none) (filled xs spare')) := by
  rcases h with hT | rfl
  · have hloop := relocateFrom_both hT n spare spare' xs []
    rw [List.length_nil, Nat.zero_add, List.nil_append, filled_nil] at hloop
    exact hloop
  · rw [List.length_nil, Nat.zero_add, Nat.zero_add]
    rfl

theorem relocateFrom_abort (hT : T.relocatable = false) (hxs : xs ≠ []) (old new : Pointer)
    (s : RawStorage α) : relocateFrom T old new xs.length 0 s = .error .abort := by
  cases xs with
  | nil => exact absurd rfl hxs
  | cons a xs =>
      have hturn : relocate T old new 0 s = .error .abort := by
        rw [relocate, if_neg (by rw [hT]; exact Bool.noConfusion)]
        rfl
      rw [List.length_cons, relocateFrom, hturn]
      rfl

theorem Holds.reserve (h : Holds v xs) (capacity : UInt32) :
    (∃ b w, v.reserve T capacity = .ok (b, w) ∧ Holds w xs ∧ v.capacity ≤ w.capacity ∧
        capacity ≤ w.capacity) ∨
      T.relocatable = false ∧ v.reserve T capacity = .error .abort := by
  by_cases hle : capacity ≤ v.capacity
  · exact .inl ⟨false, v, if_pos hle, h, UInt32.le_refl _, hle⟩
  · have hlt : v.capacity < capacity := UInt32.not_le.mp hle
    have hpos : 0 < capacity := UInt32.lt_of_le_of_lt UInt32.zero_le hlt
    rw [Vector.reserve, if_neg hle]
    cases h with
    | nothing =>
        refine .inl ⟨true, _, rfl, ?_, UInt32.le_of_lt hlt, UInt32.le_refl _⟩
        exact @Holds.elements α _ _ 0 _ [] hpos (Nat.zero_add _).symm rfl
    | @elements old size n spare xs hold hcapacity hsize =>
        obtain ⟨spare', hspare⟩ : ∃ spare', capacity.toNat = xs.length + spare' := by
          have hmore := UInt32.lt_iff_toNat_lt.mp hlt
          exact ⟨capacity.toNat - xs.length, by dsimp only at hmore; omega⟩
        dsimp only
        rw [alloc_live, hsize, hspare]
        dsimp only
        by_cases hmoves : T.relocatable = true ∨ xs = []
        · left
          refine ⟨true, _, ?_, .elements (n := n + 1) hpos hspare hsize, UInt32.le_of_lt hlt,
            UInt32.le_refl _⟩
          rw [relocateFrom_all hmoves]
          show (do let storage ← free _ (both n _ _) (some n); return _) = _
          rw [both_free_old n _ (done_replicate _ _)]
          rfl
        · obtain ⟨hT, hxs⟩ := not_or.mp hmoves
          rw [Bool.not_eq_true] at hT
          right
          refine ⟨hT, ?_⟩
          rw [relocateFrom_abort hT hxs]
          rfl

/-! ## Growth -/

theorem growth_pos (v : Vector α) : 0 < v.growth.toNat := by
  have hmax : (8 : UInt32) ≤ v.growth := by
    show 8 ≤ (if 8 ≤ min 64 v.capacity then min 64 v.capacity else 8)
    split
    · assumption
    · exact UInt32.le_refl _
  exact Nat.lt_of_lt_of_le (by decide) (UInt32.le_iff_toNat_le.mp hmax)

/-- A vector that has grown, where there are 32 bits for its capacity, has room for one more. -/
theorem Holds.growIfNeeded (h : Holds v xs)
    (hfits : v.size = v.capacity → v.capacity.toNat + v.growth.toNat < 2 ^ 32) :
    Yields T (fun w => Holds w xs ∧ v.capacity ≤ w.capacity ∧ xs.length < w.capacity.toNat)
      (v.growIfNeeded T) := by
  rw [Vector.growIfNeeded]
  by_cases hfull : v.size = v.capacity
  · rw [if_pos hfull]
    rcases h.reserve (T := T) (v.capacity + v.growth) with ⟨b, w, hw, hholds, hle, hroom⟩ | hstop
    · refine .inl ⟨w, by rw [hw]; rfl, hholds, hle, ?_⟩
      have hsum := UInt32.le_iff_toNat_le.mp hroom
      have hgrowth := growth_pos v
      have hsize := h.size_eq
      rw [UInt32.toNat_add, Nat.mod_eq_of_lt (hfits hfull)] at hsum
      rw [hfull] at hsize
      omega
    · exact .inr ⟨hstop.1, by rw [hstop.2]; rfl⟩
  · rw [if_neg hfull]
    refine .ok ⟨h, UInt32.le_refl _, ?_⟩
    have hne : v.size.toNat ≠ v.capacity.toNat := fun heq => hfull (UInt32.toNat_inj.mp heq)
    have hsize := h.size_eq
    have hle := h.length_le
    omega

/-! ## Elements added and removed -/

theorem Holds.construct (h : Holds v xs) (hroom : xs.length < v.capacity.toNat) (a : α) :
    ∃ storage, v.storage.construct v.data v.size.toNat a = .ok storage ∧
      Holds { v with size := v.size + 1, storage } (xs ++ [a]) := by
  cases h with
  | nothing => exact absurd hroom (Nat.not_lt_zero _)
  | @elements capacity size n spare xs hpos hcapacity hsize =>
      dsimp only at hroom ⊢
      obtain ⟨spare, rfl⟩ : ∃ k, spare = k + 1 := ⟨spare - 1, by omega⟩
      refine ⟨live n (filled (xs ++ [a]) spare), ?_, .elements hpos ?_ ?_⟩
      · rw [hsize, construct_ok (live_slot n _ (filled_at_spare (by omega))), live_put,
          filled_push]
      · rw [hcapacity, List.length_append, List.length_singleton]
        omega
      · have hlt := capacity.toNat_lt
        rw [List.length_append, List.length_singleton, UInt32.toNat_add, hsize]
        exact Nat.mod_eq_of_lt (by show xs.length + 1 < 2 ^ 32; omega)

theorem Holds.append (h : Holds v xs)
    (hfits : v.size = v.capacity → v.capacity.toNat + v.growth.toNat < 2 ^ 32) (a : α) :
    Yields T (fun w => Holds w (xs ++ [a]) ∧ v.capacity ≤ w.capacity) (v.append T a) := by
  refine (h.growIfNeeded hfits).bind ?_
  rintro w ⟨hholds, hle, hroom⟩
  obtain ⟨storage, hconstruct, hnew⟩ := hholds.construct hroom a
  refine .inl ⟨_, ?_, hnew, hle⟩
  rw [hconstruct]
  rfl

theorem Holds.pop (h : Holds v xs) :
    ∃ w, v.pop T = .ok w ∧ Holds w xs.dropLast ∧ w.capacity = v.capacity := by
  by_cases hempty : v.size = 0
  · obtain rfl := h.size_zero.mp hempty
    exact ⟨v, if_pos hempty, h, rfl⟩
  · rw [Vector.pop, if_neg hempty]
    cases h with
    | nothing => exact absurd rfl hempty
    | @elements capacity size n spare xs hpos hcapacity hsize =>
        dsimp only at hempty ⊢
        rcases List.eq_nil_or_concat xs with rfl | ⟨ys, a, rfl⟩
        · exact absurd (UInt32.toNat_inj.mp hsize) hempty
        · rw [List.concat_eq_append] at hcapacity hsize ⊢
          rw [List.length_append, List.length_singleton] at hcapacity hsize
          have hsize' : (size - 1).toNat = ys.length := by
            have hone : (1 : UInt32) ≤ size := UInt32.le_iff_toNat_le.mpr (by
              show 1 ≤ size.toNat
              omega)
            rw [UInt32.toNat_sub_of_le _ _ hone, hsize]
            rfl
          have hslot : (live n (filled (ys ++ [a]) spare)).slot (some n) ys.length = .ok (some a) :=
            live_slot n _ (filled_at List.getElem?_concat_length spare)
          -- both ways to let the element go leave its slot raw
          rw [hsize', destroy_ok hslot, retire_ok hslot, ite_self, live_put, filled_pop,
            List.dropLast_concat]
          refine ⟨_, rfl, .elements hpos ?_ hsize', rfl⟩
          omega

theorem Holds.write (h : Holds v xs) {index : UInt32} (hindex : index < v.size) (a : α) :
    ∃ w, v.write index a = .ok w ∧ Holds w (xs.set index.toNat a) ∧ w.capacity = v.capacity := by
  have hinside : ¬ v.size ≤ index := UInt32.not_le.mpr hindex
  have hlt : index.toNat < xs.length := by
    rw [← h.size_eq]
    exact UInt32.lt_iff_toNat_lt.mp hindex
  rw [Vector.write, Vector.index, if_neg hinside]
  cases h with
  | nothing => exact absurd hlt (Nat.not_lt_zero _)
  | @elements capacity size n spare xs hpos hcapacity hsize =>
      dsimp only
      rw [assign_ok (live_slot n _ (filled_at (List.getElem?_eq_getElem hlt) spare)), live_put,
        filled_set hlt]
      refine ⟨_, rfl, .elements hpos ?_ ?_, rfl⟩
      · rw [List.length_set, hcapacity]
      · rw [List.length_set, hsize]

/-! ## Several of them -/

theorem Holds.popWhile (size : UInt32) (turns : ℕ) :
    ∀ {v : Vector α} {xs : List α}, Holds v xs → v.size.toNat - size.toNat = turns →
      ∃ w, v.popWhile T size turns = .ok w ∧ Holds w (xs.take (xs.length - turns)) ∧
        w.capacity = v.capacity := by
  induction turns with
  | zero =>
      intro v xs h _
      refine ⟨v, rfl, ?_, rfl⟩
      rw [Nat.sub_zero, List.take_length]
      exact h
  | succ turns ih =>
      intro v xs h hturns
      have hmore : size < v.size := UInt32.lt_iff_toNat_lt.mpr (by omega)
      obtain ⟨w, hpop, hholds, hcapacity⟩ := h.pop (T := T)
      have hsize := hholds.size_eq
      have hlen := h.size_eq
      rw [List.length_dropLast] at hsize
      obtain ⟨u, hrest, hholds', hcapacity'⟩ := ih hholds (by omega)
      refine ⟨u, ?_, ?_, hcapacity'.trans hcapacity⟩
      · rw [Vector.popWhile, if_pos hmore, hpop]
        exact hrest
      · rw [List.length_dropLast, List.dropLast_eq_take, List.take_take] at hholds'
        have hmin : min (xs.length - 1 - turns) (xs.length - 1) = xs.length - (turns + 1) := by
          omega
        rw [hmin] at hholds'
        exact hholds'

theorem Holds.pushWhile (size : UInt32) (a : α) (turns : ℕ) :
    ∀ {v : Vector α} {xs : List α}, Holds v xs → size.toNat - v.size.toNat = turns →
      size ≤ v.capacity →
      Yields T (fun w => Holds w (xs ++ List.replicate turns a) ∧ v.capacity ≤ w.capacity)
        (v.pushWhile T size a turns) := by
  induction turns with
  | zero =>
      intro v xs h _ _
      refine .ok ⟨?_, UInt32.le_refl _⟩
      rw [List.replicate_zero, List.append_nil]
      exact h
  | succ turns ih =>
      intro v xs h hturns hroom
      have hmore : v.size < size := UInt32.lt_iff_toNat_lt.mpr (by omega)
      have hnotFull : v.size ≠ v.capacity := by
        intro heq
        rw [← heq] at hroom
        exact UInt32.not_le.mpr hmore hroom
      rw [Vector.pushWhile, if_pos hmore]
      refine (h.append (fun heq => absurd heq hnotFull) a).bind ?_
      rintro w ⟨hholds, hle⟩
      have hsize := hholds.size_eq
      have hlen := h.size_eq
      rw [List.length_append, List.length_singleton] at hsize
      refine (ih hholds (by omega) (UInt32.le_trans hroom hle)).imp ?_
      rintro u ⟨hholds', hle'⟩
      rw [List.append_assoc, List.singleton_append, ← List.replicate_succ] at hholds'
      exact ⟨hholds', UInt32.le_trans hle hle'⟩

theorem Holds.resize (h : Holds v xs) (size : UInt32) (a : α) :
    Yields T (fun w => Holds w (xs.take size.toNat ++ List.replicate (size.toNat - xs.length) a) ∧
        v.capacity ≤ w.capacity) (v.resize T size a) := by
  have hlen := h.size_eq
  rw [Vector.resize]
  by_cases hsame : size = v.size
  · rw [if_pos hsame]
    refine .ok ⟨?_, UInt32.le_refl _⟩
    rw [hsame, hlen, Nat.sub_self, List.take_length, List.replicate_zero, List.append_nil]
    exact h
  · rw [if_neg hsame]
    rcases h.reserve (T := T) size with ⟨b, u, hu, hholds, hle, hroom⟩ | hstop
    · rw [hu]
      obtain ⟨t, ht, hpopped, hcapacity⟩ := hholds.popWhile (T := T) size _ rfl
      show Yields T _ (do
        let v ← u.popWhile T size (u.size.toNat - size.toNat)
        v.pushWhile T size a (size.toNat - v.size.toNat))
      rw [ht]
      have hsizes := hpopped.size_eq
      have hlen' := hholds.size_eq
      rw [List.length_take] at hsizes
      refine (hpopped.pushWhile size a _ rfl (by rw [hcapacity]; exact hroom)).imp ?_
      rintro w ⟨hpushed, hgrown⟩
      refine ⟨?_, UInt32.le_trans hle (by rw [← hcapacity]; exact hgrown)⟩
      have htake : xs.take (xs.length - (u.size.toNat - size.toNat)) = xs.take size.toNat := by
        rcases Nat.le_total xs.length size.toNat with hmore | hless
        · rw [List.take_of_length_le hmore, List.take_of_length_le (by omega)]
        · congr 1
          omega
      have hcount : size.toNat - t.size.toNat = size.toNat - xs.length := by omega
      rw [htake, hcount] at hpushed
      exact hpushed
    · exact .inr ⟨hstop.1, by rw [hstop.2]; rfl⟩

theorem Holds.clear (h : Holds v xs) :
    ∃ w, v.clear T = .ok w ∧ Holds w [] ∧ w.capacity = v.capacity := by
  obtain ⟨w, hw, hholds, hcapacity⟩ := h.popWhile (T := T) 0 v.size.toNat (Nat.sub_zero _)
  rw [h.size_eq, Nat.sub_self, List.take_zero] at hholds
  exact ⟨w, hw, hholds, hcapacity⟩

/-! ## What is made -/

theorem Yields.ofSize (size : UInt32) (a : α) :
    Yields T (fun w => Holds w (List.replicate size.toNat a)) (ofSize T size a) := by
  refine (Holds.nothing.resize size a).imp ?_
  rintro w ⟨hholds, -⟩
  rw [List.take_nil, List.nil_append, List.length_nil, Nat.sub_zero] at hholds
  exact hholds

theorem Holds.assignFrom (init : List α) :
    ∀ {v : Vector α} {done rest : List α} {index : UInt32}, Holds v (done ++ rest) →
      rest.length = init.length → index.toNat = done.length →
      ∃ w, v.assignFrom init index = .ok w ∧ Holds w (done ++ init) := by
  induction init with
  | nil =>
      intro v done rest index h hrest _
      obtain rfl := List.length_eq_zero_iff.mp hrest
      exact ⟨v, rfl, h⟩
  | cons a init ih =>
      intro v done rest index h hrest hindex
      cases rest with
      | nil => cases hrest
      | cons b rest =>
          have hsize := h.size_eq
          have hbound := v.size.toNat_lt
          rw [List.length_append, List.length_cons] at hsize
          have hlt : index < v.size := UInt32.lt_iff_toNat_lt.mpr (by omega)
          obtain ⟨w, hw, hholds, -⟩ := h.write hlt a
          have hset : (done ++ b :: rest).set index.toNat a = (done ++ [a]) ++ rest := by
            rw [hindex, List.set_append_right _ _ (Nat.le_refl _), Nat.sub_self]
            simp
          have hnext : (index + 1).toNat = (done ++ [a]).length := by
            rw [UInt32.toNat_add, List.length_append, List.length_singleton, hindex]
            exact Nat.mod_eq_of_lt (by show done.length + 1 < 2 ^ 32; omega)
          rw [hset] at hholds
          obtain ⟨u, hu, hholds'⟩ := ih hholds (Nat.succ.inj hrest) hnext
          refine ⟨u, ?_, ?_⟩
          · rw [Vector.assignFrom, hw]
            exact hu
          · rw [List.append_assoc, List.singleton_append] at hholds'
            exact hholds'

theorem Yields.ofList (default : α) {init : List α} (hfits : init.length < 2 ^ 32) :
    Yields T (fun w => Holds w init) (ofList T default init) := by
  refine (Yields.ofSize (UInt32.ofNat init.length) default).bind ?_
  intro w hholds
  have hlen : (UInt32.ofNat init.length).toNat = init.length := by
    rw [UInt32.toNat_ofNat']
    exact Nat.mod_eq_of_lt hfits
  rw [hlen] at hholds
  obtain ⟨u, hu, hholds'⟩ := @Holds.assignFrom α init w [] _ 0 hholds List.length_replicate rfl
  exact .inl ⟨u, hu, hholds'⟩

/-! ## What is seen -/

theorem at?_eq_none (index : UInt32) (v : Vector α) : v.at? index = none ↔ v.size ≤ index := by
  rw [at?]
  split <;> simp [*]

theorem Holds.get (h : Holds v xs) (index : UInt32) :
    v.get index = match xs[index.toNat]? with
      | none => .error .abort
      | some a => .ok a := by
  rw [Vector.get, Vector.index]
  by_cases hindex : v.size ≤ index
  · have hout : xs.length ≤ index.toNat := by
      rw [← h.size_eq]
      exact UInt32.le_iff_toNat_le.mp hindex
    rw [if_pos hindex, List.getElem?_eq_none hout]
  · have hlt : index.toNat < xs.length := by
      rw [← h.size_eq]
      exact UInt32.lt_iff_toNat_lt.mp (UInt32.not_le.mp hindex)
    rw [if_neg hindex, List.getElem?_eq_getElem hlt]
    cases h with
    | nothing => exact absurd hlt (Nat.not_lt_zero _)
    | elements _ _ _ =>
        exact read_ok (live_slot _ _ (filled_at (List.getElem?_eq_getElem hlt) _))

theorem Holds.elements_eq (h : Holds v xs) : v.elements = .ok xs := by
  rw [Vector.elements, h.size_eq, List.range_eq_range']
  refine mapM_range'_of (m := Except Stop) ?_
  intro i a hi
  cases h with
  | nothing => cases hi
  | elements _ _ _ =>
      rw [Nat.zero_add]
      exact read_ok (live_slot _ _ (filled_at hi _))

end Vector

end EspIot.Misc
