/-
# `EspIot.Lib.RawStorage` — buffers of slots that are constructed or not

Memory as a program sees it that constructs its objects in place.  A buffer has slots, and a
slot is raw or it holds an element.  What must not be done stops the program, so that a
program that goes on is one that has kept the books:

    construct   a raw slot only                   else `occupied`
    read, assign, destroy   a constructed one     else `raw`
    free        a live buffer, once               else `dangling`
                with no element left in it        else `lost`

An element whose destructor is trivial needs no call: `retire` is where it is let go, and its
buffer may be freed around it.  When nothing has stopped and no buffer is live, every element
has been destroyed exactly once, and every buffer freed.

`live` and `both` are memory with one and with two live buffers; `filled` is a buffer whose
first slots are constructed.
-/
import Mathlib.Data.List.Basic

namespace EspIot.Lib

/-- Why a program stops: it says so itself, or it does to its memory what must not be done. -/
inductive Stop
  | abort
  | dangling
  | outside
  | raw
  | occupied
  | lost
deriving DecidableEq, Repr

/-- The buffers that have been allocated, by their addresses; a freed one is `none`. -/
abbrev RawStorage (α : Type*) := List (Option (List (Option α)))

abbrev Pointer := Option ℕ

namespace RawStorage

variable {α : Type*}

def buffer (s : RawStorage α) : Pointer → Except Stop (List (Option α))
  | none => .error .dangling
  | some n =>
      match s[n]? with
      | some (some slots) => .ok slots
      | _ => .error .dangling

def slot (s : RawStorage α) (p : Pointer) (i : ℕ) : Except Stop (Option α) :=
  match s.buffer p with
  | .error stop => .error stop
  | .ok slots =>
      match slots[i]? with
      | none => .error .outside
      | some x => .ok x

/-- A slot is given another content; no check is made. -/
def put (s : RawStorage α) : Pointer → ℕ → Option α → RawStorage α
  | none, _, _ => s
  | some n, i, x =>
      match s[n]? with
      | some (some slots) => s.set n (some (slots.set i x))
      | _ => s

/-- `new`: the buffer comes with raw slots. -/
def alloc (s : RawStorage α) (n : ℕ) : Pointer × RawStorage α :=
  (some s.length, s ++ [some (List.replicate n none)])

def read (s : RawStorage α) (p : Pointer) (i : ℕ) : Except Stop α := do
  match ← s.slot p i with
  | none => throw .raw
  | some a => return a

/-- Placement `new`. -/
def construct (s : RawStorage α) (p : Pointer) (i : ℕ) (a : α) : Except Stop (RawStorage α) := do
  match ← s.slot p i with
  | none => return s.put p i (some a)
  | some _ => throw .occupied

def assign (s : RawStorage α) (p : Pointer) (i : ℕ) (a : α) : Except Stop (RawStorage α) := do
  match ← s.slot p i with
  | none => throw .raw
  | some _ => return s.put p i (some a)

def destroy (s : RawStorage α) (p : Pointer) (i : ℕ) : Except Stop (RawStorage α) := do
  match ← s.slot p i with
  | none => throw .raw
  | some _ => return s.put p i none

/-- An element with a trivial destructor is let go. -/
def retire (s : RawStorage α) (p : Pointer) (i : ℕ) : Except Stop (RawStorage α) := do
  let _ ← s.slot p i
  return s.put p i none

/-- `delete[]`; what is left in the buffer must be `trivial` to destroy. -/
def free (trivial : Bool) (s : RawStorage α) : Pointer → Except Stop (RawStorage α)
  | none => .ok s
  | some n =>
      match s.buffer (some n) with
      | .error stop => .error stop
      | .ok slots =>
          if trivial = false ∧ slots.any Option.isSome = true then .error .lost
          else .ok (s.set n none)

/-! ## Slots -/

variable {s : RawStorage α} {p : Pointer} {i : ℕ} {a : α}

theorem read_ok (h : s.slot p i = .ok (some a)) : s.read p i = .ok a := by
  rw [read, h]
  rfl

theorem construct_ok (h : s.slot p i = .ok none) (b : α) :
    s.construct p i b = .ok (s.put p i (some b)) := by
  rw [construct, h]
  rfl

theorem assign_ok (h : s.slot p i = .ok (some a)) (b : α) :
    s.assign p i b = .ok (s.put p i (some b)) := by
  rw [assign, h]
  rfl

theorem destroy_ok (h : s.slot p i = .ok (some a)) : s.destroy p i = .ok (s.put p i none) := by
  rw [destroy, h]
  rfl

theorem retire_ok {x : Option α} (h : s.slot p i = .ok x) :
    s.retire p i = .ok (s.put p i none) := by
  rw [retire, h]
  rfl

/-! ## One live buffer, and two -/

def live (n : ℕ) (slots : List (Option α)) : RawStorage α := List.replicate n none ++ [some slots]

def both (n : ℕ) (old new : List (Option α)) : RawStorage α :=
  List.replicate n none ++ [some old, some new]

section
variable (n : ℕ) (slots old new : List (Option α))

theorem live_at : (live n slots)[n]? = some (some slots) := by
  simp [live]

theorem both_at_old : (both n old new)[n]? = some (some old) := by
  simp [both]

theorem both_at_new : (both n old new)[n + 1]? = some (some new) := by
  simp [both]

theorem live_slot {x : Option α} {i : ℕ} (h : slots[i]? = some x) :
    (live n slots).slot (some n) i = .ok x := by
  rw [slot, buffer, live_at]
  simp [h]

theorem both_slot_old {x : Option α} {i : ℕ} (h : old[i]? = some x) :
    (both n old new).slot (some n) i = .ok x := by
  rw [slot, buffer, both_at_old]
  simp [h]

theorem both_slot_new {x : Option α} {i : ℕ} (h : new[i]? = some x) :
    (both n old new).slot (some (n + 1)) i = .ok x := by
  rw [slot, buffer, both_at_new]
  simp [h]

theorem live_put (i : ℕ) (x : Option α) :
    (live n slots).put (some n) i x = live n (slots.set i x) := by
  rw [put, live_at]
  simp [live]

theorem both_put_old (i : ℕ) (x : Option α) :
    (both n old new).put (some n) i x = both n (old.set i x) new := by
  rw [put, both_at_old]
  simp [both]

theorem both_put_new (i : ℕ) (x : Option α) :
    (both n old new).put (some (n + 1)) i x = both n old (new.set i x) := by
  rw [put, both_at_new]
  simp [both]

theorem alloc_live (k : ℕ) :
    (live n slots).alloc k = (some (n + 1), both n slots (List.replicate k none)) := by
  simp [alloc, live, both]

variable {slots old} {trivial : Bool}

/-- Nothing that has to be destroyed is left in the buffer. -/
def Done (trivial : Bool) (slots : List (Option α)) : Prop :=
  trivial = true ∨ ∀ x ∈ slots, x = none

theorem Done.not_lost (h : Done trivial slots) :
    ¬ (trivial = false ∧ slots.any Option.isSome = true) := by
  rintro ⟨hnot, hany⟩
  rcases h with htrivial | hraw
  · rw [htrivial] at hnot
    cases hnot
  · obtain ⟨x, hmem, hsome⟩ := List.any_eq_true.mp hany
    rw [hraw x hmem] at hsome
    cases hsome

theorem live_free (h : Done trivial slots) :
    free trivial (live n slots) (some n) = .ok (List.replicate (n + 1) none) := by
  rw [free, buffer, live_at]
  dsimp only
  rw [if_neg h.not_lost]
  simp [live, List.replicate_succ']

theorem both_free_old (h : Done trivial old) :
    free trivial (both n old new) (some n) = .ok (live (n + 1) new) := by
  rw [free, buffer, both_at_old]
  dsimp only
  rw [if_neg h.not_lost]
  simp [both, live, List.replicate_succ']

end

/-! ## A buffer filled from the front -/

/-- The elements, and raw slots behind them. -/
def filled (xs : List α) (spare : ℕ) : List (Option α) :=
  xs.map some ++ List.replicate spare none

section
variable {xs : List α}

@[simp] theorem filled_length (xs : List α) (spare : ℕ) :
    (filled xs spare).length = xs.length + spare := by
  simp [filled]

@[simp] theorem filled_nil (spare : ℕ) :
    filled ([] : List α) spare = List.replicate spare none := rfl

theorem filled_at {i : ℕ} {a : α} (h : xs[i]? = some a) (spare : ℕ) :
    (filled xs spare)[i]? = some (some a) := by
  have hi := (List.getElem?_eq_some_iff.mp h).1
  rw [filled, List.getElem?_append_left (by simpa using hi), List.getElem?_map, h]
  rfl

theorem filled_at_spare {spare : ℕ} (h : 0 < spare) :
    (filled xs spare)[xs.length]? = some none := by
  rw [filled, List.getElem?_append_right (by simp)]
  simp [h]

theorem filled_push (a : α) (spare : ℕ) :
    (filled xs (spare + 1)).set xs.length (some a) = filled (xs ++ [a]) spare := by
  simp [filled, List.replicate_succ]

theorem filled_pop (a : α) (spare : ℕ) :
    (filled (xs ++ [a]) spare).set xs.length none = filled xs (spare + 1) := by
  simp [filled, List.replicate_succ]

theorem filled_set {i : ℕ} (h : i < xs.length) (a : α) (spare : ℕ) :
    (filled xs spare).set i (some a) = filled (xs.set i a) spare := by
  rw [filled, filled, List.set_append_left _ _ (by simpa using h), List.map_set]

theorem done_replicate (trivial : Bool) (n : ℕ) :
    Done trivial (List.replicate n (none : Option α)) :=
  .inr fun _ hmem => (List.mem_replicate.mp hmem).2

end

end RawStorage

end EspIot.Lib
