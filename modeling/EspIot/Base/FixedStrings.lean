/-
# `EspIot.Base.FixedStrings` — what `FixedString` copies

`set_value` of a `FixedString` has three lengths in its hands: the bytes it is given, the
capacity, and what is left to fill up.  It checks the first against the second and then
copies as many bytes as the capacity has, from a source that holds only those it was given:

    given > capacity    refused, nothing changes
    given = capacity    copied, and no byte more is read
    given < capacity    the copy runs past the bytes given; what it brought in
                        from there is filled over with zeros

So what is stored is right wherever the copy does not fault.  The source is the memory from
the pointer on; a call reads only the bytes it is given when it answers the same whatever
stands behind them, nothing included.
-/
import EspIot.Base.Parameter
import EspIot.Lib.Bytes
import EspIot.Lib.Strings

namespace EspIot

open Lib

namespace FixedString

/-- `set_value(data, size)`: `data` is the memory the pointer leads to, `ptr` what `_ptr` holds,
`_size` bytes. -/
def setValue (ptr data : List UInt8) (size : ℕ) : Except MemFault (Bool × List UInt8) :=
  if size > ptr.length then .ok (false, ptr)
  else do
    let copied ← memcpy ptr 0 data 0 ptr.length
    let filled ← if size < ptr.length then memset copied size 0 (copied.length - size)
      else .ok copied
    return (true, filled)

/-- `parse` of a `String` of `length` characters; `cStr` is the memory behind `c_str()`. -/
def parse (ptr cStr : List UInt8) (length : ℕ) : Except MemFault (Bool × List UInt8) :=
  if length > ptr.length then .ok (false, ptr) else setValue ptr cStr length

/-- What a value of `data` leaves in `capacity` bytes. -/
def padded (capacity : ℕ) (data : List UInt8) : List UInt8 :=
  data ++ List.replicate (capacity - data.length) 0

/-- A call that is given `data` reads those bytes and no others: it has its answer whatever stands
behind them. -/
def ReadsOnly {β : Type*} (call : List UInt8 → Except MemFault β) (data : List UInt8) (answer : β) :
    Prop :=
  ∀ behind, call (data ++ behind) = .ok answer

/-- An update refuses what is too long and changes nothing, or reads the bytes it is given and
stores them, filled up with zeros. -/
def UsesBytesGiven (update : (ptr source : List UInt8) → (size : ℕ) →
    Except MemFault (Bool × List UInt8)) (ptr data : List UInt8) : Prop :=
  ptr.length < data.length ∧ ReadsOnly (update ptr · data.length) data (false, ptr) ∨
    data.length ≤ ptr.length ∧
      ReadsOnly (update ptr · data.length) data (true, padded ptr.length data)

/-! ## What a call does -/

theorem setValue_refused {ptr data : List UInt8} {size : ℕ} (h : ptr.length < size) :
    setValue ptr data size = .ok (false, ptr) :=
  if_pos h

theorem setValue_overread {ptr source : List UInt8} {size : ℕ} (hsize : size ≤ ptr.length)
    (h : source.length < ptr.length) : setValue ptr source size = .error .overread := by
  have hcopy : memcpy ptr 0 source 0 ptr.length = .error .overread := by
    rw [memcpy, if_neg (by omega), if_pos (by omega)]
  rw [setValue, if_neg (by omega), hcopy]
  rfl

theorem setValue_stored {ptr data behind : List UInt8} (hdata : data.length ≤ ptr.length)
    (h : ptr.length ≤ (data ++ behind).length) :
    setValue ptr (data ++ behind) data.length = .ok (true, padded ptr.length data) := by
  have hcopied : (((data ++ behind).drop 0).take ptr.length).length = ptr.length :=
    copied_length (by omega)
  have hcopy : memcpy ptr 0 (data ++ behind) 0 ptr.length =
      .ok ((data ++ behind).take ptr.length) := by
    rw [memcpy_inside (by omega) (by omega), writeAt_zero, hcopied, List.drop_length,
      List.append_nil, List.drop_zero]
  rw [List.drop_zero] at hcopied
  rw [setValue, if_neg (by omega), hcopy]
  show (do
    let filled ← if data.length < ptr.length then _ else _
    return (true, filled)) = _
  by_cases hlt : data.length < ptr.length
  · rw [if_pos hlt, memset_rest 0 (by omega), hcopied, List.take_take,
      Nat.min_eq_left hdata, List.take_left]
    rfl
  · have heq : ptr.length = data.length := by omega
    rw [if_neg hlt, heq, List.take_left, padded, Nat.sub_self, List.replicate_zero,
      List.append_nil]
    rfl

theorem parse_eq_setValue (ptr cStr : List UInt8) (length : ℕ) :
    parse ptr cStr length = setValue ptr cStr length := by
  by_cases h : ptr.length < length
  · rw [parse, if_pos h, setValue_refused h]
  · rw [parse, if_neg h]

theorem setValue_parameter {ptr data behind stored : List UInt8} {answer : Bool}
    (h : setValue ptr (data ++ behind) data.length = .ok (answer, stored)) :
    (FixedString ptr.length).setValue data ptr = if answer then some stored else none := by
  show setPadded ptr.length data ptr = _
  rcases Nat.lt_or_ge ptr.length data.length with hlt | hle
  · rw [setValue_refused hlt] at h
    cases h
    rw [setPadded, if_pos hlt]
    rfl
  · rw [setPadded, if_neg (by omega)]
    rcases Nat.lt_or_ge (data ++ behind).length ptr.length with hshort | hlong
    · rw [setValue_overread hle hshort] at h
      cases h
    · rw [setValue_stored hle hlong] at h
      cases h
      rfl

/-! ## Only the bytes given -/

theorem setValue_usesBytesGiven {ptr data : List UInt8} :
    UsesBytesGiven setValue ptr data ↔ ptr.length ≤ data.length := by
  constructor
  · rintro (⟨hlt, -⟩ | ⟨hle, hreads⟩)
    · exact Nat.le_of_lt hlt
    · -- with nothing behind the bytes given
      by_contra hshort
      have h : setValue ptr (data ++ []) data.length = _ := hreads []
      rw [List.append_nil, setValue_overread hle (by omega)] at h
      cases h
  · intro h
    rcases Nat.lt_or_eq_of_le h with hlt | heq
    · exact .inl ⟨hlt, fun _ => setValue_refused hlt⟩
    · refine .inr ⟨Nat.le_of_eq heq.symm, ?_⟩
      intro behind
      exact setValue_stored (Nat.le_of_eq heq.symm) (by rw [List.length_append]; omega)

theorem parse_usesBytesGiven {ptr data : List UInt8} :
    UsesBytesGiven parse ptr data ↔ ptr.length ≤ data.length := by
  have hparse : parse = setValue := by
    funext ptr cStr length
    exact parse_eq_setValue ptr cStr length
  rw [hparse, setValue_usesBytesGiven]

/-- With its NUL, and nothing behind that, a text is enough for the copy when it is shorter than
the capacity by one character at most. -/
theorem parse_terminated {ptr text : List UInt8} :
    (∃ answer, parse ptr (text ++ [0]) text.length = .ok answer) ↔
      ptr.length ≤ text.length + 1 := by
  have hmem : (text ++ [0]).length = text.length + 1 := by
    rw [List.length_append, List.length_singleton]
  rw [parse_eq_setValue]
  constructor
  · rintro ⟨answer, h⟩
    by_contra hshort
    rw [setValue_overread (by omega) (by omega)] at h
    cases h
  · intro h
    rcases Nat.lt_or_ge ptr.length text.length with hlt | hle
    · exact ⟨_, setValue_refused hlt⟩
    · exact ⟨_, setValue_stored hle (by omega)⟩

theorem toString_padded {text : List UInt8} (h : 0 ∉ text) {capacity : ℕ}
    (hlen : text.length ≤ capacity) :
    (FixedString capacity).toString (padded capacity text) = text := by
  have hpad : (padded capacity text).length ≤ capacity := by
    rw [padded, List.length_append, List.length_replicate]
    omega
  show ((padded capacity text).take capacity).takeWhile (· ≠ 0) = text
  rw [List.take_of_length_le hpad, padded, List.takeWhile_append_of_pos]
  · cases capacity - text.length with
    | zero => rw [List.replicate_zero, List.takeWhile_nil, List.append_nil]
    | succ n => simp [List.replicate_succ]
  · intro byte hmem
    rw [decide_eq_true_eq]
    rintro rfl
    exact h hmem

/-- **Both updates use only the bytes given exactly when these fill the capacity at least; a text
comes back wherever the copy finds memory to read.** -/
theorem fixedString_uses_bytes_given (ptr data : List UInt8) :
    (UsesBytesGiven setValue ptr data ∧ UsesBytesGiven parse ptr data ↔
      ptr.length ≤ data.length) ∧
    (0 ∉ data → data.length ≤ ptr.length →
      ∀ behind, ptr.length ≤ (data ++ behind).length →
        ∃ stored, parse ptr (data ++ behind) data.length = .ok (true, stored) ∧
          (FixedString ptr.length).toString stored = data) := by
  refine ⟨?_, ?_⟩
  · rw [setValue_usesBytesGiven, parse_usesBytesGiven, and_self_iff]
  · intro htext hlen behind hmem
    refine ⟨padded ptr.length data, ?_, toString_padded htext hlen⟩
    rw [parse_eq_setValue, setValue_stored hlen hmem]

/-- Two bytes of capacity and one byte given: the copy reads one byte too many. -/
theorem fixedString_reads_past_bytes_given :
    ¬ UsesBytesGiven setValue [0, 0] [65] ∧ ¬ UsesBytesGiven parse [0, 0] [65] ∧
      setValue [0, 0] [65] 1 = .error .overread := by
  rw [setValue_usesBytesGiven, parse_usesBytesGiven]
  decide

end FixedString

end EspIot
