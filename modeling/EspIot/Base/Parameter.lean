/-
# `EspIot.Base.Parameter` — the parameters the servers read and write

A parameter is a pointer to storage with a few virtual functions over it; the
servers know nothing else about it.  `AbstractParameter` is that interface over
the bytes of the storage, and its fields say what every class of
base/parameter.h that owns storage keeps to: a write stores a value that depends
on the bytes given and not on what was there, and the bytes that are read back
are ones that can be written again.  `Parameter`, `ComplexParameter` and
`FixedString` are the classes; the conversions between numbers and texts are the
Arduino library's and come in as functions.
-/
import Mathlib.Data.List.Basic

namespace EspIot

/-- A C string: the characters before its NUL. -/
structure CString where
  chars : List UInt8
  noNul : 0 ∉ chars
deriving DecidableEq

namespace CString

/-- `String::operator+` -/
def append (a b : CString) : CString where
  chars := a.chars ++ b.chars
  noNul := by
    intro h
    rcases List.mem_append.mp h with h | h
    · exact a.noNul h
    · exact b.noNul h

theorem append_left_inj {a b c : CString} (h : a.append b = a.append c) : b = c := by
  obtain ⟨bs, _⟩ := b
  obtain ⟨cs, _⟩ := c
  have hchars : a.chars ++ bs = a.chars ++ cs := congrArg CString.chars h
  have heq : bs = cs := List.append_cancel_left hchars
  subst heq
  rfl

end CString

/-- The virtual functions of a parameter over the bytes it stores.  `setValue` and `parse` answer
`none` where the source answers `false`, and leave the storage alone then. -/
structure AbstractParameter where
  size : ℕ
  setValue : (data : List UInt8) → (storage : List UInt8) → Option (List UInt8)
  parse : (text : List UInt8) → (storage : List UInt8) → Option (List UInt8)
  toString : (storage : List UInt8) → List UInt8
  /-- What a write stores does not depend on what it replaces. -/
  setValue_storage : ∀ data v w, setValue data v = setValue data w
  /-- A write fills the storage. -/
  setValue_length : ∀ data v w, setValue data v = some w → w.length = size
  parse_length : ∀ text v w, v.length = size → parse text v = some w → w.length = size
  /-- The bytes of a value can be written, and stand for that value. -/
  setValue_self : ∀ v w, v.length = size → setValue v w = some v

namespace AbstractParameter

variable (a : AbstractParameter)

/-- What the storage of a parameter can hold. -/
abbrev Value := { v : List UInt8 // v.length = a.size }

/-- `set_value` of a parameter that stores `v`. -/
def write (data : List UInt8) (v : a.Value) : Option a.Value :=
  (a.setValue data v.1).pmap (fun w h => ⟨w, h⟩) fun w h => a.setValue_length data v.1 w h

theorem write_val (data : List UInt8) (v : a.Value) :
    (a.write data v).map Subtype.val = a.setValue data v.1 := by
  rw [write, Option.map_pmap, Option.pmap_eq_map, Option.map_id']

theorem write_storage (data : List UInt8) (v w : a.Value) : a.write data v = a.write data w := by
  refine Option.map_injective Subtype.val_injective ?_
  rw [write_val, write_val, a.setValue_storage data v.1 w.1]

theorem write_self (v w : a.Value) : a.write v.1 w = some v := by
  refine Option.map_injective Subtype.val_injective ?_
  rw [write_val, a.setValue_self v.1 w.1 v.2]
  rfl

end AbstractParameter

/-- `set_value` of `Parameter<T>` and of `ComplexParameter<T>`, for `sizeof(T) = size`. -/
def setExact (size : ℕ) (data _storage : List UInt8) : Option (List UInt8) :=
  if data.length ≠ size then none else some data

theorem setExact_length {size : ℕ} {data v w : List UInt8} (h : setExact size data v = some w) :
    w.length = size := by
  rw [setExact] at h
  split at h
  · cases h
  · rename_i hlen
    cases h
    exact not_not.mp hlen

theorem setExact_self {size : ℕ} {v : List UInt8} (w : List UInt8) (h : v.length = size) :
    setExact size v w = some v := by
  simp [setExact, h]

/-- `Parameter<T>` with `sizeof(T) = size`.  `convert` is the conversion of a text to the bytes of
a `T`, `print` is `String(value)`. -/
def Parameter (size : ℕ) (convert : List UInt8 → { v : List UInt8 // v.length = size })
    (print : List UInt8 → List UInt8) : AbstractParameter where
  size := size
  setValue := setExact size
  parse text storage :=
    if text.length = 0 then none else some ((setExact size (convert text) storage).getD storage)
  toString := print
  setValue_storage _ _ _ := rfl
  setValue_length _ _ _ h := setExact_length h
  parse_length := by
    intro text v w hv h
    split at h
    · cases h
    · cases h
      rw [setExact_self _ (convert text).2]
      exact (convert text).2
  setValue_self _ w h := setExact_self w h

/-- `ComplexParameter<T>` with `sizeof(T) = size` -/
def ComplexParameter (size : ℕ) : AbstractParameter where
  size := size
  setValue := setExact size
  parse _ _ := none
  toString _ := "*Not supported*".toUTF8.toList
  setValue_storage _ _ _ := rfl
  setValue_length _ _ _ h := setExact_length h
  parse_length := by
    intro _ _ _ _ h
    cases h
  setValue_self _ w h := setExact_self w h

/-- `set_value` of `FixedString`: what is short is filled up with zeros. -/
def setPadded (size : ℕ) (data _storage : List UInt8) : Option (List UInt8) :=
  if data.length > size then none else some (data ++ List.replicate (size - data.length) 0)

theorem setPadded_length {size : ℕ} {data v w : List UInt8} (h : setPadded size data v = some w) :
    w.length = size := by
  rw [setPadded] at h
  split at h
  · cases h
  · cases h
    rw [List.length_append, List.length_replicate]
    omega

def FixedString (size : ℕ) : AbstractParameter where
  size := size
  setValue := setPadded size
  parse text storage := if text.length > size then none else setPadded size text storage
  toString storage := (storage.take size).takeWhile (· ≠ 0)
  setValue_storage _ _ _ := rfl
  setValue_length _ _ _ h := setPadded_length h
  parse_length := by
    intro text v w _ h
    split at h
    · cases h
    · exact setPadded_length h
  setValue_self v w h := by simp [setPadded, h]

end EspIot
