/-
# `EspIot.Base.Integers` — `Parameter<T>` of the integral types

    to_string    String(value), the numeral of the value in the width of T
    parse        data.toInt(), a `long` whatever T is, converted to T

`long` has 32 bits on both ESP platforms and `toInt` saturates, so the way back is one only for
the values that a `long` has (`printed_stored_iff`).

`char` is not among the types: its `String(value)` is a character.
-/
import EspIot.Base.Parameter
import EspIot.Lib.Decimal
import Mathlib.Data.PNat.Defs

namespace EspIot

open Lib

/-- `bool`, or an integer of `size` bytes. -/
inductive IntegralType
  | bool
  | integer (signed : Bool) (size : ℕ+)

/-- `String::toInt`, for a `long` of 32 bits -/
def toInt (text : List UInt8) : ℤ := max (-2 ^ 31) (min (2 ^ 31 - 1) (numericPrefix text))

namespace IntegralType

/-- `sizeof(T)` -/
def size : IntegralType → ℕ
  | bool => 1
  | integer _ size => size

def modulus (T : IntegralType) : ℕ := 256 ^ T.size

def lo : IntegralType → ℤ
  | bool => 0
  | T@(integer signed _) => if signed then -(T.modulus / 2 : ℕ) else 0

def hi : IntegralType → ℤ
  | bool => 1
  | T@(integer signed _) => if signed then (T.modulus / 2 : ℕ) - 1 else T.modulus - 1

def InRange (T : IntegralType) (z : ℤ) : Prop := T.lo ≤ z ∧ z ≤ T.hi

instance (T : IntegralType) (z : ℤ) : Decidable (T.InRange z) :=
  inferInstanceAs (Decidable (T.lo ≤ z ∧ z ≤ T.hi))

/-- The conversion of an integer to the type. -/
def convert : IntegralType → ℤ → ℤ
  | bool, z => if z = 0 then 0 else 1
  | T@(integer signed _), z => if signed then z.bmod T.modulus else z % T.modulus

def toBytes (T : IntegralType) (z : ℤ) : List UInt8 := toLe T.size (z % T.modulus).toNat

def ofBytes (T : IntegralType) (bytes : List UInt8) : ℤ := T.convert (ofLe bytes)

theorem toBytes_length (T : IntegralType) (z : ℤ) : (T.toBytes z).length = T.size :=
  toLe_length _ _

def parameter (T : IntegralType) : AbstractParameter :=
  Parameter T.size (fun text => ⟨T.toBytes (T.convert (toInt text)), T.toBytes_length _⟩)
    fun storage => intText (T.ofBytes storage)

/-! ## Values and their bytes -/

theorem modulus_pos (T : IntegralType) : 0 < T.modulus := Nat.pow_pos (by decide)

theorem modulus_half (T : IntegralType) : 2 * (T.modulus / 2) = T.modulus := by
  refine Nat.mul_div_cancel' (Dvd.dvd.trans (by decide) (dvd_pow_self 256 ?_))
  cases T with
  | bool => exact Nat.one_ne_zero
  | integer signed size => exact size.ne_zero

theorem lo_nonpos (T : IntegralType) : T.lo ≤ 0 := by
  cases T with
  | bool => exact le_refl _
  | integer signed size =>
      rw [lo]
      split <;> omega

theorem hi_nonneg (T : IntegralType) : 0 ≤ T.hi := by
  have hpos := T.modulus_pos
  have hhalf := T.modulus_half
  cases T with
  | bool => exact Int.one_nonneg
  | integer signed size =>
      rw [hi]
      split <;> omega

theorem convert_eq {T : IntegralType} {z : ℤ} (h : T.InRange z) : T.convert z = z := by
  obtain ⟨hlo, hhi⟩ := h
  have hhalf := T.modulus_half
  cases T with
  | bool =>
      rw [lo] at hlo
      rw [hi] at hhi
      rw [convert]
      split <;> omega
  | integer signed size =>
      rw [lo] at hlo
      rw [hi] at hhi
      rw [convert]
      cases signed with
      | true =>
          rw [if_pos rfl] at *
          refine (Int.bmod_eq_iff (modulus_pos _)).mpr ⟨by omega, by omega, ?_⟩
          rw [Int.sub_self]
          exact dvd_zero _
      | false =>
          simp only [Bool.false_eq_true, if_false] at *
          exact Int.emod_eq_of_lt hlo (by omega)

theorem convert_emod (T : IntegralType) {z : ℤ} (h : T.InRange z) :
    T.convert (z % T.modulus) = T.convert z := by
  cases T with
  | bool =>
      obtain ⟨hlo, hhi⟩ := h
      rw [lo] at hlo
      rw [hi] at hhi
      rw [Int.emod_eq_of_lt hlo]
      show z < ((256 : ℕ) : ℤ)
      omega
  | integer signed size =>
      rw [convert, convert]
      cases signed with
      | true => exact Int.emod_bmod ..
      | false => exact Int.emod_emod ..

theorem ofBytes_toBytes {T : IntegralType} {z : ℤ} (h : T.InRange z) :
    T.ofBytes (T.toBytes z) = z := by
  have hnonneg : 0 ≤ z % T.modulus :=
    Int.emod_nonneg _ (by have := T.modulus_pos; omega)
  have hlt : (z % T.modulus).toNat < T.modulus := by
    have := Int.emod_lt_of_pos z (by have := T.modulus_pos; omega : (0 : ℤ) < T.modulus)
    omega
  rw [ofBytes, toBytes, ofLe_toLe, ← modulus, Nat.mod_eq_of_lt hlt, Int.toNat_of_nonneg hnonneg,
    T.convert_emod h, convert_eq h]

/-! ## The way back -/

theorem parse_parameter (T : IntegralType) {text : List UInt8} (h : text ≠ [])
    (storage : List UInt8) :
    T.parameter.parse text storage = some (T.toBytes (T.convert (toInt text))) := by
  have hlen : ¬ text.length = 0 := fun h0 => h (List.length_eq_zero_iff.mp h0)
  show (if text.length = 0 then none else some _) = _
  rw [if_neg hlen, setExact_self _ (T.toBytes_length _)]
  rfl

def Long (z : ℤ) : Prop := -2 ^ 31 ≤ z ∧ z ≤ 2 ^ 31 - 1

theorem parse_numeral {T : IntegralType} {text : List UInt8} {z : ℤ} (h : Numeral text z)
    (hT : T.InRange z) (hlong : Long z) (storage : List UInt8) :
    T.parameter.parse text storage = some (T.toBytes z) := by
  obtain ⟨hlo, hhi⟩ := hlong
  rw [T.parse_parameter h.ne_nil, toInt, h.numericPrefix, min_eq_right hhi, max_eq_right hlo,
    convert_eq hT]

/-- **What is printed is stored again exactly when a `long` has the value.** -/
theorem printed_stored_iff (T : IntegralType) (v : { z // T.InRange z }) :
    (∀ storage, T.parameter.parse (T.parameter.toString (T.toBytes v)) storage =
      some (T.toBytes v)) ↔ Long v := by
  obtain ⟨v, hv⟩ := v
  have hprint : T.parameter.toString (T.toBytes v) = intText v :=
    congrArg intText (ofBytes_toBytes hv)
  have hnumeral := numeral_intText v
  dsimp only
  rw [hprint]
  constructor
  · intro hstored
    have hparse := hstored []
    rw [T.parse_parameter hnumeral.ne_nil, toInt, hnumeral.numericPrefix] at hparse
    have hlo := T.lo_nonpos
    have hhi := T.hi_nonneg
    -- what saturates is another value of the type
    have hsat : T.InRange (max (-2 ^ 31) (min (2 ^ 31 - 1) v)) := by
      obtain ⟨h₁, h₂⟩ := hv
      exact ⟨by omega, by omega⟩
    rw [convert_eq hsat] at hparse
    have heq : max (-2 ^ 31) (min (2 ^ 31 - 1) v) = v := by
      rw [← ofBytes_toBytes hsat, Option.some.inj hparse, ofBytes_toBytes hv]
    exact ⟨by omega, by omega⟩
  · intro hlong storage
    exact parse_numeral hnumeral hv hlong storage

/-- `uint32_t` -/
abbrev uint32 : IntegralType := integer false 4

/-- 4294967295 is printed and comes back as 2147483647. -/
theorem greatest_uint32_not_stored :
    uint32.parameter.parse (uint32.parameter.toString (uint32.toBytes 4294967295)) [0, 0, 0, 0] =
      some (uint32.toBytes 2147483647) ∧
    uint32.toBytes 2147483647 ≠ uint32.toBytes 4294967295 := by
  have hv : uint32.InRange 4294967295 := by decide
  refine ⟨?_, by decide⟩
  have hprint : uint32.parameter.toString (uint32.toBytes 4294967295) = intText 4294967295 :=
    congrArg intText (ofBytes_toBytes hv)
  have hnumeral := numeral_intText 4294967295
  rw [hprint, parse_parameter _ hnumeral.ne_nil, toInt, hnumeral.numericPrefix]
  decide

end IntegralType

end EspIot
