/-
# `EspIot.Lib.Decimal` — decimal numerals in ASCII

    intText        the numeral of an integer
    Numeral        a text is a numeral of an integer: a sign perhaps, then digits
    numericPrefix  what `strtol` makes of a text: white space, then the longest numeral,
                   zero where there is none

`numericPrefix` reads every numeral as its integer (`Numeral.numericPrefix`), and the text of an
integer is one of its numerals (`numeral_intText`).
-/
import EspIot.Lib.Bytes
import Mathlib.Data.Nat.Digits.Lemmas
import Mathlib.Algebra.Order.Group.Int
import Mathlib.Data.List.TakeWhile

namespace EspIot.Lib

def digit (d : ℕ) : UInt8 := UInt8.ofNat (48 + d)

def isDigit (byte : UInt8) : Bool := 48 ≤ byte.toNat && byte.toNat ≤ 57

def isSpace (byte : UInt8) : Bool := byte == 32 || 9 ≤ byte.toNat && byte.toNat ≤ 13

/-- The number that a row of digits stands for. -/
def digitsValue (digits : List UInt8) : ℕ :=
  digits.foldl (fun n byte => 10 * n + (byte.toNat - 48)) 0

def natText (n : ℕ) : List UInt8 :=
  if n = 0 then [digit 0] else (Nat.digits 10 n).reverse.map digit

def intText (z : ℤ) : List UInt8 :=
  if z < 0 then 45 :: natText z.natAbs else natText z.natAbs

/-- A text of a sign and digits, nothing else. -/
inductive Numeral : List UInt8 → ℤ → Prop
  | plain {digits : List UInt8} (hne : digits ≠ []) (h : ∀ byte ∈ digits, isDigit byte = true) :
      Numeral digits (digitsValue digits)
  | plus {digits : List UInt8} (hne : digits ≠ []) (h : ∀ byte ∈ digits, isDigit byte = true) :
      Numeral (43 :: digits) (digitsValue digits)
  | minus {digits : List UInt8} (hne : digits ≠ []) (h : ∀ byte ∈ digits, isDigit byte = true) :
      Numeral (45 :: digits) (-digitsValue digits)

/-- What is read behind the white space: a sign, then the digits up to the first other byte. -/
def signedPrefix : List UInt8 → ℤ
  | 45 :: rest => -digitsValue (rest.takeWhile isDigit)
  | 43 :: rest => digitsValue (rest.takeWhile isDigit)
  | text => digitsValue (text.takeWhile isDigit)

def numericPrefix (text : List UInt8) : ℤ := signedPrefix (text.dropWhile isSpace)

/-! ## Numerals of numbers -/

theorem digit_toNat {d : ℕ} (h : d < 10) : (digit d).toNat = 48 + d := by
  rw [digit, UInt8.toNat_ofNat']
  omega

theorem isDigit_digit {d : ℕ} (h : d < 10) : isDigit (digit d) = true := by
  rw [isDigit, digit_toNat h]
  simp only [Bool.and_eq_true, decide_eq_true_eq]
  omega

theorem digitsValue_reverse {ds : List ℕ} (h : ∀ d ∈ ds, d < 10) :
    digitsValue (ds.reverse.map digit) = Nat.ofDigits 10 ds := by
  rw [digitsValue, List.foldl_map, List.foldl_reverse]
  induction ds with
  | nil => rfl
  | cons d ds ih =>
      rw [List.foldr_cons, ih fun e he => h e (List.mem_cons_of_mem d he),
        digit_toNat (h d List.mem_cons_self), Nat.ofDigits_cons,
        Nat.add_sub_cancel_left, Nat.add_comm]

theorem digitsValue_natText (n : ℕ) : digitsValue (natText n) = n := by
  rw [natText]
  split
  · rename_i h
    rw [h]
    rfl
  · rw [digitsValue_reverse fun d hd => Nat.digits_lt_base (by decide) hd, Nat.ofDigits_digits]

theorem natText_ne_nil (n : ℕ) : natText n ≠ [] := by
  rw [natText]
  split
  · exact List.cons_ne_nil _ _
  · rename_i h
    rw [Ne, List.map_eq_nil_iff, List.reverse_eq_nil_iff, Nat.digits_eq_nil_iff_eq_zero]
    exact h

theorem isDigit_natText (n : ℕ) : ∀ byte ∈ natText n, isDigit byte = true := by
  rw [natText]
  intro byte hmem
  split at hmem
  · rw [List.mem_singleton.mp hmem]
    rfl
  · obtain ⟨d, hd, rfl⟩ := List.mem_map.mp hmem
    exact isDigit_digit (Nat.digits_lt_base (by decide) (List.mem_reverse.mp hd))

theorem numeral_intText (z : ℤ) : Numeral (intText z) z := by
  rw [intText]
  split
  · rename_i h
    have hz : z = -(digitsValue (natText z.natAbs) : ℤ) := by
      rw [digitsValue_natText]
      omega
    conv_rhs => rw [hz]
    exact .minus (natText_ne_nil _) (isDigit_natText _)
  · rename_i h
    have hz : z = (digitsValue (natText z.natAbs) : ℤ) := by
      rw [digitsValue_natText]
      omega
    conv_rhs => rw [hz]
    exact .plain (natText_ne_nil _) (isDigit_natText _)

/-! ## Reading -/

theorem takeWhile_digits {digits : List UInt8} (h : ∀ byte ∈ digits, isDigit byte = true) :
    digits.takeWhile isDigit = digits := List.takeWhile_eq_self_iff.mpr h

theorem numericPrefix_digits {digits : List UInt8} (hne : digits ≠ [])
    (h : ∀ byte ∈ digits, isDigit byte = true) :
    numericPrefix digits = digitsValue digits := by
  cases digits with
  | nil => exact absurd rfl hne
  | cons first rest =>
      have hfirst := h first List.mem_cons_self
      simp only [isDigit, Bool.and_eq_true, decide_eq_true_eq] at hfirst
      have hspace : ¬ isSpace first = true := by
        simp only [isSpace, Bool.or_eq_true, beq_iff_eq, Bool.and_eq_true, decide_eq_true_eq]
        rintro (rfl | hlow)
        · exact absurd hfirst (by decide)
        · omega
      rw [numericPrefix, List.dropWhile_cons_of_neg hspace, signedPrefix, takeWhile_digits h]
      · rintro _ heq
        cases heq
        exact absurd hfirst (by decide)
      · rintro _ heq
        cases heq
        exact absurd hfirst (by decide)

theorem Numeral.numericPrefix {text : List UInt8} {z : ℤ} (h : Numeral text z) :
    numericPrefix text = z := by
  cases h with
  | plain hne h => exact numericPrefix_digits hne h
  | plus hne h =>
      show (digitsValue (List.takeWhile isDigit _) : ℤ) = _
      rw [takeWhile_digits h]
  | minus hne h =>
      show -(digitsValue (List.takeWhile isDigit _) : ℤ) = _
      rw [takeWhile_digits h]

theorem Numeral.ne_nil {text : List UInt8} {z : ℤ} (h : Numeral text z) : text ≠ [] := by
  cases h with
  | plain hne h => exact hne
  | plus hne h => exact List.cons_ne_nil _ _
  | minus hne h => exact List.cons_ne_nil _ _

end EspIot.Lib
