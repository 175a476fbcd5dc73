/-
# `EspIot.Lib.Strings` — strings that end at a NUL, in a bounded memory

`strnlen` looks for the NUL in no more than `maxlen` bytes and faults when the memory ends
before either.  `splitNul` takes a memory apart into the strings it holds, one behind the
other: each ends at its NUL, the last one perhaps at the end of the memory.  A loop over
the strings goes from one to the next by `splitNul_eq_cons`.
-/
import EspIot.Lib.Bytes
import Mathlib.Data.List.TakeWhile

namespace EspIot.Lib

def untilNul (bytes : List UInt8) : List UInt8 := bytes.takeWhile (· ≠ 0)

def strnlen (mem : List UInt8) (start maxlen : ℕ) : Except MemFault ℕ :=
  let length := (untilNul ((mem.drop start).take maxlen)).length
  if length < maxlen ∧ mem.length ≤ start + length then .error .overread else .ok length

/-- The strings of a memory: split behind each NUL, what is left at the end being one more unless
it is empty. -/
def splitNul : List UInt8 → List (List UInt8)
  | [] => []
  | byte :: bytes =>
      if byte = 0 then [] :: splitNul bytes
      else
        match splitNul bytes with
        | [] => [[byte]]
        | first :: rest => (byte :: first) :: rest

theorem untilNul_cons (byte : UInt8) (bytes : List UInt8) :
    untilNul (byte :: bytes) = if byte = 0 then [] else byte :: untilNul bytes := by
  rw [untilNul, List.takeWhile_cons]
  by_cases h : byte = 0
  · simp [h]
  · simp [h, untilNul]

theorem untilNul_of_notMem {bytes : List UInt8} (h : 0 ∉ bytes) : untilNul bytes = bytes := by
  refine List.takeWhile_eq_self_iff.mpr ?_
  intro byte hmem
  rw [decide_eq_true_eq]
  rintro rfl
  exact h hmem

theorem untilNul_length_le (bytes : List UInt8) : (untilNul bytes).length ≤ bytes.length :=
  (List.takeWhile_prefix _).length_le

theorem take_untilNul (bytes : List UInt8) {n : ℕ} (h : n ≤ (untilNul bytes).length) :
    (untilNul bytes).take n = bytes.take n := by
  obtain ⟨rest, hrest⟩ := List.takeWhile_prefix (l := bytes) (· ≠ (0 : UInt8))
  conv_rhs => rw [← hrest]
  exact (List.take_append_of_le_length h).symm

theorem strnlen_rest {mem : List UInt8} {start : ℕ} (h : start ≤ mem.length) :
    strnlen mem start (mem.length - start) = .ok (untilNul (mem.drop start)).length := by
  have hall : (mem.drop start).take (mem.length - start) = mem.drop start :=
    List.take_of_length_le (by rw [List.length_drop])
  rw [strnlen, hall]
  refine if_neg ?_
  omega

theorem splitNul_eq_cons {bytes : List UInt8} (h : bytes ≠ []) :
    splitNul bytes =
      untilNul bytes :: splitNul (bytes.drop ((untilNul bytes).length + 1)) := by
  induction bytes with
  | nil => exact absurd rfl h
  | cons byte bytes ih =>
      rw [splitNul, untilNul_cons]
      by_cases hnul : byte = 0
      · rw [if_pos hnul, if_pos hnul]
        rfl
      · rw [if_neg hnul, if_neg hnul, List.length_cons, List.drop_succ_cons]
        cases bytes with
        | nil => rfl
        | cons next bytes =>
            rw [ih (List.cons_ne_nil next bytes)]

theorem splitNul_of_notMem {bytes : List UInt8} (h : 0 ∉ bytes) (hne : bytes ≠ []) :
    splitNul bytes = [bytes] := by
  rw [splitNul_eq_cons hne, untilNul_of_notMem h, List.drop_of_length_le (Nat.le_succ _)]
  rfl

end EspIot.Lib
