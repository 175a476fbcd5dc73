/-
# `EspIot.Lib.Clock` — a millisecond counter that wraps around

The counter is 32 bits wide; what it counts is not.  `reading t` is what the
counter shows when `t` milliseconds have passed, and the difference of two
readings, taken in 32 bits, is the time between them only up to a multiple of
`2 ^ 32`:

    reading_sub      later minus earlier: the time between them modulo 2 ^ 32
    reading_sub_le   … so it never says more than what has passed
    sub_reading      earlier minus later: what is missing to 2 ^ 32
-/
import Mathlib.Algebra.Group.Nat.Defs

namespace EspIot.Lib

/-- What the counter shows after `t` milliseconds. -/
def reading (t : ℕ) : UInt32 := UInt32.ofNat t

theorem reading_toNat (t : ℕ) : (reading t).toNat = t % 2 ^ 32 := by
  simp [reading]

theorem reading_sub {a b : ℕ} (h : a ≤ b) :
    (reading b - reading a).toNat = (b - a) % 2 ^ 32 := by
  rw [UInt32.toNat_sub, reading_toNat, reading_toNat]
  omega

theorem reading_sub_le {a b : ℕ} (h : a ≤ b) : (reading b - reading a).toNat ≤ b - a := by
  rw [reading_sub h]
  exact Nat.mod_le _ _

theorem sub_reading {a b : ℕ} (h : a ≤ b) :
    (reading a - reading b).toNat = (2 ^ 32 - (b - a) % 2 ^ 32) % 2 ^ 32 := by
  rw [UInt32.toNat_sub, reading_toNat, reading_toNat]
  omega

end EspIot.Lib
