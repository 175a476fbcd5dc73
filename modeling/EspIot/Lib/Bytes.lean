/-
# `EspIot.Lib.Bytes` — memory as lists

`writeAt` copies into a list: it replaces as many elements as it is given and
leaves the length alone as long as the copy stays inside; `memcpy` is the copy that
faults when it does not.  Nothing here is specific to bytes except the
little-endian words and numbers of the first sections.
-/
import Mathlib.Data.List.Basic
import Mathlib.Data.Nat.Digits.Defs
import Mathlib.Data.UInt

namespace EspIot.Lib

/-! ## 16-bit words, little-endian -/

/-- The two bytes of a word, low byte first. -/
def le16 (w : UInt16) : List UInt8 := [UInt8.ofNat w.toNat, UInt8.ofNat (w.toNat / 256)]

/-- The word of two bytes, low byte first. -/
def ofLe16 (lo hi : UInt8) : UInt16 := UInt16.ofNat (lo.toNat + 256 * hi.toNat)

@[simp] theorem le16_length (w : UInt16) : (le16 w).length = 2 := rfl

theorem le16_ofLe16 (lo hi : UInt8) : le16 (ofLe16 lo hi) = [lo, hi] := by
  have hlo := lo.toNat_lt
  have hhi := hi.toNat_lt
  have hw : (ofLe16 lo hi).toNat = lo.toNat + 256 * hi.toNat := by
    simp only [ofLe16, UInt16.toNat_ofNat']
    omega
  have h0 : UInt8.ofNat (lo.toNat + 256 * hi.toNat) = lo := by
    refine UInt8.toNat_inj.mp ?_
    simp only [UInt8.toNat_ofNat']
    omega
  have h1 : UInt8.ofNat ((lo.toNat + 256 * hi.toNat) / 256) = hi := by
    refine UInt8.toNat_inj.mp ?_
    simp only [UInt8.toNat_ofNat']
    omega
  simp only [le16, hw, h0, h1]

theorem ofLe16_le16 (w : UInt16) :
    ofLe16 (UInt8.ofNat w.toNat) (UInt8.ofNat (w.toNat / 256)) = w := by
  have hw := w.toNat_lt
  refine UInt16.toNat_inj.mp ?_
  simp only [ofLe16, UInt16.toNat_ofNat', UInt8.toNat_ofNat']
  omega

/-- The four bytes of a double word, low byte first. -/
def le32 (w : UInt32) : List UInt8 :=
  [UInt8.ofNat w.toNat, UInt8.ofNat (w.toNat / 256), UInt8.ofNat (w.toNat / 65536),
    UInt8.ofNat (w.toNat / 16777216)]

@[simp] theorem le32_length (w : UInt32) : (le32 w).length = 4 := rfl

/-! ## Numbers, little-endian -/

/-- The number a list of bytes spells, low byte first. -/
def ofLe (bytes : List UInt8) : Nat := Nat.ofDigits 256 (bytes.map UInt8.toNat)

theorem mem_toNat_lt {bytes : List UInt8} {d : Nat} (hd : d ∈ bytes.map UInt8.toNat) :
    d < 256 := by
  obtain ⟨byte, -, rfl⟩ := List.mem_map.mp hd
  exact byte.toNat_lt

theorem ofLe_lt (bytes : List UInt8) : ofLe bytes < 256 ^ bytes.length := by
  have h := Nat.ofDigits_lt_base_pow_length (b := 256) (l := bytes.map UInt8.toNat)
    (by decide) fun _ hd => mem_toNat_lt hd
  rwa [List.length_map] at h

theorem ofLe_inj {bytes bytes' : List UInt8} (hlen : bytes.length = bytes'.length)
    (h : ofLe bytes = ofLe bytes') : bytes = bytes' := by
  refine List.map_injective_iff.mpr (fun _ _ => UInt8.toNat_inj.mp) ?_
  exact Nat.ofDigits_inj_of_len_eq (by decide) (by simpa using hlen)
    (fun _ hd => mem_toNat_lt hd) (fun _ hd => mem_toNat_lt hd) h

/-- The lowest bytes of a number, low byte first. -/
def toLe : Nat → Nat → List UInt8
  | 0, _ => []
  | size + 1, n => UInt8.ofNat n :: toLe size (n / 256)

theorem toLe_length (size : Nat) : ∀ n, (toLe size n).length = size := by
  induction size with
  | zero => exact fun _ => rfl
  | succ size ih => exact fun n => by rw [toLe, List.length_cons, ih]

theorem ofLe_toLe (size : Nat) : ∀ n, ofLe (toLe size n) = n % 256 ^ size := by
  induction size with
  | zero =>
      intro n
      rw [Nat.pow_zero, Nat.mod_one]
      rfl
  | succ size ih =>
      intro n
      have hrest : Nat.ofDigits 256 ((toLe size (n / 256)).map UInt8.toNat) =
          n / 256 % 256 ^ size := ih (n / 256)
      rw [toLe, ofLe, List.map_cons, Nat.ofDigits_cons, hrest, UInt8.toNat_ofNat']
      show n % 256 + 256 * (n / 256 % 256 ^ size) = n % 256 ^ (size + 1)
      rw [Nat.pow_succ', Nat.mod_mul]

/-! ## Copying into a list -/

section
variable {α : Type*}

/-- The list with `src` copied over it from index `off` on. -/
def writeAt (buf : List α) (off : Nat) (src : List α) : List α :=
  buf.take off ++ src ++ buf.drop (off + src.length)

theorem writeAt_length {buf src : List α} {off : Nat} (h : off + src.length ≤ buf.length) :
    (writeAt buf off src).length = buf.length := by
  simp only [writeAt, List.length_append, List.length_take, List.length_drop]
  omega

theorem writeAt_getElem? {buf src : List α} {off : Nat} (h : off + src.length ≤ buf.length)
    (i : Nat) :
    (writeAt buf off src)[i]? =
      if off ≤ i ∧ i < off + src.length then src[i - off]? else buf[i]? := by
  have htake : (buf.take off).length = off := by
    rw [List.length_take]
    omega
  simp only [writeAt, List.append_assoc]
  rcases Nat.lt_or_ge i off with hi | hi
  · rw [List.getElem?_append_left (by omega), List.getElem?_take_of_lt hi, if_neg (by omega)]
  · rw [List.getElem?_append_right (by omega), htake]
    rcases Nat.lt_or_ge i (off + src.length) with hi' | hi'
    · rw [List.getElem?_append_left (by omega), if_pos ⟨hi, hi'⟩]
    · rw [List.getElem?_append_right (by omega), if_neg (by omega), List.getElem?_drop]
      congr 1
      omega

theorem writeAt_zero (buf src : List α) : writeAt buf 0 src = src ++ buf.drop src.length := by
  simp [writeAt]

/-- What a copy may touch that is not its own. -/
inductive MemFault
  | overread
  | overwrite
deriving DecidableEq, Repr

/-- `memcpy(buf + off, src + srcOff, n)`: a copy of no bytes touches nothing. -/
def memcpy (buf : List α) (off : Nat) (src : List α) (srcOff n : Nat) :
    Except MemFault (List α) :=
  if n = 0 then .ok buf
  else if src.length < srcOff + n then .error .overread
  else if buf.length < off + n then .error .overwrite
  else .ok (writeAt buf off ((src.drop srcOff).take n))

/-- A copy stays inside: it reads only inside the source and writes only inside the buffer. -/
def CopyInside (buf : List α) (off : Nat) (src : List α) (srcOff n : Nat) : Prop :=
  n = 0 ∨ srcOff + n ≤ src.length ∧ off + n ≤ buf.length

theorem memcpy_ok_iff {buf src buf' : List α} {off srcOff n : Nat} :
    memcpy buf off src srcOff n = .ok buf' ↔
      CopyInside buf off src srcOff n ∧ buf' = writeAt buf off ((src.drop srcOff).take n) := by
  rw [memcpy, CopyInside]
  by_cases hn : n = 0
  · simp [hn, writeAt, eq_comm]
  · rw [if_neg hn]
    split
    · simp only [reduceCtorEq, false_iff]
      omega
    · split
      · simp only [reduceCtorEq, false_iff]
        omega
      · simp only [Except.ok.injEq]
        constructor
        · rintro rfl
          exact ⟨by omega, rfl⟩
        · exact fun h => h.2.symm

theorem memcpy_inside {buf src : List α} {off srcOff n : ℕ} (hread : srcOff + n ≤ src.length)
    (hwrite : off + n ≤ buf.length) :
    memcpy buf off src srcOff n = .ok (writeAt buf off ((src.drop srcOff).take n)) :=
  memcpy_ok_iff.mpr ⟨.inr ⟨hread, hwrite⟩, rfl⟩

theorem copied_length {src : List α} {srcOff n : ℕ} (h : srcOff + n ≤ src.length) :
    ((src.drop srcOff).take n).length = n := by
  rw [List.length_take, List.length_drop]
  omega

def memset (buf : List α) (off : Nat) (value : α) (n : Nat) : Except MemFault (List α) :=
  memcpy buf off (List.replicate n value) 0 n

theorem memset_rest {buf : List α} {off : Nat} (value : α) (h : off ≤ buf.length) :
    memset buf off value (buf.length - off) =
      .ok (buf.take off ++ List.replicate (buf.length - off) value) := by
  have hlen : (List.replicate (buf.length - off) value).length = buf.length - off :=
    List.length_replicate
  rw [memset, memcpy_inside (by omega) (by omega), List.drop_zero,
    List.take_of_length_le (Nat.le_of_eq hlen), writeAt, hlen, Nat.add_sub_cancel' h,
    List.drop_length, List.append_nil]

end

end EspIot.Lib
