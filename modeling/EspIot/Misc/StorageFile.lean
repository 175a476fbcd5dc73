/-
# `EspIot.Misc.StorageFile` — what is written is what is loaded

`_commit_impl` writes the header, the version and the data behind each other into the file
of the key, unless `_check_changed` has found them there; `begin` takes a file apart again.
The two tests are written down separately, and each has to be an equality with `image`:

    _check_changed   size, header, version, then one byte after the other
    begin            size, header, version, then the data in one read

A file is read from where the last read ended.  What is read over, `saved_header` and the
rest, is not initialised and stands in the arguments of `begin`.
-/
import EspIot.Base.Parameter
import EspIot.Misc.Storage
import Mathlib.Data.List.OfFn

namespace EspIot

open Lib

/-! ## The encoding -/

namespace StorageFormat

variable (f : StorageFormat)

theorem image_length (data : Vector UInt8 f.size) : (f.image data).length = 4 + 1 + f.size := by
  rw [image, List.length_append, List.length_append, le32_length, Vector.length_toList]
  rfl

theorem fileSize_toNat (h : 4 + 1 + f.size ≤ 65535) : f.fileSize.toNat = 4 + 1 + f.size := by
  rw [fileSize, UInt16.toNat_ofNat']
  omega

theorem image_take (data : Vector UInt8 f.size) : (f.image data).take 4 = le32 f.header := rfl

theorem image_version (data : Vector UInt8 f.size) :
    ((f.image data).drop 4).take 1 = [f.version] := rfl

theorem image_drop (data : Vector UInt8 f.size) : (f.image data).drop 5 = data.toList := rfl

theorem differs_self (data : List UInt8) : ∀ entry, differs data entry data = false := by
  induction data with
  | nil => intro entry; rfl
  | cons byte data ih =>
      intro entry
      rw [differs, if_neg (by simp), ih]

theorem checkChanged_eq_false_iff (h : 4 + 1 + f.size ≤ 65535) (file : List UInt8)
    (data : Vector UInt8 f.size) (entry : UInt8) :
    f.checkChanged file data entry = false ↔ file = f.image data := by
  constructor
  · intro hsame
    exact f.compares_of_fits (by omega) (some file) data entry file rfl hsame
  · rintro rfl
    have hheader : f.checkHeader (f.image data) = true := by
      rw [checkHeader, image_length, Nat.sub_eq_zero_of_le (by omega), List.replicate_zero,
        List.append_nil, image_take, List.take_append_of_le_length, image_version]
      · simp
      · rw [List.length_drop, image_length]
        omega
    rw [checkChanged, image_length, f.fileSize_toNat h, hheader, image_drop]
    simp [differs_self]

/-- A file that is not one of this format: of another length, header or version. -/
def Foreign (file : List UInt8) : Prop :=
  file.length ≠ 4 + 1 + f.size ∨ file.take 4 ≠ le32 f.header ∨ (file.drop 4).take 1 ≠ [f.version]

theorem foreign_iff (file : List UInt8) : f.Foreign file ↔ ∀ data, file ≠ f.image data := by
  constructor
  · rintro hforeign data rfl
    rcases hforeign with hlength | hheader | hversion
    · exact hlength (f.image_length data)
    · exact hheader (f.image_take data)
    · exact hversion (f.image_version data)
  · intro hne
    by_contra hforeign
    simp only [Foreign, not_or, not_not] at hforeign
    obtain ⟨hlength, hheader, hversion⟩ := hforeign
    have hdata : (file.drop 5).length = f.size := by
      rw [List.length_drop]
      omega
    refine hne ⟨(file.drop 5).toArray, by simpa using hdata⟩ ?_
    calc file = file.take 4 ++ ((file.drop 4).take 1 ++ (file.drop 4).drop 1) := by
          rw [List.take_append_drop, List.take_append_drop]
      _ = _ := by
          rw [hheader, hversion, List.drop_drop, image, List.append_assoc]
          rfl

end StorageFormat

/-! ## The file system -/

/-- What the flash keeps under each path; `none` is no file. -/
abbrev FileSystem := CString → Option (List UInt8)

/-- `STORAGE_PATH`, the characters of `/__storage/` -/
def storagePath : CString where
  chars := [0x2f, 0x5f, 0x5f, 0x73, 0x74, 0x6f, 0x72, 0x61, 0x67, 0x65, 0x2f]
  noNul := by decide

/-- `file.read(buf, n)`: what the file has, over what the buffer held. -/
def readOver {n : ℕ} (file : List UInt8) (buf : Vector UInt8 n) : Vector UInt8 n :=
  Vector.ofFn fun i => (file[i.1]?).getD (buf.get i)

theorem readOver_full {n : ℕ} {file : List UInt8} {buf v : Vector UInt8 n}
    (h : file.take n = v.toList) : readOver file buf = v := by
  refine Vector.ext ?_
  intro i hi
  have hread : file[i]? = some v[i] := by
    rw [← List.getElem?_take_of_lt hi, h, Vector.getElem?_toList, Vector.getElem?_eq_getElem hi]
  rw [readOver, Vector.getElem_ofFn, hread, Option.getD_some]

theorem toList_readOver {n : ℕ} {file : List UInt8} (buf : Vector UInt8 n)
    (h : n ≤ file.length) : (readOver file buf).toList = file.take n := by
  have hlen : (file.take n).length = n := by
    rw [List.length_take]
    omega
  have hv : file.take n = (⟨(file.take n).toArray, by simpa using hlen⟩ : Vector UInt8 n).toList :=
    rfl
  exact (congrArg Vector.toList (readOver_full hv)).trans hv.symm

structure Storage (f : StorageFormat) where
  mounted : Bool := false
  key : CString
  data : Vector UInt8 f.size

namespace Storage

variable {f : StorageFormat}

def path (s : Storage f) : CString := storagePath.append s.key

/-- `begin`; `header` and `version` are what `saved_header` and `saved_version` hold before they
are read. -/
def begin (fs : FileSystem) (header : Vector UInt8 4) (version : Vector UInt8 1) (s : Storage f) :
    Storage f :=
  let s := { s with mounted := true }
  match fs s.path with
  | some file =>
      if file.length = f.fileSize.toNat then
        let savedHeader := readOver file header
        let savedVersion := readOver (file.drop 4) version
        if savedHeader.toList = le32 f.header ∧ savedVersion.toList = [f.version] then
          { s with data := readOver (file.drop 5) s.data }
        else { s with data := f.default }
      else { s with data := f.default }
  | none => { s with data := f.default }

/-- `_commit_impl`, with whether it has written; `entry` is what `_check_changed` finds on the
stack. -/
def commitImpl (entry : UInt8) (s : Storage f) (fs : FileSystem) : Bool × FileSystem :=
  if !s.mounted then (false, fs)
  else
    match fs s.path with
    | some file =>
        if !f.checkChanged file s.data entry then (false, fs)
        else (true, Function.update fs s.path (some (f.image s.data)))
    | none => (true, Function.update fs s.path (some (f.image s.data)))

theorem commitImpl_file {s : Storage f} (hm : s.mounted = true) (entry : UInt8)
    (fs : FileSystem) : (s.commitImpl entry fs).2 s.path = f.commit (fs s.path) s.data entry := by
  rw [commitImpl, hm]
  cases hfile : fs s.path with
  | none => exact Function.update_self ..
  | some file =>
      rw [StorageFormat.commit]
      cases hchanged : f.checkChanged file s.data entry with
      | true => simp [hchanged]
      | false => simp [hchanged, hfile]

theorem commitImpl_other (s : Storage f) (entry : UInt8) (fs : FileSystem) {path : CString}
    (h : path ≠ s.path) : (s.commitImpl entry fs).2 path = fs path := by
  rw [commitImpl]
  split
  · rfl
  · split
    · split
      · rfl
      · exact Function.update_of_ne h ..
    · exact Function.update_of_ne h ..

theorem commitImpl_written {s : Storage f} (hsize : 4 + 1 + f.size ≤ 65535)
    (hm : s.mounted = true) (entry : UInt8) (fs : FileSystem) :
    (s.commitImpl entry fs).1 = false ↔ fs s.path = some (f.image s.data) := by
  rw [commitImpl, hm]
  cases hfile : fs s.path with
  | none => simp
  | some file =>
      rw [Option.some.injEq, ← f.checkChanged_eq_false_iff hsize file s.data entry]
      cases hchanged : f.checkChanged file s.data entry with
      | true => simp [hchanged]
      | false => simp [hchanged]

theorem begin_image (hsize : 4 + 1 + f.size ≤ 65535) {fs : FileSystem} {s : Storage f}
    {data : Vector UInt8 f.size} (hfile : fs s.path = some (f.image data))
    (header : Vector UInt8 4) (version : Vector UInt8 1) :
    (s.begin fs header version).data = data := by
  have hpath : fs (path { s with mounted := true }) = some (f.image data) := hfile
  have hheader : (readOver (f.image data) header).toList = le32 f.header := by
    rw [toList_readOver _ (by rw [StorageFormat.image_length]; omega), StorageFormat.image_take]
  have hversion : (readOver ((f.image data).drop 4) version).toList = [f.version] := by
    rw [toList_readOver, StorageFormat.image_version]
    rw [List.length_drop, StorageFormat.image_length]
    omega
  simp only [begin, hpath]
  rw [if_pos (by rw [StorageFormat.image_length, f.fileSize_toNat hsize]),
    if_pos ⟨hheader, hversion⟩]
  refine readOver_full ?_
  rw [StorageFormat.image_drop, List.take_of_length_le (by rw [Vector.length_toList])]

theorem begin_foreign (hsize : 4 + 1 + f.size ≤ 65535) {fs : FileSystem} {s : Storage f}
    (hfile : ∀ file, fs s.path = some file → f.Foreign file) (header : Vector UInt8 4)
    (version : Vector UInt8 1) : (s.begin fs header version).data = f.default := by
  have hpath : ∀ file, fs (path { s with mounted := true }) = some file → f.Foreign file := hfile
  simp only [begin]
  split
  · rename_i file hsome
    have hforeign := hpath file hsome
    split
    · rename_i hlength
      rw [f.fileSize_toNat hsize] at hlength
      have hdrop : 1 ≤ (file.drop 4).length := by
        rw [List.length_drop]
        omega
      rw [toList_readOver _ (by omega), toList_readOver _ hdrop, if_neg]
      rintro ⟨hheader, hversion⟩
      rcases hforeign with hlen | hhead | hver
      · exact hlen hlength
      · exact hhead hheader
      · exact hver hversion
    · rfl
  · rfl

/-- **What is committed is loaded.**  A commit leaves exactly the file of the data, touches no
other path, and writes unless that file was there; `begin` of any storage with the same key then
loads the data; and it takes the default where there is no file, or one of another length, header
or version. -/
theorem commit_begin (hsize : 4 + 1 + f.size ≤ 65535) (s : Storage f) (hm : s.mounted = true)
    (entry : UInt8) (fs : FileSystem) :
    (s.commitImpl entry fs).2 s.path = some (f.image s.data) ∧
    (∀ path, path ≠ s.path → (s.commitImpl entry fs).2 path = fs path) ∧
    ((s.commitImpl entry fs).1 = false ↔ fs s.path = some (f.image s.data)) ∧
    (∀ (t : Storage f) header version, t.key = s.key →
      (t.begin (s.commitImpl entry fs).2 header version).data = s.data) ∧
    ∀ (t : Storage f) (fs' : FileSystem) header version,
      (∀ file, fs' t.path = some file → f.Foreign file) →
        (t.begin fs' header version).data = f.default := by
  have hfile : (s.commitImpl entry fs).2 s.path = some (f.image s.data) := by
    rw [commitImpl_file hm, f.commit_eq_iff]
    exact f.compares_of_fits (by omega) (fs s.path) s.data entry
  refine ⟨hfile, fun path h => s.commitImpl_other entry fs h, commitImpl_written hsize hm entry fs,
    ?_, fun t fs' header version h => begin_foreign hsize h header version⟩
  intro t header version hkey
  refine begin_image hsize ?_ header version
  rw [path, hkey]
  exact hfile

/-- Two bytes, over a file of another version. -/
theorem commit_begin_two :
    (Storage.begin (f := { size := 2, default := #v[0, 0] })
      (Storage.commitImpl (f := { size := 2, default := #v[0, 0] }) 9
        { mounted := true, key := ⟨[0x63], by decide⟩, data := #v[7, 8] }
        fun _ => some [0xc3, 0xf2, 0xc1, 0xd0, 2, 7, 8]).2 #v[1, 2, 3, 4] #v[5]
      { key := ⟨[0x63], by decide⟩, data := #v[1, 1] }).data = #v[7, 8] :=
  (commit_begin (f := { size := 2, default := #v[0, 0] }) (by decide)
    { mounted := true, key := ⟨[0x63], by decide⟩, data := #v[7, 8] } rfl 9
    fun _ => some [0xc3, 0xf2, 0xc1, 0xd0, 2, 7, 8]).2.2.2.1 _ #v[1, 2, 3, 4] #v[5] rfl

end Storage

end EspIot
