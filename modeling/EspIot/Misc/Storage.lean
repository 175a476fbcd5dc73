/-
# `EspIot.Misc.Storage` — a value in RAM, its file, and the timer that commits it

A `Storage<T>` keeps a value and a file.  `save` schedules a commit through the
shared `Timer` and remembers the slot in `_save_timer_id`; `force_save` commits
at once.  `Bootstrap` uses it through `save_changes`, which saves only when no
commit is pending, and `restart`.

The machine is the one of `Misc.Timer`, a stack of passes and callbacks, with
the storage beside it.  The timer is shared: other users add timers of their own
and clear them.  The commit callback calls nothing that could come back, so it
runs in the step that fires it, up to the `_clear` of its slot.

A value is the `sizeof(T)` bytes it is made of.  `size()` is a `uint16_t`, so for
a value near 64 KiB or longer it is not the length of the file.  Reads at the end
of a file leave the destination as it was; that is zero for the header, and for
the byte `_check_changed` compares it is what the stack held, which stands in the
events that commit.
-/
import EspIot.Lib.Bytes
import EspIot.Misc.TimerSlots

namespace EspIot

open Lib

def storageSaveInterval : UInt32 := 60000

def restartDelay : UInt32 := 500

/-! ## The file -/

/-- What a `Storage<T>` is constructed with, for `sizeof(T) = size` and `T()` = `default`. -/
structure StorageFormat where
  header : UInt32 := 0xd0c1f2c3
  version : UInt8 := 1
  size : ℕ
  default : Vector UInt8 size

namespace StorageFormat

variable (f : StorageFormat)

def fileSize : UInt16 := UInt16.ofNat (4 + 1 + f.size)

def image (data : Vector UInt8 f.size) : List UInt8 :=
  le32 f.header ++ [f.version] ++ data.toList

/-- `_check_header`: four bytes of header, then one of version, over zeros. -/
def checkHeader (file : List UInt8) : Bool :=
  (file ++ List.replicate (4 - file.length) 0).take 4 == le32 f.header &&
    (file.drop 4 ++ [0]).take 1 == [f.version]

/-- The loop of `_check_changed`, over what is left of the file and of the value.  At the end of
the file `entry` stays. -/
def differs : List UInt8 → UInt8 → List UInt8 → Bool
  | _, _, [] => false
  | [], entry, byte :: data => if byte != entry then true else differs [] entry data
  | entry :: file, _, byte :: data => if byte != entry then true else differs file entry data

/-- `_check_changed`; `entry` is what the byte it reads into holds at first. -/
def checkChanged (file : List UInt8) (data : Vector UInt8 f.size) (entry : UInt8) : Bool :=
  if file.length ≠ f.fileSize.toNat || !f.checkHeader file then true
  else differs (file.drop 5) entry data.toList

/-- What `_commit_impl` leaves in the file; `none` is a file that cannot be opened to read. -/
def commit (file : Option (List UInt8)) (data : Vector UInt8 f.size) (entry : UInt8) :
    Option (List UInt8) :=
  match file with
  | some content => if !f.checkChanged content data entry then file else some (f.image data)
  | none => some (f.image data)

/-- `_check_changed` takes the file for unchanged only if it is. -/
def Compares (file : Option (List UInt8)) (data : Vector UInt8 f.size) (entry : UInt8) : Prop :=
  ∀ content, file = some content → f.checkChanged content data entry = false →
    content = f.image data

theorem eq_of_differs {file data : List UInt8} {entry : UInt8}
    (hlen : file.length = data.length) (h : differs file entry data = false) : file = data := by
  induction data generalizing file entry with
  | nil => exact List.length_eq_zero_iff.mp hlen
  | cons byte data ih =>
      cases file with
      | nil => cases hlen
      | cons first file =>
          rw [differs] at h
          split at h
          · cases h
          · rename_i hsame
            have heq : byte = first := by simpa using hsame
            rw [heq, ih (Nat.succ.inj hlen) h]

theorem compares_of_length {file : Option (List UInt8)}
    (hlen : ∀ content, file = some content → content.length = f.fileSize.toNat →
      content.length = 4 + 1 + f.size)
    (data : Vector UInt8 f.size) (entry : UInt8) : f.Compares file data entry := by
  intro content hfile h
  rw [checkChanged] at h
  split at h
  · cases h
  · rename_i hhead
    simp only [Bool.or_eq_true, decide_eq_true_eq, Bool.not_eq_true', not_or, not_not,
      Bool.not_eq_false] at hhead
    obtain ⟨hsize, hheader⟩ := hhead
    have hfull : content.length = 4 + 1 + f.size := hlen content hfile hsize
    rw [checkHeader, Bool.and_eq_true, beq_iff_eq, beq_iff_eq] at hheader
    obtain ⟨hfour, hone⟩ := hheader
    rw [Nat.sub_eq_zero_of_le (by omega), List.replicate_zero, List.append_nil] at hfour
    rw [List.take_append_of_le_length (by rw [List.length_drop]; omega)] at hone
    have hrest : content.drop 5 = data.toList :=
      eq_of_differs (by rw [List.length_drop, Vector.length_toList]; omega) h
    calc content = content.take 4 ++ ((content.drop 4).take 1 ++ (content.drop 4).drop 1) := by
          rw [List.take_append_drop, List.take_append_drop]
      _ = f.image data := by
          rw [hfour, hone, List.drop_drop, hrest, image, List.append_assoc]

theorem compares_of_fits (h : 4 + 1 + f.size < 65536) (file : Option (List UInt8))
    (data : Vector UInt8 f.size) (entry : UInt8) : f.Compares file data entry := by
  refine f.compares_of_length ?_ data entry
  intro content _ hsize
  rw [hsize, fileSize, UInt16.toNat_ofNat']
  omega

theorem commit_eq_iff (file : Option (List UInt8)) (data : Vector UInt8 f.size) (entry : UInt8) :
    f.commit file data entry = some (f.image data) ↔ f.Compares file data entry := by
  cases file with
  | none => exact iff_of_true rfl (fun content h => by cases h)
  | some content =>
      rw [commit, Compares]
      cases hchanged : f.checkChanged content data entry with
      | true =>
          refine iff_of_true rfl ?_
          intro c hc hsame
          cases hc
          rw [hchanged] at hsame
          cases hsame
      | false =>
          constructor
          · intro h c hc _
            cases hc
            exact Option.some.inj h
          · intro h
            exact congrArg some (h content rfl hchanged)

end StorageFormat

/-! ## The machine -/

/-- What the timers call: the commit of this storage, the restart, or something of another
user. -/
inductive StorageFn
  | commit
  | restart
  | other (n : ℕ)
deriving DecidableEq

/-- A `Storage` and the `Timer` it uses.  `saveTimerId` is `none` for `-1`.  `changed` says that
the data has been changed, `stolen` collects the timers of other users that `save` and
`force_save` have cleared. -/
structure StorageRun (f : StorageFormat) where
  timer : TimerRun StorageFn := {}
  mounted : Bool
  data : Vector UInt8 f.size
  file : Option (List UInt8)
  saveTimerId : Option ℕ := none
  changed : Bool := false
  stolen : List (TimerEntry StorageFn) := []

/-- A call by the code that is running, or a step of a pass.  `now` and `memory` are what `_add`
reads from outside, `entry` what `_check_changed` finds on the stack. -/
inductive StorageEvent (f : StorageFormat)
  /-- a change of the data, and `Bootstrap::save_changes` -/
  | change (data : Vector UInt8 f.size) (now : UInt32) (memory : Bool)
  | save (now : UInt32) (memory : Bool)
  | reset (now : UInt32) (memory : Bool)
  | forceSave (entry : UInt8)
  | restart (now : UInt32) (memory : Bool) (entry : UInt8)
  /-- another user adds a timer -/
  | add (n : ℕ) (interval : UInt32) (repeats : Bool) (parameter : ℕ) (now : UInt32)
      (memory : Bool)
  /-- another user clears a timer of its own -/
  | clear (timerId : ℕ)
  | handle
  | visit (now : UInt32) (entry : UInt8)
  | ret (stale : Bool)

namespace StorageRun

variable {f : StorageFormat}

def isPendingCommit (s : StorageRun f) : Bool := s.saveTimerId.isSome

def commitImpl (entry : UInt8) (s : StorageRun f) : StorageRun f :=
  if !s.mounted then s else { s with file := f.commit s.file s.data entry }

def foreign (entry : TimerEntry StorageFn) : Bool :=
  entry.active && entry.callback != some .commit

/-- `if (_save_timer_id != -1) _timer.clear_timeout(_save_timer_id);` -/
def clearSaveTimer (s : StorageRun f) : StorageRun f :=
  match s.saveTimerId with
  | some i =>
      { s with
        timer := s.timer.clear i
        stolen := s.stolen ++ (s.timer.timer.entries[i]?.toList.filter foreign) }
  | none => s

def save (now : UInt32) (memory : Bool) (s : StorageRun f) : StorageRun f :=
  if !s.mounted then s
  else
    let s := s.clearSaveTimer
    { s with
      timer := s.timer.add .commit storageSaveInterval false 0 now memory
      saveTimerId := (s.timer.timer.add .commit storageSaveInterval false 0 now memory).2 }

/-- `force_save`.  It leaves `_save_timer_id` as it is. -/
def forceSave (entry : UInt8) (s : StorageRun f) : StorageRun f :=
  s.clearSaveTimer.commitImpl entry

def reset (now : UInt32) (memory : Bool) (s : StorageRun f) : StorageRun f :=
  { s with data := f.default, changed := true }.save now memory

def saveChanges (now : UInt32) (memory : Bool) (s : StorageRun f) : StorageRun f :=
  if !s.isPendingCommit then s.save now memory else s

def restart (now : UInt32) (memory : Bool) (entry : UInt8) (s : StorageRun f) : StorageRun f :=
  let s := if s.isPendingCommit then s.forceSave entry else s
  { s with timer := s.timer.add .restart restartDelay false 0 now memory }

/-- The pass on top is at a slot that is due and holds the commit. -/
def commitDue (now : UInt32) (s : StorageRun f) : Bool :=
  match s.timer.frames with
  | .pass i :: _ =>
      (s.timer.timer.entries[i]?).any fun entry =>
        Timer.due entry now && entry.callback == some .commit
  | _ => false

/-- A pass looks at its slot.  If that fires the commit, the callback runs,
`_save_timer_id = -1; _commit_impl();`, and returns to the pass. -/
def visit (now : UInt32) (entry : UInt8) (s : StorageRun f) : Option (StorageRun f) :=
  (s.timer.step (.visit now)).bind fun timer =>
    if s.commitDue now then
      let s := { s with saveTimerId := none }.commitImpl entry
      (timer.step (.ret false)).map fun timer => { s with timer }
    else some { s with timer }

def step (s : StorageRun f) : StorageEvent f → Option (StorageRun f)
  | .change data now memory =>
      if s.timer.canCall then some ({ s with data, changed := true }.saveChanges now memory)
      else none
  | .save now memory => if s.timer.canCall then some (s.save now memory) else none
  | .reset now memory => if s.timer.canCall then some (s.reset now memory) else none
  | .forceSave entry => if s.timer.canCall then some (s.forceSave entry) else none
  | .restart now memory entry =>
      if s.timer.canCall then some (s.restart now memory entry) else none
  | .add n interval repeats parameter now memory =>
      if s.timer.canCall then
        some { s with timer := s.timer.add (.other n) interval repeats parameter now memory }
      else none
  | .clear timerId =>
      if s.timer.canCall && (s.timer.timer.entries[timerId]?).any foreign then
        some { s with timer := s.timer.clear timerId }
      else none
  | .handle => (s.timer.step .handle).map fun timer => { s with timer }
  | .visit now entry => s.visit now entry
  | .ret stale => (s.timer.step (.ret stale)).map fun timer => { s with timer }

end StorageRun

end EspIot
