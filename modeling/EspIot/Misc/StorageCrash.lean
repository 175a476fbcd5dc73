/-
# `EspIot.Misc.StorageCrash` — what a value is after the power has been cut

The power may go at any moment, also while a commit writes the file; then `begin` loads what is
there.  The timers are gone, and with them the commit that was pending.

    reboot    between two steps: the file is as the last commit has left it
    cut       in a commit: the file is what the file system leaves of it

The file system is not part of the repository.  It is a parameter: one that writes in place leaves
the beginning of the new file, one that writes a copy leaves the old file until the new one is
closed.

The header of a file comes first, so a file that was cut has it; it is the length that tells.
`refines_register`: the user of a storage sees a value that is saved and restarted, and of a save
that was cut the old value, the new one or the default, never a part of one and a part of another.
-/
import EspIot.Lib.Durable
import EspIot.Misc.StorageChanges
import EspIot.Misc.StorageFile

namespace EspIot

open Lib

/-! ## The value that a file holds -/

namespace StorageFormat

variable (f : StorageFormat)

theorem drop_size {file : List UInt8} (h : file.length = 4 + 1 + f.size) :
    (file.drop 5).toArray.size = f.size := by
  rw [List.size_toArray, List.length_drop]
  omega

def decode (file : List UInt8) : Option (Vector UInt8 f.size) :=
  if h : file.length = 4 + 1 + f.size then
    if file.take 4 = le32 f.header ∧ (file.drop 4).take 1 = [f.version] then
      some ⟨(file.drop 5).toArray, f.drop_size h⟩
    else none
  else none

theorem decode_image (data : Vector UInt8 f.size) : f.decode (f.image data) = some data := by
  rw [decode, dif_pos (f.image_length data),
    if_pos ⟨f.image_take data, f.image_version data⟩]
  refine congrArg some (Vector.toList_inj.mp ?_)
  rw [← f.image_drop data]
  rfl

theorem decode_eq_none {file : List UInt8} (h : f.Foreign file) : f.decode file = none := by
  rw [decode]
  split
  · rename_i hlength
    refine if_neg ?_
    rintro ⟨hheader, hversion⟩
    rcases h with h | h | h
    · exact h hlength
    · exact h hheader
    · exact h hversion
  · rfl

theorem decode_cut (data : Vector UInt8 f.size) {n : ℕ} (h : n < 4 + 1 + f.size) :
    f.decode ((f.image data).take n) = none := by
  refine f.decode_eq_none (Or.inl ?_)
  rw [List.length_take, f.image_length]
  omega

end StorageFormat

namespace StorageRun

variable {f : StorageFormat}

/-! ## Losing the power -/

/-- The start of the program with what is in the file; `header`, `version` and `data` are what the
memory that `begin` reads into holds. -/
def boot (key : CString) (file : Option (List UInt8)) (header : Vector UInt8 4)
    (version : Vector UInt8 1) (data : Vector UInt8 f.size) : StorageRun f where
  mounted := true
  data := (Storage.begin (fun _ => file) header version { key, data }).data
  file := file

end StorageRun

/-- What a file system leaves when the power goes while it replaces a file, at some moment: the file
as it was, none, or the beginning of the new one. -/
structure PowerCut where
  left : (old : Option (List UInt8)) → (new : List UInt8) → (moment : ℕ) → Option (List UInt8)
  left_cases : ∀ old new moment, left old new moment = old ∨ left old new moment = none ∨
    ∃ written, left old new moment = some (new.take written)

namespace PowerCut

/-- A file is written in place, byte by byte. -/
def inPlace : PowerCut where
  left _ new moment := some (new.take moment)
  left_cases _ _ moment := .inr (.inr ⟨moment, rfl⟩)

/-- A file is replaced when the new one is closed. -/
def copying : PowerCut where
  left old new moment := if moment ≤ new.length then old else some new
  left_cases old new moment := by
    split
    · exact .inl rfl
    · exact .inr (.inr ⟨new.length, by rw [List.take_length]⟩)

end PowerCut

/-- A step of the program, or the loss of the power: after a step, or at some moment in one that
writes the file. -/
inductive StorageLifeEvent (f : StorageFormat)
  | step (e : StorageEvent f)
  | reboot (header : Vector UInt8 4) (version : Vector UInt8 1) (data : Vector UInt8 f.size)
  | cut (e : StorageEvent f) (moment : ℕ) (header : Vector UInt8 4) (version : Vector UInt8 1)
      (data : Vector UInt8 f.size)

namespace StorageRun

variable {f : StorageFormat} (power : PowerCut) (key : CString)

def lifeStep (s : StorageRun f) : StorageLifeEvent f → Option (StorageRun f)
  | .step e => s.step e
  | .reboot header version data => some (boot key s.file header version data)
  | .cut e moment header version data =>
      (s.step e).bind fun s' =>
        if s'.file = s.file then none
        else
          s'.file.map fun new => boot key (power.left s.file new moment) header version data

/-- What the user and the restarts see: the value in memory, and the one in the file. -/
def register (s : StorageRun f) : DurableRegister (Vector UInt8 f.size) where
  volatile := s.data
  durable := s.file.bind f.decode

def ops (s : StorageRun f) : StorageEvent f → List (DurableOp (Vector UInt8 f.size))
  | .change data _ _ => [.set data]
  | .reset _ _ => [.set f.default]
  | .forceSave _ => [.save]
  | .restart _ _ _ => if s.isPendingCommit then [.save] else []
  | .visit now _ => if s.commitDue now then [.save] else []
  | _ => []

/-- What is left of a save that was cut: nothing of it, all of it, or no value. -/
def cutOps (s : StorageRun f) (left : Option (List UInt8)) :
    List (DurableOp (Vector UInt8 f.size)) :=
  if left = s.file then []
  else if left = some (f.image s.data) then [.save]
  else [.tear]

def lifeOps (s : StorageRun f) : StorageLifeEvent f → List (DurableOp (Vector UInt8 f.size))
  | .step e => s.ops e
  | .reboot _ _ _ => [.restart]
  | .cut _ moment _ _ _ => s.cutOps (power.left s.file (f.image s.data) moment) ++ [.restart]

variable {power key} {s s' : StorageRun f}

theorem register_boot (hsize : 4 + 1 + f.size ≤ 65535) (file : Option (List UInt8))
    (header : Vector UInt8 4) (version : Vector UInt8 1) (data : Vector UInt8 f.size) :
    (boot key file header version data).register =
      { volatile := (file.bind f.decode).getD f.default, durable := file.bind f.decode } := by
  refine congrArg (DurableRegister.mk · _) ?_
  by_cases himage : ∃ v, file = some (f.image v)
  · obtain ⟨v, rfl⟩ := himage
    rw [Option.bind_some, f.decode_image]
    exact Storage.begin_image hsize rfl header version
  · have hforeign : ∀ content, file = some content → f.Foreign content := by
      intro content hcontent
      refine (f.foreign_iff content).mpr fun v hv => himage ⟨v, ?_⟩
      rw [hcontent, hv]
    have hnone : file.bind f.decode = none := by
      cases file with
      | none => rfl
      | some content => exact f.decode_eq_none (hforeign content rfl)
    rw [hnone]
    exact Storage.begin_foreign hsize hforeign header version

/-! ## What the steps write -/

theorem register_same (hdata : s'.data = s.data) (hfile : s'.file = s.file) :
    s'.register = s.register := by
  rw [register, register, hdata, hfile]

theorem register_commit (hsize : 4 + 1 + f.size ≤ 65535) {entry : UInt8}
    (hdata : s'.data = s.data) (hfile : s'.file = f.commit s.file s.data entry) :
    s'.file = some (f.image s.data) ∧
      s'.register = s.register.step f.default .save := by
  have himage : s'.file = some (f.image s.data) := by
    rw [hfile, f.commit_eq_iff]
    exact f.compares_of_fits (by omega) s.file s.data entry
  refine ⟨himage, ?_⟩
  rw [register, himage, hdata, Option.bind_some, f.decode_image]
  rfl

/-- What a step does: the operations it stands for, and it writes nothing but the file of the
data. -/
structure Does (s : StorageRun f) (e : StorageEvent f) (s' : StorageRun f) : Prop where
  mounted : s'.mounted = true
  register : s'.register = (s.ops e).foldl (DurableRegister.step f.default) s.register
  written : s'.file ≠ s.file → s'.file = some (f.image s.data)
  unchanged : s'.changed = false →
    s.changed = false ∧ ∀ op ∈ s.ops e, op = .save ∨ op = .restart

theorem does_same {e : StorageEvent f} (hsame : SameStorage s s') (hm : s.mounted = true)
    (hops : s.ops e = []) : Does s e s' where
  mounted := hsame.mounted.trans hm
  register := by
    rw [hops]
    exact register_same hsame.data hsame.file
  written hne := absurd hsame.file hne
  unchanged h := ⟨hsame.changed.symm.trans h, by simp [hops]⟩

theorem does_commit (hsize : 4 + 1 + f.size ≤ 65535) {e : StorageEvent f} {entry : UInt8}
    (hm : s'.mounted = true) (hdata : s'.data = s.data) (hchanged : s'.changed = s.changed)
    (hfile : s'.file = f.commit s.file s.data entry) (hops : s.ops e = [.save]) :
    Does s e s' where
  mounted := hm
  register := by
    rw [hops]
    exact (register_commit hsize hdata hfile).2
  written _ := (register_commit hsize hdata hfile).1
  unchanged h := ⟨hchanged.symm.trans h, by simp [hops]⟩

theorem does_change (hm : s.mounted = true) (data : Vector UInt8 f.size) (now : UInt32)
    (memory : Bool) :
    Does s (.change data now memory)
      (({ s with data, changed := true } : StorageRun f).saveChanges now memory) := by
  have hsame : SameStorage ({ s with data, changed := true } : StorageRun f)
      (({ s with data, changed := true } : StorageRun f).saveChanges now memory) := by
    rw [saveChanges]
    split
    · exact sameStorage_save _ now memory
    · exact ⟨rfl, rfl, rfl, rfl⟩
  exact ⟨hsame.mounted.trans hm, register_same hsame.data hsame.file,
    fun hne => absurd hsame.file hne,
    fun h => absurd (hsame.changed.symm.trans h) (fun h => by cases h)⟩

theorem does_reset (hm : s.mounted = true) (now : UInt32) (memory : Bool) :
    Does s (.reset now memory) (s.reset now memory) := by
  have hsame := sameStorage_save ({ s with data := f.default, changed := true } : StorageRun f)
    now memory
  exact ⟨hsame.mounted.trans hm, register_same hsame.data hsame.file,
    fun hne => absurd hsame.file hne,
    fun h => absurd (hsame.changed.symm.trans h) (fun h => by cases h)⟩

theorem does_restart (hsize : 4 + 1 + f.size ≤ 65535) (hm : s.mounted = true) (now : UInt32)
    (memory : Bool) (entry : UInt8) :
    Does s (.restart now memory entry) (s.restart now memory entry) := by
  rw [StorageRun.restart]
  by_cases hpending : s.isPendingCommit = true
  · obtain ⟨hm', hdata, hchanged, hfile⟩ := forceSave_storage hm entry
    rw [if_pos hpending]
    exact does_commit hsize hm' hdata hchanged hfile (if_pos hpending)
  · rw [if_neg hpending]
    exact does_same ⟨rfl, rfl, rfl, rfl⟩ hm (if_neg hpending)

theorem does_visit (hsize : 4 + 1 + f.size ≤ 65535) (hm : s.mounted = true) {now : UInt32}
    {entry : UInt8} (hs : s.step (.visit now entry) = some s') :
    Does s (.visit now entry) s' := by
  have hops (h : s.commitDue now = false) : s.ops (.visit now entry) = [] := by
    rw [ops, h]
    rfl
  rcases visit_cases hs with ⟨timer, hdue, rfl, -⟩ | ⟨timer, i, slot, hdue, rfl, -⟩ |
    ⟨timer, i, slot, rest, hdue, -, -, -, -, rfl⟩
  · exact does_same ⟨rfl, rfl, rfl, rfl⟩ hm (hops hdue)
  · exact does_same ⟨rfl, rfl, rfl, rfl⟩ hm (hops hdue)
  · obtain ⟨hm', hdata, hchanged, hfile⟩ :=
      commitImpl_storage (s := { s with saveTimerId := none }) hm entry
    refine does_commit hsize hm' hdata hchanged hfile ?_
    rw [ops, hdue]
    rfl

theorem does_step (hsize : 4 + 1 + f.size ≤ 65535) (hm : s.mounted = true)
    {e : StorageEvent f} (hs : s.step e = some s') : Does s e s' := by
  cases e with
  | change data now memory =>
      simp only [step] at hs
      split at hs
      · cases hs
        exact does_change hm data now memory
      · cases hs
  | save now memory =>
      simp only [step] at hs
      split at hs
      · cases hs
        exact does_same (s.sameStorage_save now memory) hm rfl
      · cases hs
  | reset now memory =>
      simp only [step] at hs
      split at hs
      · cases hs
        exact does_reset hm now memory
      · cases hs
  | forceSave entry =>
      simp only [step] at hs
      split at hs
      · cases hs
        obtain ⟨hm', hdata, hchanged, hfile⟩ := forceSave_storage hm entry
        exact does_commit hsize hm' hdata hchanged hfile rfl
      · cases hs
  | restart now memory entry =>
      simp only [step] at hs
      split at hs
      · cases hs
        exact does_restart hsize hm now memory entry
      · cases hs
  | add n interval repeats parameter now memory =>
      simp only [step] at hs
      split at hs
      · cases hs
        exact does_same ⟨rfl, rfl, rfl, rfl⟩ hm rfl
      · cases hs
  | clear timerId =>
      simp only [step] at hs
      split at hs
      · cases hs
        exact does_same ⟨rfl, rfl, rfl, rfl⟩ hm rfl
      · cases hs
  | handle =>
      obtain ⟨timer, -, rfl⟩ := Option.map_eq_some_iff.mp hs
      exact does_same ⟨rfl, rfl, rfl, rfl⟩ hm rfl
  | visit now entry => exact does_visit hsize hm hs
  | ret stale =>
      obtain ⟨timer, -, rfl⟩ := Option.map_eq_some_iff.mp hs
      exact does_same ⟨rfl, rfl, rfl, rfl⟩ hm rfl

theorem register_cut (s : StorageRun f) (moment : ℕ) :
    (s.cutOps (power.left s.file (f.image s.data) moment)).foldl (DurableRegister.step f.default)
        s.register =
      { volatile := s.data
        durable := (power.left s.file (f.image s.data) moment).bind f.decode } := by
  rw [cutOps]
  split
  · rename_i hold
    rw [hold]
    rfl
  · rename_i hold
    split
    · rename_i hnew
      rw [hnew, Option.bind_some, f.decode_image]
      rfl
    · rename_i hnew
      have hnone : (power.left s.file (f.image s.data) moment).bind f.decode = none := by
        rcases power.left_cases s.file (f.image s.data) moment with heq | heq | ⟨written, heq⟩
        · exact absurd heq hold
        · rw [heq]
          rfl
        · rw [heq, Option.bind_some]
          by_cases hcut : written < 4 + 1 + f.size
          · exact f.decode_cut s.data hcut
          · rw [List.take_of_length_le (by rw [f.image_length]; omega)] at heq
            exact absurd heq hnew
      rw [hnone]
      rfl

theorem register_lifeStep (hsize : 4 + 1 + f.size ≤ 65535) {e : StorageLifeEvent f}
    (hm : s.mounted = true) (hs : s.lifeStep power key e = some s') :
    s'.mounted = true ∧
      s'.register = (s.lifeOps power e).foldl (DurableRegister.step f.default) s.register := by
  cases e with
  | step e =>
      have hdoes := does_step hsize hm hs
      exact ⟨hdoes.mounted, hdoes.register⟩
  | reboot header version data =>
      cases hs
      exact ⟨rfl, register_boot hsize s.file header version data⟩
  | cut e moment header version data =>
      obtain ⟨t, ht, hs⟩ := Option.bind_eq_some_iff.mp hs
      split at hs
      · cases hs
      · rename_i hne
        rw [(does_step hsize hm ht).written hne] at hs
        cases hs
        refine ⟨rfl, (register_boot hsize _ header version data).trans ?_⟩
        rw [lifeOps, List.foldl_append, register_cut]
        rfl

/-- **Across restarts and cuts of the power, a storage is a register that is saved and
restarted.**  In any run from any file, with the power lost at any step or at any moment of a
commit, the value in memory and the one a restart would load are those of a register that has been
set, saved and restarted; a commit that was cut leaves its durable value as it was, saves it, or
takes it away so that the default is loaded, and never gives a mixture of two values. -/
theorem refines_register (power : PowerCut) (hsize : 4 + 1 + f.size ≤ 65535) (key : CString)
    (file : Option (List UInt8)) (header : Vector UInt8 4) (version : Vector UInt8 1)
    (data : Vector UInt8 f.size) (es : List (StorageLifeEvent f))
    (hs : Lib.run (lifeStep power key) (boot key file header version data) es = some s) :
    s.register =
      (trace (lifeStep power key) (lifeOps power) (boot key file header version data) es).foldl
        (DurableRegister.step f.default)
        { volatile := (file.bind f.decode).getD f.default, durable := file.bind f.decode } := by
  have hboot : (boot key file header version data).register = _ :=
    register_boot hsize file header version data
  rw [← hboot]
  exact run_trace (I := fun s => s.mounted = true) register
    (fun _ _ _ hm hstep => register_lifeStep hsize hm hstep) rfl hs

/-- A value saved, another set, and the power cut in its commit, after five bytes of the six. -/
theorem refines_register_cut :
    ∃ s, Lib.run (lifeStep .inPlace ⟨[0x63], by decide⟩)
        (boot (f := byteFormat) ⟨[0x63], by decide⟩ none #v[1, 2, 3, 4] #v[5] #v[6])
        [.step (.change #v[7] 0 true), .step (.forceSave 0), .step (.change #v[8] 0 true),
          .cut (.forceSave 0) 5 #v[0, 0, 0, 0] #v[0] #v[0]] = some s ∧
      s.register.volatile = #v[0] :=
  ⟨_, rfl, (congrArg DurableRegister.volatile (refines_register (f := byteFormat) .inPlace
    (by decide) ⟨[0x63], by decide⟩ none #v[1, 2, 3, 4] #v[5] #v[6]
    [.step (.change #v[7] 0 true), .step (.forceSave 0), .step (.change #v[8] 0 true),
      .cut (.forceSave 0) 5 #v[0, 0, 0, 0] #v[0] #v[0]] rfl)).trans rfl⟩

-- where the old file stays until the new one is closed, its value is loaded
example : (Lib.run (lifeStep .copying ⟨[0x63], by decide⟩)
    (boot (f := byteFormat) ⟨[0x63], by decide⟩ none #v[1, 2, 3, 4] #v[5] #v[6])
    [.step (.change #v[7] 0 true), .step (.forceSave 0), .step (.change #v[8] 0 true),
      .cut (.forceSave 0) 5 #v[0, 0, 0, 0] #v[0] #v[0]]).map data = some #v[7] := rfl

/-! ## What a restart keeps -/

/-- The step keeps the changes; a restart is no step. -/
def LifeKeeps (s : StorageRun f) : StorageLifeEvent f → Prop
  | .step e => s.KeepsChange e
  | _ => True

/-- No change is lost, and a value that has not been changed is the one a restart gives. -/
structure Kept (s : StorageRun f) : Prop where
  mounted : s.mounted = true
  placed : Placed s
  notLost : NotLost s
  settled : s.changed = false → s.register.Settled f.default

theorem kept_boot (hsize : 4 + 1 + f.size ≤ 65535) (file : Option (List UInt8))
    (header : Vector UInt8 4) (version : Vector UInt8 1) (data : Vector UInt8 f.size) :
    Kept (boot key file header version data) where
  mounted := rfl
  placed := placed_initial true _ file
  notLost h := by cases h
  settled _ := by
    rw [register_boot hsize]
    rfl

theorem Kept.lifeStep (hsize : 4 + 1 + f.size ≤ 65535) {e : StorageLifeEvent f} (h : Kept s)
    (he : s.LifeKeeps e) (hs : s.lifeStep power key e = some s') : Kept s' := by
  cases e with
  | step e =>
      have hdoes := does_step hsize h.mounted hs
      obtain ⟨⟨hm, hp⟩, hkept⟩ := notLost_step ⟨⟨h.mounted, h.placed⟩, h.notLost⟩ hs
      refine ⟨hm, hp, hkept.mpr he, fun hchanged => ?_⟩
      obtain ⟨hbefore, hops⟩ := hdoes.unchanged hchanged
      rw [hdoes.register]
      exact (h.settled hbefore).foldl hops
  | reboot header version data =>
      cases hs
      exact kept_boot hsize s.file header version data
  | cut e moment header version data =>
      obtain ⟨t, -, hs⟩ := Option.bind_eq_some_iff.mp hs
      split at hs
      · cases hs
      · obtain ⟨new, -, rfl⟩ := Option.map_eq_some_iff.mp hs
        exact kept_boot hsize _ header version data

/-- **A restart loses nothing but a commit that is pending.**  In any run, over any restarts and
cuts of the power, whose steps keep the changes, a restart at a moment when no commit is scheduled
loads the value that is in memory. -/
theorem restart_keeps_data (power : PowerCut) (hsize : 4 + 1 + f.size ≤ 65535) (key : CString)
    (file : Option (List UInt8)) (header : Vector UInt8 4) (version : Vector UInt8 1)
    (data : Vector UInt8 f.size) (es : List (StorageLifeEvent f))
    (hes : Each (lifeStep power key) LifeKeeps (boot key file header version data) es)
    (hs : Lib.run (lifeStep power key) (boot key file header version data) es = some s)
    (hidle : ∀ i, ¬ s.Committing i) (header' : Vector UInt8 4) (version' : Vector UInt8 1)
    (data' : Vector UInt8 f.size) :
    (boot key s.file header' version' data').data = s.data := by
  have h : Kept s := run_each_invariant (fun _ _ _ h he hstep => h.lifeStep hsize he hstep)
    (kept_boot hsize file header version data) hes hs
  have hload : (boot key s.file header' version' data').data =
      (s.file.bind f.decode).getD f.default :=
    congrArg DurableRegister.volatile (register_boot hsize s.file header' version' data')
  rw [hload]
  cases hchanged : s.changed with
  | false => exact h.settled hchanged
  | true =>
      have hfile := (h.notLost hchanged).resolve_right (not_exists.mpr hidle)
      rw [hfile, Option.bind_some, f.decode_image]
      rfl

/-- A value set and saved. -/
theorem restart_keeps_data_saved :
    ∃ s, Lib.run (lifeStep .inPlace ⟨[0x63], by decide⟩)
        (boot (f := byteFormat) ⟨[0x63], by decide⟩ none #v[1, 2, 3, 4] #v[5] #v[6])
        [.step (.change #v[7] 0 true), .step (.forceSave 0)] = some s ∧
      (boot ⟨[0x63], by decide⟩ s.file #v[0, 0, 0, 0] #v[0] #v[0]).data = s.data := by
  refine ⟨_, rfl, restart_keeps_data (f := byteFormat) .inPlace (by decide) ⟨[0x63], by decide⟩ none
    #v[1, 2, 3, 4] #v[5] #v[6] [.step (.change #v[7] 0 true), .step (.forceSave 0)] ?_ rfl ?_
    #v[0, 0, 0, 0] #v[0] #v[0]⟩
  · refine .cons rfl (Or.inr (Or.inr ⟨rfl, rfl⟩)) (.cons rfl ?_ trivial)
    intro _
    exact byteFormat.compares_of_fits (by decide) _ _ _
  · -- the eight slots of the first growth are free
    rintro i ⟨entry, he, hact, -⟩
    have hfree : ∀ entry ∈ (.replicate 8 {} : List (TimerEntry StorageFn)),
        entry.active = false := by decide
    rw [hfree entry (List.mem_of_getElem? he)] at hact
    cases hact

end StorageRun

end EspIot
