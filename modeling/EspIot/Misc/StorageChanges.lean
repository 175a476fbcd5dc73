/-
# `EspIot.Misc.StorageChanges` — no change of the data is lost

A change is followed by `save_changes`, which schedules a commit unless one is
pending by the handle.  So a change is lost where the handle is wrong
(`Misc.StorageHandle`), where the timer has no room for the commit, and where
the commit timer is cleared by a return from another callback.  A value of 64 KiB
has one more way: a commit may take an old file for it.

`NotLost` says that what is in RAM is in the file or will be, and
`change_kept_iff` says which runs keep it; those that keep the handle do, where
there is room (`change_kept_of_handle`).
-/
import EspIot.Misc.StorageHandle

namespace EspIot

open Lib

namespace StorageRun

variable {f : StorageFormat}

/-- **The data is in the file, or a timer that is active will commit it**, once it has been
changed. -/
def NotLost (s : StorageRun f) : Prop :=
  s.changed = true → s.file = some (f.image s.data) ∨ ∃ i, s.Committing i

/-- A commit of this value will not take the file for another's. -/
def Commits (s : StorageRun f) (entry : UInt8) : Prop :=
  s.changed = true → f.Compares s.file s.data entry

/-- The step finds the handle right and room in the timer, where it relies on them. -/
def KeepsChange (s : StorageRun f) : StorageEvent f → Prop
  | .change data _ memory =>
      s.file = some (f.image data) ∨
        if s.isPendingCommit then ∃ i, s.Committing i else s.timer.timer.Room memory
  | .reset _ memory =>
      s.file = some (f.image f.default) ∨ s.isPendingCommit = true ∨ s.timer.timer.Room memory
  | .forceSave entry => s.Commits entry
  | .restart _ _ entry => s.isPendingCommit = true → s.Commits entry
  | .visit now entry => s.commitDue now = true → s.Commits entry
  | .ret stale =>
      s.changed = true → s.file = some (f.image s.data) ∨
        ∀ i, s.clearedOnReturn stale = some i → ¬ s.Committing i
  | _ => True

/-! ## What the operations do to the data and to its file -/

/-- The value, its file and what is known about them. -/
structure SameStorage (s s' : StorageRun f) : Prop where
  mounted : s'.mounted = s.mounted
  data : s'.data = s.data
  file : s'.file = s.file
  changed : s'.changed = s.changed

theorem sameStorage_clearSaveTimer (s : StorageRun f) : SameStorage s s.clearSaveTimer := by
  rw [clearSaveTimer]
  split <;> exact ⟨rfl, rfl, rfl, rfl⟩

theorem sameStorage_save (s : StorageRun f) (now : UInt32) (memory : Bool) :
    SameStorage s (s.save now memory) := by
  have h := s.sameStorage_clearSaveTimer
  rw [save]
  split
  · exact ⟨rfl, rfl, rfl, rfl⟩
  · exact ⟨h.mounted, h.data, h.file, h.changed⟩

theorem commitImpl_storage {s : StorageRun f} (hm : s.mounted = true) (entry : UInt8) :
    (s.commitImpl entry).mounted = true ∧ (s.commitImpl entry).data = s.data ∧
      (s.commitImpl entry).changed = s.changed ∧
      (s.commitImpl entry).file = f.commit s.file s.data entry := by
  have heq : s.commitImpl entry = { s with file := f.commit s.file s.data entry } := by
    rw [commitImpl, if_neg (by simp [hm])]
  rw [heq]
  exact ⟨hm, rfl, rfl, rfl⟩

theorem forceSave_storage {s : StorageRun f} (hm : s.mounted = true) (entry : UInt8) :
    (s.forceSave entry).mounted = true ∧ (s.forceSave entry).data = s.data ∧
      (s.forceSave entry).changed = s.changed ∧
      (s.forceSave entry).file = f.commit s.file s.data entry := by
  have h := s.sameStorage_clearSaveTimer
  obtain ⟨hm', hdata, hchanged, hfile⟩ := commitImpl_storage (h.mounted.trans hm) entry
  rw [h.file, h.data] at hfile
  exact ⟨hm', hdata.trans h.data, hchanged.trans h.changed, hfile⟩

theorem Placed.save_committing {s : StorageRun f} (h : Placed s) (hm : s.mounted = true)
    (now : UInt32) (memory : Bool) :
    (∃ i, (s.save now memory).Committing i) ↔
      s.isPendingCommit = true ∨ s.timer.timer.Room memory := by
  obtain ⟨-, hc⟩ := h.save hm now memory
  have hid : (s.save now memory).saveTimerId = (s.clearSaveTimer.timer.timer.add .commit
      storageSaveInterval false 0 now memory).2 := by
    simp only [StorageRun.save, hm]
    rfl
  have hroom : (∃ i, (s.save now memory).Committing i) ↔
      s.clearSaveTimer.timer.timer.Room memory := by
    rw [← Timer.add_isSome_iff _ .commit storageSaveInterval false 0 now, ← hid,
      Option.isSome_iff_exists]
    exact exists_congr hc
  rw [hroom, isPendingCommit]
  cases hs : s.saveTimerId with
  | none => simp [StorageRun.clearSaveTimer, hs]
  | some i =>
      refine iff_of_true ?_ (.inl rfl)
      simp only [StorageRun.clearSaveTimer, hs]
      exact s.timer.timer.clear_room (h.bound i hs) memory

/-! ## The changes -/

theorem notLost_commit {s s' : StorageRun f} {entry : UInt8} (hdata : s'.data = s.data)
    (hchanged : s'.changed = s.changed) (hfile : s'.file = f.commit s.file s.data entry)
    (hnone : ∀ i, ¬ s'.Committing i) : NotLost s' ↔ s.Commits entry := by
  rw [NotLost, hchanged, hfile, hdata, Commits]
  refine forall_congr' ?_
  intro _
  rw [or_iff_left (not_exists.mpr hnone)]
  exact f.commit_eq_iff s.file s.data entry

theorem NotLost.of_same {s s' : StorageRun f} (h : NotLost s) (hsame : SameStorage s s')
    (hc : (∃ i, s.Committing i) → ∃ i, s'.Committing i) : NotLost s' := by
  intro hchanged
  rw [hsame.file, hsame.data]
  rw [hsame.changed] at hchanged
  exact (h hchanged).imp_right hc

theorem NotLost.undisturbed {s s' : StorageRun f} (hm : s.mounted = true) (h : NotLost s)
    (hu : Undisturbed s s') : s'.mounted = true ∧ NotLost s' := by
  obtain ⟨timer, rfl, hc⟩ := hu
  refine ⟨hm, h.of_same ⟨rfl, rfl, rfl, rfl⟩ ?_⟩
  rintro ⟨i, hi⟩
  exact ⟨i, (hc i).mpr hi⟩

theorem Placed.change {s : StorageRun f} (h : Placed s) (hm : s.mounted = true)
    (data : Vector UInt8 f.size) (now : UInt32) (memory : Bool) :
    Placed (({ s with data, changed := true } : StorageRun f).saveChanges now memory) ∧
      (({ s with data, changed := true } : StorageRun f).saveChanges now memory).mounted = true ∧
      (NotLost (({ s with data, changed := true } : StorageRun f).saveChanges now memory) ↔
        KeepsChange s (.change data now memory)) := by
  have hset : Placed ({ s with data, changed := true } : StorageRun f) :=
    ⟨h.only, h.once, h.bound⟩
  rw [saveChanges]
  cases hpending : ({ s with data, changed := true } : StorageRun f).isPendingCommit with
  | true =>
      have hp : s.isPendingCommit = true := hpending
      refine ⟨hset, hm, ?_⟩
      show (true = true → _) ↔ _
      rw [KeepsChange, hp, if_pos rfl]
      exact forall_prop_of_true rfl
  | false =>
      have hp : s.isPendingCommit = false := hpending
      have hsame := sameStorage_save ({ s with data, changed := true } : StorageRun f) now memory
      refine ⟨(hset.save hm now memory).1, hsame.mounted.trans hm, ?_⟩
      show (_ → _ = _ ∨ _) ↔ _
      rw [if_pos (by rfl), hsame.changed, hsame.file, hsame.data,
        hset.save_committing hm now memory, KeepsChange, hp]
      simp [hpending]

theorem Placed.reset {s : StorageRun f} (h : Placed s) (hm : s.mounted = true) (now : UInt32)
    (memory : Bool) :
    Placed (s.reset now memory) ∧ (s.reset now memory).mounted = true ∧
      (NotLost (s.reset now memory) ↔ KeepsChange s (.reset now memory)) := by
  have hset : Placed ({ s with data := f.default, changed := true } : StorageRun f) :=
    ⟨h.only, h.once, h.bound⟩
  have hsame := sameStorage_save ({ s with data := f.default, changed := true } : StorageRun f)
    now memory
  refine ⟨(hset.save hm now memory).1, hsame.mounted.trans hm, ?_⟩
  show (StorageRun.changed (StorageRun.save now memory _) = true → _ = _ ∨ _) ↔ _
  rw [StorageRun.reset, hsame.changed, hsame.file, hsame.data,
    hset.save_committing hm now memory, KeepsChange]
  exact forall_prop_of_true rfl

theorem Placed.restart {s : StorageRun f} (h : Placed s) (hm : s.mounted = true)
    (hkept : NotLost s) (now : UInt32) (memory : Bool) (entry : UInt8) :
    Placed (s.restart now memory entry) ∧ (s.restart now memory entry).mounted = true ∧
      (NotLost (s.restart now memory entry) ↔ KeepsChange s (.restart now memory entry)) := by
  have hadd : ∀ s : StorageRun f, Placed s →
      Placed { s with timer := s.timer.add .restart restartDelay false 0 now memory } ∧
        ∀ i, Committing { s with
          timer := s.timer.add .restart restartDelay false 0 now memory } i ↔ s.Committing i :=
    fun s hp => hp.add .restart (fun h => by cases h) restartDelay false 0 now memory
  rw [StorageRun.restart, KeepsChange]
  split
  · rename_i hpending
    obtain ⟨hm', hdata, hchanged, hfile⟩ := forceSave_storage hm entry
    obtain ⟨hp, hnone, -⟩ := h.forceSave entry
    obtain ⟨hp', hc⟩ := hadd _ hp
    refine ⟨hp', hm', ?_⟩
    rw [forall_prop_of_true hpending]
    exact notLost_commit hdata hchanged hfile fun i hi => hnone i ((hc i).mp hi)
  · rename_i hpending
    obtain ⟨hp', hc⟩ := hadd s h
    obtain ⟨hm', hkept'⟩ := hkept.undisturbed hm ⟨_, rfl, hc⟩
    exact ⟨hp', hm', iff_of_true hkept' fun h => absurd h hpending⟩

theorem NotLost.save {s : StorageRun f} (h : Placed s) (hm : s.mounted = true)
    (hkept : NotLost s) (now : UInt32) (memory : Bool) : NotLost (s.save now memory) := by
  refine hkept.of_same (s.sameStorage_save now memory) ?_
  rintro ⟨i, hi⟩
  refine (h.save_committing hm now memory).mpr (.inl ?_)
  rw [isPendingCommit, h.only i hi]
  rfl

theorem NotLost.visit {s s' : StorageRun f} (hp : Placed s) (hm : s.mounted = true)
    (hkept : NotLost s) {now : UInt32} {entry : UInt8}
    (hs : s.step (.visit now entry) = some s') :
    (s'.mounted = true ∧ Placed s') ∧ (NotLost s' ↔ KeepsChange s (.visit now entry)) := by
  obtain ⟨hp', ⟨hdue, hu⟩ | ⟨hdue, timer, rfl⟩⟩ := hp.step_visit hs
  · obtain ⟨hm', hkept'⟩ := hkept.undisturbed hm hu
    refine ⟨⟨hm', hp'⟩, iff_of_true hkept' ?_⟩
    intro h
    rw [hdue] at h
    cases h
  · obtain ⟨hm', hdata, hchanged, hfile⟩ :=
      commitImpl_storage (s := { s with saveTimerId := none }) hm entry
    obtain ⟨-, hid, -⟩ := commitImpl_timer ({ s with saveTimerId := none } : StorageRun f) entry
    refine ⟨⟨hm', hp'⟩, ?_⟩
    rw [KeepsChange, forall_prop_of_true hdue]
    refine notLost_commit (s := s) hdata hchanged hfile ?_
    intro i hi
    -- the handle names no slot any more
    have hnamed := hp'.only i hi
    rw [hid] at hnamed
    cases hnamed

theorem NotLost.ret {s s' : StorageRun f} (hp : Placed s) (hm : s.mounted = true)
    (hkept : NotLost s) {stale : Bool} (hs : s.step (.ret stale) = some s') :
    (s'.mounted = true ∧ Placed s') ∧ (NotLost s' ↔ KeepsChange s (.ret stale)) := by
  obtain ⟨hp', timer, rfl, hc⟩ := hp.step_ret hs
  refine ⟨⟨hm, hp'⟩, forall_congr' fun hchanged => or_congr_right' fun hfile => ?_⟩
  constructor
  · rintro ⟨j, hj⟩ i hcleared hi
    obtain ⟨hne, hold⟩ := (hc j).mp hj
    -- the handle names one slot only
    have hsame : i = j := Option.some.inj ((hp.only i hi).symm.trans (hp.only j hold))
    exact hne (hsame ▸ hcleared)
  · intro hother
    obtain ⟨j, hj⟩ := (hkept hchanged).resolve_left hfile
    exact ⟨j, (hc j).mpr ⟨fun hcleared => hother j hcleared hj, hj⟩⟩

theorem notLost_step {s s' : StorageRun f} {e : StorageEvent f}
    (hI : (s.mounted = true ∧ Placed s) ∧ NotLost s) (hs : s.step e = some s') :
    (s'.mounted = true ∧ Placed s') ∧ (NotLost s' ↔ KeepsChange s e) := by
  obtain ⟨⟨hm, hp⟩, hkept⟩ := hI
  cases e with
  | change data now memory =>
      simp only [step] at hs
      split at hs
      · cases hs
        obtain ⟨hp', hm', hiff⟩ := hp.change hm data now memory
        exact ⟨⟨hm', hp'⟩, hiff⟩
      · cases hs
  | save now memory =>
      simp only [step] at hs
      split at hs
      · cases hs
        have hsame := s.sameStorage_save now memory
        exact ⟨⟨hsame.mounted.trans hm, (hp.save hm now memory).1⟩,
          iff_of_true (hkept.save hp hm now memory) trivial⟩
      · cases hs
  | reset now memory =>
      simp only [step] at hs
      split at hs
      · cases hs
        obtain ⟨hp', hm', hiff⟩ := hp.reset hm now memory
        exact ⟨⟨hm', hp'⟩, hiff⟩
      · cases hs
  | forceSave entry =>
      simp only [step] at hs
      split at hs
      · cases hs
        obtain ⟨hm', hdata, hchanged, hfile⟩ := forceSave_storage hm entry
        obtain ⟨hp', hnone, -⟩ := hp.forceSave entry
        exact ⟨⟨hm', hp'⟩, notLost_commit hdata hchanged hfile hnone⟩
      · cases hs
  | restart now memory entry =>
      simp only [step] at hs
      split at hs
      · cases hs
        obtain ⟨hp', hm', hiff⟩ := hp.restart hm hkept now memory entry
        exact ⟨⟨hm', hp'⟩, hiff⟩
      · cases hs
  | add n interval repeats parameter now memory =>
      obtain ⟨hp', hu⟩ := hp.step_add hs
      obtain ⟨hm', hkept'⟩ := hkept.undisturbed hm hu
      exact ⟨⟨hm', hp'⟩, iff_of_true hkept' trivial⟩
  | clear timerId =>
      obtain ⟨hp', hu⟩ := hp.step_clear hs
      obtain ⟨hm', hkept'⟩ := hkept.undisturbed hm hu
      exact ⟨⟨hm', hp'⟩, iff_of_true hkept' trivial⟩
  | handle =>
      obtain ⟨hp', hu⟩ := hp.step_handle hs
      obtain ⟨hm', hkept'⟩ := hkept.undisturbed hm hu
      exact ⟨⟨hm', hp'⟩, iff_of_true hkept' trivial⟩
  | visit now entry =>
      exact hkept.visit hp hm hs
  | ret stale =>
      exact hkept.ret hp hm hs

/-- **No change of the data is lost exactly when every change finds a handle that is right and
room in the timer, and no return from another callback clears the slot of the commit** while the
file is behind, and no commit takes the file for unchanged when it is not. -/
theorem change_kept_iff (data : Vector UInt8 f.size) (file : Option (List UInt8))
    (es : List (StorageEvent f)) :
    Always step NotLost ({ mounted := true, data, file } : StorageRun f) es ↔
      Each step KeepsChange { mounted := true, data, file } es := by
  refine always_iff_each (I := fun s => (s.mounted = true ∧ Placed s) ∧ NotLost s)
    (fun _ h => h.2) (fun s e s' hI hkeeps hs => ?_) (fun s e s' hI hbad hs hkept => ?_)
    ⟨⟨rfl, placed_initial true data file⟩, fun h => by cases h⟩
  · obtain ⟨hp, hiff⟩ := notLost_step hI hs
    exact ⟨hp, hiff.mpr hkeeps⟩
  · exact hbad ((notLost_step hI hs).2.mp hkept)

/-- `force_save` leaves the handle of the timer it clears, so the next change schedules
nothing. -/
theorem change_lost_after_forceSave :
    let s : StorageRun byteFormat := { mounted := true, data := #v[0], file := none }
    ¬ Always step NotLost s [.change #v[1] 0 true, .forceSave 0, .change #v[2] 0 true] := by
  intro s h
  have hafter := (((h.2 _ rfl).2 _ rfl).2 _ rfl).head
  rcases hafter rfl with hfile | ⟨i, entry, he, hact, -⟩
  · exact absurd hfile (by decide)
  · -- the eight slots of the first growth are free
    have hfree : ∀ entry ∈ (.replicate 8 {} : List (TimerEntry StorageFn)),
        entry.active = false := by decide
    rw [hfree entry (List.mem_of_getElem? he)] at hact
    cases hact

/-! ## Where the handle is kept -/

/-- There is room in the timer where the step schedules a commit and none is pending. -/
def FindsRoom (s : StorageRun f) : StorageEvent f → Prop
  | .change _ _ memory | .reset _ memory =>
      s.isPendingCommit = false → s.timer.timer.Room memory
  | _ => True

/-- A step that keeps an exact handle and finds room keeps the changes of a value that its length
field can hold. -/
theorem Exact.keepsChange {s : StorageRun f} {e : StorageEvent f} (h : Exact s) (hp : Placed s)
    (hsize : 4 + 1 + f.size ≤ 65535) (hkeeps : KeepsHandle s e) (hroom : FindsRoom s e) :
    KeepsChange s e := by
  have hcommits (entry : UInt8) : s.Commits entry := by
    intro _
    exact f.compares_of_fits (by omega) s.file s.data entry
  cases e with
  | change data now memory =>
      right
      split
      · rename_i hpending
        obtain ⟨i, -, hi⟩ := h.1.mp hpending
        exact ⟨i, hi⟩
      · rename_i hpending
        exact hroom (Bool.eq_false_iff.mpr hpending)
  | reset now memory =>
      right
      cases hpending : s.isPendingCommit with
      | true => exact .inl rfl
      | false => exact .inr (hroom hpending)
  | forceSave entry => exact hcommits entry
  | restart now memory entry => exact fun _ => hcommits entry
  | visit now entry => exact fun _ => hcommits entry
  | ret stale =>
      intro _
      right
      intro i hcleared hi
      exact hkeeps i (hp.only i hi) hcleared
  | save | add | clear | handle => trivial

/-- Where the steps keep the handle and find room, the handle is exact and no change is lost. -/
theorem change_kept_of_handle (hsize : 4 + 1 + f.size ≤ 65535) (data : Vector UInt8 f.size)
    (file : Option (List UInt8)) (es : List (StorageEvent f))
    (hes : Each step (fun s e => KeepsHandle s e ∧ FindsRoom s e)
      ({ mounted := true, data, file } : StorageRun f) es) :
    Always step (fun s => Exact s ∧ NotLost s) { mounted := true, data, file } es := by
  refine Always.of_each (I := fun s => (s.mounted = true ∧ Placed s) ∧ Exact s ∧ NotLost s)
    (fun _ h => h.2) (fun s e s' hI hC hs => ?_)
    ⟨⟨rfl, placed_initial true data file⟩, exact_of_none rfl rfl, fun h => by cases h⟩ hes
  obtain ⟨hp, hexact, hkept⟩ := hI
  obtain ⟨hp', hiff⟩ := notLost_step ⟨hp, hkept⟩ hs
  refine ⟨hp', (exact_step ⟨hp.2, hexact⟩ hC.1 hs).2, hiff.mpr ?_⟩
  exact hexact.keepsChange hp.2 hsize hC.1 hC.2

end StorageRun

end EspIot
