/-
# `EspIot.Lib.Blocks` — a list put together from blocks

A buffer filled piece by piece, in any order: `overlay` copies each part to its
offset.  Where every part is a segment of one and the same list and the parts
cover it, the buffer ends up with that list at its front, whatever the order and
however often a part is copied.

The blocks of a list are consecutive segments of one width, the last perhaps
shorter: the `i`-th then starts at `w * i` (`segment_flatten`), and every position
lies in one of them (`cover_flatten`).
-/
import EspIot.Lib.Bytes

namespace EspIot.Lib

variable {α : Type*}

/-- Each part copied to its offset, one after the other. -/
def overlay (buf : List α) (parts : List (Nat × List α)) : List α :=
  parts.foldl (fun buf part => writeAt buf part.1 part.2) buf

@[simp] theorem overlay_nil (buf : List α) : overlay buf [] = buf := rfl

@[simp] theorem overlay_cons (buf : List α) (part : Nat × List α) (parts : List (Nat × List α)) :
    overlay buf (part :: parts) = overlay (writeAt buf part.1 part.2) parts := rfl

theorem overlay_concat (buf : List α) (parts : List (Nat × List α)) (part : Nat × List α) :
    overlay buf (parts ++ [part]) = writeAt (overlay buf parts) part.1 part.2 := by
  simp [overlay]

/-- The part stays inside a buffer of `n`: an empty part touches nothing. -/
def Fits (n : Nat) (part : Nat × List α) : Prop := part.2 = [] ∨ part.1 + part.2.length ≤ n

theorem writeAt_nil (buf : List α) (off : Nat) : writeAt buf off [] = buf := by
  simp [writeAt]

theorem Fits.length {buf : List α} {part : Nat × List α} (h : Fits buf.length part) :
    (writeAt buf part.1 part.2).length = buf.length := by
  rcases h with h | h
  · rw [h, writeAt_nil]
  · exact writeAt_length h

theorem overlay_length {parts : List (Nat × List α)} : ∀ {buf : List α},
    (∀ part ∈ parts, Fits buf.length part) → (overlay buf parts).length = buf.length := by
  induction parts with
  | nil =>
      intro buf _
      rfl
  | cons part parts ih =>
      intro buf h
      have hlen := (h part List.mem_cons_self).length
      rw [overlay_cons, ih, hlen]
      intro part' hp
      rw [hlen]
      exact h part' (List.mem_cons_of_mem _ hp)

/-- Where all parts are segments of `whole`, a position that some part covers, or that was right
before, is right afterwards. -/
theorem overlay_getElem? {whole : List α} {j : Nat} {parts : List (Nat × List α)} :
    ∀ {buf : List α}, (∀ part ∈ parts, Fits buf.length part) →
      (∀ part ∈ parts, part.2 <+: whole.drop part.1) →
      (buf[j]? = whole[j]? ∨ ∃ part ∈ parts, part.1 ≤ j ∧ j < part.1 + part.2.length) →
      (overlay buf parts)[j]? = whole[j]? := by
  induction parts with
  | nil =>
      intro buf _ _ hj
      rcases hj with hj | ⟨part, hp, -⟩
      · exact hj
      · cases hp
  | cons part parts ih =>
      intro buf hfits hseg hj
      have hfit := hfits part List.mem_cons_self
      have hlen := hfit.length
      have hread : (part.1 ≤ j ∧ j < part.1 + part.2.length) ∨ buf[j]? = whole[j]? →
          (writeAt buf part.1 part.2)[j]? = whole[j]? := by
        intro h
        rcases hfit with hnil | hle
        · rw [hnil, writeAt_nil]
          refine h.resolve_left ?_
          intro hcov
          rw [hnil, List.length_nil] at hcov
          omega
        · rw [writeAt_getElem? hle]
          split
          · rename_i hcov
            obtain ⟨rest, hrest⟩ := hseg part List.mem_cons_self
            have hj : part.1 + (j - part.1) = j := by omega
            rw [← hj, ← List.getElem?_drop, ← hrest, hj,
              List.getElem?_append_left (by omega)]
          · exact h.resolve_left ‹_›
      rw [overlay_cons]
      refine ih (fun part' hp => ?_)
        (fun part' hp => hseg part' (List.mem_cons_of_mem _ hp)) ?_
      · rw [hlen]
        exact hfits part' (List.mem_cons_of_mem _ hp)
      · rcases hj with hj | ⟨part', hp, hcov⟩
        · exact Or.inl (hread (Or.inr hj))
        · rcases List.mem_cons.mp hp with rfl | hp
          · exact Or.inl (hread (Or.inl hcov))
          · exact Or.inr ⟨part', hp, hcov⟩

theorem overlay_take {whole buf : List α} {parts : List (Nat × List α)}
    (hfits : ∀ part ∈ parts, Fits buf.length part)
    (hseg : ∀ part ∈ parts, part.2 <+: whole.drop part.1)
    (hcover : ∀ j < whole.length, ∃ part ∈ parts, part.1 ≤ j ∧ j < part.1 + part.2.length) :
    (overlay buf parts).take whole.length = whole := by
  refine List.ext_getElem? ?_
  intro j
  rcases Nat.lt_or_ge j whole.length with hj | hj
  · rw [List.getElem?_take_of_lt hj, overlay_getElem? hfits hseg (Or.inr (hcover j hj))]
  · rw [List.getElem?_eq_none (by rw [List.length_take]; omega), List.getElem?_eq_none hj]

/-! ## Blocks of one width -/

def FullButLast (w : Nat) (blocks : List (List α)) : Prop :=
  ∀ i block, blocks[i]? = some block → i + 1 < blocks.length → block.length = w

theorem FullButLast.tail {w : Nat} {block : List α} {blocks : List (List α)}
    (h : FullButLast w (block :: blocks)) : FullButLast w blocks := by
  intro i b hi hlt
  exact h (i + 1) b (by simpa using hi) (by simpa using hlt)

theorem FullButLast.head {w : Nat} {block : List α} {blocks : List (List α)}
    (h : FullButLast w (block :: blocks)) (hne : blocks ≠ []) : block.length = w := by
  refine h 0 block rfl ?_
  have := List.length_pos_of_ne_nil hne
  rw [List.length_cons]
  omega

theorem segment_flatten {w : Nat} {blocks : List (List α)} : ∀ {i : Nat} {block : List α},
    FullButLast w blocks → blocks[i]? = some block → block <+: blocks.flatten.drop (w * i) := by
  induction blocks with
  | nil =>
      intro i block _ hi
      simp at hi
  | cons first blocks ih =>
      intro i block h hi
      cases i with
      | zero =>
          cases hi
          simp
      | succ i =>
          have hi' : blocks[i]? = some block := by simpa using hi
          have hne : blocks ≠ [] := by
            rintro rfl
            simp at hi'
          have hdrop : (first :: blocks).flatten.drop (w * (i + 1)) =
              blocks.flatten.drop (w * i) := by
            rw [List.flatten_cons, Nat.mul_succ, Nat.add_comm, ← List.drop_drop, ← h.head hne,
              List.drop_left]
          rw [hdrop]
          exact ih h.tail hi'

theorem cover_flatten {w : Nat} {blocks : List (List α)} : ∀ {j : Nat},
    FullButLast w blocks → j < blocks.flatten.length →
      ∃ i block, blocks[i]? = some block ∧ w * i ≤ j ∧ j < w * i + block.length := by
  induction blocks with
  | nil =>
      intro j _ hj
      simp at hj
  | cons first blocks ih =>
      intro j h hj
      rcases Nat.lt_or_ge j first.length with hlt | hge
      · exact ⟨0, first, rfl, by omega, by omega⟩
      · rw [List.flatten_cons, List.length_append] at hj
        have hne : blocks ≠ [] := by
          rintro rfl
          rw [List.flatten_nil, List.length_nil] at hj
          omega
        obtain ⟨i, block, hi, hle, hlt⟩ :=
          ih h.tail (j := j - first.length) (by omega)
        have hw := h.head hne
        refine ⟨i + 1, block, by simpa using hi, ?_, ?_⟩ <;> rw [Nat.mul_succ] <;> omega

theorem flatten_length {w : Nat} {blocks : List (List α)} : ∀ {i : Nat} {block : List α},
    FullButLast w blocks → blocks[i]? = some block → i + 1 = blocks.length →
      blocks.flatten.length = w * i + block.length := by
  induction blocks with
  | nil =>
      intro i block _ hi _
      simp at hi
  | cons first blocks ih =>
      intro i block h hi hlast
      cases i with
      | zero =>
          cases hi
          have hnil : blocks = [] := List.length_eq_zero_iff.mp (by simpa using hlast.symm)
          simp [hnil]
      | succ i =>
          have hi' : blocks[i]? = some block := by simpa using hi
          have hne : blocks ≠ [] := by
            rintro rfl
            simp at hi'
          rw [List.flatten_cons, List.length_append, ih h.tail hi' (by simpa using hlast),
            h.head hne, Nat.mul_succ]
          omega

end EspIot.Lib
