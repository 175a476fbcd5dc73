/-
# `EspIot.Lib.Lists` — replacing one element of a list of parties

The parties of a concurrent system stand in a list, and a step replaces one of
them.  `exists_split` turns the index into a split of the list that both the old
and the new list share, which is the form in which membership and sums over the
parties are easy.  `getElem?_concat_cases` and `forall_split_concat` are about a list that grows at
its end: what it holds, and all its splits.  `exists_perm_map_eq` puts a list in the order its
images have.  `mem_of_mapM` and the two `mapM_range'` are about looking up several indices at
once.
-/
import Mathlib.Algebra.GroupWithZero.Nat
import Mathlib.Data.List.Basic

namespace EspIot.Lib

universe u v

variable {α : Type*}

theorem exists_split {l : List α} {i : Nat} {a : α} (h : l[i]? = some a) :
    ∃ l₁ l₂, l = l₁ ++ a :: l₂ ∧ ∀ b, l.set i b = l₁ ++ b :: l₂ := by
  obtain ⟨hi, ha⟩ := List.getElem?_eq_some_iff.mp h
  refine ⟨l.take i, l.drop (i + 1), ?_, ?_⟩
  · rw [← ha, List.getElem_cons_drop, List.take_append_drop]
  · intro b
    rw [List.set_eq_take_append_cons_drop, if_pos hi]

theorem exists_split_erase {l : List α} {i : Nat} {a : α} (h : l[i]? = some a) :
    ∃ l₁ l₂, l = l₁ ++ a :: l₂ ∧ l.eraseIdx i = l₁ ++ l₂ := by
  obtain ⟨hi, ha⟩ := List.getElem?_eq_some_iff.mp h
  refine ⟨l.take i, l.drop (i + 1), ?_, List.eraseIdx_eq_take_drop_succ ..⟩
  rw [← ha, List.getElem_cons_drop, List.take_append_drop]

theorem exists_split_last {p : α → Bool} {l : List α} (h : l.filter p ≠ []) :
    ∃ l₁ a l₂, l = l₁ ++ a :: l₂ ∧ p a = true ∧ ∀ x ∈ l₂, p x = false := by
  induction l with
  | nil => exact absurd rfl h
  | cons b l ih =>
      by_cases hrest : l.filter p = []
      · have hnone : ∀ x ∈ l, p x = false := by
          intro x hx
          simpa using List.filter_eq_nil_iff.mp hrest x hx
        refine ⟨[], b, l, rfl, ?_, hnone⟩
        by_contra hb
        rw [List.filter_cons_of_neg hb] at h
        exact h hrest
      · obtain ⟨l₁, a, l₂, rfl, ha, hlast⟩ := ih hrest
        exact ⟨b :: l₁, a, l₂, rfl, ha, hlast⟩

/-- What is in a list that has grown by an element. -/
theorem getElem?_concat_cases {l : List α} {a b : α} {k : ℕ} (h : (l ++ [a])[k]? = some b) :
    l[k]? = some b ∨ k = l.length ∧ b = a := by
  rcases Nat.lt_or_ge k l.length with hlt | hge
  · rw [List.getElem?_append_left hlt] at h
    exact .inl h
  · have hk := (List.getElem?_eq_some_iff.mp h).1
    rw [List.length_append, List.length_singleton] at hk
    obtain rfl : k = l.length := by omega
    rw [List.getElem?_concat_length] at h
    exact .inr ⟨rfl, (Option.some.inj h).symm⟩

theorem forall_split_concat {P : List α → α → Prop} {xs : List α} {x : α} :
    (∀ before y after, xs ++ [x] = before ++ y :: after → P before y) ↔
      (∀ before y after, xs = before ++ y :: after → P before y) ∧ P xs x := by
  constructor
  · intro h
    refine ⟨?_, h xs x [] rfl⟩
    intro before y after heq
    refine h before y (after ++ [x]) ?_
    rw [heq, List.append_assoc, List.cons_append]
  · rintro ⟨h, hx⟩ before y after heq
    rcases List.eq_nil_or_concat after with rfl | ⟨after, z, rfl⟩
    · obtain ⟨rfl, hlast⟩ := List.append_inj' heq rfl
      cases hlast
      exact hx
    · rw [List.concat_eq_append, ← List.cons_append, ← List.append_assoc] at heq
      obtain ⟨rfl, -⟩ := List.append_inj' heq rfl
      exact h before y after rfl

theorem mem_set_of_ne {l : List α} {i : Nat} {x y t : α} (hi : l[i]? = some y)
    (h : t ∈ l) (hne : t ≠ y) : t ∈ l.set i x := by
  obtain ⟨l₁, l₂, rfl, hset⟩ := exists_split hi
  rw [hset]
  rcases List.mem_append.mp h with h | h
  · exact List.mem_append_left _ h
  · exact List.mem_append_right _ (List.mem_cons_of_mem _ ((List.mem_cons.mp h).resolve_left hne))

theorem sum_set_lt {l : List ℕ} {i a b : ℕ} (hi : l[i]? = some a) (h : b < a) :
    (l.set i b).sum < l.sum := by
  obtain ⟨l₁, l₂, rfl, hset⟩ := exists_split hi
  rw [hset, List.sum_append, List.sum_append, List.sum_cons, List.sum_cons]
  omega

theorem exists_perm_map_eq {β : Type*} {f : α → β} {m : List β} :
    ∀ {l : List α}, (l.map f).Perm m → ∃ l' : List α, l'.Perm l ∧ l'.map f = m := by
  induction m with
  | nil =>
      intro l h
      exact ⟨[], by rw [List.map_eq_nil_iff.mp h.eq_nil], rfl⟩
  | cons b m ih =>
      intro l h
      obtain ⟨a, ha, rfl⟩ := List.mem_map.mp (h.mem_iff.mpr List.mem_cons_self)
      obtain ⟨l₁, l₂, rfl⟩ := List.append_of_mem ha
      have hrest : ((l₁ ++ l₂).map f).Perm m := by
        refine List.Perm.cons_inv (a := f a) (List.Perm.trans ?_ h)
        simpa using List.perm_middle.symm
      obtain ⟨l', hperm, hmap⟩ := ih hrest
      exact ⟨a :: l', (hperm.cons a).trans List.perm_middle.symm, by rw [List.map_cons, hmap]⟩

theorem mem_of_mapM {β : Type*} {f : α → Option β} {l : List α} :
    ∀ {r : List β}, l.mapM f = some r → ∀ b ∈ r, ∃ a ∈ l, f a = some b := by
  induction l with
  | nil =>
      intro r h b hb
      cases h
      cases hb
  | cons a l ih =>
      intro r h b hb
      rw [List.mapM_cons] at h
      obtain ⟨c, hc, h⟩ := Option.bind_eq_some_iff.mp h
      obtain ⟨t, ht, h⟩ := Option.bind_eq_some_iff.mp h
      cases h
      rcases List.mem_cons.mp hb with rfl | hb
      · exact ⟨a, List.mem_cons_self, hc⟩
      · obtain ⟨a', ha', heq⟩ := ih ht b hb
        exact ⟨a', List.mem_cons_of_mem _ ha', heq⟩

theorem mapM_range'_of {m : Type u → Type v} [Monad m] [LawfulMonad m] {β : Type u} {r : List β} :
    ∀ {n : Nat} {f : Nat → m β}, (∀ i a, r[i]? = some a → f (n + i) = pure a) →
      (List.range' n r.length).mapM f = pure r := by
  induction r with
  | nil =>
      intro n f _
      rfl
  | cons a r ih =>
      intro n f hf
      have hfirst : f n = pure a := hf 0 a rfl
      have hrest : (List.range' (n + 1) r.length).mapM f = pure r := by
        refine ih ?_
        intro i b hi
        rw [Nat.add_assoc, Nat.add_comm 1 i]
        exact hf (i + 1) b hi
      rw [List.length_cons, List.range'_succ, List.mapM_cons, hfirst, pure_bind, hrest, pure_bind]

theorem mapM_range' (l r : List α) :
    (List.range' l.length r.length).mapM (fun i => (l ++ r)[i]?) = some r := by
  refine mapM_range'_of (m := Option) ?_
  intro i a hi
  rw [List.getElem?_append_right (Nat.le_add_right ..), Nat.add_sub_cancel_left]
  exact hi

end EspIot.Lib
