/-
# `EspIot.Lib.PriorityQueue` — what a correct priority queue does

A priority queue is known by the elements it holds, a multiset: which of several
least elements is on top, and how they are kept, is up to the implementation.
`PriorityQueue` is an implementation with the laws it obeys; `sorted` is one, a
list kept in order, so the laws can be met.
-/
import Mathlib.Data.List.Sort
import Mathlib.Data.Multiset.AddSub

namespace EspIot.Lib

/-- A queue that has an element of the least key on top. -/
structure PriorityQueue (α : Type) (key : α → ℕ) where
  Queue : Type
  empty : Queue
  push : α → Queue → Queue
  top : Queue → Option α
  pop : Queue → Queue
  elements : Queue → Multiset α
  elements_empty : elements empty = 0
  elements_push : ∀ a q, elements (push a q) = a ::ₘ elements q
  top_none : ∀ q, top q = none → elements q = 0
  top_le : ∀ q a, top q = some a → ∀ b ∈ elements q, key a ≤ key b
  elements_pop : ∀ q a, top q = some a → elements q = a ::ₘ elements (pop q)

namespace PriorityQueue

variable {α : Type} {key : α → ℕ} (pq : PriorityQueue α key)

theorem pop_le {q : pq.Queue} {a b : α} (h : pq.top q = some a)
    (hb : b ∈ pq.elements (pq.pop q)) : key a ≤ key b := by
  refine pq.top_le q a h b ?_
  rw [pq.elements_pop q a h]
  exact Multiset.mem_cons_of_mem hb

def sorted (α : Type) (key : α → ℕ) : PriorityQueue α key where
  Queue := { l : List α // l.Pairwise fun a b => key a ≤ key b }
  empty := ⟨[], .nil⟩
  push a q := ⟨q.1.orderedInsert (fun a b => key a ≤ key b) a, q.2.orderedInsert a⟩
  top q := q.1.head?
  pop q := ⟨q.1.tail, q.2.tail⟩
  elements q := q.1
  elements_empty := rfl
  elements_push a q := Multiset.coe_eq_coe.mpr (List.perm_orderedInsert _ a q.1)
  top_none q h := by rw [List.head?_eq_none_iff.mp h]; rfl
  top_le := by
    rintro ⟨l, hl⟩ a h b hb
    cases l with
    | nil => cases h
    | cons c l =>
        cases h
        rcases List.mem_cons.mp hb with rfl | hmem
        · exact le_rfl
        · exact List.rel_of_pairwise_cons hl hmem
  elements_pop := by
    rintro ⟨l, hl⟩ a h
    cases l with
    | nil => cases h
    | cons c l =>
        cases h
        rfl

end PriorityQueue

end EspIot.Lib
