import Mathlib.Data.List.Basic

universe u

namespace RocketMQClient.Library

variable {α : Type u}

structure Consistent (compare : α → α → Int) (l : List α) : Prop where
  apart : l.Pairwise fun a b =>
    compare a b < 0 ∧ 0 < compare b a ∨ compare b a < 0 ∧ 0 < compare a b
  trans : ∀ a ∈ l, ∀ b ∈ l, ∀ c ∈ l, compare a b < 0 → compare b c < 0 → compare a c < 0

section Consistent

variable {compare : α → α → Int} {l l' : List α}

theorem Consistent.perm (h : Consistent compare l) (hl : l'.Perm l) : Consistent compare l' where
  apart := hl.symm.pairwise h.apart Or.symm
  trans a ha b hb c hc :=
    h.trans a (hl.mem_iff.mp ha) b (hl.mem_iff.mp hb) c (hl.mem_iff.mp hc)

theorem Consistent.sublist (h : Consistent compare l) (hl : l'.Sublist l) :
    Consistent compare l' where
  apart := h.apart.sublist hl
  trans a ha b hb c hc := h.trans a (hl.subset ha) b (hl.subset hb) c (hl.subset hc)

end Consistent

/-- For a function that is no such order, what is left open is the order of the result. -/
structure ComparatorSort (α : Type u) where
  sort : (α → α → Int) → List α → List α
  perm : ∀ compare l, (sort compare l).Perm l
  ordered : ∀ compare l, Consistent compare l →
    (sort compare l).Pairwise fun a b => compare a b < 0

namespace ComparatorSort

variable {compare : α → α → Int} {l : List α} {a : α}

def insert (compare : α → α → Int) (a : α) : List α → List α
  | [] => [a]
  | b :: l => if compare b a < 0 then b :: insert compare a l else a :: b :: l

theorem insert_perm (compare : α → α → Int) (a : α) (l : List α) :
    (insert compare a l).Perm (a :: l) := by
  induction l with
  | nil => exact .refl _
  | cons b l ih =>
    rw [insert]
    split_ifs
    · exact (ih.cons b).trans (.swap a b l)
    · exact .refl _

theorem insert_ordered (h : Consistent compare (a :: l))
    (hl : l.Pairwise fun a b => compare a b < 0) :
    (insert compare a l).Pairwise fun a b => compare a b < 0 := by
  induction l with
  | nil => exact List.pairwise_singleton _ a
  | cons b l ih =>
    obtain ⟨hb, hl⟩ := List.pairwise_cons.mp hl
    obtain ⟨ha, -⟩ := List.pairwise_cons.mp h.apart
    rw [insert]
    split_ifs with hba
    · have hrest : Consistent compare (a :: l) :=
        h.sublist ((List.sublist_cons_self b l).cons_cons a)
      refine List.pairwise_cons.mpr ⟨fun c hc => ?_, ih hrest hl⟩
      rcases List.mem_cons.mp ((insert_perm compare a l).mem_iff.mp hc) with rfl | hc
      · exact hba
      · exact hb c hc
    · have hab : compare a b < 0 := by
        obtain ⟨hlt, -⟩ | ⟨hlt, -⟩ := ha b (.head l)
        · exact hlt
        · exact absurd hlt hba
      refine List.pairwise_cons.mpr ⟨fun c hc => ?_, List.pairwise_cons.mpr ⟨hb, hl⟩⟩
      rcases List.mem_cons.mp hc with rfl | hc
      · exact hab
      · exact h.trans a (by simp) b (by simp) c (by simp [hc]) hab (hb c hc)

def insertionSort (compare : α → α → Int) : List α → List α
  | [] => []
  | a :: l => insert compare a (insertionSort compare l)

theorem insertionSort_perm (compare : α → α → Int) (l : List α) :
    (insertionSort compare l).Perm l := by
  induction l with
  | nil => exact .refl _
  | cons a l ih => exact (insert_perm compare a _).trans (ih.cons a)

theorem insertionSort_ordered (h : Consistent compare l) :
    (insertionSort compare l).Pairwise fun a b => compare a b < 0 := by
  induction l with
  | nil => exact .nil
  | cons a l ih =>
    exact insert_ordered (h.perm ((insertionSort_perm compare l).cons a))
      (ih (h.sublist (List.sublist_cons_self a l)))

def insertion : ComparatorSort α where
  sort := insertionSort
  perm := insertionSort_perm
  ordered _ _ := insertionSort_ordered

end ComparatorSort

end RocketMQClient.Library
