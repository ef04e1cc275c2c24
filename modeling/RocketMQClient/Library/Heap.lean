import Mathlib.Algebra.BigOperators.Finprod
import Mathlib.Algebra.BigOperators.Group.Finset.Piecewise
import Mathlib.Algebra.Order.BigOperators.Group.Finset

universe u

namespace RocketMQClient.Library.Heap

variable {β : Type u} {m : Nat → Option β}

def Bounded (m : Nat → Option β) : Prop := ∃ n, ∀ i, n ≤ i → m i = none

theorem bounded_empty : Bounded (fun _ => none : Nat → Option β) := ⟨0, fun _ _ => rfl⟩

theorem Bounded.update (h : Bounded m) (i : Nat) (b? : Option β) :
    Bounded (Function.update m i b?) := by
  obtain ⟨n, hn⟩ := h
  refine ⟨max n (i + 1), fun j hj => ?_⟩
  rw [Function.update_of_ne (by omega)]
  exact hn j (by omega)

theorem Bounded.fresh (h : Bounded m) : ∃ i, m i = none := by
  obtain ⟨n, hn⟩ := h
  exact ⟨n, hn n n.le_refl⟩

def weight (f : β → Nat) (m : Nat → Option β) (n : Nat) : Nat :=
  ∑ i ∈ Finset.range n, (m i).elim 0 f

section Weight

variable {f : β → Nat} {n i : Nat}

theorem weight_succ : weight f m (n + 1) = weight f m n + (m n).elim 0 f :=
  Finset.sum_range_succ ..

theorem weight_update (hi : i < n) (b? : Option β) :
    weight f (Function.update m i b?) n + (m i).elim 0 f = weight f m n + b?.elim 0 f := by
  have hmem : i ∈ Finset.range n := Finset.mem_range.mpr hi
  have hupdate : ∀ j, (Function.update m i b? j).elim 0 f =
      Function.update (fun j => (m j).elim 0 f) i (b?.elim 0 f) j := by
    intro j
    rw [Function.update_apply, Function.update_apply]
    split_ifs <;> rfl
  simp only [weight, hupdate]
  rw [Finset.sum_update_of_mem hmem, ← Finset.add_sum_erase _ _ hmem,
    Finset.sdiff_singleton_eq_erase]
  omega

theorem weight_update_of_le (hi : n ≤ i) (b? : Option β) :
    weight f (Function.update m i b?) n = weight f m n := by
  refine Finset.sum_congr rfl fun j hj => ?_
  rw [Function.update_of_ne]
  have := Finset.mem_range.mp hj
  omega

theorem weight_eq_zero (hf : ∀ b, 0 < f b) : weight f m n = 0 ↔ ∀ i < n, m i = none := by
  simp only [weight, Finset.sum_eq_zero_iff, Finset.mem_range]
  refine forall₂_congr fun i _ => ?_
  cases m i with
  | none => simp
  | some b => simpa using (hf b).ne'

end Weight

/-- What a heap holds in all; it is finite in a bounded heap. -/
noncomputable def total (f : β → Nat) (m : Nat → Option β) : Nat := ∑ᶠ i, (m i).elim 0 f

section Total

variable {f : β → Nat} {n : Nat}

theorem total_eq_weight (hn : ∀ i, n ≤ i → m i = none) : total f m = weight f m n := by
  refine finsum_eq_sum_of_support_subset _ fun i hi => ?_
  rw [Finset.coe_range, Set.mem_Iio]
  by_contra hge
  exact hi (by simp [hn i (Nat.le_of_not_lt hge)])

theorem Bounded.total_update (h : Bounded m) (i : Nat) (b? : Option β) :
    total f (Function.update m i b?) + (m i).elim 0 f = total f m + b?.elim 0 f := by
  obtain ⟨n, hn⟩ := h
  have hN : ∀ j, max n (i + 1) ≤ j → m j = none := fun j hj => hn j (by omega)
  have hupdate : ∀ j, max n (i + 1) ≤ j → Function.update m i b? j = none := fun j hj => by
    rw [Function.update_of_ne (by omega), hN j hj]
  rw [total_eq_weight hN, total_eq_weight hupdate]
  exact weight_update (by omega) b?

end Total

end RocketMQClient.Library.Heap
