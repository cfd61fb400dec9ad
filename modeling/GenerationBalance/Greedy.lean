/-
Greedy allocation: an amount is taken from several places in turn, and the next
place is touched only when the ones before it are used up. The total determines
what is taken of each place; and giving a part back in the reverse order leaves
the greedy allocation of what is kept.
-/
import Mathlib.Algebra.BigOperators.Group.List.Basic
import Mathlib.Algebra.Order.BigOperators.Group.List
import Mathlib.Algebra.Order.Group.Defs

namespace Greedy

variable {κ α : Type} [AddCommGroup α] [LinearOrder α]

/-- `f` takes greedily from what is available, in the given order. -/
structure Fill (available : κ → α) (order : List κ) (f : κ → α) : Prop where
  nonneg : ∀ k ∈ order, 0 ≤ f k
  le : ∀ k ∈ order, f k ≤ available k
  greedy : order.Pairwise fun j k => f k ≠ 0 → f j = available j

variable {available f g : κ → α} {order : List κ} {k : κ}

theorem Fill.tail (h : Fill available (k :: order) f) : Fill available order f where
  nonneg j hj := h.nonneg j (List.mem_cons_of_mem _ hj)
  le j hj := h.le j (List.mem_cons_of_mem _ hj)
  greedy := (List.pairwise_cons.mp h.greedy).2

variable [IsOrderedAddMonoid α]

theorem Fill.sum_nonneg (h : Fill available order f) : 0 ≤ (order.map f).sum := by
  refine List.sum_nonneg fun x hx => ?_
  obtain ⟨k, hk, rfl⟩ := List.mem_map.mp hx
  exact h.nonneg k hk

/-- The first place gives as much as it can. -/
theorem Fill.head (h : Fill available (k :: order) f) : f k = min (available k) ((k :: order).map f).sum := by
  have hle := h.le k (List.mem_cons_self ..)
  have hrest := h.tail.sum_nonneg
  rw [List.map_cons, List.sum_cons]
  by_cases hz : ∀ j ∈ order, f j = 0
  · -- Nothing is taken of the others.
    have hsum : (order.map f).sum = 0 := by
      refine List.sum_eq_zero fun x hx => ?_
      obtain ⟨j, hj, rfl⟩ := List.mem_map.mp hx
      exact hz j hj
    rw [hsum, add_zero, min_eq_right hle]
  · push Not at hz
    obtain ⟨j, hj, hne⟩ := hz
    have hfull : f k = available k := (List.pairwise_cons.mp h.greedy).1 j hj hne
    rw [← hfull, min_eq_left]
    exact le_add_of_nonneg_right hrest

/-- **The total determines a greedy allocation.** -/
theorem Fill.unique (hf : Fill available order f) (hg : Fill available order g)
    (h : (order.map f).sum = (order.map g).sum) : ∀ k ∈ order, f k = g k := by
  induction order with
  | nil => intro k hk; cases hk
  | cons j order ih =>
    have hhead : f j = g j := by rw [hf.head, hg.head, h]
    intro k hk
    rcases List.mem_cons.mp hk with rfl | hk
    · exact hhead
    · refine ih hf.tail hg.tail ?_ k hk
      rw [List.map_cons, List.sum_cons, List.map_cons, List.sum_cons, hhead] at h
      exact add_left_cancel h

/-- **What is kept of a greedy allocation**, when a part is given back greedily from
the end, is allocated greedily. -/
theorem Fill.give_back (hf : Fill available order f) (hg : Fill f order.reverse g) :
    Fill available order fun k => f k - g k where
  nonneg k hk := sub_nonneg.mpr (hg.le k (List.mem_reverse.mpr hk))
  le k hk := (sub_le_self _ (hg.nonneg k (List.mem_reverse.mpr hk))).trans (hf.le k hk)
  greedy := by
    have hback := List.pairwise_reverse.mp hg.greedy
    refine (hf.greedy.and hback).imp_of_mem fun {j k} hj hk h hne => ?_
    obtain ⟨hfront, hback⟩ := h
    -- Of a place that keeps something not all was given back, so nothing of the places before it.
    have hgj : g j = 0 := by
      by_contra hj0
      exact hne (by rw [hback hj0, sub_self])
    have hfk : f k ≠ 0 := by
      intro hk0
      have hle := hg.le k (List.mem_reverse.mpr hk)
      have hge := hg.nonneg k (List.mem_reverse.mpr hk)
      rw [hk0] at hle
      exact hne (by rw [hk0, le_antisymm hle hge, sub_self])
    rw [hgj, sub_zero, hfront hfk]

end Greedy
