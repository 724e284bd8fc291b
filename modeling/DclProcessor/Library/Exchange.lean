import Mathlib.Algebra.BigOperators.Group.Finset.Basic

/-!
Sums over an index range of which one step changes one or two entries. What the
entries lose against a remainder `a`, the remainder wins, and the total stays.
-/

namespace DclProcessor.Exchange

open Finset

variable {M : Type*} [AddCommMonoid M] {n i : Nat} {f g : Nat → M} {a b : M}

theorem sum_range_split (hi : i < n) (f : Nat → M) :
    ∑ j ∈ range n, f j = f i + ∑ j ∈ (range n).erase i, f j :=
  (add_sum_erase (range n) f (mem_range.mpr hi)).symm

/-- Only entry `i` changes. -/
theorem sum_range_one (hi : i < n) (hf : ∀ j < n, j ≠ i → f j = g j) (he : a + f i = b + g i) :
    a + ∑ j ∈ range n, f j = b + ∑ j ∈ range n, g j := by
  have hrest : ∑ j ∈ (range n).erase i, f j = ∑ j ∈ (range n).erase i, g j :=
    sum_congr rfl fun j hj =>
      hf j (mem_range.mp (mem_of_mem_erase hj)) (ne_of_mem_erase hj)
  rw [sum_range_split hi f, sum_range_split hi g, ← add_assoc, ← add_assoc, he, hrest]

/-- Only entries `i` and `i + 1` change. -/
theorem sum_range_two (hi : i + 1 < n) (hf : ∀ j, j ≠ i → j ≠ i + 1 → f j = g j)
    (he : a + (f i + f (i + 1)) = b + (g i + g (i + 1))) :
    a + ∑ j ∈ range n, f j = b + ∑ j ∈ range n, g j := by
  have hmem : i + 1 ∈ (range n).erase i := by
    rw [mem_erase, mem_range]
    exact ⟨by omega, hi⟩
  have hsplit : ∀ h : Nat → M, ∑ j ∈ range n, h j =
      h i + h (i + 1) + ∑ j ∈ ((range n).erase i).erase (i + 1), h j := by
    intro h
    rw [sum_range_split (show i < n by omega) h, ← add_sum_erase _ h hmem, add_assoc]
  have hrest : ∑ j ∈ ((range n).erase i).erase (i + 1), f j =
      ∑ j ∈ ((range n).erase i).erase (i + 1), g j := by
    refine sum_congr rfl fun j hj => ?_
    have hj' := mem_erase.mp hj
    exact hf j (ne_of_mem_erase hj'.2) hj'.1
  rw [hsplit f, hsplit g, hrest, ← add_assoc, he, add_assoc]

/-- Entry `i` pays `d`, of which entry `i + 1` may get a part. -/
theorem sum_range_pays {f g : Nat → Nat} {d : Nat} (hi : i < n)
    (hf : ∀ j, j ≠ i → j ≠ i + 1 → f j = g j) (hlast : n = i + 1 → f i + d ≤ g i)
    (hnext : i + 1 < n → f i + f (i + 1) + d ≤ g i + g (i + 1)) :
    ∑ j ∈ range n, f j + d ≤ ∑ j ∈ range n, g j := by
  rcases Nat.lt_or_ge (i + 1) n with hlt | hge
  · have hpaid := hnext hlt
    have hsum := sum_range_two (a := g i + g (i + 1) - (f i + f (i + 1))) (b := 0) hlt hf (by omega)
    omega
  · have hpaid := hlast (by omega)
    have hsum := sum_range_one (a := g i - f i) (b := 0) hi
      (fun j hjn hj => hf j hj (by omega)) (by omega)
    omega

end DclProcessor.Exchange
