import Mathlib.Algebra.Order.BigOperators.Group.Finset

/-!
# Sums over a table in which one entry changes

A table `t : ι → τ` with finitely many entries is summed up by giving each entry a weight. When one
entry is replaced, the sum changes by the weights of the two entries and nothing else.
-/

namespace Count

/-- One when the two names agree. -/
def one (y x : ℕ) : ℕ := if y = x then 1 else 0

variable {ι τ M : Type*} [AddCommMonoid M]

section Table

variable [Fintype ι] [DecidableEq ι]

/-- Two sums over a table that differ in one term. -/
theorem sum_of_eq_off {f g : ι → M} {i : ι} (h : ∀ j, j ≠ i → g j = f j) :
    ∑ j, g j + f i = ∑ j, f j + g i := by
  have hrest : ∑ j ∈ Finset.univ.erase i, g j = ∑ j ∈ Finset.univ.erase i, f j :=
    Finset.sum_congr rfl fun j hj => h j (Finset.ne_of_mem_erase hj)
  rw [← Finset.add_sum_erase _ g (Finset.mem_univ i),
    ← Finset.add_sum_erase _ f (Finset.mem_univ i),
    hrest, add_comm (g i), add_comm (f i), add_right_comm]

/-- Replacing the entry `i` by `x` trades the weight of the old entry for that of the new one. -/
theorem sum_update (g : ι → τ → M) (t : ι → τ) (i : ι) (x : τ) :
    ∑ j, g j (Function.update t i x j) + g i (t i) = ∑ j, g j (t j) + g i x := by
  have h := sum_of_eq_off (f := fun j => g j (t j)) (g := fun j => g j (Function.update t i x j))
    (i := i) fun j hj => by rw [Function.update_of_ne hj]
  rwa [Function.update_self] at h

/-- Replacing an entry by one of the same weight leaves the sum unchanged. -/
theorem sum_update_of_eq (g : ι → τ → M) (t : ι → τ) {i : ι} {x : τ} (h : g i x = g i (t i)) :
    ∑ j, g j (Function.update t i x j) = ∑ j, g j (t j) := by
  apply Finset.sum_congr rfl
  intro j _
  by_cases hj : j = i
  · subst hj
    rw [Function.update_self, h]
  · rw [Function.update_of_ne hj]

/-- Two entries of a table weigh no more than the whole. -/
theorem add_le_sum {f : ι → ℕ} {i j : ι} (h : i ≠ j) : f i + f j ≤ ∑ l, f l := by
  rw [← Finset.sum_pair h]
  exact Finset.sum_le_sum_of_subset (Finset.subset_univ _)

end Table

/-- Two sums over an initial segment that differ in one term. -/
theorem sum_range_of_eq_off {f g : ℕ → M} {n i : ℕ} (hi : i < n)
    (h : ∀ j < n, j ≠ i → g j = f j) :
    ∑ j ∈ Finset.range n, g j + f i = ∑ j ∈ Finset.range n, f j + g i := by
  have hmem : i ∈ Finset.range n := Finset.mem_range.mpr hi
  have hrest : ∑ j ∈ (Finset.range n).erase i, g j = ∑ j ∈ (Finset.range n).erase i, f j := by
    apply Finset.sum_congr rfl
    intro j hj
    exact h j (Finset.mem_range.mp (Finset.mem_of_mem_erase hj)) (Finset.ne_of_mem_erase hj)
  rw [← Finset.add_sum_erase _ g hmem, ← Finset.add_sum_erase _ f hmem, hrest]
  rw [add_comm (g i), add_comm (f i), add_right_comm]

/-- Two terms of a sum over an initial segment are no more than the whole. -/
theorem add_le_sum_range {f : ℕ → ℕ} {n i j : ℕ} (h : i ≠ j) (hi : i < n) (hj : j < n) :
    f i + f j ≤ ∑ l ∈ Finset.range n, f l := by
  rw [← Finset.sum_pair h]
  refine Finset.sum_le_sum_of_subset fun l hl => ?_
  rcases Finset.mem_insert.mp hl with rfl | hl
  · exact Finset.mem_range.mpr hi
  · rw [Finset.mem_singleton.mp hl]
    exact Finset.mem_range.mpr hj

/-- The sum of a list indexed by an initial segment. -/
theorem sum_map_range (f : ℕ → M) (n : ℕ) :
    ((List.range n).map f).sum = ∑ i ∈ Finset.range n, f i := by
  induction n with
  | zero => simp
  | succ n ih => rw [List.range_succ, Finset.sum_range_succ, ← ih]; simp

/-- A sum over an initial segment, block by block. -/
theorem sum_range_blocks (f : ℕ → M) (n k : ℕ) :
    ∑ v ∈ Finset.range (n * k), f v =
      ∑ i ∈ Finset.range n, ∑ j ∈ Finset.range k, f (i * k + j) := by
  induction n with
  | zero => simp
  | succ n ih => rw [Finset.sum_range_succ, ← ih, Nat.succ_mul, Finset.sum_range_add]

end Count
