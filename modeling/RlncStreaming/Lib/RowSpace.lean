import Mathlib.LinearAlgebra.FiniteDimensional.Lemmas

/-!
Row operations and the space they keep.

A matrix with `r` rows is a function `M : Nat → V` read below `r`, over any
vector space `V`: with `V` a product the same facts are about an augmented
matrix. `rowSpan` is the span of the rows. The three elementary operations keep
it, and the last section reads a rank off a matrix whose diagonal has been
cleared.
-/

namespace RlncStreaming.Lib

open Function Submodule Finset

variable {F : Type} [Field F] {V : Type} [AddCommGroup V] [Module F V]

/-- The span of the first `r` rows. -/
def rowSpan (F : Type) [Field F] {V : Type} [AddCommGroup V] [Module F V] (r : Nat)
    (M : Nat → V) : Submodule F V :=
  span F (M '' {i | i < r})

variable {M : Nat → V}

theorem mem_rowSpan {r : Nat} {i : Nat} (hi : i < r) : M i ∈ rowSpan F r M :=
  subset_span ⟨i, hi, rfl⟩

theorem mem_rowSpan_iff {r : Nat} {v : V} :
    v ∈ rowSpan F r M ↔ ∃ a : Fin r → F, ∑ i, a i • M i = v := by
  have hrows : M '' {i | i < r} = Set.range fun i : Fin r => M i := by
    ext v
    simp [Fin.exists_iff]
  rw [rowSpan, hrows, mem_span_range_iff_exists_fun]

theorem rowSpan_le_iff {r : Nat} {W : Submodule F V} : rowSpan F r M ≤ W ↔ ∀ i < r, M i ∈ W := by
  rw [rowSpan, span_le]
  constructor
  · intro h i hi
    exact h ⟨i, hi, rfl⟩
  · rintro h _ ⟨i, hi, rfl⟩
    exact h i hi

/-- Two matrices span the same space when each row of either lies in the span
of the other. -/
theorem rowSpan_eq_of {r r' : Nat} {M' : Nat → V} (h : ∀ i < r, M i ∈ rowSpan F r' M')
    (h' : ∀ i < r', M' i ∈ rowSpan F r M) : rowSpan F r M = rowSpan F r' M' :=
  le_antisymm (rowSpan_le_iff.mpr h) (rowSpan_le_iff.mpr h')

/-! ### The three elementary operations -/

/-- Adding a multiple of one row to another keeps the span. -/
theorem rowSpan_update_add {r i j : Nat} (q : F) (hij : i ≠ j) (hi : i < r) (hj : j < r) :
    rowSpan F r (update M j (M j + q • M i)) = rowSpan F r M := by
  apply rowSpan_eq_of
  · intro k hk
    by_cases hkj : k = j
    · subst hkj
      rw [update_self]
      exact add_mem (mem_rowSpan hk) (smul_mem _ _ (mem_rowSpan hi))
    · rw [update_of_ne hkj]
      exact mem_rowSpan hk
  have other : ∀ k < r, k ≠ j → M k ∈ rowSpan F r (update M j (M j + q • M i)) := by
    intro k hk hkj
    have hm := mem_rowSpan (F := F) (M := update M j (M j + q • M i)) hk
    rwa [update_of_ne hkj] at hm
  intro k hk
  by_cases hkj : k = j
  · subst hkj
    have hm := mem_rowSpan (F := F) (M := update M k (M k + q • M i)) hk
    rw [update_self] at hm
    have hs := sub_mem hm (smul_mem _ q (other i hi hij))
    rwa [add_sub_cancel_right] at hs
  · exact other k hk hkj

/-- Scaling a row by a nonzero factor keeps the span. -/
theorem rowSpan_update_smul {r i : Nat} {q : F} (hq : q ≠ 0) (hi : i < r) :
    rowSpan F r (update M i (q • M i)) = rowSpan F r M := by
  apply rowSpan_eq_of
  · intro k hk
    by_cases hki : k = i
    · subst hki
      rw [update_self]
      exact smul_mem _ _ (mem_rowSpan hk)
    · rw [update_of_ne hki]
      exact mem_rowSpan hk
  · intro k hk
    have hm := mem_rowSpan (F := F) (M := update M i (q • M i)) hk
    by_cases hki : k = i
    · subst hki
      rw [update_self] at hm
      have hs := smul_mem _ q⁻¹ hm
      rwa [smul_smul, inv_mul_cancel₀ hq, one_smul] at hs
    · rwa [update_of_ne hki] at hm

theorem swap_lt {r i j k : Nat} (hi : i < r) (hj : j < r) (hk : k < r) : Equiv.swap i j k < r := by
  rw [Equiv.swap_apply_def]
  split
  · exact hj
  split
  · exact hi
  · exact hk

/-- Exchanging two rows keeps the span. -/
theorem rowSpan_swap {r i j : Nat} (hi : i < r) (hj : j < r) :
    rowSpan F r (M ∘ Equiv.swap i j) = rowSpan F r M := by
  apply rowSpan_eq_of
  · intro k hk
    exact mem_rowSpan (swap_lt hi hj hk)
  · intro k hk
    have hm := mem_rowSpan (F := F) (M := M ∘ Equiv.swap i j) (swap_lt hi hj hk)
    rwa [comp_apply, Equiv.swap_apply_self] at hm

theorem finrank_rowSpan_le (r : Nat) (M : Nat → V) : Module.finrank F (rowSpan F r M) ≤ r := by
  classical
  have himg : M '' {i | i < r} = ↑((range r).image M) := by
    ext v
    simp
  have hle := finrank_span_finset_le_card (R := F) ((range r).image M)
  rw [rowSpan, himg]
  refine hle.trans ?_
  exact card_image_le.trans (card_range r).le

/-- A zero row does not count. -/
theorem finrank_rowSpan_lt {r j : Nat} (hj : j < r) (hzero : M j = 0) :
    Module.finrank F (rowSpan F r M) < r := by
  classical
  have hspan : rowSpan F r M ≤ span F ↑(((range r).erase j).image M) := by
    rw [rowSpan_le_iff]
    intro i hi
    by_cases hij : i = j
    · rw [hij, hzero]
      exact zero_mem _
    · apply subset_span
      simp only [coe_image, coe_erase, coe_range]
      exact ⟨i, ⟨hi, hij⟩, rfl⟩
  calc Module.finrank F (rowSpan F r M)
      ≤ Module.finrank F (span F (((range r).erase j).image M : Set V)) := finrank_mono hspan
    _ ≤ (((range r).erase j).image M).card := finrank_span_finset_le_card _
    _ ≤ ((range r).erase j).card := card_image_le
    _ < r := by
        rw [card_erase_of_mem (mem_range.mpr hj), card_range]
        omega

/-! ### Diagonal elimination

`Triangular` and `PivotsCleared` are what a forward and a backward pass over the
diagonal leave behind. Columns without a pivot are not looked at again, so this
is weaker than an echelon form. -/

/-- Below the diagonal every entry of the first `b` columns is zero. -/
def Triangular (b : Nat) (a : Nat → Nat → F) : Prop := ∀ j k, k < b → k < j → a j k = 0

/-- A nonzero diagonal entry of the columns from `lo` up to `b` is one and stands
alone in the part of its column above it. -/
def PivotsCleared (lo b : Nat) (a : Nat → Nat → F) : Prop :=
  ∀ k, lo ≤ k → k < b → a k k ≠ 0 → a k k = 1 ∧ ∀ j < k, a j k = 0

/-- After both passes over a square matrix, either some row is zero or the
matrix is the identity. The argument runs from the last row upwards: below row
`k` every pivot is present and has cleared its column, so row `k` has at most
its diagonal entry left. -/
theorem identity_of_rows_ne_zero {n : Nat} {a : Nat → Nat → F} (htri : Triangular n a)
    (hpiv : PivotsCleared 0 n a) (hrows : ∀ j < n, ∃ k < n, a j k ≠ 0) :
    ∀ j < n, ∀ k < n, a j k = if j = k then 1 else 0 := by
  have diag : ∀ d j, j < n → n - j = d → a j j ≠ 0 := by
    intro d
    induction d using Nat.strong_induction_on with
    | _ d ih =>
      intro j hj hd hzero
      obtain ⟨k, hk, hne⟩ := hrows j hj
      apply hne
      rcases Nat.lt_trichotomy k j with hlt | heq | hgt
      · exact htri j k hk hlt
      · rw [heq]
        exact hzero
      · have hkk := ih (n - k) (by omega) k hk rfl
        exact (hpiv k (Nat.zero_le k) hk hkk).2 j hgt
  intro j hj k hk
  rcases Nat.lt_trichotomy k j with hlt | heq | hgt
  · rw [if_neg (by omega)]
    exact htri j k hk hlt
  · subst heq
    rw [if_pos rfl]
    exact (hpiv k (Nat.zero_le k) hk (diag _ k hk rfl)).1
  · rw [if_neg (by omega)]
    exact (hpiv k (Nat.zero_le k) hk (diag _ k hk rfl)).2 j hgt

end RlncStreaming.Lib
