import Mathlib.Algebra.BigOperators.Group.List.Basic
import RlncStreaming.Lib.Maps

/-!
Totals over the values of a map.

The total of a map over a list of its keys changes with a single entry by the value of that
entry: when it is added, replaced or removed. Values are from a commutative group, so that
machine words that wrap around are allowed.
-/

namespace RlncStreaming.Lib

open Function

variable {κ α G : Type} [AddCommGroup G] {m m' : κ → Option α} {ks : List κ} {k : κ} {a : α}
  (value : α → G)

/-- The sum of the values of the listed keys. -/
def total (m : κ → Option α) (ks : List κ) : G := (ks.map fun k => (m k).elim 0 value).sum

theorem total_congr (h : ∀ k ∈ ks, (m' k).elim 0 value = (m k).elim 0 value) :
    total value m' ks = total value m ks :=
  congrArg List.sum (List.map_congr_left h)

/-- Values that are all zero. -/
theorem total_eq_zero (h : ∀ k ∈ ks, (m k).elim 0 value = 0) : total value m ks = 0 := by
  apply List.sum_eq_zero
  intro x hx
  obtain ⟨k, hk, rfl⟩ := List.mem_map.mp hx
  exact h k hk

variable [DecidableEq κ]

/-- A key that is not listed does not count. -/
theorem total_update_of_notMem (hk : k ∉ ks) (o : Option α) :
    total value (update m k o) ks = total value m ks := by
  apply total_congr
  intro k' hk'
  have hne : k' ≠ k := by
    rintro rfl
    exact hk hk'
  rw [update_of_ne hne]

theorem Lists.total_add (h : Lists m ks) (hk : m k = none) :
    total value (update m k (some a)) (ks ++ [k]) = total value m ks + value a := by
  have hnew : k ∉ ks := by
    rw [h.mem_iff, hk]
    simp
  have hold := total_update_of_notMem (m := m) value hnew (some a)
  unfold total at hold ⊢
  rw [List.map_append, List.sum_append, hold]
  simp

theorem Lists.total_remove (h : Lists m ks) (hk : m k = some a) :
    total value (update m k none) (ks.erase k) = total value m ks - value a := by
  have hmem : k ∈ ks := (h.mem_iff k).mpr (by rw [hk]; rfl)
  have hsum := List.sum_map_erase (fun k => (m k).elim 0 value) hmem
  rw [total_update_of_notMem value h.nodup.not_mem_erase]
  unfold total
  rw [← hsum, hk, Option.elim_some, add_sub_cancel_left]

theorem Lists.total_replace (h : Lists m ks) (hk : m k = some a) (a' : α) :
    total value (update m k (some a')) ks = total value m ks + (value a' - value a) := by
  have hlists : Lists (update m k (some a')) ks :=
    h.of_isSome ((forall_update_iff m fun k o => o.isSome = (m k).isSome).mpr
      ⟨by rw [hk]; rfl, fun _ _ => rfl⟩)
  have hnew := hlists.total_remove value (update_self k (some a') m)
  rw [update_idem, h.total_remove value hk] at hnew
  rw [sub_eq_iff_eq_add.mp hnew.symm, sub_add_eq_add_sub, add_sub_assoc]

end RlncStreaming.Lib
