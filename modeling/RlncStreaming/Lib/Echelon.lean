import Mathlib.LinearAlgebra.Matrix.Echelon.Basic
import RlncStreaming.Lib.RowSpace

/-!
The reduced row echelon form of a vector space.

A list of rows is reduced if it is in reduced row echelon form and has no zero row. A vector of the
span then has its coordinates at the leading columns (`ReducedRows.eq_sum`), so the leading columns
are those of the vectors of the span and the rows are determined by it (`ReducedRows.unique`).
-/

namespace RlncStreaming.Lib

open Submodule

variable {F : Type} [Field F] {ι : Type} [LinearOrder ι]

/-- The rows are in reduced row echelon form, and none of them is zero. -/
structure ReducedRows (rows : List (ι → F)) : Prop where
  echelon : (Matrix.of rows.get).IsReducedRowEchelon
  ne_zero : ∀ i, rows.get i ≠ 0

/-- The space spanned by a list of rows. -/
def listSpan (F : Type) [Field F] {V : Type} [AddCommGroup V] [Module F V] (rows : List V) :
    Submodule F V :=
  span F {row | row ∈ rows}

theorem get_mem_listSpan {V : Type} [AddCommGroup V] [Module F V] {rows : List V}
    (i : Fin rows.length) : rows.get i ∈ listSpan F rows :=
  subset_span (List.get_mem rows i)

namespace ReducedRows

variable {rows rows' : List (ι → F)}

/-! ### Leading columns -/

/-- `lead i` is the leading column of row `i`. -/
def Leads (rows : List (ι → F)) (lead : Fin rows.length → ι) : Prop :=
  ∀ i, (Matrix.of rows.get).IsLeadingEntry i (lead i)

theorem exists_leads [WellFoundedLT ι] (h : ReducedRows rows) : ∃ lead, Leads rows lead := by
  have hlead : ∀ i, ∃ k, (Matrix.of rows.get).IsLeadingEntry i k := fun i =>
    Matrix.row_ne_zero_iff_exists_isLeadingEntry.mp (h.ne_zero i)
  choose lead hlead using hlead
  exact ⟨lead, hlead⟩

variable {lead : Fin rows.length → ι}

section

variable (h : ReducedRows rows) (hlead : Leads rows lead)

include h hlead

theorem lead_strictMono : StrictMono lead := by
  intro i j hij
  by_contra hle
  refine (hlead j).2 (h.echelon.isRowEchelon hij fun k hk => ?_)
  exact (hlead i).1 k (hk.trans_le (not_lt.mp hle))

theorem get_lead (i j : Fin rows.length) : rows.get i (lead j) = if i = j then 1 else 0 := by
  by_cases hij : i = j
  · rw [if_pos hij, hij]
    exact h.echelon.eq_one (hlead j)
  · rw [if_neg hij]
    exact h.echelon.eq_zero_of_ne_of_isLeadingEntry hij (hlead j)

/-- The coordinates of a vector of the span are its entries at the leading columns. -/
theorem eq_sum {v : ι → F} (hv : v ∈ listSpan F rows) : v = ∑ i, v (lead i) • rows.get i := by
  rw [listSpan, ← Set.range_list_get, mem_span_range_iff_exists_fun] at hv
  obtain ⟨a, ha⟩ := hv
  have hcoord : ∀ j, v (lead j) = a j := by
    intro j
    rw [← ha, Finset.sum_apply]
    simp only [Pi.smul_apply, get_lead h hlead, smul_eq_mul, mul_ite, mul_one, mul_zero,
      Finset.sum_ite_eq', Finset.mem_univ, if_true]
  simp only [hcoord]
  exact ha.symm

/-- A vector of the span leads at a leading column. -/
theorem leads_of_mem {v : ι → F} (hv : v ∈ listSpan F rows) {k : ι} (hbefore : ∀ k' < k, v k' = 0)
    (hk : v k ≠ 0) : ∃ i, lead i = k := by
  have hsum := congrFun (eq_sum h hlead hv) k
  rw [Finset.sum_apply] at hsum
  rw [hsum] at hk
  obtain ⟨i, -, hi⟩ := Finset.exists_ne_zero_of_sum_ne_zero hk
  rw [Pi.smul_apply, smul_eq_mul] at hi
  refine ⟨i, le_antisymm ?_ ?_⟩
  · by_contra hlt
    exact right_ne_zero_of_mul hi ((hlead i).1 k (not_le.mp hlt))
  · by_contra hlt
    exact left_ne_zero_of_mul hi (hbefore _ (not_le.mp hlt))

end

/-- Two spaces that are the same have the same leading columns. -/
theorem range_lead (h : ReducedRows rows) (h' : ReducedRows rows') (hlead : Leads rows lead)
    {lead' : Fin rows'.length → ι} (hlead' : Leads rows' lead')
    (hspan : listSpan F rows = listSpan F rows') : Set.range lead = Set.range lead' := by
  apply Set.Subset.antisymm
  · rintro _ ⟨i, rfl⟩
    exact leads_of_mem h' hlead' (hspan ▸ get_mem_listSpan i) (hlead i).1 (hlead i).2
  · rintro _ ⟨i, rfl⟩
    exact leads_of_mem h hlead (hspan ▸ get_mem_listSpan i) (hlead' i).1 (hlead' i).2

/-- The reduced row echelon form is determined by the space. -/
theorem unique [WellFoundedLT ι] (h : ReducedRows rows) (h' : ReducedRows rows')
    (hspan : listSpan F rows = listSpan F rows') : rows = rows' := by
  obtain ⟨lead, hlead⟩ := exists_leads h
  obtain ⟨lead', hlead'⟩ := exists_leads h'
  have hmono := lead_strictMono h hlead
  have hmono' := lead_strictMono h' hlead'
  have hrange := range_lead h h' hlead hlead' hspan
  have hlength : rows.length = rows'.length := by
    have hcard := congrArg Set.ncard hrange
    rwa [← Set.image_univ, ← Set.image_univ, Set.ncard_image_of_injective _ hmono.injective,
      Set.ncard_image_of_injective _ hmono'.injective, Set.ncard_univ, Set.ncard_univ,
      Nat.card_fin, Nat.card_fin] at hcard
  have hsame : lead = lead' ∘ Fin.cast hlength := by
    rw [← hmono.range_inj (hmono'.comp (Fin.cast_strictMono hlength)), hrange]
    exact ((finCongr hlength).surjective.range_comp lead').symm
  apply List.ext_get hlength
  intro i hi hi'
  -- both rows have the coordinates of the unit vector
  have hmem : rows.get ⟨i, hi⟩ ∈ listSpan F rows' := hspan ▸ get_mem_listSpan ⟨i, hi⟩
  have hcoord : ∀ j, rows.get ⟨i, hi⟩ (lead' j) = if j = ⟨i, hi'⟩ then 1 else 0 := by
    intro j
    have hj : lead' j = lead (Fin.cast hlength.symm j) := by rw [hsame]; rfl
    rw [hj, get_lead h hlead]
    simp only [Fin.ext_iff, Fin.val_cast, eq_comm]
  rw [eq_sum h' hlead' hmem]
  simp only [hcoord, ite_smul, one_smul, zero_smul, Finset.sum_ite_eq', Finset.mem_univ, if_true]

end ReducedRows

/-- A nonzero vector of a space is the last of as many rows that span it as its dimension says. -/
theorem exists_rows_ending {V : Type} [AddCommGroup V] [Module F V] [FiniteDimensional F V]
    (W : Submodule F V) {u : V} (hu : u ∈ W) (hne : u ≠ 0) :
    ∃ w : Nat → V, w (Module.finrank F W - 1) = u ∧ (∀ j, Module.finrank F W ≤ j → w j = 0) ∧
      ∀ r, Module.finrank F W ≤ r → rowSpan F r w = W := by
  -- the other rows are a basis of a complement of `u` in the space
  obtain ⟨U, hU⟩ := Submodule.exists_isCompl (span F {u})
  have hle : span F {u} ≤ W := (span_singleton_le_iff_mem u W).mpr hu
  have hsup : span F {u} ⊔ U ⊓ W = W := by
    rw [← sup_inf_assoc_of_le U hle, hU.sup_eq_top, top_inf_eq]
  have hinf : span F {u} ⊓ (U ⊓ W) = ⊥ := by
    rw [← inf_assoc, hU.inf_eq_bot, bot_inf_eq]
  have hrank : Module.finrank F W = Module.finrank F ↥(U ⊓ W) + 1 := by
    have hdim := finrank_sup_add_finrank_inf_eq (span F {u}) (U ⊓ W)
    rw [hsup, hinf, finrank_bot, finrank_span_singleton hne] at hdim
    omega
  obtain ⟨n, hn⟩ : ∃ n, Module.finrank F ↥(U ⊓ W) = n := ⟨_, rfl⟩
  rw [hn] at hrank
  let b := Module.finBasisOfFinrankEq F ↥(U ⊓ W) hn
  obtain ⟨w, hbasis, hlast, hzero⟩ : ∃ w : Nat → V, (∀ j : Fin n, w j = b j) ∧ w n = u ∧
      ∀ j, n < j → w j = 0 := by
    refine ⟨fun j => if hj : j < n then (b ⟨j, hj⟩ : V) else if j = n then u else 0, ?_, ?_, ?_⟩
    · intro j
      simp
    · simp
    intro j hj
    simp [hj.ne', hj.le]
  rw [hrank]
  refine ⟨w, hlast, fun j hj => hzero j hj, fun r hr => le_antisymm ?_ ?_⟩
  · rw [rowSpan_le_iff]
    intro j hj
    rcases Nat.lt_trichotomy j n with hlt | rfl | hgt
    · rw [hbasis ⟨j, hlt⟩]
      exact (b ⟨j, hlt⟩).2.2
    · rw [hlast]
      exact hu
    · rw [hzero j hgt]
      exact W.zero_mem
  · rw [← hsup]
    apply sup_le
    · rw [span_singleton_le_iff_mem, ← hlast]
      exact mem_rowSpan hr
    have hspan := congrArg (map (U ⊓ W).subtype) b.span_eq
    rw [map_span, Submodule.map_top, range_subtype] at hspan
    rw [← hspan, span_le]
    rintro _ ⟨_, ⟨j, rfl⟩, rfl⟩
    have hmem := mem_rowSpan (F := F) (M := w) (j.isLt.trans hr)
    rwa [hbasis j] at hmem

/-- Rows that begin with an identity matrix are reduced. -/
theorem reducedRows_of_identity {n : Nat} {rows : List (Fin n → F)} (hlength : rows.length ≤ n)
    (hid : ∀ i j : Fin rows.length,
      rows.get i (Fin.castLE hlength j) = if i = j then 1 else 0) : ReducedRows rows := by
  have hlead : ∀ i, (Matrix.of rows.get).IsLeadingEntry i (Fin.castLE hlength i) := by
    intro i
    constructor
    · intro k hk
      have hlt : (k : Nat) < rows.length := (Fin.lt_def.mp hk).trans i.isLt
      have hne : i ≠ ⟨k, hlt⟩ := by
        intro heq
        have hval : (i : Nat) = k := congrArg Fin.val heq
        exact (Fin.lt_def.mp hk).ne' hval
      have hik := hid i ⟨k, hlt⟩
      rwa [if_neg hne] at hik
    · rw [Matrix.of_apply, hid, if_pos rfl]
      exact one_ne_zero
  constructor
  · constructor
    · intro i j hij k hk
      -- row `i` is one at column `i`, so the column is at most `i`
      have hle : k ≤ Fin.castLE hlength i := by
        by_contra hlt
        exact (hlead i).2 (hk _ (not_le.mp hlt))
      exact (hlead j).1 k (hle.trans_lt hij)
    · intro i k hk
      rw [hk.unique (hlead i), Matrix.of_apply, hid, if_pos rfl]
    · intro i j k hij hk
      rw [hk.unique (hlead j), Matrix.of_apply, hid, if_neg hij.ne]
  · intro i
    exact (hlead i).row_ne_zero

end RlncStreaming.Lib
