import RlncStreaming.Kodr.Matrix
import RlncStreaming.Lib.RowSpace
import Mathlib.Data.List.GetD

/-!
What `Rref` does to a rectangular decoder state.

A state with `r` rows, vectors of length `c` and pieces of length `L` is read as
an augmented matrix over the byte field: `rowPair` is one row, vector and piece
together. Every step of both passes is an elementary row operation on it, so the
row space is kept; `Triangular` and `PivotsCleared` are what the two passes
establish. The elimination only looks at the diagonal, so nothing stronger than
that holds in general. `rref_spec` collects the facts the decoder needs.
-/

namespace RlncStreaming.Kodr

open Lib List GF256 DecoderState Function

/-- The first `n` bytes of a slice as a vector over the field. -/
def toVec (gf : GF256) (n : Nat) (row : List UInt8) : Fin n → gf.Sym :=
  fun k => gf.sym (row.getD k 0)

/-! ### Rows as vectors -/

section Rows

variable {gf : GF256}

theorem addMul_eq_some {lo hi : Nat} {src dst : List UInt8} (by_ : UInt8)
    (hsrc : hi ≤ src.length) (hdst : hi ≤ dst.length) :
    addMul gf lo hi src by_ dst = some (dst.mapIdx fun k x =>
      if lo ≤ k ∧ k < hi then gf.add x (gf.mul (src.getD k 0) by_) else x) := by
  unfold addMul
  rw [if_neg]
  omega

/-- A row operation from column `lo` on is one on the whole row when the source
row is zero before `lo`. -/
theorem toVec_addMul {lo n : Nat} {src dst : List UInt8} (by_ : UInt8) (hdst : dst.length = n)
    (hzero : ∀ k < lo, src.getD k 0 = 0) :
    toVec gf n (dst.mapIdx fun k x =>
      if lo ≤ k ∧ k < n then gf.add x (gf.mul (src.getD k 0) by_) else x) =
        toVec gf n dst + gf.sym by_ • toVec gf n src := by
  funext k
  have hk : (k : Nat) < dst.length := by omega
  simp only [toVec, Pi.add_apply, Pi.smul_apply, smul_eq_mul]
  rw [getD_eq_getElem _ _ (by simpa using hk), getD_eq_getElem _ _ hk, getElem_mapIdx]
  by_cases hlo : lo ≤ k
  · rw [if_pos ⟨hlo, k.isLt⟩, sym_add, sym_mul, mul_comm (gf.sym by_)]
  · rw [if_neg (by omega), hzero k (by omega), sym_zero, mul_zero, add_zero]

theorem scale_eq_some {lo hi : Nat} {row : List UInt8} (inv : UInt8) (h : hi ≤ row.length) :
    scale gf lo hi inv row = some (row.mapIdx fun k x =>
      if lo ≤ k ∧ k < hi ∧ x ≠ 0 then gf.mul x inv else x) := by
  unfold scale
  rw [if_neg]
  omega

end Rows

namespace DecoderState

/-- `r` rows in both matrices, vectors of length `c`, pieces of length `L`. -/
structure Rect (d : DecoderState) (r c L : Nat) : Prop where
  coeffs_length : d.coeffs.length = r
  coded_length : d.coded.length = r
  vector_length : ∀ v ∈ d.coeffs, v.length = c
  piece_length : ∀ p ∈ d.coded, p.length = L

section Augmented

variable (gf : GF256)

/-- `coeffs[j][k]` as a field element, zero outside the matrix. -/
def entry (d : DecoderState) (j k : Nat) : gf.Sym := gf.sym ((d.coeffs.getD j []).getD k 0)

/-- Row `j` of the augmented matrix. -/
def rowPair (c L : Nat) (d : DecoderState) (j : Nat) : (Fin c → gf.Sym) × (Fin L → gf.Sym) :=
  (toVec gf c (d.coeffs.getD j []), toVec gf L (d.coded.getD j []))

end Augmented

variable {gf : GF256} {d : DecoderState} {r c L : Nat}

theorem entry_eq_rowPair (L j : Nat) {k : Nat} (hk : k < c) :
    d.entry gf j k = (d.rowPair gf c L j).1 ⟨k, hk⟩ := rfl

variable {j : Nat}

namespace Rect

section

variable (h : d.Rect r c L)

include h

theorem vector_length_getD (hj : j < r) : (d.coeffs.getD j []).length = c := by
  have hlt : j < d.coeffs.length := h.coeffs_length ▸ hj
  rw [getD_eq_getElem _ _ hlt]
  exact h.vector_length _ (getElem_mem hlt)

theorem piece_length_getD (hj : j < r) : (d.coded.getD j []).length = L := by
  have hlt : j < d.coded.length := h.coded_length ▸ hj
  rw [getD_eq_getElem _ _ hlt]
  exact h.piece_length _ (getElem_mem hlt)

theorem coeffs_cols (hr : 0 < r) : d.coeffs.cols = some c := by
  have hlen := h.vector_length_getD hr
  have hne := h.coeffs_length
  cases hd : d.coeffs with
  | nil =>
    rw [hd] at hne
    exact absurd hne (by simp; omega)
  | cons row rows =>
    rw [hd] at hlen
    simpa [Matrix.cols] using hlen

theorem coded_cols (hr : 0 < r) : d.coded.cols = some L := by
  have hlen := h.piece_length_getD hr
  have hne := h.coded_length
  cases hd : d.coded with
  | nil =>
    rw [hd] at hne
    exact absurd hne (by simp; omega)
  | cons row rows =>
    rw [hd] at hlen
    simpa [Matrix.cols] using hlen

/-- Inside the matrix a cell can be read. -/
theorem cell_eq {k : Nat} (hj : j < r) (hk : k < c) :
    d.coeffs.cell j k = some ((d.coeffs.getD j []).getD k 0) := by
  have hlt : j < d.coeffs.length := h.coeffs_length ▸ hj
  have hlen := h.vector_length_getD hj
  rw [getD_eq_getElem _ _ hlt] at hlen ⊢
  rw [Matrix.cell, getElem?_eq_getElem hlt, Option.bind_some,
    getElem?_eq_getElem (by omega), getD_eq_getElem _ _ (by omega)]

theorem entry_of_le (hj : r ≤ j) (k : Nat) : d.entry gf j k = 0 := by
  have hle : d.coeffs.length ≤ j := h.coeffs_length ▸ hj
  rw [entry, getD_eq_default _ _ hle]
  simp

/-- Replacing one row of each matrix by rows of the right lengths. -/
theorem set {row piece : List UInt8} (hrow : row.length = c) (hpiece : piece.length = L) :
    Rect { d with coeffs := d.coeffs.set j row, coded := d.coded.set j piece } r c L where
  coeffs_length := by simpa using h.coeffs_length
  coded_length := by simpa using h.coded_length
  vector_length v hv := by
    rcases mem_or_eq_of_mem_set hv with hmem | rfl
    · exact h.vector_length v hmem
    · exact hrow
  piece_length p hp := by
    rcases mem_or_eq_of_mem_set hp with hmem | rfl
    · exact h.piece_length p hmem
    · exact hpiece

/-- The augmented matrix after replacing one row. -/
theorem rowPair_set (hj : j < r) (row piece : List UInt8) :
    rowPair gf c L { d with coeffs := d.coeffs.set j row, coded := d.coded.set j piece } =
      update (d.rowPair gf c L) j (toVec gf c row, toVec gf L piece) := by
  funext i
  by_cases hij : i = j
  · subst hij
    have h₁ : i < d.coeffs.length := h.coeffs_length ▸ hj
    have h₂ : i < d.coded.length := h.coded_length ▸ hj
    simp [rowPair, getD_eq_getElem?_getD, h₁, h₂]
  · simp [rowPair, getD_eq_getElem?_getD, getElem?_set_ne (Ne.symm hij), hij]

end

end Rect

/-! ### The elementary operations -/

variable {i : Nat}

/-- `eliminate` adds `coeffs[j][i] / coeffs[i][i]` times the pivot row to row `j`,
in both matrices. When the cell is already zero this is the row itself. -/
theorem eliminate_spec (h : d.Rect r c L) (hi : i < r) (hj : j < r) (hic : i < c)
    (hpivot : d.entry gf i i ≠ 0) (hzero : ∀ k < i, d.entry gf i k = 0) :
    ∃ d', eliminate gf c i j d = some d' ∧ d'.Rect r c L ∧ d'.pieceCount = d.pieceCount ∧
      d'.rowPair gf c L = update (d.rowPair gf c L) j
        (d.rowPair gf c L j + (d.entry gf j i / d.entry gf i i) • d.rowPair gf c L i) := by
  have hcell := h.cell_eq hj hic
  set x := (d.coeffs.getD j []).getD i 0 with hx
  by_cases hx0 : x = 0
  · have hentry : d.entry gf j i = 0 := by
      rw [entry, ← hx, hx0, sym_zero]
    refine ⟨d, by simp [eliminate, hcell, hx0], h, rfl, ?_⟩
    rw [hentry, zero_div, zero_smul, add_zero, update_eq_self]
  have hpiv := h.cell_eq hi hic
  have hy0 : (d.coeffs.getD i []).getD i 0 ≠ 0 := fun h0 => hpivot (by
    rw [entry, h0, sym_zero])
  have hvec : ∀ {k}, k < r → c ≤ (d.coeffs.getD k []).length := fun hk =>
    (h.vector_length_getD hk).ge
  have hpie : ∀ {k}, k < r → L ≤ (d.coded.getD k []).length := fun hk =>
    (h.piece_length_getD hk).ge
  have hr : 0 < r := by omega
  refine ⟨_, by
    simp only [eliminate, hcell, hpiv, Option.bind_eq_bind, Option.bind_some, hx0, if_false,
      addMul_eq_some _ (hvec hi) (hvec hj), addMul_eq_some _ (hpie hi) (hpie hj),
      h.coded_cols hr, Option.pure_def]
    rfl, ?_, ?_, ?_⟩
  · exact h.set (length_mapIdx.trans (h.vector_length_getD hj))
      (length_mapIdx.trans (h.piece_length_getD hj))
  · rfl
  rw [h.rowPair_set hj,
    toVec_addMul _ (h.vector_length_getD hj) (fun k hk => sym_eq_zero.mp (hzero k hk)),
    toVec_addMul _ (h.piece_length_getD hj) (fun k hk => absurd hk (Nat.not_lt_zero k)),
    sym_div _ _ hy0]
  rfl

/-- The entries after row `j` was replaced. -/
theorem entry_update {d' : DecoderState} {row : (Fin c → gf.Sym) × (Fin L → gf.Sym)}
    (hd' : d'.rowPair gf c L = update (d.rowPair gf c L) j row) (j' : Nat) {k : Nat}
    (hk : k < c) : d'.entry gf j' k = if j' = j then row.1 ⟨k, hk⟩ else d.entry gf j' k := by
  rw [entry_eq_rowPair L j' hk, hd']
  by_cases hj : j' = j
  · rw [hj, update_self, if_pos rfl]
  · rw [update_of_ne hj, if_neg hj]
    rfl

theorem getD_swapRows {m : Matrix} (hi : i < m.length) (hj : j < m.length) :
    ∃ m', m.swapRows i j = some m' ∧ m'.length = m.length ∧ (∀ row ∈ m', row ∈ m) ∧
      ∀ k, m'.getD k [] = m.getD (Equiv.swap i j k) [] := by
  refine ⟨(m.set i m[j]).set j m[i], by
    simp [Matrix.swapRows, getElem?_eq_getElem hi, getElem?_eq_getElem hj],
    by simp, ?_, ?_⟩
  · intro row hrow
    rcases mem_or_eq_of_mem_set hrow with hmem | rfl
    · rcases mem_or_eq_of_mem_set hmem with hmem | rfl
      · exact hmem
      · exact getElem_mem hj
    · exact getElem_mem hi
  intro k
  rw [Equiv.swap_apply_def]
  by_cases hkj : k = j
  · subst hkj
    by_cases hki : k = i
    · subst hki
      simp [getD_eq_getElem?_getD, hj]
    · simp [getD_eq_getElem?_getD, hj, hki, getElem?_eq_getElem hi]
  rw [if_neg hkj]
  by_cases hki : k = i
  · subst hki
    rw [if_pos rfl, getD_eq_getElem?_getD, getElem?_set_ne (Ne.symm hkj),
      getElem?_set_self hi, getD_eq_getElem _ _ hj]
    rfl
  · simp [getD_eq_getElem?_getD, getElem?_set_ne (Ne.symm hkj), getElem?_set_ne (Ne.symm hki), hki]

variable (gf) in
/-- The search finds the first nonzero cell of the column, or says that there is
none. -/
theorem findPivot_spec (h : d.Rect r c L) (hic : i < c) :
    ∀ (n pivot : Nat), pivot + n = r →
      ∃ found, findPivot d.coeffs i pivot n = some found ∧
        (∀ p, found = some p → pivot ≤ p ∧ p < r ∧ d.entry gf p i ≠ 0) ∧
        (found = none → ∀ j, pivot ≤ j → j < r → d.entry gf j i = 0) := by
  intro n
  induction n with
  | zero =>
    intro pivot hn
    exact ⟨none, rfl, by simp, fun _ j hlo hhi => absurd hhi (by omega)⟩
  | succ n ih =>
    intro pivot hn
    have hcell := h.cell_eq (j := pivot) (by omega) hic
    by_cases hx : (d.coeffs.getD pivot []).getD i 0 = 0
    · obtain ⟨found, hfind, hsome, hnone⟩ := ih (pivot + 1) (by omega)
      refine ⟨found, by simp only [findPivot, hcell, Option.bind_some, hx]; simpa using hfind,
        ?_, ?_⟩
      · intro p hp
        obtain ⟨hlo, hhi, hne⟩ := hsome p hp
        exact ⟨by omega, hhi, hne⟩
      · intro hf j hlo hhi
        by_cases hj : j = pivot
        · rw [hj, entry, hx, sym_zero]
        · exact hnone hf j (by omega) hhi
    · refine ⟨some pivot, by simp only [findPivot, hcell, Option.bind_some, ne_eq, hx,
        not_false_eq_true, if_true], ?_, by simp⟩
      intro p hp
      cases hp
      exact ⟨Nat.le_refl _, by omega, fun h0 => hx (sym_eq_zero.mp h0)⟩

/-! ### The forward pass -/

/-- One of the `r` rows of the coefficient matrix is zero. -/
def HasZeroRow (gf : GF256) (r c : Nat) (d : DecoderState) : Prop :=
  ∃ j < r, ∀ k < c, d.entry gf j k = 0

/-- `d` has the shape, the piece count and the row space of `d₀`, and a zero row of
`d₀` was not lost. -/
structure RowEquiv (gf : GF256) (r c L : Nat) (d₀ d : DecoderState) : Prop where
  rect : d.Rect r c L
  pieceCount : d.pieceCount = d₀.pieceCount
  rowSpan_eq : rowSpan gf.Sym r (d.rowPair gf c L) = rowSpan gf.Sym r (d₀.rowPair gf c L)
  zero_row : d₀.HasZeroRow gf r c → d.HasZeroRow gf r c

variable {d₀ : DecoderState}

section

variable (h : RowEquiv gf r c L d₀ d) (hi : i < r)

include h hi

omit hi in
/-- Replacing row `j` is a row operation when the row space stays and a zero row is
replaced by a zero row. -/
theorem RowEquiv.of_update {d' : DecoderState} {row : (Fin c → gf.Sym) × (Fin L → gf.Sym)}
    (hrect : d'.Rect r c L) (hcount : d'.pieceCount = d.pieceCount)
    (hrows : d'.rowPair gf c L = update (d.rowPair gf c L) j row)
    (hspan : rowSpan gf.Sym r (update (d.rowPair gf c L) j row) =
      rowSpan gf.Sym r (d.rowPair gf c L))
    (hzero : (∀ k < c, d.entry gf j k = 0) → ∀ k, row.1 k = 0) : RowEquiv gf r c L d₀ d' := by
  refine ⟨hrect, hcount.trans h.pieceCount, by rw [hrows, hspan, h.rowSpan_eq], fun hzero₀ => ?_⟩
  obtain ⟨z, hz, hrow⟩ := h.zero_row hzero₀
  refine ⟨z, hz, fun k hk => ?_⟩
  rw [entry_update hrows z hk]
  split
  · next hzj => exact hzero (hzj ▸ hrow) _
  · exact hrow k hk

/-- `eliminate` is a row operation, and it clears the cell it aims at. The other rows
stay, and so do the cells of row `j` above or below a zero of the pivot row. -/
theorem RowEquiv.eliminate (hj : j < r) (hij : i ≠ j) (hic : i < c) (hpivot : d.entry gf i i ≠ 0)
    (hzero : ∀ k < i, d.entry gf i k = 0) :
    ∃ d', eliminate gf c i j d = some d' ∧ RowEquiv gf r c L d₀ d' ∧
      d'.entry gf j i = 0 ∧ ∀ j' k, k < c → (j' = j → d.entry gf i k = 0) →
        d'.entry gf j' k = d.entry gf j' k := by
  obtain ⟨d', heq, hrect, hcount, hrows⟩ := eliminate_spec h.rect hi hj hic hpivot hzero
  have hcell : ∀ k (hk : k < c),
      (d.rowPair gf c L j + (d.entry gf j i / d.entry gf i i) • d.rowPair gf c L i).1 ⟨k, hk⟩ =
        d.entry gf j k + d.entry gf j i / d.entry gf i i * d.entry gf i k := fun _ _ => rfl
  refine ⟨d', heq, h.of_update hrect hcount hrows (rowSpan_update_add _ hij hi hj) ?_, ?_, ?_⟩
  · -- A zero row has nothing to clear, so nothing is added to it.
    intro hrow k
    rw [hcell k k.isLt, hrow k k.isLt, hrow i hic, zero_div, zero_mul, add_zero]
  · rw [entry_update hrows j hic, if_pos rfl, hcell, div_mul_cancel₀ _ hpivot]
    exact sym_add_self _
  · intro j' k hk h0
    rw [entry_update hrows j' hk]
    split
    · next hj' => rw [hcell, h0 hj', mul_zero, add_zero, hj']
    · rfl

/-- Exchanging two rows of both matrices is a row operation. -/
theorem RowEquiv.swapRows (hj : j < r) :
    ∃ coeffs coded, d.coeffs.swapRows i j = some coeffs ∧ d.coded.swapRows i j = some coded ∧
      RowEquiv gf r c L d₀ { d with coeffs, coded } ∧
      ∀ j' k, entry gf { d with coeffs, coded } j' k = d.entry gf (Equiv.swap i j j') k := by
  have hcoeffs := h.rect.coeffs_length
  have hcoded := h.rect.coded_length
  obtain ⟨coeffs, h₁, len₁, mem₁, get₁⟩ :=
    getD_swapRows (m := d.coeffs) (i := i) (j := j) (by omega) (by omega)
  obtain ⟨coded, h₂, len₂, mem₂, get₂⟩ :=
    getD_swapRows (m := d.coded) (i := i) (j := j) (by omega) (by omega)
  have hentry : ∀ j' k, entry gf { d with coeffs, coded } j' k =
      d.entry gf (Equiv.swap i j j') k := by
    intro j' k
    rw [entry, entry, get₁]
  refine ⟨coeffs, coded, h₁, h₂, ⟨⟨?_, ?_, ?_, ?_⟩, h.pieceCount, ?_, ?_⟩, hentry⟩
  · exact len₁.trans hcoeffs
  · exact len₂.trans hcoded
  · intro v hv
    exact h.rect.vector_length v (mem₁ v hv)
  · intro p hp
    exact h.rect.piece_length p (mem₂ p hp)
  · have hrows : rowPair gf c L { d with coeffs, coded } = d.rowPair gf c L ∘ Equiv.swap i j := by
      funext k
      simp only [rowPair, get₁, get₂, comp_apply]
    rw [hrows, rowSpan_swap hi hj, h.rowSpan_eq]
  · intro hzero₀
    obtain ⟨z, hz, hrow⟩ := h.zero_row hzero₀
    refine ⟨Equiv.swap i j z, swap_lt hi hj hz, fun k hk => ?_⟩
    rw [hentry, Equiv.swap_apply_self]
    exact hrow k hk

/-- `selectPivot` is a row operation that keeps the columns already cleared. With
no pivot found the column is zero from the diagonal on. -/
theorem selectPivot_spec (hic : i < c) (htri : Triangular i (d.entry gf)) :
    ∃ found d', selectPivot r i d = some (found, d') ∧ RowEquiv gf r c L d₀ d' ∧
      Triangular i (d'.entry gf) ∧ (found = true → d'.entry gf i i ≠ 0) ∧
      (found = false → ∀ j, i ≤ j → d'.entry gf j i = 0) := by
  have hcell := h.rect.cell_eq hi hic
  by_cases hx : (d.coeffs.getD i []).getD i 0 = 0
  · obtain ⟨found, hfind, hsome, hnone⟩ :=
      findPivot_spec gf h.rect hic (r - (i + 1)) (i + 1) (by omega)
    cases found with
    | none =>
      refine ⟨false, d, ?_, h, htri, by simp, ?_⟩
      · simp only [selectPivot, hcell, Option.bind_eq_bind, Option.bind_some, hx, ne_eq,
          not_true_eq_false, if_false, hfind, Option.pure_def]
      intro _ j hj
      rcases Nat.lt_or_ge j r with hlt | hge
      · rcases Nat.eq_or_lt_of_le hj with rfl | hgt
        · rw [entry, hx, sym_zero]
        · exact hnone rfl j hgt hlt
      · exact h.rect.entry_of_le hge i
    | some p =>
      obtain ⟨hip, hpr, hne⟩ := hsome p rfl
      obtain ⟨coeffs, coded, h₁, h₂, hequiv, hentry⟩ := h.swapRows hi hpr
      refine ⟨true, { d with coeffs, coded }, ?_, hequiv, ?_, ?_, by simp⟩
      · simp only [selectPivot, hcell, Option.bind_eq_bind, Option.bind_some, hx, ne_eq,
          not_true_eq_false, if_false, hfind, h₁, h₂, Option.pure_def]
      · -- Both exchanged rows lie at or below row `i`, so they are zero before column `i`.
        intro j k hk hkj
        rw [hentry, Equiv.swap_apply_def]
        split
        · exact htri p k hk (by omega)
        split
        · exact htri i k hk (by omega)
        · exact htri j k hk hkj
      · intro _
        rw [hentry, Equiv.swap_apply_left]
        exact hne
  · refine ⟨true, d, ?_, h, htri, ?_, by simp⟩
    · simp only [selectPivot, hcell, Option.bind_eq_bind, Option.bind_some, ne_eq, hx,
        not_false_eq_true, if_true, Option.pure_def]
    · intro _ h0
      exact hx (sym_eq_zero.mp h0)

/-- One iteration of `clean_forward` clears one more column below the diagonal. -/
theorem forwardStep_spec (hic : i < c) (htri : Triangular i (d.entry gf)) :
    ∃ d', forwardStep gf r c i d = some d' ∧ RowEquiv gf r c L d₀ d' ∧
      Triangular (i + 1) (d'.entry gf) := by
  obtain ⟨found, d₁, hsel, hequiv, htri₁, htrue, hfalse⟩ := selectPivot_spec h hi hic htri
  cases found with
  | false =>
    refine ⟨d₁, by simp [forwardStep, hsel], hequiv, ?_⟩
    intro j k hk hkj
    rcases Nat.lt_or_ge k i with hlt | hge
    · exact htri₁ j k hlt hkj
    obtain rfl : k = i := by omega
    exact hfalse rfl j (by omega)
  | true =>
    -- Row `j` is cleared in column `i`; the rows between `i` and `j` already are.
    obtain ⟨d₂, hloop, hequiv₂, htri₂, -, hcol⟩ := forUp_inv
      (fun j d => RowEquiv gf r c L d₀ d ∧ Triangular i (d.entry gf) ∧
        d.entry gf i i ≠ 0 ∧ ∀ j', i < j' → j' < j → d.entry gf j' i = 0)
      (eliminate gf c i) (i + 1) (r - (i + 1)) (s := d₁)
      ⟨hequiv, htri₁, htrue rfl, fun j' h₁ h₂ => absurd h₂ (by omega)⟩ (by
        rintro j d hlo hhi ⟨hequiv, htri, hpivot, hcol⟩
        obtain ⟨d', heq, hequiv', hclear, hsame⟩ := hequiv.eliminate hi
          (by omega : j < r) (by omega) hic hpivot fun k hk => htri i k hk hk
        refine ⟨d', heq, hequiv', ?_, ?_, ?_⟩
        · intro j' k hk hkj
          rw [hsame j' k (by omega) fun _ => htri i k hk hk]
          exact htri j' k hk hkj
        · rw [hsame i i hic (by omega)]
          exact hpivot
        intro j' h₁ h₂
        by_cases hj : j' = j
        · rw [hj]
          exact hclear
        · rw [hsame j' i hic (absurd · hj)]
          exact hcol j' h₁ (by omega))
    refine ⟨d₂, by simp [forwardStep, hsel, hloop], hequiv₂, ?_⟩
    intro j k hk hkj
    rcases Nat.lt_or_ge k i with hlt | hge
    · exact htri₂ j k hlt hkj
    obtain rfl : k = i := by omega
    rcases Nat.lt_or_ge j r with hj | hj
    · exact hcol j hkj (by omega)
    · exact hequiv₂.rect.entry_of_le hj k

end

variable (gf) in
theorem cleanForward_spec (h : d.Rect r c L) (hr : 0 < r) :
    ∃ d', cleanForward gf d = some d' ∧ RowEquiv gf r c L d d' ∧
      Triangular (min r c) (d'.entry gf) := by
  obtain ⟨d', hloop, hequiv, htri⟩ := forUp_inv
    (fun i d' => RowEquiv gf r c L d d' ∧ Triangular i (d'.entry gf))
    (forwardStep gf r c) 0 (min r c) (s := d)
    ⟨⟨h, rfl, rfl, id⟩, fun j k hk => absurd hk (Nat.not_lt_zero k)⟩ (by
      rintro i d' - hi ⟨hequiv, htri⟩
      exact forwardStep_spec hequiv (by omega) (by omega) htri)
  refine ⟨d', ?_, hequiv, by simpa using htri⟩
  simp only [cleanForward, h.coeffs_cols hr, Option.bind_eq_bind, Option.bind_some, Matrix.rows,
    h.coeffs_length, hloop]

/-! ### The backward pass -/

/-- Scaling every cell of a row, the zero cells skipped. -/
theorem toVec_scale {n : Nat} {row : List UInt8} (inv : UInt8) (hrow : row.length = n) :
    toVec gf n (row.mapIdx fun k x => if 0 ≤ k ∧ k < n ∧ x ≠ 0 then gf.mul x inv else x) =
      gf.sym inv • toVec gf n row := by
  funext k
  have hk : (k : Nat) < row.length := by omega
  simp only [toVec, Pi.smul_apply, smul_eq_mul]
  rw [getD_eq_getElem _ _ (by simpa using hk), getD_eq_getElem _ _ hk, getElem_mapIdx]
  by_cases hx : row[(k : Nat)] = 0
  · simp [hx]
  · rw [if_pos ⟨Nat.zero_le _, k.isLt, hx⟩, sym_mul, mul_comm]

/-- The pivot row of `normalize`: its cells before the pivot are zero, the pivot is
set to one and the cells after it are scaled. -/
theorem toVec_normalize {n : Nat} {row : List UInt8} {inv : UInt8} (hrow : row.length = n)
    (hzero : ∀ k < i, row.getD k 0 = 0) (hinv : gf.sym inv * gf.sym (row.getD i 0) = 1) :
    toVec gf n ((row.set i 1).mapIdx fun k x =>
      if i + 1 ≤ k ∧ k < n ∧ x ≠ 0 then gf.mul x inv else x) = gf.sym inv • toVec gf n row := by
  funext k
  have hk : (k : Nat) < row.length := by omega
  simp only [toVec, Pi.smul_apply, smul_eq_mul]
  rw [getD_eq_getElem _ _ (by simpa using hk), getElem_mapIdx]
  rcases Nat.lt_trichotomy k i with hlt | heq | hgt
  · rw [if_neg (by omega), getElem_set_ne (by omega), ← getD_eq_getElem _ 0 hk,
      hzero k hlt, sym_zero, mul_zero]
  · rw [if_neg (by omega), getElem_set, if_pos heq.symm, heq, hinv, sym_one]
  rw [getElem_set_ne (by omega), getD_eq_getElem _ _ hk]
  by_cases hx : row[(k : Nat)] = 0
  · simp [hx]
  · rw [if_pos ⟨hgt, k.isLt, hx⟩, sym_mul, mul_comm]

/-- `normalize` divides the pivot row by its pivot, in both matrices. -/
theorem normalize_spec (h : d.Rect r c L) (hi : i < r) (hic : i < c) (hpivot : d.entry gf i i ≠ 0)
    (hzero : ∀ k < i, d.entry gf i k = 0) :
    ∃ d', normalize gf c i d = some d' ∧ d'.Rect r c L ∧ d'.pieceCount = d.pieceCount ∧
      d'.rowPair gf c L = update (d.rowPair gf c L) i
        ((d.entry gf i i)⁻¹ • d.rowPair gf c L i) := by
  have hcell := h.cell_eq hi hic
  set x := (d.coeffs.getD i []).getD i 0 with hx
  have hentry : d.entry gf i i = gf.sym x := rfl
  by_cases hx1 : x = 1
  · refine ⟨d, by simp [normalize, hcell, hx1], h, rfl, ?_⟩
    rw [hentry, hx1, sym_one, inv_one, one_smul, update_eq_self]
  have hx0 : x ≠ 0 := fun h0 => hpivot (by rw [hentry, h0, sym_zero])
  have hsym0 : gf.sym x ≠ 0 := by simpa using hx0
  have hinv : gf.sym (gf.div 1 x) = (gf.sym x)⁻¹ := by
    rw [sym_div _ _ hx0, sym_one, one_div]
  have hvec : ((d.coeffs.getD i []).set i 1).length = c := by
    rw [length_set]
    exact h.vector_length_getD hi
  have hpie := h.piece_length_getD hi
  refine ⟨_, by
    simp only [normalize, hcell, Option.bind_eq_bind, Option.bind_some, hx1, if_false,
      scale_eq_some _ hvec.ge, scale_eq_some _ hpie.ge, h.coded_cols (by omega : 0 < r),
      Option.pure_def]
    rfl, ?_, ?_, ?_⟩
  · exact h.set (length_mapIdx.trans hvec) (length_mapIdx.trans hpie)
  · rfl
  rw [h.rowPair_set hi, toVec_scale _ hpie, toVec_normalize (h.vector_length_getD hi)
    (fun k hk => sym_eq_zero.mp (hzero k hk)) (by
      rw [hinv, ← hx, inv_mul_cancel₀ hsym0]), hinv]
  rfl

section

variable (h : RowEquiv gf r c L d₀ d)

include h

/-- `normalize` is a row operation; it makes the pivot one and keeps the zero cells
of its row. -/
theorem RowEquiv.normalize (hi : i < r) (hic : i < c) (hpivot : d.entry gf i i ≠ 0)
    (hzero : ∀ k < i, d.entry gf i k = 0) :
    ∃ d', normalize gf c i d = some d' ∧ RowEquiv gf r c L d₀ d' ∧
      d'.entry gf i i = 1 ∧ (∀ j k, k < c → d.entry gf j k = 0 → d'.entry gf j k = 0) ∧
      ∀ j k, j ≠ i → k < c → d'.entry gf j k = d.entry gf j k := by
  obtain ⟨d', heq, hrect, hcount, hrows⟩ := normalize_spec h.rect hi hic hpivot hzero
  have hcell : ∀ k (hk : k < c), ((d.entry gf i i)⁻¹ • d.rowPair gf c L i).1 ⟨k, hk⟩ =
      (d.entry gf i i)⁻¹ * d.entry gf i k := fun _ _ => rfl
  refine ⟨d', heq, h.of_update hrect hcount hrows (rowSpan_update_smul (inv_ne_zero hpivot) hi)
    fun hrow => absurd (hrow i hic) hpivot, ?_, ?_, ?_⟩
  · rw [entry_update hrows i hic, if_pos rfl, hcell, inv_mul_cancel₀ hpivot]
  · intro j k hk h0
    rw [entry_update hrows j hk]
    split
    · next hj => rw [hcell, ← hj, h0, mul_zero]
    · exact h0
  · intro j k hj hk
    rw [entry_update hrows j hk, if_neg hj]

/-- The inner loop of `clean_backward`: the pivot of row `i` clears its column above it.
Rows from `i` on are not touched, and what the later pivots have cleared stays zero,
because the pivot row is zero in their columns. -/
theorem clearAbove_spec {b : Nat} (hi : i < r) (hib : i < b) (hbc : b ≤ c)
    (hpivot : d.entry gf i i ≠ 0) (htri : Triangular b (d.entry gf))
    (hpiv : PivotsCleared (i + 1) b (d.entry gf)) :
    ∃ d', forUp (eliminate gf c i) 0 i d = some d' ∧ RowEquiv gf r c L d₀ d' ∧
      Triangular b (d'.entry gf) ∧
      (∀ j k, i ≤ j → k < c → d'.entry gf j k = d.entry gf j k) ∧
      (∀ j < i, d'.entry gf j i = 0) ∧
      ∀ k, i < k → k < b → d.entry gf k k ≠ 0 → ∀ j < k, d'.entry gf j k = 0 := by
  have hic : i < c := by omega
  -- The loop rule speaks of the rows up to `0 + i`.
  have hrange : ∀ j, j < i ↔ j < 0 + i := fun j => by rw [Nat.zero_add]
  simp only [hrange]
  refine forUp_inv
    (fun j d' => RowEquiv gf r c L d₀ d' ∧ Triangular b (d'.entry gf) ∧
      (∀ j' k, i ≤ j' → k < c → d'.entry gf j' k = d.entry gf j' k) ∧
      (∀ j' < j, d'.entry gf j' i = 0) ∧
      ∀ k, i < k → k < b → d.entry gf k k ≠ 0 → ∀ j' < k, d'.entry gf j' k = 0)
    (eliminate gf c i) 0 i (s := d)
    ⟨h, htri, fun _ _ _ _ => rfl, fun j' hj' => absurd hj' (Nat.not_lt_zero j'),
      fun k hik hkb hne => (hpiv k hik hkb hne).2⟩ ?_
  rintro j d' - hj ⟨hequiv, htri', hsame, hcol, hkeep⟩
  have hpiv' : d'.entry gf i i ≠ 0 := by
    rw [hsame i i (Nat.le_refl i) hic]
    exact hpivot
  obtain ⟨d'', heq, hequiv'', hclear, hstay⟩ := hequiv.eliminate hi
    (by omega : j < r) (by omega) hic hpiv' fun k hk => htri' i k (by omega) hk
  refine ⟨d'', heq, hequiv'', ?_, ?_, ?_, ?_⟩
  · intro j' k hk hkj
    rw [hstay j' k (by omega) fun _ => htri' i k hk (by omega)]
    exact htri' j' k hk hkj
  · intro j' k hj' hk
    rw [hstay j' k hk (by omega)]
    exact hsame j' k hj' hk
  · intro j' hj'
    by_cases hjj : j' = j
    · rw [hjj]
      exact hclear
    · rw [hstay j' i hic (absurd · hjj)]
      exact hcol j' (by omega)
  · intro k hik hkb hne j' hj'
    rw [hstay j' k (by omega) fun _ => hkeep k hik hkb hne i hik]
    exact hkeep k hik hkb hne j' hj'

/-- One iteration of `clean_backward`: a pivot clears its column above it and is
made one. The pivots below stay as they are. -/
theorem backwardStep_spec {b : Nat} (hi : i < r) (hib : i < b) (hbc : b ≤ c)
    (htri : Triangular b (d.entry gf)) (hpiv : PivotsCleared (i + 1) b (d.entry gf)) :
    ∃ d', backwardStep gf c i d = some d' ∧ RowEquiv gf r c L d₀ d' ∧
      Triangular b (d'.entry gf) ∧ PivotsCleared i b (d'.entry gf) := by
  have hic : i < c := by omega
  have hcell := h.rect.cell_eq hi hic
  by_cases hx : (d.coeffs.getD i []).getD i 0 = 0
  · refine ⟨d, ?_, h, htri, ?_⟩
    · simp only [backwardStep, hcell, Option.bind_eq_bind, Option.bind_some, hx, if_true,
        Option.pure_def]
    intro k hik hkb hne
    rcases Nat.eq_or_lt_of_le hik with rfl | hgt
    · exact absurd (by rw [entry, hx, sym_zero]) hne
    · exact hpiv k hgt hkb hne
  have hpivot : d.entry gf i i ≠ 0 := fun h0 => hx (sym_eq_zero.mp h0)
  obtain ⟨d₁, hloop, hequiv₁, htri₁, hsame₁, hcol₁, hkeep₁⟩ :=
    clearAbove_spec h hi hib hbc hpivot htri hpiv
  have hpivot₁ : d₁.entry gf i i ≠ 0 := by
    rw [hsame₁ i i (Nat.le_refl i) hic]
    exact hpivot
  obtain ⟨d₂, hnorm, hequiv₂, hone, hzero₂, hother₂⟩ := hequiv₁.normalize hi hic hpivot₁
    fun k hk => htri₁ i k (by omega) hk
  refine ⟨d₂, ?_, hequiv₂, ?_, ?_⟩
  · simp only [backwardStep, hcell, Option.bind_eq_bind, Option.bind_some, hx, if_false,
      hloop, hnorm]
  · intro j k hk hkj
    exact hzero₂ j k (by omega) (htri₁ j k hk hkj)
  intro k hik hkb hne
  rcases Nat.eq_or_lt_of_le hik with rfl | hgt
  · exact ⟨hone, fun j hj => hzero₂ j i hic (hcol₁ j (by omega))⟩
  · have hkk : d₂.entry gf k k = d.entry gf k k := by
      rw [hother₂ k k (by omega) (by omega), hsame₁ k k (by omega) (by omega)]
    rw [hkk] at hne ⊢
    exact ⟨(hpiv k hgt hkb hne).1, fun j hj =>
      hzero₂ j k (by omega) (hkeep₁ k hgt hkb hne j hj)⟩

theorem cleanBackward_spec (hr : 0 < r) (htri : Triangular (min r c) (d.entry gf)) :
    ∃ d', cleanBackward gf d = some d' ∧ RowEquiv gf r c L d₀ d' ∧
      Triangular (min r c) (d'.entry gf) ∧ PivotsCleared 0 (min r c) (d'.entry gf) := by
  obtain ⟨d', hloop, hequiv, htri', hpiv⟩ := forDown_inv
    (fun i d' => RowEquiv gf r c L d₀ d' ∧ Triangular (min r c) (d'.entry gf) ∧
      PivotsCleared i (min r c) (d'.entry gf))
    (backwardStep gf c) (min r c) (s := d)
    ⟨h, htri, fun k hk hkb => absurd hkb (by omega)⟩ (by
      rintro i d' hi ⟨hequiv, htri', hpiv⟩
      exact backwardStep_spec hequiv (by omega) hi (Nat.min_le_right r c) htri' hpiv)
  refine ⟨d', ?_, hequiv, htri', hpiv⟩
  simp only [cleanBackward, h.rect.coeffs_cols hr, Option.bind_eq_bind, Option.bind_some,
    Matrix.rows, h.rect.coeffs_length, hloop]

end

/-! ### Removing the zero rows -/

/-- The rows, vector and piece together, whose vector is not zero. -/
def keptRows (d : DecoderState) : List (List UInt8 × List UInt8) :=
  (d.coeffs.zip d.coded).filter fun p => p.1.any (· ≠ 0)

theorem isZeroRow_eq {row : List UInt8} (h : row.length = c) :
    isZeroRow c row = some (!row.any (· ≠ 0)) := by
  unfold isZeroRow
  rw [take_of_length_le h.le]
  cases hany : row.any (· ≠ 0) with
  | true => simp
  | false => simp [h]

theorem dropZeroRows_eq :
    ∀ {coeffs coded : Matrix}, coeffs.length = coded.length → (∀ v ∈ coeffs, v.length = c) →
      dropZeroRows c coeffs coded =
        some (((coeffs.zip coded).filter fun p => p.1.any (· ≠ 0)).map Prod.fst,
          ((coeffs.zip coded).filter fun p => p.1.any (· ≠ 0)).map Prod.snd) := by
  intro coeffs
  induction coeffs with
  | nil =>
    intro coded hlen _
    obtain rfl : coded = [] := length_eq_zero_iff.mp hlen.symm
    rfl
  | cons row coeffs ih =>
    intro coded hlen hvec
    cases coded with
    | nil => exact absurd hlen (by simp)
    | cons piece coded =>
      have ih' := @ih coded (by simpa using hlen)
        fun v hv => hvec v (mem_cons_of_mem _ hv)
      have hzero := isZeroRow_eq (c := c) (hvec row mem_cons_self)
      cases hany : row.any (· ≠ 0) with
      | true =>
        rw [hany] at hzero
        simp only [dropZeroRows, hzero, Option.bind_eq_bind, Option.bind_some, Bool.not_true,
          tail_cons, ih', Option.pure_def, zip_cons_cons]
        rw [filter_cons_of_pos (by simpa using hany)]
        simp
      | false =>
        rw [hany] at hzero
        simp only [dropZeroRows, hzero, Option.bind_eq_bind, Option.bind_some,
          Bool.not_false, if_true, ih', zip_cons_cons]
        rw [filter_cons_of_neg (by simpa using hany)]

theorem removeZeroRows_eq (h : d.Rect r c L) (hr : 0 < r) :
    d.removeZeroRows = some { d with
      coeffs := d.keptRows.map Prod.fst, coded := d.keptRows.map Prod.snd } := by
  simp only [removeZeroRows, h.coeffs_cols hr, Option.bind_eq_bind, Option.bind_some,
    dropZeroRows_eq (h.coeffs_length.trans h.coded_length.symm) h.vector_length, keptRows,
    Option.pure_def]

variable (gf) in
theorem any_ne_zero_iff (h : d.Rect r c L) (hj : j < r) :
    (d.coeffs.getD j []).any (· ≠ 0) = true ↔ ∃ k < c, d.entry gf j k ≠ 0 := by
  have hlen := h.vector_length_getD hj
  rw [any_eq_true]
  constructor
  · rintro ⟨x, hx, hx0⟩
    obtain ⟨k, hk, rfl⟩ := mem_iff_getElem.mp hx
    refine ⟨k, by omega, fun h0 => ?_⟩
    rw [entry, sym_eq_zero, getD_eq_getElem _ _ hk] at h0
    exact absurd h0 (by simpa using hx0)
  · rintro ⟨k, hk, h0⟩
    refine ⟨(d.coeffs.getD j []).getD k 0, ?_, ?_⟩
    · rw [getD_eq_getElem (d.coeffs.getD j []) 0 (by omega)]
      exact getElem_mem _
    · simpa [entry] using h0

variable (gf) in
/-- A row is kept exactly when some entry of its vector is not zero. -/
theorem mem_keptRows (h : d.Rect r c L) {p : List UInt8 × List UInt8} :
    p ∈ d.keptRows ↔ ∃ j < r, p = (d.coeffs.getD j [], d.coded.getD j []) ∧
      ∃ k < c, d.entry gf j k ≠ 0 := by
  have hcoeffs := h.coeffs_length
  have hcoded := h.coded_length
  rw [keptRows, mem_filter, mem_iff_getElem]
  constructor
  · rintro ⟨⟨j, hj, rfl⟩, hany⟩
    rw [length_zip] at hj
    have hjr : j < r := by omega
    rw [getElem_zip] at hany ⊢
    rw [← getD_eq_getElem d.coeffs [] (by omega)] at hany ⊢
    rw [← getD_eq_getElem d.coded [] (by omega)]
    exact ⟨j, hjr, rfl, (any_ne_zero_iff gf h hjr).mp hany⟩
  · rintro ⟨j, hj, rfl, hk⟩
    refine ⟨⟨j, by rw [length_zip]; omega, ?_⟩, (any_ne_zero_iff gf h hj).mpr hk⟩
    rw [getElem_zip, ← getD_eq_getElem d.coeffs [] (by omega),
      ← getD_eq_getElem d.coded [] (by omega)]

/-! ### `Rref` -/

/-- The vectors of the augmented matrix alone. -/
def vectorSpan (gf : GF256) (r c : Nat) (d : DecoderState) : Submodule gf.Sym (Fin c → gf.Sym) :=
  rowSpan gf.Sym r fun j => toVec gf c (d.coeffs.getD j [])

/-- The vector space of the rows is the projection of the augmented row space. -/
theorem vectorSpan_eq_map :
    d.vectorSpan gf r c = (rowSpan gf.Sym r (d.rowPair gf c L)).map
      (LinearMap.fst gf.Sym (Fin c → gf.Sym) (Fin L → gf.Sym)) := by
  rw [vectorSpan, rowSpan, rowSpan, Submodule.map_span, ← Set.image_comp]
  rfl

/-- What the decoder uses of `d' = Rref(d)`, where `d` had `r` rows and `d'` has
`r'`: rows are only dropped; the vectors span the same space; every row left is a
combination of the rows of `d`; no row left is zero, so a zero row of `d` is gone;
and when no row was dropped the shape of the two passes is visible. -/
structure Reduced (gf : GF256) (r r' c L : Nat) (d d' : DecoderState) : Prop where
  rect : d'.Rect r' c L
  pieceCount : d'.pieceCount = d.pieceCount
  le : r' ≤ r
  vectorSpan_eq : d'.vectorSpan gf r' c = d.vectorSpan gf r c
  mem : ∀ j < r', d'.rowPair gf c L j ∈ rowSpan gf.Sym r (d.rowPair gf c L)
  row_ne_zero : ∀ j < r', ∃ k < c, d'.entry gf j k ≠ 0
  lt_of_zero_row : d.HasZeroRow gf r c → r' < r
  shape : r' = r → Triangular (min r c) (d'.entry gf) ∧ PivotsCleared 0 (min r c) (d'.entry gf)

/-- The state with the kept rows only. -/
def withKeptRows (e : DecoderState) : DecoderState :=
  { e with coeffs := e.keptRows.map Prod.fst, coded := e.keptRows.map Prod.snd }

section KeptRows

variable {e : DecoderState}

variable (gf) in
/-- A kept row is a row with a nonzero vector. -/
theorem withKeptRows_from (h : e.Rect r c L) (hj : j < e.keptRows.length) :
    ∃ i < r, (∃ k < c, e.entry gf i k ≠ 0) ∧
      e.withKeptRows.coeffs.getD j [] = e.coeffs.getD i [] ∧
      e.withKeptRows.coded.getD j [] = e.coded.getD i [] := by
  obtain ⟨i, hi, heq, hk⟩ := (mem_keptRows gf h).mp (getElem_mem hj)
  refine ⟨i, hi, hk, ?_, ?_⟩
  · rw [withKeptRows, getD_eq_getElem _ _ (by simpa using hj), getElem_map, heq]
  · rw [withKeptRows, getD_eq_getElem _ _ (by simpa using hj), getElem_map, heq]

theorem rect_withKeptRows (h : e.Rect r c L) : e.withKeptRows.Rect e.keptRows.length c L := by
  refine ⟨by simp [withKeptRows], by simp [withKeptRows], ?_, ?_⟩
  · intro v hv
    obtain ⟨p, hp, rfl⟩ := mem_map.mp hv
    exact h.vector_length _ (of_mem_zip (mem_filter.mp hp).1).1
  · intro v hv
    obtain ⟨p, hp, rfl⟩ := mem_map.mp hv
    exact h.piece_length _ (of_mem_zip (mem_filter.mp hp).1).2

theorem length_zip_rows (h : e.Rect r c L) : (e.coeffs.zip e.coded).length = r := by
  rw [length_zip, h.coeffs_length, h.coded_length, Nat.min_self]

variable (gf) in
/-- When no row was dropped the filter is the identity. -/
theorem entry_withKeptRows (h : e.Rect r c L) (hall : e.keptRows.length = r) :
    e.withKeptRows.entry gf = e.entry gf := by
  have hkept : e.keptRows = e.coeffs.zip e.coded :=
    filter_sublist.eq_of_length (hall.trans (length_zip_rows h).symm)
  have hsame : e.withKeptRows.coeffs = e.coeffs := by
    rw [withKeptRows, hkept]
    exact map_fst_zip (by rw [h.coeffs_length, h.coded_length])
  funext j k
  rw [entry, entry, hsame]

variable (gf) in
/-- Zero rows do not count for the span. -/
theorem vectorSpan_withKeptRows (h : e.Rect r c L) :
    e.withKeptRows.vectorSpan gf e.keptRows.length c = e.vectorSpan gf r c := by
  apply rowSpan_eq_of
  · intro j hj
    obtain ⟨i, hi, -, heq, -⟩ := withKeptRows_from gf h hj
    rw [heq]
    exact mem_rowSpan (M := fun j => toVec gf c (e.coeffs.getD j [])) hi
  intro i hi
  by_cases hk : ∃ k < c, e.entry gf i k ≠ 0
  · obtain ⟨j, hj, heq⟩ := mem_iff_getElem.mp ((mem_keptRows gf h).mpr ⟨i, hi, rfl, hk⟩)
    have hrow : e.withKeptRows.coeffs.getD j [] = e.coeffs.getD i [] := by
      rw [withKeptRows, getD_eq_getElem _ _ (by simpa using hj), getElem_map, heq]
    rw [← hrow]
    exact mem_rowSpan (M := fun j => toVec gf c (e.withKeptRows.coeffs.getD j [])) hj
  have hzero : toVec gf c (e.coeffs.getD i []) = 0 := by
    funext k
    by_contra hne
    exact hk ⟨k, k.isLt, hne⟩
  rw [hzero]
  exact zero_mem _

end KeptRows

/-- Dropping the zero rows of an eliminated matrix. -/
theorem reduced_of_rowEquiv {e : DecoderState} (h : RowEquiv gf r c L d e)
    (htri : Triangular (min r c) (e.entry gf)) (hpiv : PivotsCleared 0 (min r c) (e.entry gf)) :
    Reduced gf r e.keptRows.length c L d e.withKeptRows := by
  have hle : e.keptRows.length ≤ r := length_zip_rows h.rect ▸ length_filter_le _ _
  have hnonzero : ∀ j < e.keptRows.length, ∃ k < c, e.withKeptRows.entry gf j k ≠ 0 := by
    intro j hj
    obtain ⟨i, -, ⟨k, hk, hne⟩, heq, -⟩ := withKeptRows_from gf h.rect hj
    refine ⟨k, hk, ?_⟩
    rwa [entry, heq]
  refine ⟨rect_withKeptRows h.rect, h.pieceCount, hle, ?_, ?_, hnonzero, ?_, ?_⟩
  · rw [vectorSpan_withKeptRows gf h.rect, vectorSpan_eq_map, vectorSpan_eq_map,
      h.rowSpan_eq]
  · intro j hj
    obtain ⟨i, hi, -, h₁, h₂⟩ := withKeptRows_from gf h.rect hj
    rw [← h.rowSpan_eq, rowPair, h₁, h₂]
    exact mem_rowSpan (M := e.rowPair gf c L) hi
  · intro hzero₀
    obtain ⟨z, hz, hrow⟩ := h.zero_row hzero₀
    refine Nat.lt_of_le_of_ne hle fun hall => ?_
    obtain ⟨k, hk, hne⟩ := hnonzero z (hall.symm ▸ hz)
    rw [entry_withKeptRows gf h.rect hall] at hne
    exact hne (hrow k hk)
  · intro hall
    rw [entry_withKeptRows gf h.rect hall]
    exact ⟨htri, hpiv⟩

section Spec

variable (gf) (h : d.Rect r c L) (hr : 0 < r)

include h hr

theorem rref_passes :
    ∃ d₁ d₂, cleanForward gf d = some d₁ ∧ cleanBackward gf d₁ = some d₂ ∧
      rref gf d = some d₂.withKeptRows ∧
      Reduced gf r d₂.keptRows.length c L d d₂.withKeptRows := by
  obtain ⟨d₁, hfwd, hequiv₁, htri₁⟩ := cleanForward_spec gf h hr
  obtain ⟨d₂, hbwd, hequiv₂, htri₂, hpiv₂⟩ := cleanBackward_spec hequiv₁ hr htri₁
  refine ⟨d₁, d₂, hfwd, hbwd, ?_, reduced_of_rowEquiv hequiv₂ htri₂ hpiv₂⟩
  simp only [rref, hfwd, hbwd, removeZeroRows_eq hequiv₂.rect hr, Option.bind_eq_bind,
    Option.bind_some, withKeptRows]

/-- `Rref` of a rectangular state with at least one row does not panic and gives
its reduction. -/
theorem rref_spec : ∃ d' r', rref gf d = some d' ∧ Reduced gf r r' c L d d' := by
  obtain ⟨_, d₂, -, -, hrref, hred⟩ := rref_passes gf h hr
  exact ⟨_, _, hrref, hred⟩

/-- **`Rref` works on the augmented system**: what is left of it are combinations of the original
rows, vector and piece together, with the original span of the vectors, and the rows that the last
step has removed were zero. -/
theorem rref_keeps_system :
    ∃ d₁ d₂ d' r', cleanForward gf d = some d₁ ∧ cleanBackward gf d₁ = some d₂ ∧
      rref gf d = some d' ∧ d'.coeffs = d₂.keptRows.map Prod.fst ∧
      d'.coded = d₂.keptRows.map Prod.snd ∧ d'.Rect r' c L ∧
      d'.vectorSpan gf r' c = d.vectorSpan gf r c ∧
      ∀ j < r', ∃ a : Fin r → gf.Sym, ∑ i, a i • d.rowPair gf c L i = d'.rowPair gf c L j := by
  obtain ⟨d₁, d₂, hfwd, hbwd, hrref, hred⟩ := rref_passes gf h hr
  exact ⟨d₁, d₂, _, _, hfwd, hbwd, hrref, rfl, rfl, hred.rect, hred.vectorSpan_eq,
    fun j hj => mem_rowSpan_iff.mp (hred.mem j hj)⟩

end Spec

/-- Three rows that need a swap, eliminations and the removal of a row. -/
theorem rref_keeps_system_three_rows :
    let d : DecoderState := ⟨2, [[0, 1], [1, 1], [1, 0]], [[5], [6], [3]]⟩
    ∃ d' r', rref poly84320 d = some d' ∧ d'.coeffs = [[1, 0], [0, 1]] ∧
      d'.vectorSpan poly84320 r' 2 = d.vectorSpan poly84320 3 2 ∧
      ∀ j < r', ∃ a : Fin 3 → poly84320.Sym,
        ∑ i, a i • d.rowPair poly84320 2 1 i = d'.rowPair poly84320 2 1 j := by
  intro d
  obtain ⟨_, _, d', r', -, -, hrref, -, -, -, hspan, hpairs⟩ :=
    rref_keeps_system (r := 3) (c := 2) (L := 1) (d := d) poly84320
      ⟨rfl, rfl, by simp [d], by simp [d]⟩ (by decide)
  have hresult : (rref poly84320 d).map coeffs = some [[1, 0], [0, 1]] := by decide +kernel
  rw [hrref] at hresult
  exact ⟨d', r', hrref, Option.some_inj.mp hresult, hspan, hpairs⟩

end DecoderState

end RlncStreaming.Kodr
