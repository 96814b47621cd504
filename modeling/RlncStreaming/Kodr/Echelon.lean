import RlncStreaming.Kodr.Coders
import RlncStreaming.Lib.Echelon

/-!
`Rref` and the reduced row echelon form (`kodr/matrix/decoder_state.go`).

Both passes look for the pivot of row `i` in column `i` only. If a column has none, its row is left
as it is and the next row goes on with the next column. The result is the reduced row echelon form
whenever the pivots of that form are the first columns (`PivotsFirst`). Otherwise the row space has
a matrix for which it is not (`rref_correct_iff`). The zero matrix loses all its rows, and a second
`Rref` panics.
-/

namespace RlncStreaming.Kodr

open Lib List Option Submodule

/-- `M` is the reduced row echelon form of the vectors `vs`, without its zero rows. -/
structure IsRref (gf : GF256) (c : Nat) (vs M : Matrix) : Prop where
  length : ∀ row ∈ M, row.length = c
  reduced : ReducedRows (M.map (toVec gf c))
  span : codeSpan gf c M = codeSpan gf c vs

/-- The dimension of the row space. -/
noncomputable def vectorRank (gf : GF256) (c : Nat) (vs : Matrix) : Nat :=
  Module.finrank gf.Sym (codeSpan gf c vs)

/-- `Rref` leaves the reduced row echelon form and no other matrix is one, `Rank` is the rank, and
a second `Rref` changes nothing. -/
def DecoderState.RrefCorrect (gf : GF256) (c : Nat) (d : DecoderState) : Prop :=
  ∃ d', d.rref gf = some d' ∧ (∀ M, IsRref gf c d.coeffs M ↔ M = d'.coeffs) ∧
    d'.rank = vectorRank gf c d.coeffs ∧ d'.rref gf = some d'

/-- Some row is not zero, and no combination of the rows but zero begins with as many zeros as the
rank: the first columns are independent, and the reduced row echelon form has its pivots there. -/
structure PivotsFirst (gf : GF256) (c : Nat) (vs : Matrix) : Prop where
  ne_bot : codeSpan gf c vs ≠ ⊥
  injective : ∀ v ∈ codeSpan gf c vs, (∀ k : Fin c, k < vectorRank gf c vs → v k = 0) → v = 0

variable {gf : GF256} {r c L : Nat}

theorem listSpan_toVec (vs : Matrix) :
    listSpan gf.Sym (vs.map (toVec gf c)) = codeSpan gf c vs := by
  rw [listSpan, codeSpan]
  congr 1
  ext v
  simp

variable {vs : Matrix}

/-- There is at most one reduced row echelon form. -/
theorem IsRref.unique {M M' : Matrix} (h : IsRref gf c vs M) (h' : IsRref gf c vs M') : M = M' := by
  have hmap : M.map (toVec gf c) = M'.map (toVec gf c) := by
    apply h.reduced.unique h'.reduced
    rw [listSpan_toVec, listSpan_toVec, h.span, h'.span]
  apply ext_getElem
  · simpa using congrArg List.length hmap
  intro i hi hi'
  have hrow : toVec gf c M[i] = toVec gf c M'[i] := by
    have hget := congrArg (·[i]?) hmap
    simpa [hi, hi'] using hget
  exact eq_of_toVec_eq (h.length _ (getElem_mem hi)) (h'.length _ (getElem_mem hi')) hrow

/-- Every row of a reduced row echelon form has a one as its first entry that is not zero. -/
theorem IsRref.leading_one {M : Matrix} (h : IsRref gf c vs M) {row : List UInt8} (hrow : row ∈ M)
    {k : Fin c} (hbefore : ∀ k' < k, toVec gf c row k' = 0) (hk : toVec gf c row k ≠ 0) :
    toVec gf c row k = 1 := by
  have hmem : toVec gf c row ∈ M.map (toVec gf c) := mem_map_of_mem hrow
  obtain ⟨i, hi⟩ := get_of_mem hmem
  rw [← hi] at hbefore hk ⊢
  exact h.reduced.echelon.eq_one ⟨hbefore, hk⟩

/-- A vector as a slice. -/
def ofVec {c : Nat} (v : Fin c → gf.Sym) : List UInt8 := List.ofFn fun k => (v k).byte

theorem length_ofVec (v : Fin c → gf.Sym) : (ofVec v).length = c := length_ofFn

theorem getD_ofVec (v : Fin c → gf.Sym) (k : Fin c) : (ofVec v).getD k 0 = (v k).byte := by
  unfold ofVec
  rw [List.getD_eq_getElem _ _ (by rw [List.length_ofFn]; exact k.isLt), List.getElem_ofFn]

theorem toVec_ofVec (v : Fin c → gf.Sym) : toVec gf c (ofVec v) = v := by
  funext k
  rw [toVec, getD_ofVec]
  rfl

theorem ofVec_zero : ofVec (0 : Fin c → gf.Sym) = replicate c 0 :=
  eq_of_toVec_eq (length_ofVec _) length_replicate
    ((toVec_ofVec _).trans (toVec_replicate_zero c c).symm)

theorem PivotsFirst.pos (h : PivotsFirst gf c vs) : 0 < vectorRank gf c vs :=
  one_le_finrank_iff.mpr h.ne_bot

/-- The condition is one on the row space. -/
theorem PivotsFirst.congr {vs' : Matrix} (h : PivotsFirst gf c vs)
    (hspan : codeSpan gf c vs' = codeSpan gf c vs) : PivotsFirst gf c vs' := by
  have hrank : vectorRank gf c vs' = vectorRank gf c vs := by rw [vectorRank, hspan, vectorRank]
  constructor
  · rw [hspan]
    exact h.ne_bot
  · rw [hspan, hrank]
    exact h.injective

namespace DecoderState

variable {d e : DecoderState}

theorem vectorSpan_eq_codeSpan (h : d.Rect r c L) :
    d.vectorSpan gf r c = codeSpan gf c d.coeffs := by
  rw [codeSpan_eq_rowSpan, h.coeffs_length]
  rfl

theorem vectorRank_le_rows (gf : GF256) (h : d.Rect r c L) : vectorRank gf c d.coeffs ≤ r := by
  rw [vectorRank, ← vectorSpan_eq_codeSpan h]
  exact finrank_rowSpan_le r _

theorem vectorRank_le_cols (gf : GF256) (c : Nat) (vs : Matrix) : vectorRank gf c vs ≤ c := by
  have hle := finrank_le (codeSpan gf c vs)
  rwa [Module.finrank_fin_fun] at hle

/-! ### A matrix that begins with the identity -/

/-- The first `n` columns of the first `n` rows are the identity matrix. -/
def BeginsWithIdentity (gf : GF256) (n : Nat) (d : DecoderState) : Prop :=
  ∀ j < n, ∀ k < n, d.entry gf j k = if j = k then 1 else 0

theorem BeginsWithIdentity.cell (hid : d.BeginsWithIdentity gf r) (h : d.Rect r c L) (hrc : r ≤ c)
    {j k : Nat} (hj : j < r) (hk : k < r) :
    d.coeffs.cell j k = some (if j = k then 1 else 0) := by
  rw [h.cell_eq hj (by omega), some_inj]
  have hentry := hid j hj k hk
  unfold entry at hentry
  split at hentry
  · next heq => exact (GF256.sym_inj.mp hentry).trans (if_pos heq).symm
  · next hne => exact (GF256.sym_inj.mp hentry).trans (if_neg hne).symm

variable {i : Nat}

theorem eliminate_of_zero {j : Nat} (hzero : d.coeffs.cell j i = some 0) :
    eliminate gf c i j d = some d := by
  simp [eliminate, hzero]

section

variable (hid : d.BeginsWithIdentity gf r) (h : d.Rect r c L) (hrc : r ≤ c) (hi : i < r)

include hid h hrc hi

theorem forwardStep_of_identity : forwardStep gf r c i d = some d := by
  have hpivot : selectPivot r i d = some (true, d) := by
    simp [selectPivot, hid.cell h hrc hi hi]
  simp only [forwardStep, hpivot, bind_eq_bind, bind_some, if_true]
  obtain ⟨d', hloop, rfl⟩ := forUp_inv (fun _ d' => d = d') (eliminate gf c i) (i + 1)
    (r - (i + 1)) rfl (by
      rintro j _ hlo hhi rfl
      refine ⟨d, eliminate_of_zero ?_, rfl⟩
      rw [hid.cell h hrc (by omega) hi, if_neg (by omega)])
  exact hloop

theorem backwardStep_of_identity : backwardStep gf c i d = some d := by
  have hpivot := hid.cell h hrc hi hi
  rw [if_pos rfl] at hpivot
  obtain ⟨d', hloop, rfl⟩ := forUp_inv (fun _ d' => d = d') (eliminate gf c i) 0 i rfl (by
    rintro j _ - hhi rfl
    refine ⟨d, eliminate_of_zero ?_, rfl⟩
    rw [hid.cell h hrc (by omega) hi, if_neg (by omega)])
  simp [backwardStep, normalize, hpivot, hloop]

end

theorem filter_eq_take {α : Type} {p : α → Bool} {l : List α} {n : Nat}
    (h : ∀ j (hj : j < l.length), p l[j] = true ↔ j < n) : l.filter p = l.take n := by
  conv_lhs => rw [← take_append_drop n l, filter_append]
  have hkeep : (l.take n).filter p = l.take n := by
    refine filter_eq_self.mpr fun x hx => ?_
    obtain ⟨j, hj, rfl⟩ := mem_take_iff_getElem.mp hx
    exact (h j (by omega)).mpr (by omega)
  have hdrop : (l.drop n).filter p = [] := by
    refine filter_eq_nil_iff.mpr fun x hx => ?_
    obtain ⟨j, hj, rfl⟩ := mem_drop_iff_getElem.mp hx
    intro hp
    exact absurd ((h (n + j) (by omega)).mp hp) (by omega)
  rw [hkeep, hdrop, append_nil]

/-- If the first `n` rows are those that are not zero, they are kept. -/
theorem keptRows_eq_take (h : d.Rect r c L) {n : Nat}
    (hrows : ∀ j < r, (∃ k < c, d.entry gf j k ≠ 0) ↔ j < n) :
    d.keptRows = (d.coeffs.zip d.coded).take n := by
  refine filter_eq_take fun j hj => ?_
  have hjr : j < r := length_zip_rows h ▸ hj
  rw [← hrows j hjr, ← any_ne_zero_iff gf h hjr, getElem_zip,
    getD_eq_getElem d.coeffs [] (h.coeffs_length.symm ▸ hjr)]

/-- No row is removed if none is zero. -/
theorem removeZeroRows_of_ne_zero (h : d.Rect r c L) (hr : 0 < r)
    (hrows : ∀ j < r, ∃ k < c, d.entry gf j k ≠ 0) : d.removeZeroRows = some d := by
  have hkept := keptRows_eq_take h (n := r) fun j hj => iff_of_true (hrows j hj) hj
  rw [removeZeroRows_eq h hr, hkept, take_of_length_le (length_zip_rows h).le,
    map_fst_zip, map_snd_zip]
  · exact (h.coded_length.trans h.coeffs_length.symm).le
  · exact (h.coeffs_length.trans h.coded_length.symm).le

/-- `Rref` leaves it as it is. -/
theorem rref_of_identity (hid : d.BeginsWithIdentity gf r) (h : d.Rect r c L) (hr : 0 < r)
    (hrc : r ≤ c) : d.rref gf = some d := by
  have hcols := h.coeffs_cols hr
  have hbound : min r c = r := Nat.min_eq_left hrc
  obtain ⟨_, hforward, rfl⟩ := forUp_inv (fun _ d' => d = d') (forwardStep gf r c) 0 r rfl (by
    rintro i _ - hi rfl
    exact ⟨d, forwardStep_of_identity hid h hrc (by omega), rfl⟩)
  obtain ⟨_, hbackward, rfl⟩ := forDown_inv (fun _ d' => d = d') (backwardStep gf c) r rfl (by
    rintro i _ hi rfl
    exact ⟨d, backwardStep_of_identity hid h hrc hi, rfl⟩)
  have hremove : d.removeZeroRows = some d := removeZeroRows_of_ne_zero h hr fun j hj =>
    ⟨j, by omega, by rw [hid j hj j hj, if_pos rfl]; exact one_ne_zero⟩
  simp only [rref, cleanForward, cleanBackward, hcols, Matrix.rows, h.coeffs_length, hbound,
    hforward, hbackward, hremove, bind_eq_bind, bind_some]

theorem isRref_of_identity (hid : d.BeginsWithIdentity gf r) (h : d.Rect r c L) (hrc : r ≤ c)
    (hspan : codeSpan gf c d.coeffs = codeSpan gf c vs) : IsRref gf c vs d.coeffs := by
  refine ⟨h.vector_length, ?_, hspan⟩
  have hlength : (d.coeffs.map (toVec gf c)).length = r := by rw [length_map, h.coeffs_length]
  apply reducedRows_of_identity (hlength.trans_le hrc)
  intro i j
  have hentry := hid i (hlength ▸ i.isLt) j (hlength ▸ j.isLt)
  have hi : (i : Nat) < d.coeffs.length := i.isLt.trans_eq (hlength.trans h.coeffs_length.symm)
  rw [entry, getD_eq_getElem _ _ hi] at hentry
  rw [get_eq_getElem, getElem_map, toVec, Fin.val_castLE, hentry]
  simp only [Fin.ext_iff]

/-! ### The pivots are the first columns -/

/-- A row of a matrix with the pivots first is zero if it begins with enough zeros. -/
theorem row_eq_zero_of_pivotsFirst (hfirst : PivotsFirst gf c vs)
    (hspan : d.vectorSpan gf r c = codeSpan gf c vs) {j : Nat} (hj : j < r)
    (hzero : ∀ k < vectorRank gf c vs, d.entry gf j k = 0) :
    toVec gf c (d.coeffs.getD j []) = 0 := by
  have hmem : toVec gf c (d.coeffs.getD j []) ∈ d.vectorSpan gf r c :=
    mem_rowSpan (M := fun j => toVec gf c (d.coeffs.getD j [])) hj
  exact hfirst.injective _ (hspan ▸ hmem) fun k hk => hzero k hk

theorem toVec_eq_zero_iff {j : Nat} :
    toVec gf c (d.coeffs.getD j []) = 0 ↔ ∀ k < c, d.entry gf j k = 0 := by
  constructor
  · intro h k hk
    exact congrFun h ⟨k, hk⟩
  · intro h
    funext k
    exact h k k.isLt

/-- After both passes the rows that are not zero are the first ones, and they begin with the
identity matrix. -/
theorem passes_of_pivotsFirst (hfirst : PivotsFirst gf c vs)
    (hspan : e.vectorSpan gf r c = codeSpan gf c vs) (htri : Triangular (min r c) (e.entry gf))
    (hpiv : PivotsCleared 0 (min r c) (e.entry gf)) :
    (∀ j < r, (∃ k < c, e.entry gf j k ≠ 0) ↔ j < vectorRank gf c vs) ∧
      e.BeginsWithIdentity gf (vectorRank gf c vs) := by
  have hrank : vectorRank gf c vs ≤ min r c := by
    apply Nat.le_min.mpr
    constructor
    · rw [vectorRank, ← hspan]
      exact finrank_rowSpan_le r _
    · exact vectorRank_le_cols gf c vs
  have hbelow : ∀ j < r, vectorRank gf c vs ≤ j → toVec gf c (e.coeffs.getD j []) = 0 := by
    intro j hj hle
    refine row_eq_zero_of_pivotsFirst hfirst hspan hj fun k hk => ?_
    exact htri j k (by omega) (by omega)
  -- a zero row among the first ones would leave too few for the rank
  have habove : ∀ j < vectorRank gf c vs, toVec gf c (e.coeffs.getD j []) ≠ 0 := by
    intro j hj hzero
    have hshort : rowSpan gf.Sym (vectorRank gf c vs) (fun j => toVec gf c (e.coeffs.getD j [])) =
        codeSpan gf c vs := by
      rw [← hspan]
      apply rowSpan_eq_of
      · intro i hi
        exact mem_rowSpan (M := fun j => toVec gf c (e.coeffs.getD j [])) (by omega)
      intro i hi
      by_cases hlt : i < vectorRank gf c vs
      · exact mem_rowSpan (M := fun j => toVec gf c (e.coeffs.getD j [])) hlt
      rw [hbelow i hi (by omega)]
      exact zero_mem _
    have hlt := finrank_rowSpan_lt (F := gf.Sym) (M := fun j => toVec gf c (e.coeffs.getD j [])) hj
      hzero
    rw [hshort] at hlt
    exact Nat.lt_irrefl _ hlt
  constructor
  · intro j hj
    constructor
    · rintro ⟨k, hk, hne⟩
      by_contra hle
      exact hne (toVec_eq_zero_iff.mp (hbelow j hj (by omega)) k hk)
    · intro hlt
      by_contra hno
      refine habove j hlt (toVec_eq_zero_iff.mpr fun k hk => ?_)
      by_contra hne
      exact hno ⟨k, hk, hne⟩
  · apply identity_of_rows_ne_zero
    · intro j k hk hkj
      exact htri j k (by omega) hkj
    · intro k hlo hk hne
      exact hpiv k hlo (by omega) hne
    intro j hj
    by_contra hno
    refine habove j hj (row_eq_zero_of_pivotsFirst hfirst hspan (by omega) fun k hk => ?_)
    by_contra hne
    exact hno ⟨k, hk, hne⟩

/-- With the pivots first `Rref` is correct. -/
theorem rrefCorrect_of_pivotsFirst (h : d.Rect r c L) (hr : 0 < r)
    (hfirst : PivotsFirst gf c d.coeffs) : d.RrefCorrect gf c := by
  obtain ⟨d₁, hforward, hequiv₁, htri₁⟩ := cleanForward_spec gf h hr
  obtain ⟨e, hbackward, hequiv, htri, hpiv⟩ := cleanBackward_spec hequiv₁ hr htri₁
  have hspan : e.vectorSpan gf r c = codeSpan gf c d.coeffs := by
    rw [← vectorSpan_eq_codeSpan h, vectorSpan_eq_map, vectorSpan_eq_map,
      hequiv.rowSpan_eq]
  obtain ⟨hrows, hid⟩ := passes_of_pivotsFirst hfirst hspan htri hpiv
  have hkept := keptRows_eq_take hequiv.rect hrows
  have hrref : d.rref gf = some e.withKeptRows := by
    simp only [rref, hforward, hbackward, removeZeroRows_eq hequiv.rect hr, bind_eq_bind,
      bind_some, withKeptRows]
  have hrank := vectorRank_le_rows gf h
  have hlength : e.keptRows.length = vectorRank gf c d.coeffs := by
    rw [hkept, length_take, length_zip_rows hequiv.rect, Nat.min_eq_left hrank]
  have hrect := rect_withKeptRows hequiv.rect
  rw [hlength] at hrect
  have hentry : ∀ j < vectorRank gf c d.coeffs, ∀ k,
      e.withKeptRows.entry gf j k = e.entry gf j k := by
    intro j hj k
    have hrow : e.withKeptRows.coeffs.getD j [] = e.coeffs.getD j [] := by
      have hfst : e.withKeptRows.coeffs = e.coeffs.take (vectorRank gf c d.coeffs) := by
        rw [withKeptRows, hkept, map_take, map_fst_zip]
        exact (hequiv.rect.coeffs_length.trans hequiv.rect.coded_length.symm).le
      rw [hfst, getD_eq_getElem?_getD, getElem?_take_of_lt hj, getD_eq_getElem?_getD]
    rw [entry, hrow, entry]
  have hid' : e.withKeptRows.BeginsWithIdentity gf (vectorRank gf c d.coeffs) := by
    intro j hj k hk
    rw [hentry j hj k]
    exact hid j hj k hk
  have hspan' : codeSpan gf c e.withKeptRows.coeffs = codeSpan gf c d.coeffs := by
    rw [← vectorSpan_eq_codeSpan hrect, ← hspan, ← vectorSpan_withKeptRows gf hequiv.rect,
      hlength]
  have hcols := vectorRank_le_cols gf c d.coeffs
  have hisRref := isRref_of_identity hid' hrect hcols hspan'
  refine ⟨e.withKeptRows, hrref, ?_, hrect.coeffs_length, rref_of_identity hid' hrect
    hfirst.pos hcols⟩
  intro M
  constructor
  · intro hM
    exact hM.unique hisRref
  · rintro rfl
    exact hisRref

/-! ### A row that no pass touches -/

/-- Row `m` is `row`, which is zero up to column `m`, and the rows below it are zero. -/
structure Stuck (c m : Nat) (row : List UInt8) (d : DecoderState) : Prop where
  zeros : ∀ k ≤ m, row.getD k 0 = 0
  at_row : d.coeffs[m]? = some row
  below : ∀ j, m < j → ∀ row', d.coeffs[j]? = some row' → row' = List.replicate c 0

variable {m : Nat} {row : List UInt8} {d' : DecoderState}

section

variable (hs : d.Stuck c m row) {j : Nat}

include hs

/-- From row `m` on the columns that a pass looks at are zero. -/
theorem Stuck.cell_eq_zero {x : UInt8} (hj : m ≤ j) (hi : i ≤ j)
    (hcell : d.coeffs.cell j i = some x) : x = 0 := by
  obtain ⟨row', hrow', hx⟩ := bind_eq_some_iff.mp hcell
  rcases Nat.eq_or_lt_of_le hj with rfl | hlt
  · rw [hs.at_row, some_inj] at hrow'
    subst hrow'
    have hzero := hs.zeros i hi
    rwa [getD_eq_getElem?_getD, hx, getD_some] at hzero
  · rw [hs.below j hlt row' hrow', getElem?_replicate] at hx
    split at hx
    · cases hx
      rfl
    · cases hx

theorem Stuck.set (hj : j < m) {row' : List UInt8} (hcoeffs : d'.coeffs = d.coeffs.set j row')
    : d'.Stuck c m row := by
  refine ⟨hs.zeros, ?_, ?_⟩
  · rw [hcoeffs, getElem?_set_ne hj.ne]
    exact hs.at_row
  · intro j' hj' row'' hrow''
    rw [hcoeffs, getElem?_set_ne (by omega)] at hrow''
    exact hs.below j' hj' row'' hrow''

theorem Stuck.eliminate (hi : i < m) (h : eliminate gf c i j d = some d') : d'.Stuck c m row := by
  unfold DecoderState.eliminate at h
  obtain ⟨x, hx, h⟩ := bind_eq_some_iff.mp h
  split at h
  · cases h
    exact hs
  rename_i hne
  have hj : j < m := by
    by_contra hle
    exact hne (hs.cell_eq_zero (by omega) (by omega) hx)
  obtain ⟨y, -, h⟩ := bind_eq_some_iff.mp h
  obtain ⟨row', -, h⟩ := bind_eq_some_iff.mp h
  obtain ⟨width, -, h⟩ := bind_eq_some_iff.mp h
  obtain ⟨piece, -, h⟩ := bind_eq_some_iff.mp h
  cases h
  exact hs.set hj rfl

end

/-- The search for a pivot finds a cell that is not zero. -/
theorem findPivot_cell {M : Matrix} {p : Nat} :
    ∀ {n pivot : Nat}, findPivot M i pivot n = some (some p) →
      pivot ≤ p ∧ ∃ x, M.cell p i = some x ∧ x ≠ 0 := by
  intro n
  induction n with
  | zero =>
    intro pivot h
    cases h
  | succ n ih =>
    intro pivot h
    obtain ⟨x, hx, h⟩ := bind_eq_some_iff.mp h
    split at h
    · next hne =>
      cases h
      exact ⟨Nat.le_refl _, x, hx, hne⟩
    · obtain ⟨hle, hcell⟩ := ih h
      exact ⟨by omega, hcell⟩

section

variable (hs : d.Stuck c m row)

include hs

theorem Stuck.selectPivot {found : Bool} (h : selectPivot r i d = some (found, d')) :
    d'.Stuck c m row ∧ (m ≤ i → found = false ∧ d' = d) := by
  unfold DecoderState.selectPivot at h
  obtain ⟨x, hx, h⟩ := bind_eq_some_iff.mp h
  split at h
  · next hne =>
    cases h
    exact ⟨hs, fun hle => absurd (hs.cell_eq_zero hle (Nat.le_refl i) hx) hne⟩
  obtain ⟨result, hfind, h⟩ := bind_eq_some_iff.mp h
  cases result with
  | none =>
    cases h
    exact ⟨hs, fun _ => ⟨rfl, rfl⟩⟩
  | some p =>
    obtain ⟨hlt, y, hy, hne⟩ := findPivot_cell hfind
    have hp : p < m := by
      by_contra hle
      exact hne (hs.cell_eq_zero (by omega) (by omega) hy)
    obtain ⟨coeffs, hcoeffs, h⟩ := bind_eq_some_iff.mp h
    obtain ⟨coded, -, h⟩ := bind_eq_some_iff.mp h
    obtain ⟨a, -, hcoeffs⟩ := bind_eq_some_iff.mp hcoeffs
    obtain ⟨b, -, hcoeffs⟩ := map_eq_some_iff.mp hcoeffs
    cases h
    subst hcoeffs
    refine ⟨?_, fun hle => by omega⟩
    have hfirst : Stuck c m row { d with coeffs := d.coeffs.set i b } := hs.set (by omega) rfl
    exact hfirst.set hp rfl

theorem Stuck.forwardStep (h : forwardStep gf r c i d = some d') : d'.Stuck c m row := by
  unfold DecoderState.forwardStep at h
  obtain ⟨⟨found, d₁⟩, hselect, h⟩ := bind_eq_some_iff.mp h
  obtain ⟨hs₁, hskip⟩ := hs.selectPivot hselect
  cases found with
  | false =>
    cases h
    exact hs₁
  | true =>
    have hi : i < m := by
      by_contra hle
      cases (hskip (by omega)).1
    exact forUp_keeps (P := Stuck c m row) (fun _ _ _ hkeep hstep => hkeep.eliminate hi hstep) hs₁ h

theorem Stuck.normalize (hi : i < m) (h : normalize gf c i d = some d') : d'.Stuck c m row := by
  unfold DecoderState.normalize at h
  obtain ⟨x, hx, h⟩ := bind_eq_some_iff.mp h
  split at h
  · cases h
    exact hs
  obtain ⟨row', -, h⟩ := bind_eq_some_iff.mp h
  obtain ⟨width, -, h⟩ := bind_eq_some_iff.mp h
  obtain ⟨piece, -, h⟩ := bind_eq_some_iff.mp h
  cases h
  exact hs.set hi rfl

theorem Stuck.backwardStep (h : backwardStep gf c i d = some d') : d'.Stuck c m row := by
  unfold DecoderState.backwardStep at h
  obtain ⟨x, hx, h⟩ := bind_eq_some_iff.mp h
  split at h
  · cases h
    exact hs
  rename_i hne
  have hi : i < m := by
    by_contra hle
    exact hne (hs.cell_eq_zero (by omega) (Nat.le_refl i) hx)
  obtain ⟨d₁, hloop, h⟩ := bind_eq_some_iff.mp h
  have hs₁ := forUp_keeps (P := Stuck c m row)
    (fun _ _ _ hkeep hstep => hkeep.eliminate hi hstep) hs hloop
  exact hs₁.normalize hi h

/-- The row is among those that are left. -/
theorem Stuck.mem_rref (h : d.Rect r c L) (hrow : row.any (· ≠ 0) = true)
    (hrref : d.rref gf = some d') : row ∈ d'.coeffs := by
  have hr : 0 < r := by
    obtain ⟨hlt, -⟩ := List.getElem?_eq_some_iff.mp hs.at_row
    rw [← h.coeffs_length]
    omega
  obtain ⟨d₁, hforward, hequiv₁, htri₁⟩ := cleanForward_spec gf h hr
  obtain ⟨e, hbackward, hequiv, -, -⟩ := cleanBackward_spec hequiv₁ hr htri₁
  have hs₁ : d₁.Stuck c m row := by
    rw [cleanForward, h.coeffs_cols hr] at hforward
    exact forUp_keeps (P := Stuck c m row) (fun _ _ _ hkeep hstep => hkeep.forwardStep hstep) hs
      hforward
  have hs₂ : e.Stuck c m row := by
    rw [cleanBackward, hequiv₁.rect.coeffs_cols hr] at hbackward
    exact forDown_keeps (P := Stuck c m row) (fun _ _ _ hkeep hstep => hkeep.backwardStep hstep)
      hs₁ hbackward
  simp only [rref, hforward, hbackward, removeZeroRows_eq hequiv.rect hr, bind_eq_bind,
    bind_some, some_inj] at hrref
  obtain ⟨hlt, hget⟩ := List.getElem?_eq_some_iff.mp hs₂.at_row
  have hcoded : m < e.coded.length := by
    rw [hequiv.rect.coded_length, ← hequiv.rect.coeffs_length]
    exact hlt
  rw [← hrref]
  refine mem_map.mpr ⟨(row, e.coded[m]), mem_filter.mpr ⟨?_, hrow⟩, rfl⟩
  rw [← hget]
  have hzip : m < (e.coeffs.zip e.coded).length := by
    rw [length_zip]
    exact Nat.lt_min.mpr ⟨hlt, hcoded⟩
  have hmem := getElem_mem hzip
  rwa [getElem_zip] at hmem

end

/-! ### The pivots are not the first columns -/

/-- The state whose vectors are the first `r` rows of `w`. -/
def ofRows (r L : Nat) (w : Nat → Fin c → gf.Sym) : DecoderState where
  pieceCount := c
  coeffs := (List.range r).map fun j => ofVec (w j)
  coded := List.replicate r (List.replicate L 0)

section

variable (w : Nat → Fin c → gf.Sym)

theorem rect_ofRows : (ofRows r L w).Rect r c L := by
  refine ⟨by simp [ofRows], by simp [ofRows], ?_, ?_⟩
  · intro v hv
    obtain ⟨j, -, rfl⟩ := mem_map.mp hv
    exact length_ofVec (w j)
  · intro piece hpiece
    rw [eq_of_mem_replicate hpiece, length_replicate]

theorem getElem_ofRows {j : Nat} (hj : j < r) : (ofRows r L w).coeffs[j]? = some (ofVec (w j)) := by
  simp [ofRows, hj]

theorem codeSpan_ofRows : codeSpan gf c (ofRows r L w).coeffs = rowSpan gf.Sym r w := by
  rw [← vectorSpan_eq_codeSpan (rect_ofRows w), vectorSpan]
  apply rowSpan_eq_of
  · intro j hj
    rw [getD_eq_getElem?_getD, getElem_ofRows w hj, getD_some, toVec_ofVec]
    exact mem_rowSpan hj
  · intro j hj
    have hmem := mem_rowSpan (F := gf.Sym) (r := r)
      (M := fun j => toVec gf c ((ofRows r L w).coeffs.getD j [])) hj
    rwa [getD_eq_getElem?_getD, getElem_ofRows w hj, getD_some, toVec_ofVec] at hmem

end

/-- A vector that is not zero has a multiple whose first entry is neither zero nor one. -/
theorem exists_leading_two {v : Fin c → gf.Sym} (hne : v ≠ 0) :
    ∃ (s : gf.Sym) (k : Fin c), (∀ k' < k, (s • v) k' = 0) ∧ (s • v) k = gf.sym 2 := by
  obtain ⟨k, hk, hmin⟩ := wellFounded_lt.has_min {k | v k ≠ 0} (Function.ne_iff.mp hne)
  refine ⟨gf.sym 2 * (v k)⁻¹, k, fun k' hk' => ?_, ?_⟩
  · have hzero : v k' = 0 := by
      by_contra hne'
      exact hmin k' hne' hk'
    rw [Pi.smul_apply, hzero, smul_zero]
  · rw [Pi.smul_apply, smul_eq_mul, inv_mul_cancel_right₀ hk]

/-- A vector that begins with as many zeros as the rank can be left as it is, at the end of the
rows. Scaled so that its first entry is not one it makes the result no reduced form. -/
theorem exists_incorrect (hrows : vectorRank gf c vs ≤ r) {v : Fin c → gf.Sym}
    (hv : v ∈ codeSpan gf c vs) (hne : v ≠ 0)
    (hzero : ∀ k : Fin c, k < vectorRank gf c vs → v k = 0) :
    ∃ e : DecoderState, e.Rect r c L ∧ codeSpan gf c e.coeffs = codeSpan gf c vs ∧
      ¬ e.RrefCorrect gf c := by
  obtain ⟨s, k, hbefore, hlead⟩ := exists_leading_two hne
  have htwo : (s • v) k ≠ 0 := by
    rw [hlead, Ne, GF256.sym_eq_zero]
    decide
  have hu : s • v ≠ 0 := fun h0 => htwo (congrFun h0 k)
  have hmem : s • v ∈ codeSpan gf c vs := smul_mem _ s hv
  have hpos : 0 < vectorRank gf c vs :=
    one_le_finrank_iff.mpr fun hbot => hu ((mem_bot _).mp (hbot ▸ hmem))
  obtain ⟨w, hlast, hbelow, hspan⟩ := exists_rows_ending (codeSpan gf c vs) hmem hu
  refine ⟨ofRows r L w, rect_ofRows w, (codeSpan_ofRows w).trans (hspan r hrows), ?_⟩
  have hstuck : (ofRows r L w).Stuck c (vectorRank gf c vs - 1) (ofVec (s • v)) := by
    refine ⟨fun i hi => ?_, ?_, fun j hj row' hrow' => ?_⟩
    · by_cases hc : i < c
      · have hi' : i < vectorRank gf c vs := by omega
        rw [getD_ofVec (s • v) ⟨i, hc⟩, Pi.smul_apply, hzero ⟨i, hc⟩ hi', smul_zero]
        rfl
      · exact getD_eq_default _ _ (by rw [length_ofVec]; omega)
    · rw [getElem_ofRows w (by omega), ← hlast, vectorRank]
    have hj' : j < r := by
      obtain ⟨hlt, -⟩ := List.getElem?_eq_some_iff.mp hrow'
      rwa [(rect_ofRows w).coeffs_length] at hlt
    have hrank : vectorRank gf c vs ≤ j := by omega
    rw [getElem_ofRows w hj', hbelow j hrank, ofVec_zero, some_inj] at hrow'
    exact hrow'.symm
  rintro ⟨d', hrref, hunique, -, -⟩
  have hany : (ofVec (s • v)).any (· ≠ 0) = true := by
    rw [List.any_eq_true]
    have hk : (k : Nat) < (ofVec (s • v)).length := (length_ofVec (s • v)).symm ▸ k.isLt
    refine ⟨(gf.sym 2).byte, ?_, decide_eq_true fun hbyte => ?_⟩
    · rw [← hlead, ← getD_ofVec, getD_eq_getElem _ _ hk]
      exact getElem_mem hk
    · exact htwo (hlead.trans (GF256.Sym.ext hbyte))
  have hrow : ofVec (s • v) ∈ d'.coeffs := hstuck.mem_rref (rect_ofRows w) hany hrref
  have hone := ((hunique d'.coeffs).mpr rfl).leading_one hrow (k := k)
  rw [toVec_ofVec] at hone
  have hbad := hone hbefore htwo
  rw [hlead, ← GF256.sym_one, GF256.sym_inj] at hbad
  exact absurd hbad (by decide)

/-- `Rref` is correct on all matrices with the row space of `d` just if the pivots of the reduced
row echelon form are the first columns. -/
theorem rref_correct_iff (gf : GF256) (h : d.Rect r c L) (hr : 0 < r) :
    (∀ e : DecoderState, e.Rect r c L → codeSpan gf c e.coeffs = codeSpan gf c d.coeffs →
      e.RrefCorrect gf c) ↔ PivotsFirst gf c d.coeffs := by
  constructor
  · intro hall
    constructor
    · intro hbot
      obtain ⟨d', -, -, hrank, hsecond⟩ := hall d h rfl
      rw [vectorRank, hbot, finrank_bot] at hrank
      have hnil : d'.coeffs = [] := length_eq_zero_iff.mp hrank
      rw [rref, cleanForward, hnil] at hsecond
      cases hsecond
    · intro v hv hzero
      by_contra hne
      obtain ⟨e, hrect, hspan, hbad⟩ :=
        exists_incorrect (L := L) (vectorRank_le_rows gf h) hv hne hzero
      exact hbad (hall e hrect hspan)
  · intro hfirst e hrect hspan
    exact rrefCorrect_of_pivotsFirst hrect hr (hfirst.congr hspan)

/-- Three rows that need a swap, eliminations and the removal of a row. -/
theorem rref_correct_three_rows :
    rref poly84320 ⟨2, [[0, 1], [1, 1], [1, 0]], [[5], [6], [3]]⟩ =
        some ⟨2, [[1, 0], [0, 1]], [[3], [5]]⟩ ∧
      RrefCorrect poly84320 2 ⟨2, [[0, 1], [1, 1], [1, 0]], [[5], [6], [3]]⟩ := by
  have htop : codeSpan poly84320 2 [[0, 1], [1, 1], [1, 0]] = ⊤ := by
    refine eq_top_iff'.mpr fun v => ?_
    have hv : v = v 0 • toVec poly84320 2 [1, 0] + v 1 • toVec poly84320 2 [0, 1] := by
      ext k
      fin_cases k
      · simp [toVec]
      · simp [toVec]
    rw [hv]
    exact add_mem (smul_mem _ _ (mem_codeSpan (by simp)))
      (smul_mem _ _ (mem_codeSpan (by simp)))
  refine ⟨by decide +kernel, (rref_correct_iff (r := 3) (c := 2) (L := 1)
    (d := ⟨2, [[0, 1], [1, 1], [1, 0]], [[5], [6], [3]]⟩) poly84320
    ⟨rfl, rfl, by simp, by simp⟩ (by decide)).mpr ⟨?_, ?_⟩ _ ⟨rfl, rfl, by simp, by simp⟩ rfl⟩
  · rw [htop]
    exact top_ne_bot
  · refine fun v _ hzero => funext fun k => hzero k ?_
    rw [vectorRank, htop, finrank_top, Module.finrank_fin_fun]
    exact k.isLt

/-- The only row of `[[0, 2]]` has its pivot in the second column and is not scaled. -/
theorem rref_skips_column :
    rref poly84320 ⟨2, [[0, 2]], [[7]]⟩ = some ⟨2, [[0, 2]], [[7]]⟩ ∧
      ¬ RrefCorrect poly84320 2 ⟨2, [[0, 2]], [[7]]⟩ := by
  have hrref : rref poly84320 ⟨2, [[0, 2]], [[7]]⟩ = some ⟨2, [[0, 2]], [[7]]⟩ := rfl
  refine ⟨hrref, ?_⟩
  rintro ⟨d', hd', hunique, -, -⟩
  rw [hrref] at hd'
  cases hd'
  have hmem : [0, 2] ∈ [[0, (2 : UInt8)]] := mem_singleton_self _
  have hone := ((hunique [[0, 2]]).mpr rfl).leading_one hmem (k := 1) (by
      intro k hk
      obtain rfl : k = 0 := by omega
      rfl) fun h0 => absurd (GF256.sym_eq_zero.mp h0) (by decide)
  exact absurd (GF256.sym_inj.mp hone) (by decide)

end DecoderState

end RlncStreaming.Kodr
