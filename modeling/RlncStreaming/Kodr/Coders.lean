import RlncStreaming.Kodr.Decoder

/-!
The encoders and the recoder (`kodr/full/encoder.go`, `kodr/systematic/encoder.go`,
`kodr/full/recoder.go`).

A random draw is an argument, so a statement for every `rnd` is one for every
outcome of the draw. The payload of a coded piece is accumulated piece by piece
and the vector of a recoded one is a matrix product; both are the same linear
combination (`combinePieces_spec`, `multiply_spec`), which is why recoding keeps
pieces genuine at any depth (`recoding_preserves_meaning`).
-/

namespace RlncStreaming.Kodr

open Lib List Option

/-- `for i := range pieces { piece.Multiply(pieces[i], vector[i], field) }`. -/
def combinePieces (gf : GF256) (pieces : List Piece) (vector : CodingVector) (piece : Piece) :
    Option Piece :=
  forUp (fun i piece => pieces[i]?.bind fun src => vector[i]?.bind fun by_ =>
    Piece.multiply gf piece src by_) 0 pieces.length piece

/-! ### The full encoder -/

structure FullRLNCEncoder where
  pieces : List Piece
  extra : Nat
deriving DecidableEq, Repr

namespace FullRLNCEncoder

/-- `PieceCount`. -/
def pieceCount (f : FullRLNCEncoder) : Nat := f.pieces.length

/-- `PieceSize`: the length of piece `0`, which must exist. -/
def pieceSize (f : FullRLNCEncoder) : Option Nat := f.pieces.head?.map List.length

/-- `CodedPiece`. -/
def codedPiece (gf : GF256) (f : FullRLNCEncoder) (rnd : Nat → UInt8) : Option CodedPiece := do
  let vector := generateCodingVector f.pieceCount rnd
  let size ← f.pieceSize
  let piece ← combinePieces gf f.pieces vector (List.replicate size 0)
  return ⟨vector, piece⟩

end FullRLNCEncoder

/-- `NewFullRLNCEncoder`. -/
def newFullRLNCEncoder (pieces : List Piece) : FullRLNCEncoder := ⟨pieces, 0⟩

/-- `NewFullRLNCEncoderWithPieceCount`. -/
def newFullRLNCEncoderWithPieceCount (data : List UInt8) (pieceCount : Nat) :
    Option (Except KodrError FullRLNCEncoder) :=
  (originalPiecesFromDataAndPieceCount data pieceCount).map fun r =>
    r.map fun split => { newFullRLNCEncoder split.1 with extra := split.2 }

/-! ### The systematic encoder -/

structure SystematicRLNCEncoder where
  currentPieceId : Nat
  pieces : List Piece
  extra : Nat
deriving DecidableEq, Repr

/-- `NewSystematicRLNCEncoder`. -/
def newSystematicRLNCEncoder (pieces : List Piece) : SystematicRLNCEncoder := ⟨0, pieces, 0⟩

namespace SystematicRLNCEncoder

section

variable (s : SystematicRLNCEncoder)

/-- `PieceCount`. -/
def pieceCount : Nat := s.pieces.length

/-- `PieceSize`. -/
def pieceSize : Option Nat := s.pieces.head?.map List.length

/-- `systematicCodingVector`; the `nil` vector of an index out of range is empty. -/
def systematicCodingVector (idx : Nat) : CodingVector :=
  if ¬ idx < s.pieceCount then [] else (List.replicate s.pieceCount 0).set idx 1

end

/-- `CodedPiece`: the first pieces go out as they are, one after the other, and then
full coding starts. -/
def codedPiece (gf : GF256) (s : SystematicRLNCEncoder) (rnd : Nat → UInt8) :
    Option (SystematicRLNCEncoder × CodedPiece) := do
  if s.currentPieceId < s.pieceCount then
    let vector := s.systematicCodingVector s.currentPieceId
    let size ← s.pieceSize
    let src ← s.pieces[s.currentPieceId]?
    let piece := src.take size ++ List.replicate (size - src.length) 0
    return ({ s with currentPieceId := s.currentPieceId + 1 }, ⟨vector, piece⟩)
  let vector := generateCodingVector s.pieceCount rnd
  let size ← s.pieceSize
  let piece ← combinePieces gf s.pieces vector (List.replicate size 0)
  return (s, ⟨vector, piece⟩)

end SystematicRLNCEncoder

/-! ### The recoder -/

/-- The source keeps the slices of the pieces. Here they are values, so the recoder shares no memory
with a decoder that was given the same pieces. -/
structure FullRLNCRecoder where
  pieces : List CodedPiece
  codingMatrix : Matrix
deriving DecidableEq, Repr

/-- `NewFullRLNCRecoder`, with `fill`: the vectors are copied into the coding matrix. -/
def newFullRLNCRecoder (pieces : List CodedPiece) : FullRLNCRecoder :=
  ⟨pieces, pieces.map CodedPiece.vector⟩

/-- `CodedPiece` of the recoder. -/
def FullRLNCRecoder.codedPiece (gf : GF256) (r : FullRLNCRecoder) (rnd : Nat → UInt8) :
    Option (Except KodrError CodedPiece) := do
  let vector := generateCodingVector r.pieces.length rnd
  let first ← r.pieces.head?
  let piece ← combinePieces gf (r.pieces.map CodedPiece.piece) vector
    (List.replicate first.piece.length 0)
  match ← Matrix.multiply gf [vector] r.codingMatrix with
  | .error e => return .error e
  | .ok mult =>
    let vector ← mult.head?
    return .ok ⟨vector, piece⟩

/-! ### Both computations are linear combinations -/

section Linear

variable {gf : GF256}

theorem toVec_replicate_zero (n m : Nat) : toVec gf n (replicate m 0) = 0 := by
  funext k
  by_cases hk : (k : Nat) < m
  · rw [toVec, getD_eq_getElem _ _ (by simpa using hk), getElem_replicate]
    simp
  · rw [toVec, getD_eq_default _ _ (by simpa using hk)]
    simp

/-- The combination of rows of length `n` with the coefficients `vector`. -/
noncomputable def weightedSum (gf : GF256) (n : Nat) (vector : CodingVector)
    (rows : List (List UInt8)) : Fin n → gf.Sym :=
  ∑ i ∈ Finset.range rows.length, gf.sym (vector.getD i 0) • toVec gf n (rows.getD i [])

variable (gf) in
/-- The payload loop computes the combination of the pieces. -/
theorem combinePieces_spec {pieces : List Piece} {vector : CodingVector} {L : Nat}
    (hvec : vector.length = pieces.length) (hL : ∀ p ∈ pieces, p.length = L) :
    ∃ piece, combinePieces gf pieces vector (replicate L 0) = some piece ∧
      piece.length = L ∧ toVec gf L piece = weightedSum gf L vector pieces := by
  obtain ⟨piece, hloop, hlen, hsum⟩ := forUp_inv
    (fun k piece => piece.length = L ∧ toVec gf L piece =
      ∑ i ∈ Finset.range k, gf.sym (vector.getD i 0) • toVec gf L (pieces.getD i []))
    (fun i piece => pieces[i]?.bind fun src => vector[i]?.bind fun by_ =>
      Piece.multiply gf piece src by_) 0 pieces.length (s := replicate L 0)
    ⟨by simp, by rw [toVec_replicate_zero]; rfl⟩ (by
      rintro k piece - hk ⟨hlen, hsum⟩
      have hkp : k < pieces.length := by omega
      have hsrc : pieces[k].length = L := hL _ (getElem_mem hkp)
      refine ⟨_, by
        simp only [getElem?_eq_getElem hkp,
          getElem?_eq_getElem (hvec.symm ▸ hkp : k < vector.length), bind_some,
          Piece.multiply, addMul_eq_some _ (Nat.le_refl _) (hsrc.trans hlen.symm).le]
        rfl, ?_, ?_⟩
      · rw [length_mapIdx, hlen]
      rw [hsrc, toVec_addMul _ hlen (fun k hk => absurd hk (Nat.not_lt_zero k)), hsum,
        Finset.sum_range_succ, getD_eq_getElem _ _ (hvec.symm ▸ hkp : k < vector.length),
        getD_eq_getElem _ _ hkp])
  refine ⟨piece, hloop, hlen, ?_⟩
  rwa [Nat.zero_add] at hsum

variable (gf) in
/-- The inner loop of `Multiply`: one entry of the product. -/
theorem multiply_entry {vector : CodingVector} {rows : Matrix} {n j : Nat}
    (hvec : vector.length = rows.length) (hrows : ∀ row ∈ rows, row.length = n) (hj : j < n) :
    ∃ x, forUp (fun k acc => vector[k]?.bind fun x => (rows.cell k j).bind fun y =>
        some (gf.add acc (gf.mul x y))) 0 rows.length 0 = some x ∧
      gf.sym x = weightedSum gf n vector rows ⟨j, hj⟩ := by
  obtain ⟨x, hloop, hsum⟩ := forUp_inv
    (fun k acc => gf.sym acc = ∑ i ∈ Finset.range k,
      gf.sym (vector.getD i 0) * gf.sym ((rows.getD i []).getD j 0))
    (fun k acc => vector[k]?.bind fun x => (rows.cell k j).bind fun y =>
      some (gf.add acc (gf.mul x y))) 0 rows.length (s := 0) (by simp) (by
      rintro k acc - hk hsum
      have hkr : k < rows.length := by omega
      have hkv : k < vector.length := hvec.symm ▸ hkr
      have hlen : j < rows[k].length := (hrows _ (getElem_mem hkr)).symm ▸ hj
      refine ⟨gf.add acc (gf.mul vector[k] rows[k][j]), by
        simp [Matrix.cell, getElem?_eq_getElem hkv, getElem?_eq_getElem hkr,
          getElem?_eq_getElem hlen], ?_⟩
      rw [GF256.sym_add, GF256.sym_mul, hsum, Finset.sum_range_succ,
        getD_eq_getElem _ _ hkv, getD_eq_getElem _ _ hkr, getD_eq_getElem _ _ hlen])
  refine ⟨x, hloop, ?_⟩
  rw [hsum, Nat.zero_add, weightedSum, Finset.sum_apply]
  rfl

variable (gf) in
/-- `Multiply` of a single row computes the combination of the rows. -/
theorem multiply_spec {vector : CodingVector} {rows : Matrix} {n : Nat} (hne : rows ≠ [])
    (hvec : vector.length = rows.length) (hrows : ∀ row ∈ rows, row.length = n) :
    ∃ row, Matrix.multiply gf [vector] rows = some (.ok [row]) ∧ row.length = n ∧
      toVec gf n row = weightedSum gf n vector rows := by
  have hcols : rows.cols = some n := by
    cases rows with
    | nil => exact absurd rfl hne
    | cons row rows => simp [Matrix.cols, hrows row mem_cons_self]
  obtain ⟨row, hrow, hall⟩ := mapM_spec
    (f := fun j => forUp (fun k acc => vector[k]?.bind fun x => (rows.cell k j).bind fun y =>
      some (gf.add acc (gf.mul x y))) 0 rows.length 0)
    (P := fun j x => ∀ hj : j < n, gf.sym x = weightedSum gf n vector rows ⟨j, hj⟩)
    (range n) (by
      intro j hj
      obtain ⟨x, hx, hsym⟩ := multiply_entry gf hvec hrows (mem_range.mp hj)
      exact ⟨x, hx, fun _ => hsym⟩)
  have hlen : row.length = n := by rw [← hall.length_eq, length_range]
  refine ⟨row, ?_, hlen, ?_⟩
  · simp only [Matrix.multiply, Matrix.cols, head?_cons, map_some, bind_eq_bind,
      bind_some, Matrix.rows, hvec, ne_eq, not_true_eq_false, if_false, mapM_cons,
      mapM_nil, Option.pure_def]
    rw [Matrix.cols] at hcols
    simp only [hcols, bind_some, hrow, Option.pure_def]
  · funext j
    have hj : (j : Nat) < row.length := hlen.symm ▸ j.isLt
    have hcell := hall.get (i := j) (by simp) hj
    rw [toVec, getD_eq_getElem _ _ hj]
    simpa using hcell

/-- A coded piece whose payload is the combination that its vector names. -/
theorem genuine_of_toVec {originals : List Piece} {L : Nat} {p : CodedPiece}
    (hvec : p.vector.length = originals.length) (hlen : p.piece.length = L)
    (h : toVec gf L p.piece = combine gf originals L (toVec gf originals.length p.vector)) :
    Genuine gf originals L p where
  vector_length := hvec
  piece_length := hlen
  sum_eq j hj := by
    have hcell := congrFun h ⟨j, hj⟩
    rw [combine_apply] at hcell
    rw [Finset.sum_range]
    exact hcell

end Linear

/-! ### Genuine pieces -/

section GenuinePieces

variable {gf : GF256} {originals : List Piece} {L : Nat}

variable (gf) in
/-- The payload loop over the original pieces makes a genuine piece of every vector. -/
theorem combinePieces_genuine (hL : ∀ p ∈ originals, p.length = L) {vector : CodingVector}
    (hvec : vector.length = originals.length) :
    ∃ piece, combinePieces gf originals vector (replicate L 0) = some piece ∧
      Genuine gf originals L ⟨vector, piece⟩ := by
  obtain ⟨piece, heq, hlen, hsum⟩ := combinePieces_spec gf hvec hL
  refine ⟨piece, heq, genuine_of_toVec hvec hlen ?_⟩
  rw [hsum, combine, Fintype.linearCombination_apply, weightedSum, Finset.sum_range]
  rfl

theorem pieceSize_eq (hne : originals ≠ []) (hL : ∀ p ∈ originals, p.length = L) :
    originals.head?.map length = some L := by
  cases originals with
  | nil => exact absurd rfl hne
  | cons p originals => rw [head?_cons, map_some, hL p mem_cons_self]

variable (gf) in
/-- The full encoder makes genuine pieces. -/
theorem FullRLNCEncoder.codedPiece_genuine (hne : originals ≠ [])
    (hL : ∀ p ∈ originals, p.length = L) {f : FullRLNCEncoder} (hf : f.pieces = originals)
    (rnd : Nat → UInt8) :
    ∃ p, f.codedPiece gf rnd = some p ∧
      p.vector = generateCodingVector originals.length rnd ∧ Genuine gf originals L p := by
  obtain ⟨piece, heq, hgen⟩ := combinePieces_genuine gf hL
    (generateCodingVector_length originals.length rnd)
  refine ⟨_, ?_, rfl, hgen⟩
  simp only [codedPiece, pieceCount, pieceSize, hf, pieceSize_eq hne hL, bind_eq_bind,
    bind_some, heq, Option.pure_def]

/-- The unit vector stands for the piece it names. -/
theorem combine_unit {k : Nat} (hk : k < originals.length) :
    combine gf originals L (toVec gf originals.length ((replicate originals.length 0).set k 1)) =
      toVec gf L (originals.getD k []) := by
  have hunit : toVec gf originals.length ((replicate originals.length 0).set k 1) =
      Pi.single (⟨k, hk⟩ : Fin originals.length) (1 : gf.Sym) := by
    funext j
    rw [toVec, getD_eq_getElem _ _ (by simp), getElem_set, getElem_replicate, Pi.single_apply]
    by_cases hj : k = j
    · rw [if_pos hj, if_pos (Fin.ext hj.symm), GF256.sym_one]
    · rw [if_neg hj, if_neg (fun h => hj (congrArg Fin.val h).symm), GF256.sym_zero]
  rw [hunit, combine, Fintype.linearCombination_apply_single, one_smul]

variable (gf) in
/-- The systematic encoder makes genuine pieces in both of its phases. -/
theorem SystematicRLNCEncoder.codedPiece_genuine (hne : originals ≠ [])
    (hL : ∀ p ∈ originals, p.length = L) {s : SystematicRLNCEncoder} (hs : s.pieces = originals)
    (rnd : Nat → UInt8) :
    ∃ s' p, s.codedPiece gf rnd = some (s', p) ∧ s'.pieces = originals ∧
      Genuine gf originals L p := by
  by_cases hid : s.currentPieceId < originals.length
  · have hsrc : originals[s.currentPieceId].length = L := hL _ (getElem_mem hid)
    refine ⟨{ s with currentPieceId := s.currentPieceId + 1 },
      ⟨(replicate originals.length 0).set s.currentPieceId 1, originals[s.currentPieceId]⟩,
      ?_, hs, ?_⟩
    · simp only [codedPiece, pieceCount, pieceSize, systematicCodingVector, hs, hid, if_true,
        pieceSize_eq hne hL, not_true_eq_false, if_false, bind_eq_bind, bind_some,
        getElem?_eq_getElem hid, Option.pure_def, ← hsrc, take_length, Nat.sub_self,
        replicate_zero, append_nil]
    · refine genuine_of_toVec (by simp) hsrc ?_
      rw [combine_unit hid, getD_eq_getElem _ _ hid]
  · obtain ⟨piece, heq, hgen⟩ := combinePieces_genuine gf hL
      (generateCodingVector_length originals.length rnd)
    refine ⟨s, _, ?_, hs, hgen⟩
    simp only [codedPiece, pieceCount, pieceSize, hs, hid, if_false, pieceSize_eq hne hL,
      bind_eq_bind, bind_some, heq, Option.pure_def]

/-- The combination of genuine pieces: the same coefficients applied to the payloads
and to the vectors. -/
theorem weightedSum_genuine {ps : List CodedPiece} (hps : ∀ p ∈ ps, Genuine gf originals L p)
    (vector : CodingVector) :
    weightedSum gf L vector (ps.map CodedPiece.piece) =
      combine gf originals L
        (weightedSum gf originals.length vector (ps.map CodedPiece.vector)) := by
  rw [weightedSum, weightedSum, map_sum, length_map, length_map]
  refine Finset.sum_congr rfl fun i hi => ?_
  have hlt : i < ps.length := Finset.mem_range.mp hi
  rw [map_smul, getD_eq_getElem (ps.map CodedPiece.piece) [] (by simpa using hlt),
    getD_eq_getElem (ps.map CodedPiece.vector) [] (by simpa using hlt), getElem_map,
    getElem_map, (hps _ (getElem_mem hlt)).toVec_piece]

/-- The recoder turns genuine pieces into genuine pieces, for every draw. -/
theorem FullRLNCRecoder.codedPiece_genuine {ps : List CodedPiece} (hne : ps ≠ [])
    (hps : ∀ p ∈ ps, Genuine gf originals L p) (rnd : Nat → UInt8) :
    ∃ q, (newFullRLNCRecoder ps).codedPiece gf rnd = some (.ok q) ∧ Genuine gf originals L q := by
  have hvec := generateCodingVector_length ps.length rnd
  have hpiece : ∀ p ∈ ps.map CodedPiece.piece, p.length = L := by
    intro p hp
    obtain ⟨q, hq, rfl⟩ := mem_map.mp hp
    exact (hps q hq).piece_length
  have hrow : ∀ v ∈ ps.map CodedPiece.vector, v.length = originals.length := by
    intro v hv
    obtain ⟨q, hq, rfl⟩ := mem_map.mp hv
    exact (hps q hq).vector_length
  obtain ⟨piece, hcomb, hlen, hpsum⟩ := combinePieces_spec gf
    (hvec.trans (length_map _).symm) hpiece
  obtain ⟨row, hmul, hrlen, hrsum⟩ := multiply_spec gf
    (by simpa using hne) (hvec.trans (length_map _).symm) hrow
  refine ⟨⟨row, piece⟩, ?_, genuine_of_toVec hrlen hlen ?_⟩
  · have hhead : (newFullRLNCRecoder ps).pieces.head? = some (ps.head hne) := head?_eq_some_head hne
    have hsize : (ps.head hne).piece.length = L := (hps _ (head_mem hne)).piece_length
    simp only [codedPiece, hhead, bind_eq_bind, bind_some, hsize]
    simp only [newFullRLNCRecoder, hcomb, hmul, bind_some, head?_cons, Option.pure_def]
  · rw [hpsum, weightedSum_genuine hps, hrsum]

end GenuinePieces

/-- The pieces that some finite tree of encoding and recoding steps produces. -/
inductive Produced (gf : GF256) (originals : List Piece) : CodedPiece → Prop where
  | encoded {f : FullRLNCEncoder} {rnd : Nat → UInt8} {p : CodedPiece} :
      f.pieces = originals → f.codedPiece gf rnd = some p → Produced gf originals p
  | systematic {s s' : SystematicRLNCEncoder} {rnd : Nat → UInt8} {p : CodedPiece} :
      s.pieces = originals → s.codedPiece gf rnd = some (s', p) → Produced gf originals p
  | recoded {ps : List CodedPiece} {rnd : Nat → UInt8} {q : CodedPiece} :
      ps ≠ [] → (∀ p ∈ ps, Produced gf originals p) →
      (newFullRLNCRecoder ps).codedPiece gf rnd = some (.ok q) → Produced gf originals q

/-- Run lemma of the trees: every step keeps pieces genuine. -/
theorem Produced.genuine {gf : GF256} {originals : List Piece} {L : Nat} (hne : originals ≠ [])
    (hL : ∀ p ∈ originals, p.length = L) {q : CodedPiece} (h : Produced gf originals q) :
    Genuine gf originals L q := by
  induction h with
  | encoded hf heq =>
    obtain ⟨p, heq', -, hgen⟩ := FullRLNCEncoder.codedPiece_genuine gf hne hL hf _
    cases heq'.symm.trans heq
    exact hgen
  | systematic hs heq =>
    obtain ⟨s', p, heq', -, hgen⟩ := SystematicRLNCEncoder.codedPiece_genuine gf hne hL hs _
    cases heq'.symm.trans heq
    exact hgen
  | recoded hps _ heq ih =>
    obtain ⟨q, heq', hgen⟩ := FullRLNCRecoder.codedPiece_genuine hps ih _
    cases heq'.symm.trans heq
    exact hgen

/-- **Recoding preserves meaning at any depth.** From genuine pieces the recoder makes
a genuine piece, whatever it draws, and the pieces of any tree of encoding and
recoding steps are decoded exactly. -/
theorem recoding_preserves_meaning (gf : GF256) (originals : List Piece) {L : Nat}
    (hL : ∀ p ∈ originals, p.length = L) :
    (∀ ps, ps ≠ [] → (∀ p ∈ ps, Genuine gf originals L p) → ∀ rnd, ∃ q,
      (newFullRLNCRecoder ps).codedPiece gf rnd = some (.ok q) ∧ Genuine gf originals L q) ∧
    (2 ≤ originals.length → ∀ ps, (∀ p ∈ ps, Produced gf originals p) →
      DecodesExactly gf originals ps) := by
  constructor
  · intro ps hne hps rnd
    exact FullRLNCRecoder.codedPiece_genuine hne hps rnd
  · intro hn ps hps
    have hne : originals ≠ [] := ne_nil_of_length_pos (by omega)
    exact decodesExactly_of_genuine hn hL fun p hp => (hps p hp).genuine hne hL

/-- Two one-byte pieces, the first one received as itself and recoded. -/
theorem recoding_preserves_meaning_two_pieces :
    (∃ q, (newFullRLNCRecoder [⟨[1, 0], [5]⟩]).codedPiece poly84320 (fun _ => 3) = some (.ok q) ∧
      Genuine poly84320 [[5], [7]] 1 q) ∧
    ∀ ps, (∀ p ∈ ps, Produced poly84320 [[5], [7]] p) → DecodesExactly poly84320 [[5], [7]] ps := by
  obtain ⟨hrecode, hdecode⟩ := recoding_preserves_meaning poly84320 [[5], [7]] (L := 1) (by simp)
  refine ⟨hrecode [⟨[1, 0], [5]⟩] (by simp) ?_ _, hdecode (by decide)⟩
  intro p hp
  obtain rfl : p = ⟨[1, 0], [5]⟩ := by simpa using hp
  exact ⟨rfl, rfl, by decide⟩

end RlncStreaming.Kodr
