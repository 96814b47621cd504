import RlncStreaming.Kodr.Data
import RlncStreaming.Lib.Loops

/-!
Matrices over the byte field and the decoder's augmented matrix
(`kodr/matrix/matrix.go`, `kodr/matrix/decoder_state.go`).

The goroutines of the source work on disjoint rows and are joined before the
next pivot, so each parallel loop is the sequential loop over the same indices.
-/

namespace RlncStreaming.Kodr

open Lib

/-- `matrix.Matrix`, a slice of rows; the rows need not be of one length. -/
abbrev Matrix := List (List UInt8)

namespace Matrix

/-- `m[i][j]`. -/
def cell (m : Matrix) (i j : Nat) : Option UInt8 := m[i]?.bind fun row => row[j]?

/-- `Rows`. -/
def rows (m : Matrix) : Nat := m.length

/-- `Cols`: the length of row `0`, which must exist. -/
def cols (m : Matrix) : Option Nat := m.head?.map List.length

/-- `m[i], m[j] = m[j], m[i]`. -/
def swapRows (m : Matrix) (i j : Nat) : Option Matrix :=
  m[i]?.bind fun a => m[j]?.map fun b => (m.set i b).set j a

/-- `Multiply`: the product `m × with`, one worker for each row of `m`. -/
def multiply (gf : GF256) (m with_ : Matrix) : Option (Except KodrError Matrix) := do
  let inner ← m.cols
  if inner ≠ with_.rows then
    return .error .matrixDimensionMismatch
  let width ← with_.cols
  let entry (row : List UInt8) (j : Nat) : Option UInt8 :=
    forUp (fun k acc => do
      let x ← row[k]?
      let y ← with_.cell k j
      return gf.add acc (gf.mul x y)) 0 inner 0
  let mult ← m.mapM fun row => (List.range width).mapM (entry row)
  return .ok mult

end Matrix

/-- `matrix.DecoderState`: coding vectors and coded pieces, row by row. The field
of the source is the parameter of the functions below. -/
structure DecoderState where
  pieceCount : Nat
  coeffs : Matrix
  coded : Matrix
deriving DecidableEq, Repr

namespace DecoderState

/-- `NewDecoderStateWithPieceCount`. -/
def newDecoderStateWithPieceCount (pieceCount : Nat) : DecoderState := ⟨pieceCount, [], []⟩

/-- `Rank`: the number of rows, meaningful after `rref`. -/
def rank (d : DecoderState) : Nat := d.coeffs.rows

/-- `AddPiece` appends a row to both matrices. The source keeps the slices it is given and later
writes to them. Here rows are values: pieces given in different calls share no memory. -/
def addPiece (d : DecoderState) (codedPiece : CodedPiece) : DecoderState :=
  { d with coeffs := d.coeffs ++ [codedPiece.vector], coded := d.coded ++ [codedPiece.piece] }

section

variable (gf : GF256)

/-- Clears `coeffs[j][i]` with the pivot row `i`: what the goroutine for row `j`
does in both passes. The coefficient row is changed from column `i` on. -/
def eliminate (cols i j : Nat) (d : DecoderState) : Option DecoderState := do
  let x ← d.coeffs.cell j i
  if x = 0 then
    return d
  let y ← d.coeffs.cell i i
  let quotient := gf.div x y
  let row ← addMul gf i cols (d.coeffs.getD i []) quotient (d.coeffs.getD j [])
  let width ← d.coded.cols
  let piece ← addMul gf 0 width (d.coded.getD i []) quotient (d.coded.getD j [])
  return { d with coeffs := d.coeffs.set j row, coded := d.coded.set j piece }

/-- The search for a row below `i` that is not zero in column `i`: `n` rows are
left, the first of them is `pivot`. -/
def findPivot (m : Matrix) (i : Nat) : Nat → Nat → Option (Option Nat)
  | _, 0 => some none
  | pivot, n + 1 => (m.cell pivot i).bind fun x =>
    if x ≠ 0 then some (some pivot) else findPivot m i (pivot + 1) n

/-- Brings a nonzero entry to `coeffs[i][i]` if it is zero and the column has one
below. The flag says whether the column has a pivot. -/
def selectPivot (rows i : Nat) (d : DecoderState) : Option (Bool × DecoderState) := do
  let x ← d.coeffs.cell i i
  if x ≠ 0 then
    return (true, d)
  match ← findPivot d.coeffs i (i + 1) (rows - (i + 1)) with
  | none => return (false, d)
  | some pivot =>
    let coeffs ← d.coeffs.swapRows i pivot
    let coded ← d.coded.swapRows i pivot
    return (true, { d with coeffs, coded })

/-- One iteration of `clean_forward`. A column without a pivot is skipped. -/
def forwardStep (rows cols i : Nat) (d : DecoderState) : Option DecoderState := do
  let (found, d) ← selectPivot rows i d
  if found then forUp (eliminate gf cols i) (i + 1) (rows - (i + 1)) d else return d

/-- `clean_forward`. -/
def cleanForward (d : DecoderState) : Option DecoderState := do
  let cols ← d.coeffs.cols
  forUp (forwardStep gf d.coeffs.rows cols) 0 (min d.coeffs.rows cols) d

/-- `for k := lo; k < hi; k++ { row[k] = Mul(row[k], inv) }`, zero cells skipped. -/
def scale (lo hi : Nat) (inv : UInt8) (row : List UInt8) : Option (List UInt8) :=
  if lo < hi ∧ row.length < hi then none
  else some (row.mapIdx fun k x =>
    if lo ≤ k ∧ k < hi ∧ x ≠ 0 then gf.mul x inv else x)

/-- Scales the pivot row `i` so that `coeffs[i][i]` is one. -/
def normalize (cols i : Nat) (d : DecoderState) : Option DecoderState := do
  let x ← d.coeffs.cell i i
  if x = 1 then
    return d
  let inv := gf.div 1 x
  let row ← scale gf (i + 1) cols inv ((d.coeffs.getD i []).set i 1)
  let width ← d.coded.cols
  let piece ← scale gf 0 width inv (d.coded.getD i [])
  return { d with coeffs := d.coeffs.set i row, coded := d.coded.set i piece }

/-- One iteration of `clean_backward`. -/
def backwardStep (cols i : Nat) (d : DecoderState) : Option DecoderState := do
  let x ← d.coeffs.cell i i
  if x = 0 then
    return d
  let d ← forUp (eliminate gf cols i) 0 i d
  normalize gf cols i d

/-- `clean_backward`. -/
def cleanBackward (d : DecoderState) : Option DecoderState := do
  let cols ← d.coeffs.cols
  forDown (backwardStep gf cols) (min d.coeffs.rows cols) d

/-- Whether the first `cols` cells of a row are zero; the scan stops at the first
nonzero cell and panics on a row that ends before. -/
def isZeroRow (cols : Nat) (row : List UInt8) : Option Bool :=
  if (row.take cols).any (· ≠ 0) then some false
  else if row.length < cols then none else some true

/-- The loop of `remove_zero_rows` from some row on. -/
def dropZeroRows (cols : Nat) : Matrix → Matrix → Option (Matrix × Matrix)
  | [], coded => some ([], coded)
  | row :: coeffs, coded => do
    if ← isZeroRow cols row then
      match coded with
      | [] => none
      | _ :: coded => dropZeroRows cols coeffs coded
    else
      let (coeffs', coded') ← dropZeroRows cols coeffs coded.tail
      return (row :: coeffs', coded.take 1 ++ coded')

/-- `remove_zero_rows`: drops the zero rows of the coefficient matrix and, with
each of them, the row of the coded matrix at the same index. -/
def removeZeroRows (d : DecoderState) : Option DecoderState := do
  let cols ← d.coeffs.cols
  let (coeffs, coded) ← dropZeroRows cols d.coeffs d.coded
  return { d with coeffs, coded }

/-- `Rref`. -/
def rref (d : DecoderState) : Option DecoderState := do
  let d ← cleanForward gf d
  let d ← cleanBackward gf d
  removeZeroRows d

end

/-- The scan of `GetPiece` over row `idx`, `n` cells from cell `i` on: the cell of
the requested piece must be one and, as the source has it, every other cell must
differ from zero. -/
def scanRow (row : List UInt8) (idx : Nat) : Nat → Nat → Option Bool
  | _, 0 => some true
  | i, n + 1 => row[i]?.bind fun x =>
    if i = idx then
      if x ≠ 1 then some false else scanRow row idx (i + 1) n
    else
      if x = 0 then some false else scanRow row idx (i + 1) n

/-- `GetPiece`. -/
def getPiece (d : DecoderState) (idx : Nat) : Option (Except KodrError Piece) := do
  if idx ≥ d.pieceCount then
    return .error .pieceOutOfBound
  if idx ≥ d.coeffs.rows then
    return .error .pieceNotDecodedYet
  if d.rank ≥ d.pieceCount then
    let piece ← d.coded[idx]?
    return .ok piece
  let cols ← d.coeffs.cols
  let decoded ← scanRow (d.coeffs.getD idx []) idx 0 cols
  if !decoded then
    return .error .pieceNotDecodedYet
  let width ← d.coded.cols
  let piece ← d.coded[idx]?
  return .ok (piece.take width ++ List.replicate (width - piece.length) 0)

end DecoderState

end RlncStreaming.Kodr
