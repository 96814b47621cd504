import RlncStreaming.Kodr.Field

/-!
Pieces, coding vectors and coded pieces (`kodr/data.go`, `kodr/errors.go`).

Slices are lists. A function that can index or slice out of range returns in
`Option`, and `none` is the run-time panic; an error result of the source is an
`Except KodrError` inside it. `uint` and `int` are 64 bits wide and are
naturals and integers here; the two conversions between them are written out.
-/

namespace RlncStreaming.Kodr

/-- The errors of `kodr/errors.go`. -/
inductive KodrError where
  | matrixDimensionMismatch
  | allUsefulPiecesReceived
  | moreUsefulPiecesRequired
  | copyFailedDuringPieceConstruction
  | pieceCountMoreThanTotalBytes
  | zeroPieceSize
  | badPieceCount
  | codedDataLengthMismatch
  | codingVectorLengthMismatch
  | pieceNotDecodedYet
  | pieceOutOfBound
deriving DecidableEq, Repr

/-- A piece of data is a byte slice. -/
abbrev Piece := List UInt8

/-- How original pieces are combined into a coded one. -/
abbrev CodingVector := List UInt8

structure CodedPiece where
  vector : CodingVector
  piece : Piece
deriving DecidableEq, Repr

/-- `int(u)` of a `uint`. -/
def toInt (u : Nat) : Int := if u < 2 ^ 63 then u else u - 2 ^ 64

/-- `uint(i)` of an `int`. -/
def toUint (i : Int) : Nat := (i % 2 ^ 64).toNat

/-- `a - b` on `uint`: it wraps around below zero. -/
def uintSub (a b : Nat) : Nat := if b ≤ a then a - b else a + 2 ^ 64 - b

section

variable (gf : GF256)

/-- `for k := lo; k < hi; k++ { dst[k] = Add(dst[k], Mul(src[k], by)) }`. -/
def addMul (lo hi : Nat) (src : List UInt8) (by_ : UInt8) (dst : List UInt8) :
    Option (List UInt8) :=
  if lo < hi ∧ (src.length < hi ∨ dst.length < hi) then none
  else some (dst.mapIdx fun k x =>
    if lo ≤ k ∧ k < hi then gf.add x (gf.mul (src.getD k 0) by_) else x)

/-- `Piece.Multiply`: adds `by` times `piece` to `p`, symbol by symbol. -/
def Piece.multiply (p piece : Piece) (by_ : UInt8) : Option Piece :=
  addMul gf 0 piece.length piece by_ p

end

/-- `GenerateCodingVector`: `n` bytes of the random source `rnd`. -/
def generateCodingVector (n : Nat) (rnd : Nat → UInt8) : CodingVector := (List.range n).map rnd

@[simp] theorem generateCodingVector_length (n : Nat) (rnd : Nat → UInt8) :
    (generateCodingVector n rnd).length = n := by
  simp [generateCodingVector]

/-! ### Splitting data into pieces -/

/-- `int(math.Ceil(float64(a) / float64(b)))`, with the division exact. -/
def ceilDiv (a b : Nat) : Nat := (a + b - 1) / b

/-- `data_ = make([]byte, total); copy(data_, data)`, with the check of how much
was copied. A negative or overlong `total` panics. -/
def extend (data : List UInt8) (total : Int) : Option (Except KodrError (List UInt8)) :=
  if total < 0 ∨ 2 ^ 63 ≤ total then none
  else if total < data.length then some (.error .copyFailedDuringPieceConstruction)
  else some (.ok (data ++ List.replicate (total.toNat - data.length) 0))

/-- `OriginalPiecesFromDataAndPieceSize`. -/
def originalPiecesFromDataAndPieceSize (data : List UInt8) (pieceSize : Nat) :
    Option (Except KodrError (List Piece × Nat)) :=
  if pieceSize = 0 then some (.error .zeroPieceSize)
  else if toInt pieceSize ≥ data.length then some (.error .badPieceCount)
  else
    let pieceCount := ceilDiv data.length pieceSize
    let total := pieceCount * toInt pieceSize
    let padding := toUint (total - data.length)
    let extended := if padding > 0 then extend data total else some (.ok data)
    extended.map fun r => r.map fun data' =>
      ((List.range pieceCount).map fun i => (data'.drop (pieceSize * i)).take pieceSize, padding)

/-- `OriginalPiecesFromDataAndPieceCount`: the split is by the piece size that
makes `pieceCount` pieces, and the padding reported is the one computed here. -/
def originalPiecesFromDataAndPieceCount (data : List UInt8) (pieceCount : Nat) :
    Option (Except KodrError (List Piece × Nat)) :=
  if pieceCount < 2 then some (.error .badPieceCount)
  else if toInt pieceCount > data.length then some (.error .pieceCountMoreThanTotalBytes)
  else
    let pieceSize := ceilDiv data.length pieceCount
    let padding := uintSub (pieceCount * pieceSize) data.length
    let extended :=
      if padding > 0 then extend data (pieceSize * pieceCount : Nat) else some (.ok data)
    extended.bind fun r => match r with
      | .error e => some (.error e)
      | .ok data' =>
        (originalPiecesFromDataAndPieceSize data' pieceSize).map fun r =>
          r.map fun split => (split.1, padding)

/-! ### Flattened coded pieces -/

/-- `CodedPiece.Flatten`: the vector and the piece behind it. -/
def CodedPiece.flatten (c : CodedPiece) : List UInt8 := c.vector ++ c.piece

/-- `&CodedPiece{Vector: codedPiece[:m], Piece: codedPiece[m:]}`. -/
def CodedPiece.split (m : Nat) (codedPiece : List UInt8) : CodedPiece :=
  ⟨codedPiece.take m, codedPiece.drop m⟩

/-- `CodedPiecesForRecoding`. The division panics for the count zero, and `make` for a count that is
no `int`. Below that the slices are within the data, whose length is a multiple of the count. -/
def codedPiecesForRecoding (data : List UInt8) (pieceCount piecesCodedTogether : Nat) :
    Option (Except KodrError (List CodedPiece)) :=
  if pieceCount = 0 then none
  else
    let codedPieceLength := (data.length : Int).tdiv (toInt pieceCount)
    if codedPieceLength * toInt pieceCount ≠ data.length then
      some (.error .codedDataLengthMismatch)
    else if ¬ piecesCodedTogether < toUint codedPieceLength then
      some (.error .codingVectorLengthMismatch)
    else if 2 ^ 63 ≤ pieceCount then none
    else
      let size := codedPieceLength.toNat
      some (.ok ((List.range pieceCount).map fun i =>
        .split piecesCodedTogether ((data.drop (size * i)).take size)))

end RlncStreaming.Kodr
