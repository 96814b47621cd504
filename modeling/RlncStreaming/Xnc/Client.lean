import RlncStreaming.Xnc.Packet

/-!
The receive loop of `Client` (`xnc/client.go`), one frame-sized block at a time.

`processBlock` is the body of the loop after a block was read, and `receive` runs it
over a list of blocks. A result of `none` is a run-time panic. How blocks are cut out
of the stream is the subject of `RlncStreaming.Xnc.Segments`.
-/

namespace RlncStreaming.Xnc

open Kodr FullRLNCDecoder

/-- The variables that live across iterations; `decoders` is `none` while it is `nil`. -/
structure ClientState where
  chunk : List UInt8
  rFile : List UInt8
  decoders : Option (List FullRLNCDecoder)
deriving DecidableEq, Repr

def ClientState.new : ClientState := ⟨[], [], none⟩

/-- The loop goes on, or `Client` returns: `none` is the `nil` result. -/
inductive Outcome where
  | next (c : ClientState)
  | done (result : Option (List UInt8))
deriving DecidableEq, Repr

/-- `GetFile`: the decoded pieces one after the other. -/
def getFile (decoder : FullRLNCDecoder) : Option (Except XncError (List UInt8)) :=
  (getPieces decoder).map fun r => match r with
    | .error e => .error (.gettingPieces e)
    | .ok pieces => .ok pieces.flatten

/-- `s[:k]` of a slice with `spare` zero bytes of capacity behind it. -/
def sliceTo (s : List UInt8) (spare k : Nat) : Option (List UInt8) :=
  if k ≤ s.length + spare then some (s.take k ++ List.replicate (k - s.length) 0) else none

/-- `rFile = append(rFile, part...)`, and the check for the last chunk. With a chunk
number of zero the comparison is with `-1`. -/
def appendPart (c : ClientState) (xncD : XNC) (part : List UInt8) : Outcome :=
  let c := { c with rFile := c.rFile ++ part }
  if (xncD.chunkId : Int) = xncD.chunkNum - 1 then .done (some c.rFile) else .next c

/-- The decoder table: made for the chunk number of the first frame. -/
def ClientState.decodersFor (c : ClientState) (chunkNum : Nat) : List FullRLNCDecoder :=
  c.decoders.getD (List.replicate chunkNum (newFullRLNCDecoder piececnt))

section

variable (gf : GF256) (spare : Nat)

/-- A data frame in the encoded mode. `spare` is the spare capacity of the slice that
`GetFile` returns, which depends on how `append` grows it. -/
def receiveCoded (c : ClientState) (xncD : XNC) : Option Outcome := do
  let decoders := c.decodersFor xncD.chunkNum
  let decoder ← decoders[xncD.chunkId]?
  let (decoder, err) ← addPiece gf decoder ⟨xncD.vector, xncD.piece⟩
  let c := { c with decoders := some (decoders.set xncD.chunkId decoder) }
  match err with
  | some .allUsefulPiecesReceived => return .next c
  | some _ => return .done none
  | none =>
    if isDecoded decoder then
      match ← getFile decoder with
      | .error _ => return .done none
      | .ok recvfile =>
        let part ← sliceTo recvfile spare xncD.chunkSize
        return appendPart c xncD part
    else
      return .next c

/-- A data frame in the plain mode. The chunk buffer is full after `piececnt` pieces
and has no spare capacity then. -/
def receivePlain (c : ClientState) (xncD : XNC) : Option Outcome :=
  let chunk := c.chunk ++ xncD.piece
  if chunk.length = chunksize then
    (sliceTo chunk 0 xncD.chunkSize).map fun part => appendPart { c with chunk := [] } xncD part
  else some (.next { c with chunk })

/-- The loop body on one block. -/
def processBlock (encode : Bool) (c : ClientState) (pktE : List UInt8) : Option Outcome :=
  (decodeXNCPkt pktE).bind fun r => match r with
    | .error _ => some (.done none)
    | .ok xncD =>
      if xncD.type = typeEnd then some (.done (some c.rFile))
      else if encode then receiveCoded gf spare c xncD
      else receivePlain c xncD

/-- The loop on a list of blocks; it is still waiting when the blocks are used up. -/
def receive (encode : Bool) : ClientState → List (List UInt8) → Option Outcome
  | c, [] => some (.next c)
  | c, pktE :: pkts => (processBlock gf spare encode c pktE).bind fun o => match o with
      | .done result => some (.done result)
      | .next c => receive encode c pkts

end

/-! ### One block -/

section OneBlock

variable {gf : GF256} {spare : Nat} {c : ClientState}

/-- An END frame makes `Client` return what it has. -/
theorem receive_end (encode : Bool) (id : Int) (pkts : List (List UInt8)) :
    receive gf spare encode c (encodeEND id encode :: pkts) = some (.done (some c.rFile)) := by
  rw [receive, processBlock, (decode_encodeEND id encode).2]
  rfl

theorem sliceTo_of_le {s : List UInt8} {k : Nat} (h : k ≤ s.length) :
    sliceTo s spare k = some (s.take k) := by
  rw [sliceTo, if_pos (by omega), Nat.sub_eq_zero_of_le h, List.replicate_zero, List.append_nil]

theorem processBlock_encFrame (size id num : Nat) {p : CodedPiece}
    (hp : Fits vectorsize piecesize p) :
    processBlock gf spare true c (encFrame size id num p) =
      receiveCoded gf spare c
        ⟨typeXncEnc, id % 2 ^ 32, num % 2 ^ 32, size % 2 ^ 32, p.vector, p.piece⟩ := by
  rw [processBlock, decode_encFrame size id num hp]
  rfl

theorem processBlock_plainFrame (size id num : Nat) {piece : List UInt8}
    (hpiece : piece.length = piecesize) :
    processBlock gf spare false c (plainFrame size id num piece) =
      receivePlain c ⟨typeXnc, id % 2 ^ 32, num % 2 ^ 32, size % 2 ^ 32, [], piece⟩ := by
  rw [processBlock, decode_plainFrame size id num hpiece]
  rfl

variable (gf spare) in
/-- A frame of a chunk that is decoded already changes nothing. -/
theorem receiveCoded_surplus (xncD : XNC) {d : FullRLNCDecoder}
    (hd : (c.decodersFor xncD.chunkNum)[xncD.chunkId]? = some d)
    (hdec : isDecoded d = true) :
    receiveCoded gf spare c xncD = some (.next ⟨c.chunk, c.rFile,
      some ((c.decodersFor xncD.chunkNum).set xncD.chunkId d)⟩) := by
  have hadd : RLNCDecoder.addPiece gf d ⟨xncD.vector, xncD.piece⟩ =
      some (d, some .allUsefulPiecesReceived) := by
    rw [RLNCDecoder.addPiece, if_pos hdec]
  simp only [receiveCoded, hd, Option.bind_eq_bind, Option.bind_some, addPiece, hadd,
    Option.pure_def]

end OneBlock

end RlncStreaming.Xnc
