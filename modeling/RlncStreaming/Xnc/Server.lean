import RlncStreaming.Xnc.Packet
import RlncStreaming.Kodr.Coders
import RlncStreaming.Lib.Blocks

/-!
The sender (`xnc/server.go`, `xnc/utils.go`).

`sendFile` is modelled from the point where the file has been read. The outcome of
each `stream.Write` and the bytes drawn for each coding vector are arguments, and
the result is the list of frames that were written. With a stream that takes every
frame these are, chunk by chunk, the frames of `codedpiececnt` coded pieces or of
the `piececnt` plain ones, and five END frames (`sendFile_encoded`,
`sendFile_plain`).
-/

namespace RlncStreaming.Xnc

open Kodr Lib List
open Option (bind_some map_some bind_eq_bind)

/-- `SpiltFile`: the file in chunks, the last one filled up with zero bytes. -/
def spiltFile (filebytes : List UInt8) (chunkSize : Nat) : List (List UInt8) :=
  (List.range (ceilDiv filebytes.length chunkSize)).map fun i =>
    let chunkBytes := block chunkSize i filebytes
    chunkBytes ++ List.replicate (chunkSize - chunkBytes.length) 0

/-- What `stream.Write` reports. -/
inductive WriteResult where
  | ok
  | eof
  | otherError
deriving DecidableEq, Repr

/-- The frames written by a loop, and whether `sendFile` returned from inside it. -/
structure Sent where
  frames : List (List UInt8)
  returned : Bool
deriving DecidableEq, Repr

/-- The loop over the pieces of one chunk, `n` pieces from piece `s` on: a frame that
cannot be built ends `sendFile`, `io.EOF` ends the chunk, and any other write error
loses one frame. -/
def writePieces (pkt : Nat → Option (Except XncError (List UInt8))) (write : Nat → WriteResult) :
    Nat → Nat → Option Sent
  | _, 0 => some ⟨[], false⟩
  | s, n + 1 => (pkt s).bind fun r => match r with
      | .error _ => some ⟨[], true⟩
      | .ok pktE => match write s with
          | .ok => (writePieces pkt write (s + 1) n).map fun sent =>
            { sent with frames := pktE :: sent.frames }
          | .eof => some ⟨[], false⟩
          | .otherError => writePieces pkt write (s + 1) n

section

variable (gf : GF256) (encode : Bool) (filebytes : List UInt8)
variable (draw : Nat → Nat → Nat → UInt8) (write : Nat → Nat → WriteResult)

/-- The number of file bytes in chunk `i` of `num`. -/
def chunkBytesCount (num i : Nat) : Nat :=
  if i = num - 1 then filebytes.length - chunksize * (num - 1) else chunksize

/-- The body of the loop over the chunks. -/
def sendChunk (chunks : List (List UInt8)) (i : Nat) : Option Sent := do
  let size := chunkBytesCount filebytes chunks.length i
  let chunk ← chunks[i]?
  if encode then
    match ← newFullRLNCEncoderWithPieceCount chunk piececnt with
    | .error _ => return ⟨[], true⟩
    | .ok enc =>
      let codedPieces ← (List.range codedpiececnt).mapM fun j => enc.codedPiece gf (draw i j)
      writePieces (fun s => codedPieces[s]?.map (getXNCEncPkt size i chunks.length)) (write i) 0
        codedpiececnt
  else
    writePieces (fun s => (slice chunk (s * piecesize) ((s + 1) * piecesize)).map
      (getXNCPkt size i chunks.length)) (write i) 0 piececnt

/-- The loop over the chunks, `n` chunks from chunk `i` on. -/
def sendChunks (chunks : List (List UInt8)) : Nat → Nat → Option Sent
  | _, 0 => some ⟨[], false⟩
  | i, n + 1 => (sendChunk gf encode filebytes draw write chunks i).bind fun sent =>
    if sent.returned then some sent
    else (sendChunks chunks (i + 1) n).map fun rest =>
      { rest with frames := sent.frames ++ rest.frames }

/-- `sendFile`: the frames it writes. The results of the writes of the five END frames
are ignored; `write` has them under the chunk index `chunks.length`. -/
def sendFile : Option (List (List UInt8)) := do
  let chunks := spiltFile filebytes chunksize
  let sent ← sendChunks gf encode filebytes draw write chunks 0 chunks.length
  if sent.returned then
    return sent.frames
  let endpkts := (List.range 5).filterMap fun k =>
    if write chunks.length k = .ok then some (encodeEND (chunks.length - 1) encode) else none
  return sent.frames ++ endpkts

end

/-! ### The chunks -/

section

variable (filebytes : List UInt8)

/-- The number of chunks of a file. -/
def chunkCount : Nat := (spiltFile filebytes chunksize).length

/-- Chunk `i` as it is sent. -/
def paddedChunk (i : Nat) : List UInt8 :=
  block chunksize i filebytes ++ List.replicate (chunksize - (block chunksize i filebytes).length) 0

/-- The original pieces of chunk `i`. -/
def chunkPieces (i : Nat) : List Piece :=
  blocks piecesize piececnt (paddedChunk filebytes i)

end

section Chunks

variable {filebytes : List UInt8}

theorem chunkCount_eq :
    chunkCount filebytes = (filebytes.length + chunksize - 1) / chunksize := by
  simp [chunkCount, spiltFile, ceilDiv]

/-- The chunks are just enough to hold the file. -/
theorem chunkCount_spec (filebytes : List UInt8) :
    filebytes.length ≤ chunksize * chunkCount filebytes ∧
      ∀ i < chunkCount filebytes, chunksize * i < filebytes.length := by
  rw [chunkCount_eq, chunksize]
  constructor
  · omega
  intro i hi
  omega

theorem getElem?_spiltFile {i : Nat} (hi : i < chunkCount filebytes) :
    (spiltFile filebytes chunksize)[i]? = some (paddedChunk filebytes i) := by
  have hlt : i < (spiltFile filebytes chunksize).length := hi
  rw [getElem?_eq_getElem hlt]
  simp only [spiltFile, getElem_map, getElem_range, paddedChunk]

theorem length_paddedChunk (filebytes : List UInt8) (i : Nat) :
    (paddedChunk filebytes i).length = chunksize := by
  have hle : (block chunksize i filebytes).length ≤ chunksize := by
    rw [length_block]
    exact Nat.min_le_left _ _
  rw [paddedChunk, length_append, length_replicate]
  omega

/-- The size field of a chunk is the number of its file bytes. -/
theorem chunkBytesCount_eq {i : Nat} (hi : i < chunkCount filebytes) :
    chunkBytesCount filebytes (chunkCount filebytes) i = (block chunksize i filebytes).length := by
  obtain ⟨hall, heach⟩ := chunkCount_spec filebytes
  have hlt := heach i hi
  rw [chunkBytesCount, length_block]
  by_cases hlast : i = chunkCount filebytes - 1
  · rw [if_pos hlast, ← hlast]
    have hnum : chunkCount filebytes = i + 1 := by omega
    rw [hnum, Nat.mul_succ] at hall
    omega
  · have hnext := heach (i + 1) (by omega)
    rw [Nat.mul_succ] at hnext
    rw [if_neg hlast]
    omega

theorem length_chunkPieces (i : Nat) :
    (chunkPieces filebytes i).length = piececnt := length_blocks _ _ _

theorem length_of_mem_chunkPieces {i : Nat} {p : Piece} (hp : p ∈ chunkPieces filebytes i) :
    p.length = piecesize := by
  have hle : piecesize * piececnt ≤ (paddedChunk filebytes i).length :=
    (length_paddedChunk filebytes i).ge
  exact length_of_mem_blocks hle hp

theorem flatten_chunkPieces (i : Nat) :
    (chunkPieces filebytes i).flatten = paddedChunk filebytes i := by
  rw [chunkPieces, flatten_blocks]
  exact take_of_length_le (length_paddedChunk filebytes i).le

/-- The file bytes of a chunk are the first ones of the padded chunk. -/
theorem take_paddedChunk (i : Nat) :
    (paddedChunk filebytes i).take (block chunksize i filebytes).length =
      block chunksize i filebytes := by
  rw [paddedChunk, take_left' rfl]

end Chunks

/-! ### The frames of a stream that takes every frame -/

/-- A chunk of the right size is split into its blocks. -/
theorem newFullRLNCEncoderWithPieceCount_chunk {chunk : List UInt8} (h : chunk.length = chunksize) :
    newFullRLNCEncoderWithPieceCount chunk piececnt =
      some (.ok ⟨blocks piecesize piececnt chunk, 0⟩) := by
  have hsize : originalPiecesFromDataAndPieceSize chunk piecesize =
      some (.ok (blocks piecesize piececnt chunk, 0)) := by
    simp only [originalPiecesFromDataAndPieceSize, h]
    rw [if_neg (by decide), if_neg (by decide), if_neg (by decide)]
    rfl
  have hcount : originalPiecesFromDataAndPieceCount chunk piececnt =
      some (.ok (blocks piecesize piececnt chunk, 0)) := by
    simp only [originalPiecesFromDataAndPieceCount, h]
    rw [if_neg (by decide), if_neg (by decide), if_neg (by decide), bind_some]
    have hpiece : ceilDiv chunksize piececnt = piecesize := by decide
    simp only [hpiece, hsize]
    rfl
  rw [newFullRLNCEncoderWithPieceCount, hcount]
  rfl

/-- The loop over the pieces when every frame can be built and written. -/
theorem writePieces_ok {pkt : Nat → Option (Except XncError (List UInt8))} {g : Nat → List UInt8} :
    ∀ n s, (∀ k, s ≤ k → k < s + n → pkt k = some (.ok (g k))) →
      writePieces pkt (fun _ => .ok) s n = some ⟨(range' s n).map g, false⟩ := by
  intro n
  induction n with
  | zero =>
    intro s _
    rfl
  | succ n ih =>
    intro s h
    rw [writePieces, h s (Nat.le_refl s) (by omega), bind_some]
    simp only [ih (s + 1) fun k hlo hhi => h k (by omega) (by omega), map_some,
      range'_succ, map_cons]

/-- The vectors drawn for one chunk. -/
def drawnVectors (draw : Nat → Nat → UInt8) : List CodingVector :=
  (List.range codedpiececnt).map fun j => generateCodingVector piececnt (draw j)

/-- The frames of all chunks, `ps i` being the coded pieces of chunk `i`. -/
def codedFrames (filebytes : List UInt8) (ps : Nat → List CodedPiece) : List (List UInt8) :=
  (List.range (chunkCount filebytes)).flatMap fun i =>
    (ps i).map (encFrame (block chunksize i filebytes).length i (chunkCount filebytes))

/-- The frames of all chunks in the plain mode. -/
def plainFrames (filebytes : List UInt8) : List (List UInt8) :=
  (List.range (chunkCount filebytes)).flatMap fun i =>
    (chunkPieces filebytes i).map
      (plainFrame (block chunksize i filebytes).length i (chunkCount filebytes))

section Sending

variable (gf : GF256) (filebytes : List UInt8) (draw : Nat → Nat → Nat → UInt8)

/-- The coded pieces of a chunk: they have the vectors drawn for it. -/
theorem codedPieces_drawn (i : Nat) :
    ∃ ps : List CodedPiece,
      (range codedpiececnt).mapM (fun j =>
        FullRLNCEncoder.codedPiece gf ⟨chunkPieces filebytes i, 0⟩ (draw i j)) = some ps ∧
      ps.map CodedPiece.vector = drawnVectors (draw i) ∧
      ∀ p ∈ ps, Genuine gf (chunkPieces filebytes i) piecesize p := by
  have hne : chunkPieces filebytes i ≠ [] :=
    ne_nil_of_length_pos (by rw [length_chunkPieces]; decide)
  obtain ⟨ps, hmap, hall⟩ := mapM_spec
    (f := fun j => FullRLNCEncoder.codedPiece gf ⟨chunkPieces filebytes i, 0⟩ (draw i j))
    (P := fun j p => p.vector = generateCodingVector piececnt (draw i j) ∧
      Genuine gf (chunkPieces filebytes i) piecesize p)
    (range codedpiececnt) (by
      intro j _
      obtain ⟨p, heq, hvec, hgen⟩ := FullRLNCEncoder.codedPiece_genuine gf hne
        (fun p hp => length_of_mem_chunkPieces hp)
        (f := ⟨chunkPieces filebytes i, 0⟩) rfl (draw i j)
      rw [length_chunkPieces] at hvec
      exact ⟨p, heq, hvec, hgen⟩)
  have hlen : ps.length = codedpiececnt := by rw [← hall.length_eq, length_range]
  have hget : ∀ k (hk : k < ps.length), ps[k].vector = generateCodingVector piececnt (draw i k) ∧
      Genuine gf (chunkPieces filebytes i) piecesize ps[k] := by
    intro k hk
    have hP := hall.get (i := k) (by simpa [hlen] using hk) hk
    simpa using hP
  refine ⟨ps, hmap, ?_, ?_⟩
  · apply ext_getElem
    · simp [drawnVectors, hlen]
    intro k hk _
    rw [getElem_map, (hget k (by simpa using hk)).1]
    simp [drawnVectors]
  · intro p hp
    obtain ⟨k, hk, rfl⟩ := mem_iff_getElem.mp hp
    exact (hget k hk).2

theorem sendChunk_encoded {i : Nat} (hi : i < chunkCount filebytes) :
    ∃ ps : List CodedPiece, ps.map CodedPiece.vector = drawnVectors (draw i) ∧
      (∀ p ∈ ps, Genuine gf (chunkPieces filebytes i) piecesize p) ∧
      sendChunk gf true filebytes draw (fun _ _ => .ok) (spiltFile filebytes chunksize) i =
        some ⟨ps.map (encFrame (block chunksize i filebytes).length i (chunkCount filebytes)),
          false⟩ := by
  obtain ⟨ps, hmap, hvec, hgen⟩ := codedPieces_drawn gf filebytes draw i
  have hlen : ps.length = codedpiececnt := by
    simpa [drawnVectors] using congrArg length hvec
  refine ⟨ps, hvec, hgen, ?_⟩
  have hpkt : ∀ k, 0 ≤ k → k < 0 + codedpiececnt →
      ps[k]?.map (getXNCEncPkt (block chunksize i filebytes).length i (chunkCount filebytes)) =
        some (.ok ((ps.map (encFrame (block chunksize i filebytes).length i
          (chunkCount filebytes))).getD k [])) := by
    intro k _ hk
    have hkp : k < ps.length := by omega
    have hgen' := hgen ps[k] (getElem_mem hkp)
    rw [getElem?_eq_getElem hkp, map_some, getD_eq_getElem _ _ (by simpa using hkp),
      getElem_map, getXNCEncPkt, encodeXNCPkt_enc _ _ _
        (by rw [hgen'.vector_length, length_chunkPieces]; rfl) hgen'.piece_length]
    rfl
  have hframes : (range' 0 codedpiececnt).map (fun k => (ps.map (encFrame
      (block chunksize i filebytes).length i (chunkCount filebytes))).getD k []) =
      ps.map (encFrame (block chunksize i filebytes).length i (chunkCount filebytes)) := by
    apply ext_getElem
    · simp [hlen]
    intro k hk hk'
    rw [getElem_map, getElem_range', Nat.zero_add, Nat.one_mul, getD_eq_getElem _ _ hk']
  have hsize : chunkBytesCount filebytes (spiltFile filebytes chunksize).length i =
      (block chunksize i filebytes).length := chunkBytesCount_eq hi
  rw [sendChunk, getElem?_spiltFile hi]
  simp only [bind_eq_bind, bind_some, if_true,
    newFullRLNCEncoderWithPieceCount_chunk (length_paddedChunk filebytes i), hsize]
  rw [← chunkPieces, hmap, bind_some, ← hframes]
  exact writePieces_ok codedpiececnt 0 hpkt

theorem sendChunk_plain {i : Nat} (hi : i < chunkCount filebytes) :
    sendChunk gf false filebytes draw (fun _ _ => .ok) (spiltFile filebytes chunksize) i =
      some ⟨(chunkPieces filebytes i).map
        (plainFrame (block chunksize i filebytes).length i (chunkCount filebytes)), false⟩ := by
  have hsize : chunkBytesCount filebytes (spiltFile filebytes chunksize).length i =
      (block chunksize i filebytes).length := chunkBytesCount_eq hi
  have hchunk := length_paddedChunk filebytes i
  have hpkt : ∀ k, 0 ≤ k → k < 0 + piececnt →
      (slice (paddedChunk filebytes i) (k * piecesize) ((k + 1) * piecesize)).map
        (getXNCPkt (block chunksize i filebytes).length i (chunkCount filebytes)) =
      some (.ok (plainFrame (block chunksize i filebytes).length i (chunkCount filebytes)
        (block piecesize k (paddedChunk filebytes i)))) := by
    intro k _ hk
    have hle : (k + 1) * piecesize ≤ chunksize :=
      Nat.le_trans (Nat.mul_le_mul_right piecesize (by omega : k + 1 ≤ piececnt)) (by decide)
    have hblock : block piecesize k (paddedChunk filebytes i) ∈ chunkPieces filebytes i :=
      mem_map.mpr ⟨k, mem_range.mpr (by omega), rfl⟩
    have hslice : slice (paddedChunk filebytes i) (k * piecesize) ((k + 1) * piecesize) =
        some (block piecesize k (paddedChunk filebytes i)) := by
      rw [slice_eq_some (Nat.mul_le_mul_right _ (Nat.le_succ k)) (hchunk.symm ▸ hle), block,
        Nat.mul_comm piecesize k, Nat.succ_mul, Nat.add_sub_cancel_left]
    rw [hslice, map_some, getXNCPkt,
      encodeXNCPkt_plain _ _ _ [] (length_of_mem_chunkPieces hblock)]
    rfl
  have hframes : (range' 0 piececnt).map (fun k => plainFrame
      (block chunksize i filebytes).length i (chunkCount filebytes)
        (block piecesize k (paddedChunk filebytes i))) =
      (chunkPieces filebytes i).map
        (plainFrame (block chunksize i filebytes).length i (chunkCount filebytes)) := by
    rw [chunkPieces, blocks, map_map, range_eq_range']
    rfl
  rw [sendChunk, getElem?_spiltFile hi]
  simp only [bind_eq_bind, bind_some, Bool.false_eq_true, if_false, hsize]
  rw [← hframes]
  exact writePieces_ok piececnt 0 hpkt

/-- The loop over the chunks when no chunk makes `sendFile` return. -/
theorem sendChunks_ok {encode : Bool} {write : Nat → Nat → WriteResult}
    {chunks : List (List UInt8)} {fs : Nat → List (List UInt8)} :
    ∀ n i, (∀ k, i ≤ k → k < i + n →
        sendChunk gf encode filebytes draw write chunks k = some ⟨fs k, false⟩) →
      sendChunks gf encode filebytes draw write chunks i n =
        some ⟨(range' i n).flatMap fs, false⟩ := by
  intro n
  induction n with
  | zero =>
    intro i _
    rfl
  | succ n ih =>
    intro i h
    rw [sendChunks, h i (Nat.le_refl i) (by omega), bind_some,
      ih (i + 1) fun k hlo hhi => h k (by omega) (by omega)]
    simp [range'_succ]

theorem sendFile_ok {encode : Bool} {fs : Nat → List (List UInt8)}
    (h : ∀ i < chunkCount filebytes, sendChunk gf encode filebytes draw (fun _ _ => .ok)
      (spiltFile filebytes chunksize) i = some ⟨fs i, false⟩) :
    sendFile gf encode filebytes draw (fun _ _ => .ok) =
      some ((range (chunkCount filebytes)).flatMap fs ++
        replicate 5 (encodeEND (chunkCount filebytes - 1) encode)) := by
  have hloop := sendChunks_ok gf filebytes draw (chunkCount filebytes) 0
    fun k _ hk => h k (by omega)
  rw [chunkCount] at hloop
  simp only [sendFile, bind_eq_bind, hloop, bind_some, Bool.false_eq_true, if_false,
    if_true, ← range_eq_range']
  rfl

/-- What an encoded transfer writes. -/
theorem sendFile_encoded :
    ∃ ps : Nat → List CodedPiece,
      (∀ i < chunkCount filebytes, (ps i).map CodedPiece.vector = drawnVectors (draw i) ∧
        ∀ p ∈ ps i, Genuine gf (chunkPieces filebytes i) piecesize p) ∧
      sendFile gf true filebytes draw (fun _ _ => .ok) = some (codedFrames filebytes ps ++
        replicate 5 (encodeEND (chunkCount filebytes - 1) true)) := by
  have hchunk := fun i (hi : i < chunkCount filebytes) => sendChunk_encoded gf filebytes draw hi
  choose ps hvec hgen hsend using hchunk
  refine ⟨fun i => if hi : i < chunkCount filebytes then ps i hi else [], ?_, ?_⟩
  · intro i hi
    simp only [dif_pos hi]
    exact ⟨hvec i hi, hgen i hi⟩
  · refine sendFile_ok gf filebytes draw fun i hi => ?_
    simp only [dif_pos hi]
    exact hsend i hi

/-- What a plain transfer writes. -/
theorem sendFile_plain :
    sendFile gf false filebytes draw (fun _ _ => .ok) = some (plainFrames filebytes ++
      replicate 5 (encodeEND (chunkCount filebytes - 1) false)) :=
  sendFile_ok gf filebytes draw fun _ hi => sendChunk_plain gf filebytes draw hi

end Sending

end RlncStreaming.Xnc
