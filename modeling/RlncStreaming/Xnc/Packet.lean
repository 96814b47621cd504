import RlncStreaming.Kodr.Decoder

/-!
The frames of a transfer (`xnc/config.go`, `xnc/xnc.go`).

A data frame is a type byte, three big-endian 32-bit fields and the payload: coding
vector and piece in the encoded mode, the plain piece otherwise. Both modes have
frames of a fixed size, and an END frame is padded to it. `int` fields are cut to 32
bits on the wire, so a decoded field is the field modulo `2 ^ 32`
(`decode_encFrame`, `decode_plainFrame`). The decoder does not ask whether the type of a
block belongs to its size; `xnc_format_iff` says where this matters.
-/

namespace RlncStreaming.Xnc

open Kodr List

/-! ### Constants -/

def typeInitEnc : UInt8 := 0x3
def typeInit : UInt8 := 0x4
def typeXncEnc : UInt8 := 0x5
def typeXnc : UInt8 := 0x6
def typeEnd : UInt8 := 0x7

/-- `CHUNKSIZE`. -/
def chunksize : Nat := 2 ^ 14

/-- `VECTORSIZE`. -/
def vectorsize : Nat := chunksize / 1024

/-- `PIECESIZE`. -/
def piecesize : Nat := chunksize / vectorsize

/-- `FRAMESIZE_ENC`: type, id, size, number, vector and piece. -/
def framesizeEnc : Nat := 1 + 4 + 4 + 4 + vectorsize + piecesize

/-- `FRAMESIZE`. -/
def framesize : Nat := 1 + 4 + 4 + 4 + piecesize

/-- `INITSIZE`. -/
def initsize : Nat := 128

/-- `PIECECNT`. -/
def piececnt : Nat := vectorsize

/-- `CODEDPIECECNT`. -/
def codedpiececnt : Nat := piececnt + 1

/-- The frame size of a mode. -/
def frameSize (encode : Bool) : Nat := if encode then framesizeEnc else framesize

/-! ### Slices and big-endian fields -/

/-- `data[lo:hi]` of a slice without spare capacity. -/
def slice (data : List UInt8) (lo hi : Nat) : Option (List UInt8) :=
  if lo ≤ hi ∧ hi ≤ data.length then some ((data.drop lo).take (hi - lo)) else none

/-- `BigEndian.PutUint32(_, uint32(v))`. -/
def putUint32 (v : Nat) : List UInt8 :=
  [UInt8.ofNat (v / 2 ^ 24), UInt8.ofNat (v / 2 ^ 16), UInt8.ofNat (v / 2 ^ 8), UInt8.ofNat v]

/-- `BigEndian.Uint32`, which needs four bytes. -/
def beUint32 : List UInt8 → Option Nat
  | a :: b :: c :: d :: _ =>
    some (a.toNat * 2 ^ 24 + b.toNat * 2 ^ 16 + c.toNat * 2 ^ 8 + d.toNat)
  | _ => none

theorem beUint32_putUint32 (v : Nat) : beUint32 (putUint32 v) = some (v % 2 ^ 32) := by
  simp only [putUint32, beUint32, UInt8.toNat_ofNat', Option.some.injEq]
  omega

theorem putUint32_length (v : Nat) : (putUint32 v).length = 4 := rfl

/-! ### Data frames -/

/-- The errors of the frame functions; `encoding` and `gettingPieces` wrap the error of
a callee. -/
inductive XncError where
  | vectorOrPieceSize (vector piece : Nat)
  | pieceSize
  | pktSize (len : Nat)
  | unknownType
  | encoding (e : XncError)
  | gettingPieces (e : KodrError)
  | initType
deriving DecidableEq, Repr

/-- The fields of a data frame. -/
structure XNC where
  type : UInt8
  chunkId : Nat
  chunkNum : Nat
  chunkSize : Nat
  vector : List UInt8
  piece : List UInt8
deriving DecidableEq, Repr

/-- `EncodeXNCPkt`. -/
def encodeXNCPkt (data : XNC) : Except XncError (List UInt8) :=
  if data.type = typeXncEnc ∧
      (data.vector.length ≠ vectorsize ∨ data.piece.length ≠ piecesize) then
    .error (.vectorOrPieceSize data.vector.length data.piece.length)
  else if data.type = typeXnc ∧ data.piece.length ≠ piecesize then .error .pieceSize
  else
    let pkt := [data.type] ++ putUint32 data.chunkId ++ putUint32 data.chunkSize ++
      putUint32 data.chunkNum
    if data.type = typeXncEnc then
      .ok (pkt ++ data.vector.take vectorsize ++ data.piece.take piecesize)
    else if data.type = typeXnc then .ok (pkt ++ data.piece.take piecesize)
    else .ok pkt

/-- `DecodeXNCPkt`. Of an END frame only the type is read. -/
def decodeXNCPkt (data : List UInt8) : Option (Except XncError XNC) := do
  if data.length ≠ framesizeEnc ∧ data.length ≠ framesize then
    return .error (.pktSize data.length)
  let type ← data[0]?
  if type = typeEnd then
    return .ok ⟨type, 0, 0, 0, [], []⟩
  let chunkId ← (slice data 1 5).bind beUint32
  let chunkSize ← (slice data 5 9).bind beUint32
  let chunkNum ← (slice data 9 13).bind beUint32
  if type = typeXncEnc then
    let vector ← slice data 13 (13 + vectorsize)
    let piece ← slice data (13 + vectorsize) (13 + vectorsize + piecesize)
    return .ok ⟨type, chunkId, chunkNum, chunkSize, vector, piece⟩
  else if type = typeXnc then
    return .ok ⟨type, chunkId, chunkNum, chunkSize, [], data.drop 13⟩
  else
    return .error .unknownType

/-- `GetXNCPkt`. -/
def getXNCPkt (size id chunknum : Nat) (codepiece : List UInt8) : Except XncError (List UInt8) :=
  (encodeXNCPkt ⟨typeXnc, id, chunknum, size, [], codepiece⟩).mapError .encoding

/-- `GetXNCEncPkt`. -/
def getXNCEncPkt (size id chunknum : Nat) (codepiece : CodedPiece) : Except XncError (List UInt8) :=
  (encodeXNCPkt ⟨typeXncEnc, id, chunknum, size, codepiece.vector, codepiece.piece⟩).mapError
    .encoding

/-- `EncodeEND`; the id of an empty file is `-1`. -/
def encodeEND (id : Int) (encode : Bool) : List UInt8 :=
  [typeEnd] ++ putUint32 (id % 2 ^ 32).toNat ++ List.replicate (frameSize encode - 5) 0

/-! ### What a frame decodes to -/

/-- The 32-bit field at offset `lo`. -/
def field (data : List UInt8) (lo : Nat) : Nat := (beUint32 (data.drop lo)).getD 0

theorem slice_eq_some {data : List UInt8} {lo hi : Nat} (h : lo ≤ hi) (hhi : hi ≤ data.length) :
    slice data lo hi = some ((data.drop lo).take (hi - lo)) :=
  if_pos ⟨h, hhi⟩

theorem slice_field {data : List UInt8} {lo : Nat} (h : lo + 4 ≤ data.length) :
    (slice data lo (lo + 4)).bind beUint32 = some (field data lo) := by
  rw [slice_eq_some (Nat.le_add_right lo 4) h, Option.bind_some, Nat.add_sub_cancel_left, field]
  have hdrop : 4 ≤ (data.drop lo).length := by
    rw [length_drop]
    omega
  -- Four bytes are there, so both reads see them.
  match data.drop lo, hdrop with
  | a :: b :: c :: d :: rest, _ => rfl

/-- A block of one of the two frame sizes, read field by field. Only an encoded data
frame in a block of the smaller size makes the decoder slice out of range. -/
theorem decodeXNCPkt_eq {data : List UInt8}
    (hlen : data.length = framesizeEnc ∨ data.length = framesize) :
    decodeXNCPkt data =
      if data.getD 0 0 = typeEnd then some (.ok ⟨typeEnd, 0, 0, 0, [], []⟩)
      else if data.getD 0 0 = typeXncEnc then
        if data.length = framesizeEnc then
          some (.ok ⟨typeXncEnc, field data 1, field data 9, field data 5,
            (data.drop 13).take vectorsize, (data.drop (13 + vectorsize)).take piecesize⟩)
        else none
      else if data.getD 0 0 = typeXnc then
        some (.ok ⟨typeXnc, field data 1, field data 9, field data 5, [], data.drop 13⟩)
      else some (.error .unknownType) := by
  have hmin : framesize ≤ data.length := by
    rcases hlen with h | h
    · rw [h]
      decide
    · rw [h]
  have hfields : 13 + vectorsize ≤ data.length := Nat.le_trans (by decide) hmin
  have hbig : 13 + vectorsize + piecesize = framesizeEnc := rfl
  have hsmall : framesize < framesizeEnc := by decide
  have hhead : data[0]? = some (data.getD 0 0) := by
    rw [getElem?_eq_getElem (by omega), getD_eq_getElem _ _ (by omega)]
  simp only [decodeXNCPkt, Option.bind_eq_bind, Option.pure_def, hhead, Option.bind_some,
    slice_field (by omega : 1 + 4 ≤ data.length), slice_field (by omega : 5 + 4 ≤ data.length),
    slice_field (by omega : 9 + 4 ≤ data.length)]
  rw [if_neg (by omega)]
  by_cases hend : data.getD 0 0 = typeEnd
  · rw [if_pos hend, if_pos hend, hend]
  rw [if_neg hend, if_neg hend]
  by_cases henc : data.getD 0 0 = typeXncEnc
  · rw [if_pos henc, if_pos henc, slice_eq_some (by omega) hfields, Option.bind_some, henc]
    by_cases hfull : data.length = framesizeEnc
    · rw [if_pos hfull, slice_eq_some (by omega) (by omega), Option.bind_some,
        Nat.add_sub_cancel_left, Nat.add_sub_cancel_left]
    · rw [if_neg hfull, slice, if_neg (by omega), Option.bind_none]
  · rw [if_neg henc, if_neg henc]
    by_cases hxnc : data.getD 0 0 = typeXnc
    · rw [if_pos hxnc, if_pos hxnc, hxnc]
    · rw [if_neg hxnc, if_neg hxnc]

section

variable (type : UInt8) (id size num : Nat) (payload : List UInt8)

/-- The bytes of a data frame: thirteen of header and the payload. -/
def frame : List UInt8 :=
  type :: (putUint32 id ++ putUint32 size ++ putUint32 num ++ payload)

theorem frame_length : (frame type id size num payload).length = 13 + payload.length := by
  simp only [frame, length_cons, length_append, putUint32_length]
  omega

theorem field_frame : field (frame type id size num payload) 1 = id % 2 ^ 32 ∧
      field (frame type id size num payload) 5 = size % 2 ^ 32 ∧
      field (frame type id size num payload) 9 = num % 2 ^ 32 := by
  have hfield : ∀ v, (beUint32 (putUint32 v)).getD 0 = v % 2 ^ 32 := fun v => by
    rw [beUint32_putUint32, Option.getD_some]
  exact ⟨hfield id, hfield size, hfield num⟩

end

/-- The encoded frame of a coded piece. -/
def encFrame (size id num : Nat) (p : CodedPiece) : List UInt8 :=
  frame typeXncEnc id size num (p.vector ++ p.piece)

/-- The plain frame of a piece. -/
def plainFrame (size id num : Nat) (piece : List UInt8) : List UInt8 :=
  frame typeXnc id size num piece

section Frames

variable (size id num : Nat)

theorem encodeXNCPkt_enc {vector piece : List UInt8} (hvec : vector.length = vectorsize)
    (hpiece : piece.length = piecesize) :
    encodeXNCPkt ⟨typeXncEnc, id, num, size, vector, piece⟩ =
      .ok (frame typeXncEnc id size num (vector ++ piece)) := by
  simp only [encodeXNCPkt, hvec, hpiece, ne_eq, not_true_eq_false, or_self, and_false, if_false,
    if_true, take_of_length_le hvec.le, take_of_length_le hpiece.le]
  simp [frame]

/-- The vector of a plain frame is not sent. -/
theorem encodeXNCPkt_plain (vector : List UInt8) {piece : List UInt8}
    (hpiece : piece.length = piecesize) :
    encodeXNCPkt ⟨typeXnc, id, num, size, vector, piece⟩ =
      .ok (frame typeXnc id size num piece) := by
  simp only [encodeXNCPkt, hpiece, ne_eq, not_true_eq_false, and_false, if_false, if_true,
    take_of_length_le hpiece.le]
  simp [frame, typeXnc, typeXncEnc]

/-- An encoded data frame carries its fields modulo `2 ^ 32`, its vector and its piece. -/
theorem decode_encFrame {p : CodedPiece} (hp : Fits vectorsize piecesize p) :
    decodeXNCPkt (encFrame size id num p) = some (.ok ⟨typeXncEnc, id % 2 ^ 32, num % 2 ^ 32,
      size % 2 ^ 32, p.vector, p.piece⟩) := by
  obtain ⟨hvec, hpiece⟩ := hp
  have hlen : (encFrame size id num p).length = framesizeEnc := by
    rw [encFrame, frame_length, length_append, hvec, hpiece]
    rfl
  obtain ⟨hid, hsize, hnum⟩ := field_frame typeXncEnc id size num (p.vector ++ p.piece)
  have hhead : (encFrame size id num p).getD 0 0 = typeXncEnc := rfl
  have hdrop : (encFrame size id num p).drop 13 = p.vector ++ p.piece := rfl
  rw [decodeXNCPkt_eq (.inl hlen), hhead, if_neg (by decide), if_pos rfl, if_pos hlen, encFrame,
    hid, hsize, hnum, ← drop_drop, ← encFrame, hdrop, take_left' hvec, drop_left' hvec,
    take_of_length_le hpiece.le]

/-- A plain data frame carries its fields modulo `2 ^ 32` and its piece. -/
theorem decode_plainFrame {piece : List UInt8} (hpiece : piece.length = piecesize) :
    decodeXNCPkt (plainFrame size id num piece) = some (.ok ⟨typeXnc, id % 2 ^ 32, num % 2 ^ 32,
      size % 2 ^ 32, [], piece⟩) := by
  have hlen : (plainFrame size id num piece).length = framesize := by
    rw [plainFrame, frame_length, hpiece]
    rfl
  obtain ⟨hid, hsize, hnum⟩ := field_frame typeXnc id size num piece
  have hhead : (plainFrame size id num piece).getD 0 0 = typeXnc := rfl
  have hdrop : (plainFrame size id num piece).drop 13 = piece := rfl
  rw [decodeXNCPkt_eq (.inr hlen), hhead, if_neg (by decide), if_neg (by decide), if_pos rfl,
    plainFrame, hid, hsize, hnum, ← plainFrame, hdrop]

end Frames

/-- An END frame is recognised in both modes. -/
theorem decode_encodeEND (id : Int) (encode : Bool) :
    (encodeEND id encode).length = frameSize encode ∧
      decodeXNCPkt (encodeEND id encode) = some (.ok ⟨typeEnd, 0, 0, 0, [], []⟩) := by
  have hlen : (encodeEND id encode).length = frameSize encode := by
    simp only [encodeEND, length_append, length_singleton, putUint32_length, length_replicate]
    cases encode <;> rfl
  refine ⟨hlen, ?_⟩
  have hhead : (encodeEND id encode).getD 0 0 = typeEnd := rfl
  have hsize : (encodeEND id encode).length = framesizeEnc ∨
      (encodeEND id encode).length = framesize := by
    cases encode with
    | true => exact .inl hlen
    | false => exact .inr hlen
  rw [decodeXNCPkt_eq hsize, hhead, if_pos rfl]

/-! ### The format of data frames -/

/-- A data packet whose vector and piece have the sizes of its type. -/
structure XNC.WellFormed (x : XNC) : Prop where
  type : x.type = typeXncEnc ∧ x.vector.length = vectorsize ∨ x.type = typeXnc
  piece : x.piece.length = piecesize
  chunkId : x.chunkId < 2 ^ 32
  chunkNum : x.chunkNum < 2 ^ 32
  chunkSize : x.chunkSize < 2 ^ 32

/-- Encoding and decoding give the packet back. -/
def RoundTrips (x : XNC) : Prop :=
  ∃ b, encodeXNCPkt x = .ok b ∧ decodeXNCPkt b = some (.ok x)

/-- A block is refused, or an END frame, or the encoding of what it decodes to. -/
def DecodesBack (b : List UInt8) : Prop :=
  match decodeXNCPkt b with
  | none => False
  | some (.error _) => True
  | some (.ok x) => x.type = typeEnd ∨ encodeXNCPkt x = .ok b

theorem roundTrips_iff {x : XNC} (hx : x.WellFormed) :
    RoundTrips x ↔ (x.type = typeXnc → x.vector = []) := by
  obtain ⟨type, chunkId, chunkNum, chunkSize, vector, piece⟩ := x
  obtain ⟨htype, hpiece, hid, hnum, hsize⟩ := hx
  simp only at htype hpiece hid hnum hsize ⊢
  rcases htype with ⟨rfl, hvec⟩ | rfl
  · have henc := encodeXNCPkt_enc chunkSize chunkId chunkNum hvec hpiece
    have hdec := decode_encFrame chunkSize chunkId chunkNum (p := ⟨vector, piece⟩) ⟨hvec, hpiece⟩
    rw [Nat.mod_eq_of_lt hid, Nat.mod_eq_of_lt hnum, Nat.mod_eq_of_lt hsize] at hdec
    exact ⟨fun _ h => absurd h (by decide), fun _ => ⟨_, henc, hdec⟩⟩
  have henc := encodeXNCPkt_plain chunkSize chunkId chunkNum vector hpiece
  have hdec := decode_plainFrame chunkSize chunkId chunkNum hpiece
  rw [Nat.mod_eq_of_lt hid, Nat.mod_eq_of_lt hnum, Nat.mod_eq_of_lt hsize] at hdec
  constructor
  · rintro ⟨b, hb, hback⟩ _
    cases henc.symm.trans hb
    exact (congrArg XNC.vector (Except.ok.inj (Option.some.inj (hdec.symm.trans hback)))).symm
  · intro hvec
    rw [hvec rfl] at henc ⊢
    exact ⟨_, henc, hdec⟩

theorem putUint32_beUint32 (a b c d : UInt8) (rest : List UInt8) :
    putUint32 ((beUint32 (a :: b :: c :: d :: rest)).getD 0) = [a, b, c, d] := by
  have ha := a.toNat_lt
  have hb := b.toNat_lt
  have hc := c.toNat_lt
  have hd := d.toNat_lt
  simp only [beUint32, Option.getD_some, putUint32, cons.injEq, and_true, ← UInt8.toNat_inj,
    UInt8.toNat_ofNat']
  omega

/-- A block is the frame of its fields. -/
theorem frame_fields {b : List UInt8} (h : 13 ≤ b.length) :
    frame (b.getD 0 0) (field b 1) (field b 5) (field b 9) (b.drop 13) = b := by
  match b, h with
  | t :: i₀ :: i₁ :: i₂ :: i₃ :: s₀ :: s₁ :: s₂ :: s₃ :: n₀ :: n₁ :: n₂ :: n₃ :: payload, _ =>
    simp only [frame, field, drop_succ_cons, drop_zero, putUint32_beUint32]
    rfl

theorem decodesBack_iff (b : List UInt8) :
    DecodesBack b ↔ ¬ (b.length = framesize ∧ b.getD 0 0 = typeXncEnc) ∧
      ¬ (b.length = framesizeEnc ∧ b.getD 0 0 = typeXnc) := by
  rw [DecodesBack]
  by_cases hlen : b.length = framesizeEnc ∨ b.length = framesize
  swap
  · have hsize : b.length ≠ framesizeEnc ∧ b.length ≠ framesize := not_or.mp hlen
    rw [decodeXNCPkt, if_pos hsize]
    exact iff_of_true trivial ⟨fun h => hsize.2 h.1, fun h => hsize.1 h.1⟩
  have hsmall : framesize ≠ framesizeEnc := by decide
  have hmin : 13 ≤ b.length := by
    rcases hlen with h | h <;> rw [h] <;> decide
  have hself := frame_fields hmin
  have hpayload : (b.drop 13).length = b.length - 13 := length_drop
  rw [decodeXNCPkt_eq hlen]
  by_cases hend : b.getD 0 0 = typeEnd
  · rw [if_pos hend, hend]
    exact iff_of_true (.inl rfl) ⟨fun h => absurd h.2 (by decide), fun h => absurd h.2 (by decide)⟩
  rw [if_neg hend]
  by_cases henc : b.getD 0 0 = typeXncEnc
  · rw [if_pos henc]
    rw [henc] at hself
    by_cases hfull : b.length = framesizeEnc
    · -- The encoded frame of the right size is the frame of its fields.
      have hvec : ((b.drop 13).take vectorsize).length = vectorsize :=
        length_take_of_le (by rw [hpayload, hfull]; decide)
      have hpiece : ((b.drop (13 + vectorsize)).take piecesize).length = piecesize :=
        length_take_of_le (by rw [length_drop, hfull]; decide)
      have hsplit : (b.drop 13).take vectorsize ++ (b.drop (13 + vectorsize)).take piecesize =
          b.drop 13 := by
        have hrest : (b.drop (13 + vectorsize)).length = piecesize := by
          rw [length_drop, hfull]
          rfl
        rw [take_of_length_le hrest.le, ← drop_drop, take_append_drop]
      rw [if_pos hfull]
      refine iff_of_true (.inr ?_) ⟨fun h => hsmall (h.1.symm.trans hfull), fun h => ?_⟩
      · rw [encodeXNCPkt_enc _ _ _ hvec hpiece, hsplit, hself]
      · exact absurd (henc.symm.trans h.2) (by decide)
    · rw [if_neg hfull]
      exact iff_of_false id fun h => h.1 ⟨hlen.resolve_left hfull, henc⟩
  rw [if_neg henc]
  by_cases hxnc : b.getD 0 0 = typeXnc
  · rw [if_pos hxnc]
    rw [hxnc] at hself
    by_cases hfull : b.length = framesizeEnc
    · -- Its piece takes the whole payload of the larger block, and is refused for that.
      have hpiece : (b.drop 13).length ≠ piecesize := by
        rw [hpayload, hfull]
        decide
      refine iff_of_false (not_or.mpr ⟨(by decide : typeXnc ≠ typeEnd), fun h => ?_⟩)
        fun h => h.2 ⟨hfull, hxnc⟩
      rw [encodeXNCPkt, if_neg (by simp [typeXnc, typeXncEnc]), if_pos ⟨rfl, hpiece⟩] at h
      cases h
    · have hpiece : (b.drop 13).length = piecesize := by
        rw [hpayload, hlen.resolve_left hfull]
        rfl
      refine iff_of_true (.inr ?_) ⟨fun h => henc h.2, fun h => hfull h.1⟩
      rw [encodeXNCPkt_plain _ _ _ [] hpiece, hself]
  · rw [if_neg hxnc]
    exact iff_of_true trivial ⟨fun h => henc h.2, fun h => hxnc h.2⟩

/-- **The data frame format.** A well-formed packet survives encoding and decoding if and
only if a plain packet carries no vector; and a block is refused, an END frame or the
encoding of what it decodes to if and only if its type belongs to its size. -/
theorem xnc_format_iff (x : XNC) (b : List UInt8) :
    (x.WellFormed → (RoundTrips x ↔ (x.type = typeXnc → x.vector = []))) ∧
      (DecodesBack b ↔
        ¬ (b.length = framesize ∧ b.getD 0 0 = typeXncEnc) ∧
          ¬ (b.length = framesizeEnc ∧ b.getD 0 0 = typeXnc)) :=
  ⟨roundTrips_iff, decodesBack_iff b⟩

/-- A coded packet survives, a plain one with a vector does not. -/
theorem xnc_format_vector :
    RoundTrips ⟨typeXncEnc, 3, 5, 100, List.replicate 16 1, List.replicate 1024 2⟩ ∧
      ¬ RoundTrips ⟨typeXnc, 3, 5, 100, [1], List.replicate 1024 2⟩ := by
  have hcoded := (xnc_format_iff ⟨typeXncEnc, 3, 5, 100, replicate 16 1, replicate 1024 2⟩ []).1
    ⟨.inl ⟨rfl, rfl⟩, length_replicate, by decide, by decide, by decide⟩
  have hplain := (xnc_format_iff ⟨typeXnc, 3, 5, 100, [1], replicate 1024 2⟩ []).1
    ⟨.inr rfl, length_replicate, by decide, by decide, by decide⟩
  exact ⟨hcoded.mpr nofun, fun h => cons_ne_nil _ _ (hplain.mp h rfl)⟩

/-- An encoded type in a block of the plain size panics the decoder; a plain type in a
block of the encoded size decodes to a packet that the encoder refuses. -/
theorem xnc_format_mixed :
    decodeXNCPkt (typeXncEnc :: List.replicate 1036 0) = none ∧
      decodeXNCPkt (typeXnc :: List.replicate 1052 0) =
        some (.ok ⟨typeXnc, 0, 0, 0, [], List.replicate 1040 0⟩) ∧
      encodeXNCPkt ⟨typeXnc, 0, 0, 0, [], List.replicate 1040 0⟩ = .error .pieceSize := by
  decide +kernel

end RlncStreaming.Xnc
