import RlncStreaming.Quic.ByteOrder

/-!
ACK and CLOSE_PATH frames (`internal/wire`: `ack_frame.go`, `close_path_frame.go`,
`ack_range.go`).

Both frames report received packets as the largest number and a descending list of
ranges. On the wire a range is the gap to the range above it and its length; a gap of more
than 255 packets takes a chain of blocks, all but the last of length zero, and a frame has
room for 255 blocks. The number of blocks is computed before they are written.
-/

namespace RlncStreaming.Quic

/-! ### Frames -/

structure AckRange where
  first : Nat
  last : Nat
deriving DecidableEq, Repr

/-- What an ACK and a CLOSE_PATH frame have in common. Their functions on these fields have
the same bodies. -/
structure AckBlocks where
  pathID : UInt8
  largestAcked : Nat
  lowestAcked : Nat
  ackRanges : List AckRange
deriving DecidableEq, Repr

/-- An ACK frame; the delay is in nanoseconds. -/
structure AckFrame extends AckBlocks where
  delayTime : Nat
deriving DecidableEq, Repr

structure ClosePathFrame extends AckBlocks
deriving DecidableEq, Repr

inductive PacketNumberLen where
  | len1
  | len2
  | len4
  | len6
deriving DecidableEq, Repr

def PacketNumberLen.toNat : PacketNumberLen → Nat
  | len1 => 1
  | len2 => 2
  | len4 => 4
  | len6 => 6

/-- `GetPacketNumberLength`. -/
def getPacketNumberLength (packetNumber : Nat) : PacketNumberLen :=
  if packetNumber < 2 ^ 8 then .len1
  else if packetNumber < 2 ^ 16 then .len2
  else if packetNumber < 2 ^ 32 then .len4
  else .len6

namespace AckRange

/-- The number of packets of a range. -/
def length (r : AckRange) : Nat := add64 (sub64 r.last r.first) 1

/-- The number of packets between a range and the range above it. -/
def gap (above r : AckRange) : Nat := sub64 (sub64 above.first r.last) 1

end AckRange

/-- The number of blocks of a range below a gap. -/
def numBlocks (gap : Nat) : Nat := if gap % 255 = 0 then gap / 255 + 1 - 1 else gap / 255 + 1

/-- The counting loop of `numWritableNackRanges`. -/
def countBlocks (numRanges : Nat) : AckRange → List AckRange → Nat
  | _, [] => numRanges
  | above, r :: rs =>
    if numRanges + numBlocks (above.gap r) < 255 then
      countBlocks (numRanges + numBlocks (above.gap r)) r rs
    else numRanges

/-- Each range starts below the one above it and does not touch it. -/
def consistentRanges : List AckRange → Bool
  | above :: r :: rs =>
    decide (r.first < above.first) && decide (add64 r.last 1 < above.first) &&
      consistentRanges (r :: rs)
  | _ => true

namespace AckBlocks

variable (f : AckBlocks)

/-- `HasMissingRanges`. -/
def hasMissingRanges : Bool := decide (0 < f.ackRanges.length)

/-- `validateAckRanges`. -/
def validateAckRanges : Bool :=
  match f.ackRanges with
  | [] => true
  | [_] => false
  | r :: rs =>
    decide (r.last = f.largestAcked) && (r :: rs).all (fun r => decide (r.first ≤ r.last)) &&
      consistentRanges (r :: rs)

/-- `numWritableNackRanges`. -/
def numWritableNackRanges : Nat :=
  match f.ackRanges with
  | [] => 0
  | r :: rs => countBlocks 0 r rs + 1

/-- The number of packets of the longest range. -/
def maxRangeLength : Nat :=
  if f.hasMissingRanges then f.ackRanges.foldl (fun m r => max m r.length) 0
  else add64 (sub64 f.largestAcked f.lowestAcked) 1

/-- `getMissingSequenceNumberDeltaLen`. -/
def getMissingSequenceNumberDeltaLen : PacketNumberLen :=
  if f.maxRangeLength ≤ 0xFF then .len1
  else if f.maxRangeLength ≤ 0xFFFF then .len2
  else if f.maxRangeLength ≤ 0xFFFFFFFF then .len4
  else .len6

/-- `AcksPacket`. -/
def acksPacket (p : Nat) : Bool :=
  if p < f.lowestAcked ∨ f.largestAcked < p then false
  else if f.hasMissingRanges then f.ackRanges.any fun r => decide (r.first ≤ p ∧ p ≤ r.last)
  else decide (f.lowestAcked ≤ p ∧ p ≤ f.largestAcked)

end AckBlocks

/-! ### Writing -/

/-- A number of the width of the block lengths. `WriteUint48` panics on a larger number; the
ACK frame masks it before (`masked`). -/
def writeNumber (masked : Bool) (o : ByteOrder) (width : PacketNumberLen) (n : Nat) :
    Option (List UInt8) :=
  if width = .len6 ∧ masked = false ∧ 2 ^ 48 ≤ n then none else some (o.bytes width.toNat n)

/-- The blocks of one range: a single one, or a chain for a long gap. -/
def writeRange (masked : Bool) (o : ByteOrder) (width : PacketNumberLen) (gap length : Nat) :
    Option (List UInt8) := do
  let num := numBlocks gap
  if num = 1 then
    return UInt8.ofNat gap :: (← writeNumber masked o width length)
  else
    let chain ← (List.range num).mapM fun i => do
      if i = num - 1 then
        return UInt8.ofNat (1 + sub64 gap 1 % 255) :: (← writeNumber masked o width length)
      else
        return 0xFF :: (← writeNumber masked o width 0)
    return chain.flatten

/-- The loop over the ranges below the first. It ends when as many blocks are written as
were counted; the second result is the number of blocks written. -/
def writeRanges (masked : Bool) (o : ByteOrder) (width : PacketNumberLen) (numRanges : Nat) :
    AckRange → List AckRange → Nat → Option (List UInt8 × Nat)
  | _, [], written => some ([], written)
  | above, r :: rs, written => do
    let block ← writeRange masked o width (above.gap r) r.length
    let written := written + numBlocks (above.gap r)
    if numRanges ≤ written then return (block, written)
    let (rest, written) ← writeRanges masked o width numRanges r rs written
    return (block ++ rest, written)

namespace AckBlocks

/-- The byte with the number of blocks below the first; more than 255 is a panic. -/
def writeNumRanges (f : AckBlocks) : Option (List UInt8) :=
  if f.hasMissingRanges then
    if 0xFF < f.numWritableNackRanges then none
    else some [UInt8.ofNat (f.numWritableNackRanges - 1)]
  else some []

/-- The length of the first block and all blocks below it. -/
def writeBlocks (masked : Bool) (o : ByteOrder) (f : AckBlocks) :
    Option (Except WireError (List UInt8)) := do
  let width := f.getMissingSequenceNumberDeltaLen
  match f.ackRanges with
  | [] => return .ok (← writeNumber masked o width (add64 (sub64 f.largestAcked f.lowestAcked) 1))
  | r :: rs =>
    if f.largestAcked ≠ r.last then return .error .inconsistentAckLargestAcked
    if f.lowestAcked ≠ ((r :: rs).getLast (List.cons_ne_nil r rs)).first then
      return .error .inconsistentAckLowestAcked
    let first ← writeNumber masked o width (add64 (sub64 f.largestAcked r.first) 1)
    let (rest, written) ← writeRanges masked o width f.numWritableNackRanges r rs 1
    if f.numWritableNackRanges ≠ written then return .error .inconsistentNumberOfRanges
    return .ok (first ++ rest)

end AckBlocks

/-- The bits for the two widths, which stand at the same place in both frames. -/
def widthBits (largest delta : PacketNumberLen) : UInt8 :=
  (if largest ≠ .len1 then UInt8.ofNat (largest.toNat / 2) <<< 2 else 0) ^^^
    (if delta ≠ .len1 then UInt8.ofNat (delta.toNat / 2) else 0)

/-- The type byte of an ACK frame. -/
def ackTypeByte (largest delta : PacketNumberLen) (missing path : Bool) : UInt8 :=
  (0x40 ^^^ widthBits largest delta) ||| (if missing then 0x20 else 0) |||
    (if path then 0x10 else 0)

/-- `AckFrame.Write`; `delay` is the time since the packet was received, in microseconds. -/
def AckFrame.write (o : ByteOrder) (delay : Nat) (f : AckFrame) :
    Option (Except WireError (List UInt8)) := do
  let largestAckedLen := getPacketNumberLength f.largestAcked
  let typeByte := ackTypeByte largestAckedLen f.getMissingSequenceNumberDeltaLen
    f.hasMissingRanges (f.pathID != 0)
  let path := if f.pathID != 0 then [f.pathID] else []
  let largest := o.bytes largestAckedLen.toNat f.largestAcked
  let numRanges ← f.writeNumRanges
  match ← f.writeBlocks true o with
  | .error e => return .error e
  | .ok blocks =>
    return .ok (typeByte :: (path ++ (largest ++ (o.bytes 2 (ufloat16 delay) ++
      (numRanges ++ (blocks ++ [0]))))))

/-- The flags of a CLOSE_PATH frame. -/
def closePathFlags (largest delta : PacketNumberLen) (missing : Bool) : UInt8 :=
  (if missing then 0x10 else 0) ^^^ widthBits largest delta

/-- `ClosePathFrame.Write`. -/
def ClosePathFrame.write (o : ByteOrder) (f : ClosePathFrame) :
    Option (Except WireError (List UInt8)) := do
  let largestAckedLen := getPacketNumberLength f.largestAcked
  let flags := closePathFlags largestAckedLen f.getMissingSequenceNumberDeltaLen
    f.hasMissingRanges
  let numRanges ← f.writeNumRanges
  let largest ← writeNumber false o largestAckedLen f.largestAcked
  match ← f.writeBlocks false o with
  | .error e => return .error e
  | .ok blocks => return .ok (0x11 :: f.pathID :: flags :: (numRanges ++ (largest ++ blocks)))

/-! ### Parsing -/

/-- The variables of the parser's loop over the blocks; the ranges stand newest first. -/
structure RangeParser where
  ranges : List AckRange
  inLongBlock : Bool
  lastRangeComplete : Bool
deriving DecidableEq, Repr

/-- One block. In a chain it moves the range that the chain has started. -/
def RangeParser.block (st : RangeParser) (gap length : Nat) : RangeParser :=
  match st.ranges with
  | [] => st
  | above :: before =>
    let ranges :=
      if st.inLongBlock then
        ⟨sub64 above.first (add64 gap length), sub64 above.last gap⟩ :: before
      else
        let last := sub64 (sub64 above.first gap) 1
        ⟨add64 (sub64 last length) 1, last⟩ :: above :: before
    ⟨ranges, decide (length = 0),
      decide (0 < length) || (st.inLongBlock && st.lastRangeComplete)⟩

/-- The loop over the blocks. -/
def parseRanges (o : ByteOrder) (width : Nat) :
    Nat → RangeParser → List UInt8 → Except WireError (RangeParser × List UInt8)
  | 0, st, bs => .ok (st, bs)
  | n + 1, st, bs => do
    let (gap, bs) ← readByte bs
    let (length, bs) ← o.readUintN width bs
    parseRanges o width n (st.block gap.toNat length) bs

/-- The part that both parsers share, from the length of the first block on. -/
def parseBlocks (o : ByteOrder) (pathID : UInt8) (hasMissingRanges : Bool) (numAckBlocks : Nat)
    (largestAcked width : Nat) (bs : List UInt8) : Except WireError (AckBlocks × List UInt8) := do
  let (ackBlockLength, bs) ← o.readUintN width bs
  if 0 < largestAcked ∧ ackBlockLength < 1 then throw .invalidFirstAckRange
  if largestAcked < ackBlockLength then throw .invalidAckRanges
  let (frame, bs) ←
    if hasMissingRanges then do
      let first : AckRange := ⟨add64 (largestAcked - ackBlockLength) 1, largestAcked⟩
      let (st, bs) ← parseRanges o width numAckBlocks ⟨[first], false, false⟩ bs
      let ranges := if st.lastRangeComplete then st.ranges else st.ranges.tail
      pure (AckBlocks.mk pathID largestAcked ((ranges.head?.map AckRange.first).getD 0)
        ranges.reverse, bs)
    else
      let lowest := if largestAcked = 0 then 0 else sub64 (add64 largestAcked 1) ackBlockLength
      pure (AckBlocks.mk pathID largestAcked lowest [], bs)
  if frame.validateAckRanges then return (frame, bs) else throw .invalidAckRanges

/-- A byte that is there only under a condition. -/
def readByteIf (c : Bool) (bs : List UInt8) : Except WireError (UInt8 × List UInt8) :=
  if c then readByte bs else .ok (0, bs)

/-- The width that two bits stand for. -/
def widthOf (bits : UInt8) : Nat := if bits = 0 then 1 else 2 * bits.toNat

/-- The time stamps after the first. -/
def skipDeltas (o : ByteOrder) : Nat → List UInt8 → Except WireError (List UInt8)
  | 0, bs => .ok bs
  | n + 1, bs => do
    let (_, bs) ← readByte bs
    let (_, bs) ← o.readUintN 2 bs
    skipDeltas o n bs

/-- The time stamps at the end of an ACK frame are read and dropped. -/
def skipTimestamps (o : ByteOrder) (bs : List UInt8) : Except WireError (List UInt8) := do
  let (numTimestamp, bs) ← readByte bs
  if numTimestamp = 0 then return bs
  let (_, bs) ← readByte bs
  let (_, bs) ← o.readUintN 4 bs
  skipDeltas o (numTimestamp.toNat - 1) bs

/-- `ParseAckFrame`; the second result is what is left of the input. -/
def parseAckFrame (o : ByteOrder) (bs : List UInt8) :
    Except WireError (AckFrame × List UInt8) := do
  let (typeByte, bs) ← readByte bs
  let hasMissingRanges := typeByte &&& 0x20 == 0x20
  let largestAckedLen := widthOf ((typeByte &&& 0x0C) >>> 2)
  let width := widthOf (typeByte &&& 0x03)
  let (pathID, bs) ← readByteIf (typeByte &&& 0x10 == 0x10) bs
  let (largestAcked, bs) ← o.readUintN largestAckedLen bs
  let (delay, bs) ← o.readUfloat16 bs
  let (numAckBlocks, bs) ← readByteIf hasMissingRanges bs
  if hasMissingRanges = true ∧ numAckBlocks = 0 then throw .invalidAckRanges
  let (frame, bs) ← parseBlocks o pathID hasMissingRanges numAckBlocks.toNat largestAcked width bs
  let bs ← skipTimestamps o bs
  return (⟨frame, delay * 1000⟩, bs)

/-- `ParseClosePathFrame`. -/
def parseClosePathFrame (o : ByteOrder) (bs : List UInt8) :
    Except WireError (ClosePathFrame × List UInt8) := do
  let (_, bs) ← readByte bs
  let (pathID, bs) ← readByte bs
  let (flags, bs) ← readByte bs
  let hasMissingRanges := flags &&& 0x10 == 0x10
  let largestAckedLen := widthOf ((flags &&& 0x0C) >>> 2)
  let width := widthOf (flags &&& 0x03)
  let (numAckBlocks, bs) ← readByteIf hasMissingRanges bs
  if hasMissingRanges = true ∧ numAckBlocks = 0 then throw .invalidAckRanges
  let (largestAcked, bs) ← o.readUintN largestAckedLen bs
  let (frame, bs) ← parseBlocks o pathID hasMissingRanges numAckBlocks.toNat largestAcked width bs
  return (⟨frame⟩, bs)

end RlncStreaming.Quic
