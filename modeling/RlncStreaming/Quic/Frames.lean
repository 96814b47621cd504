import RlncStreaming.Quic.AckFrames
import RlncStreaming.Quic.FrameSorter
import RlncStreaming.Quic.Nonces

/-!
The frames of a packet (`internal/wire`) and packets as they are tracked by the sender
(`ackhandler`: `packet.go`, `retransmittable.go`).

A frame is generic in the representation `σ` of its STREAM frames. The sender keeps
pointers to STREAM frames, which other parts of it may rewrite, so that `σ` is a reference
there; elsewhere it is the frame itself.
-/

namespace RlncStreaming.Quic

/-- `protocol.MaxPacketSize`. -/
def maxPacketSize : Nat := 1350

/-! ### Frames -/

/-- `wire.StreamFrame` as it is sent. -/
structure OutFrame extends StreamFrame where
  streamID : Nat
  dataLenPresent : Bool
deriving DecidableEq, Repr

namespace OutFrame

/-- `calculateStreamIDLength`. -/
def calculateStreamIDLength (f : OutFrame) : Nat :=
  if f.streamID < 2 ^ 8 then 1
  else if f.streamID < 2 ^ 16 then 2
  else if f.streamID < 2 ^ 24 then 3
  else 4

/-- `getOffsetLength`. -/
def getOffsetLength (f : OutFrame) : Nat :=
  if f.offset = 0 then 0
  else if f.offset < 2 ^ 16 then 2
  else if f.offset < 2 ^ 24 then 3
  else if f.offset < 2 ^ 32 then 4
  else if f.offset < 2 ^ 40 then 5
  else if f.offset < 2 ^ 48 then 6
  else if f.offset < 2 ^ 56 then 7
  else 8

/-- `MinLength`: the length of the header. -/
def minLength (f : OutFrame) : Nat :=
  1 + f.calculateStreamIDLength + f.getOffsetLength + if f.dataLenPresent then 2 else 0

end OutFrame

structure StopWaitingFrame where
  leastUnacked : Nat
  packetNumberLen : Option PacketNumberLen
  packetNumber : Nat
deriving DecidableEq, Repr

structure RstStreamFrame where
  streamID : Nat
  errorCode : Nat
  byteOffset : Nat
deriving DecidableEq, Repr

structure WindowUpdateFrame where
  streamID : Nat
  byteOffset : Nat
deriving DecidableEq, Repr

structure BlockedFrame where
  streamID : Nat
deriving DecidableEq, Repr

structure GoawayFrame where
  errorCode : Nat
  lastGoodStream : Nat
  reasonPhrase : List UInt8
deriving DecidableEq, Repr

structure ConnectionCloseFrame where
  errorCode : Nat
  reasonPhrase : List UInt8
deriving DecidableEq, Repr

structure AddAddressFrame where
  ipVersion : UInt8
  ip : List UInt8
  port : Int
deriving DecidableEq, Repr

structure PathsFrame where
  maxNumPaths : UInt8
  numPaths : UInt8
  pathIDs : List UInt8
  /-- In nanoseconds. -/
  remoteRTTs : List Int
deriving DecidableEq, Repr

/-- `wire.Frame`: one constructor for each type that implements it. -/
inductive Frame (σ : Type) where
  | stream (f : σ)
  | ack (f : AckFrame)
  | stopWaiting (f : StopWaitingFrame)
  | rstStream (f : RstStreamFrame)
  | windowUpdate (f : WindowUpdateFrame)
  | blocked (f : BlockedFrame)
  | ping
  | goaway (f : GoawayFrame)
  | connectionClose (f : ConnectionCloseFrame)
  | addAddress (f : AddAddressFrame)
  | closePath (f : ClosePathFrame)
  | paths (f : PathsFrame)
deriving DecidableEq, Repr

variable {σ : Type}

/-- `IsFrameRetransmittable`. -/
def isFrameRetransmittable : Frame σ → Bool
  | .stopWaiting _ => false
  | .ack _ => false
  | _ => true

/-- `stripNonRetransmittableFrames`. -/
def stripNonRetransmittableFrames (fs : List (Frame σ)) : List (Frame σ) :=
  fs.filter isFrameRetransmittable

/-- The STREAM frame of a frame. -/
def Frame.stream? : Frame σ → Option σ
  | .stream f => some f
  | _ => none

/-! ### Lengths -/

inductive FrameError where
  /-- `errPacketNumberLenNotSet` -/
  | packetNumberLenNotSet
  /-- `ErrUnknownIPVersion` -/
  | unknownIPVersion
deriving DecidableEq, Repr

/-- The blocks of an ACK or a CLOSE_PATH frame, as `MinLength` counts them. -/
def AckBlocks.minLength (f : AckBlocks) : Nat :=
  let delta := f.getMissingSequenceNumberDeltaLen.toNat
  (getPacketNumberLength f.largestAcked).toNat +
    if f.hasMissingRanges then (1 + delta) * f.numWritableNackRanges else delta

/-- `MinLength`; `header` gives the header length of a STREAM frame. The length of a PATHS
frame is computed with 8-bit numbers. -/
def Frame.minLength (header : σ → Nat) : Frame σ → Except FrameError Nat
  | .stream f => .ok (header f)
  | .ack f => .ok (1 + 2 + 1 + f.toAckBlocks.minLength + if f.pathID ≠ 0 then 1 else 0)
  | .stopWaiting f =>
    match f.packetNumberLen with
    | none => .error .packetNumberLenNotSet
    | some len => .ok (1 + len.toNat)
  | .rstStream _ => .ok (1 + 4 + 8 + 4)
  | .windowUpdate _ => .ok (1 + 4 + 8)
  | .blocked _ => .ok (1 + 4)
  | .ping => .ok 1
  | .goaway f => .ok (1 + 4 + 4 + 2 + f.reasonPhrase.length)
  | .connectionClose f => .ok (1 + 4 + 2 + f.reasonPhrase.length)
  | .addAddress f =>
    if f.ipVersion = 4 then .ok (1 + 1 + 4 + 2)
    else if f.ipVersion = 6 then .ok (1 + 1 + 16 + 2)
    else .error .unknownIPVersion
  | .closePath f => .ok (1 + 1 + 1 + f.toAckBlocks.minLength)
  | .paths f => .ok (1 + 1 + 1 + 3 * f.numPaths).toNat

/-! ### Packets -/

/-- `ackhandler.Packet`. -/
structure Packet (σ : Type) where
  packetNumber : Nat
  frames : List (Frame σ)
  length : UInt64
  encryptionLevel : EncryptionLevel
  /-- In nanoseconds since the zero time. -/
  sendTime : Int
deriving DecidableEq, Repr

namespace Packet

/-- `GetFramesForRetransmission`. -/
def getFramesForRetransmission (p : Packet σ) : List (Frame σ) :=
  p.frames.filter fun f =>
    match f with
    | .ack _ => false
    | .stopWaiting _ => false
    | _ => true

/-- `IsRetransmittable`: the cases of its `switch`. -/
def isRetransmittable (p : Packet σ) : Bool :=
  p.frames.any fun f =>
    match f with
    | .stream _ => true
    | .rstStream _ => true
    | .windowUpdate _ => true
    | .blocked _ => true
    | .ping => true
    | .goaway _ => true
    | .addAddress _ => true
    | .paths _ => true
    | _ => false

end Packet

end RlncStreaming.Quic
