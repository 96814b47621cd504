import RlncStreaming.Quic.ClosePath
import RlncStreaming.Quic.Packer

/-!
Loss recovery of a session (`scheduler.go`: `getRetransmission`, `sendPacket`,
`performPacketSending`, `ackRemainingPaths`; `session.go`: `sendPackedPacket`, `sendPing`,
`handleAckFrame`, `handleClosePathFrame`).

A STREAM frame travels from the framer into a packet, from the history of a path into its
retransmission queue, and back to the framer, where it may be split. The loops of the
scheduler are taken apart: an action is one round of a loop, and the order of the rounds,
the choice among several paths, the clock and the received frames are left open. Beside what
the session has, the state keeps a record of the packets that were accepted, with their
STREAM frames as they were written.
-/

namespace RlncStreaming.Quic

open Lib SentPacketHandler

/-! ### The sending side of a session -/

/-- A packet that `SentPacket` has accepted, with its STREAM frames as they were written. -/
structure SentRecord where
  pathID : UInt8
  packetNumber : Nat
  frames : List OutFrame
  acked : Bool
deriving DecidableEq, Repr

namespace SentRecord

def Carries (record : SentRecord) (b : Atom) : Prop := ∃ f ∈ record.frames, f.Carries b

/-- The packets of the path `id` that `f` names count as acknowledged. -/
def mark (id : UInt8) (f : AckBlocks) (record : SentRecord) : SentRecord :=
  { record with
    acked := record.acked || (decide (record.pathID = id) && f.acksPacket record.packetNumber) }

end SentRecord

/-- The references to STREAM frames. -/
def streamRefs (frames : List (Frame Nat)) : List Nat := frames.filterMap Frame.stream?

/-- What `path` has of the sender. -/
structure SenderPath where
  packetNumberGenerator : PacketNumberGenerator
  leastUnacked : Nat
  sentPacketHandler : SentPacketHandler Nat

def newSenderPath : SenderPath :=
  ⟨newPacketNumberGenerator skipPacketAveragePeriodLength, 0, newSentPacketHandler⟩

/-- What the packer has changed of a path. -/
def SenderPath.afterPacking (pth : SenderPath) (packed : PackPath) : SenderPath :=
  { pth with
    packetNumberGenerator := packed.packetNumberGenerator
    leastUnacked := packed.leastUnacked }

/-- The `ackhandler.Packet` for a packed packet. -/
def PackedPacket.toPacket (packet : PackedPacket) : Packet Nat :=
  ⟨packet.number, packet.frames, UInt64.ofNat packet.raw.length, packet.encryptionLevel, 0⟩

/-- The sending side of `session`, with the packets it has sent. -/
structure Sender (φ : Type) where
  packer : PacketPacker φ
  handshakeComplete : Bool
  paths : UInt8 → Option SenderPath
  /-- The handshake packet that `getRetransmission` has returned. -/
  handshakePacket : Option (Packet Nat)
  closed : Bool
  sent : List SentRecord

/-- The sender of a new session, which has the initial path. -/
def newSender {φ : Type} (connectionID : Nat) (cryptoSetup : CryptoSetup)
    (diversificationNonce : List UInt8) (truncateConnectionID : Bool) (streamsMap : StreamsMap)
    (flowControlManager : φ) (perspective : Perspective) (version : Int) : Sender φ where
  packer := newPacketPacker connectionID cryptoSetup diversificationNonce truncateConnectionID
    (newStreamFramer streamsMap flowControlManager) perspective version
  handshakeComplete := false
  paths := fun id => if id = 0 then some newSenderPath else none
  handshakePacket := none
  closed := false
  sent := []

namespace Sender

variable {φ : Type}

def heap (s : Sender φ) : Heap OutFrame := s.packer.streamFramer.heap

/-- The session is closed: by an error, a panic, a timeout or the application. -/
def close (s : Sender φ) : Sender φ := { s with closed := true }

def setPath (id : UInt8) (pth : SenderPath) (s : Sender φ) : Sender φ :=
  { s with paths := fun id' => if id' = id then some pth else s.paths id' }

def setHandler (id : UInt8) (pth : SenderPath) (sentPacketHandler : SentPacketHandler Nat)
    (s : Sender φ) : Sender φ :=
  s.setPath id { pth with sentPacketHandler }

def setPacker (packer : PacketPacker φ) (s : Sender φ) : Sender φ := { s with packer }

def setHandshakePacket (handshakePacket : Option (Packet Nat)) (s : Sender φ) : Sender φ :=
  { s with handshakePacket }

def addRecord (record : SentRecord) (s : Sender φ) : Sender φ :=
  { s with sent := s.sent ++ [record] }

def markAcked (id : UInt8) (f : AckBlocks) (s : Sender φ) : Sender φ :=
  { s with sent := s.sent.map (SentRecord.mark id f) }

def packPath (s : Sender φ) (id : UInt8) (pth : SenderPath) : PackPath :=
  ⟨id, pth.packetNumberGenerator, pth.leastUnacked, s.handshakeComplete⟩

/-- The paths get their `leastUnacked`, at the beginning of `sendPacket`. -/
def updateLeastUnacked (s : Sender φ) : Sender φ :=
  { s with paths := fun id => (s.paths id).map fun pth =>
      { pth with leastUnacked := pth.sentPacketHandler.getLeastUnacked } }

/-! #### Sending -/

/-- `sendPackedPacket`. -/
def sendPackedPacket (id : UInt8) (r : Readings) (packet : PackedPacket) (s : Sender φ) :
    Sender φ :=
  match s.paths id with
  | none => s.close
  | some pth =>
    match pth.sentPacketHandler.sentPacket r packet.toPacket with
    | .error _ => s.close
    | .ok handler => (s.setHandler id pth handler).addRecord
        ⟨id, packet.number, (streamRefs packet.frames).map s.heap.cells, false⟩

/-- What follows the call of the packer. If `required`, no packet is a failure. -/
def sendPacked (id : UInt8) (r : Readings) (required : Bool) (packed : Packed φ) (s : Sender φ) :
    Sender φ :=
  match s.paths id with
  | none => s.close
  | some pth =>
    let s := (s.setPacker packed.packer).setPath id (pth.afterPacking packed.path)
    match packed.result with
    | .error _ => s.close
    | .ok none => if required then s.close else s
    | .ok (some packet) => s.sendPackedPacket id r packet

/-- The ACK frame and the STOP_WAITING frame that `sendPacket` queues for the path that it has
selected. -/
def queueFirstFrames (id : UInt8) (ack : Option AckFrame) (s : Sender φ) : Sender φ :=
  match s.paths id with
  | none => s.close
  | some pth =>
    let packer := if ack.isSome then s.packer.setAckFrame id ack else s.packer
    let hasStreamRetransmission := !s.packer.streamFramer.retransmissionQueue.isEmpty
    if ack.isSome || hasStreamRetransmission then
      let (swf, handler) := pth.sentPacketHandler.getStopWaitingFrame hasStreamRetransmission
      (s.setHandler id pth handler).setPacker
        (if swf.isSome then packer.setStopWaiting id swf else packer)
    else s.setPacker packer

/-- `DuplicatePacket`, for the packet just sent. -/
def duplicatePacket (id : UInt8) (packet : PackedPacket) (s : Sender φ) : Sender φ :=
  match s.paths id with
  | none => s
  | some pth => s.setHandler id pth (pth.sentPacketHandler.duplicatePacket packet.toPacket)

/-! #### Retransmissions -/

/-- The first branch of `selectPath` for a retransmission: a single path is taken. With
several paths the choice is left open. -/
def selectPath (selected : Option UInt8) (s : Sender φ) : Option UInt8 :=
  if (List.range 256).all fun i => i = 0 || (s.paths (UInt8.ofNat i)).isNone then some 0
  else selected

/-! #### Acknowledgements -/

/-- The handler of the path has received an acknowledgement. -/
def acknowledge (id : UInt8) (pth : SenderPath) (f : AckBlocks) (result : AckResult Nat)
    (s : Sender φ) : Sender φ :=
  (if result.error = none then s.markAcked id f else s).setHandler id pth result.handler

/-- `handleAckFrame`. Acknowledgements out of order are ignored. -/
def handleAckFrame (r : Readings) (frame : AckFrame) (withPacketNumber : Nat) (s : Sender φ) :
    Sender φ :=
  match s.paths frame.pathID with
  | none => s.close
  | some pth =>
    let result := pth.sentPacketHandler.receivedAck r frame withPacketNumber
    let s := s.acknowledge frame.pathID pth frame.toAckBlocks result
    if result.error = none ∨ result.error = some .duplicateOrOutOfOrderAck then s else s.close

/-- `handleClosePathFrame`, whose errors are dropped. -/
def handleClosePathFrame (frame : ClosePathFrame) (withPacketNumber : Nat) (s : Sender φ) :
    Sender φ :=
  match s.paths frame.pathID with
  | none => s
  | some pth => s.acknowledge frame.pathID pth frame.toAckBlocks
      (pth.sentPacketHandler.receivedClosePath frame withPacketNumber)

/-- A function of the handler that only moves packets between its queues. -/
def onHandler (id : UInt8) (change : SentPacketHandler Nat → SentPacketHandler Nat)
    (s : Sender φ) : Sender φ :=
  match s.paths id with
  | none => s
  | some pth => s.setHandler id pth (change pth.sentPacketHandler)

variable [FlowControlManager φ]

section

variable (wf : WireFormat) (id : UInt8)

/-- `performPacketSending`, and `DuplicatePacket` if `sendPacket` calls it afterwards. -/
def performPacketSending (num : Option Nat) (r : Readings) (duplicate : Bool) (s : Sender φ)
    : Sender φ :=
  match s.paths id with
  | none => s.close
  | some pth =>
    let packer :=
      if pth.sentPacketHandler.shouldSendRetransmittablePacket then
        s.packer.queueControlFrame .ping id
      else s.packer
    let packed := packer.packPacket wf (s.packPath id pth) num
    let s := s.sendPacked id r false packed
    match packed.result with
    | .ok (some packet) => if duplicate then s.duplicatePacket id packet else s
    | _ => s

/-- The part of `ackRemainingPaths` for one path. -/
def ackRemainingPath (ack : Option AckFrame) (num : Option Nat) (r : Readings) (s : Sender φ)
    : Sender φ :=
  match s.paths id with
  | none => s.close
  | some pth =>
    let (swf, handler) := pth.sentPacketHandler.getStopWaitingFrame false
    let packer := if swf.isSome then s.packer.setStopWaiting id swf else s.packer
    let packer := packer.setAckFrame id ack
    let pth' := s.packPath id pth
    (s.setHandler id pth handler).sendPacked id r true
      (if ack.isSome then packer.packAckPacket wf pth' num else packer.packPacket wf pth' num)

/-- `sendPing`. -/
def sendPing (num : Option Nat) (r : Readings) (s : Sender φ) : Sender φ :=
  match s.paths id with
  | none => s.close
  | some pth => s.sendPacked id r true
      (s.packer.packPing wf pth.sentPacketHandler.getLeastUnacked (s.packPath id pth) num)

end

/-- What `getRetransmission` does with a frame of a lost packet. The PATHS frame is built anew
later. -/
def retransmitFrame (id : UInt8) (p : PacketPacker φ) : Frame Nat → PacketPacker φ
  | .stream f => { p with streamFramer := p.streamFramer.addFrameForRetransmission f }
  | .windowUpdate f =>
    match FlowControlManager.getReceiveWindow p.streamFramer.flowControlManager f.streamID with
    | some currentOffset =>
      if currentOffset ≤ f.byteOffset then p.queueControlFrame (.windowUpdate f) id else p
    | none => p
  | .paths _ => p
  | frame => p.queueControlFrame frame id

/-- One round of the loop of `getRetransmission`, which finds a packet on the path `id`. It
is not called again before the handshake packet that it has returned is dealt with. -/
def getRetransmission (id : UInt8) (s : Sender φ) : Sender φ :=
  match s.handshakePacket, s.paths id with
  | none, some pth =>
    match pth.sentPacketHandler.dequeuePacketForRetransmission with
    | (none, _) => s
    | (some packet, handler) =>
      let s := s.setHandler id pth handler
      if packet.encryptionLevel ≠ .forwardSecure then
        -- Handshake packets are not retransmitted when the handshake is complete.
        if s.handshakeComplete then s else s.setHandshakePacket (some packet)
      else
        s.setPacker (packet.getFramesForRetransmission.foldl (retransmitFrame id) s.packer)
  | _, _ => s

/-- The part of `sendPacket` that resends a handshake packet. If no path is selected the
packet is gone. -/
def resendHandshake (wf : WireFormat) (selected : Option UInt8) (num : Option Nat) (r : Readings)
    (s : Sender φ) : Sender φ :=
  match s.handshakePacket with
  | none => s
  | some packet =>
    let s := s.setHandshakePacket none
    match s.selectPath selected with
    | none => s
    | some id =>
      match s.paths id with
      | none => s.close
      | some pth =>
        let (swf, handler) := pth.sentPacketHandler.getStopWaitingFrame true
        let packer := s.packer.setStopWaiting id swf
        (s.setHandler id pth handler).sendPacked id r true
          (packer.packHandshakeRetransmission wf packet (s.packPath id pth) num)

end Sender

/-- What can happen to the sending side of a session. -/
inductive SenderAction (φ : Type) where
  | updateLeastUnacked
  /-- A control frame is queued; it is no STREAM frame. -/
  | queueControlFrame (frame : Frame Empty) (id : UInt8)
  | queueFirstFrames (id : UInt8) (ack : Option AckFrame)
  | performPacketSending (id : UInt8) (num : Option Nat) (r : Readings) (duplicate : Bool)
  | ackRemainingPath (id : UInt8) (ack : Option AckFrame) (num : Option Nat) (r : Readings)
  | sendPing (id : UInt8) (num : Option Nat) (r : Readings)
  | getRetransmission (id : UInt8)
  | resendHandshake (selected : Option UInt8) (num : Option Nat) (r : Readings)
  | handleAckFrame (r : Readings) (frame : AckFrame) (withPacketNumber : Nat)
  | handleClosePathFrame (frame : ClosePathFrame) (withPacketNumber : Nat)
  | setInflightAsLost (id : UInt8)
  | onAlarm (id : UInt8) (r : Readings) (potentiallyFailed : Bool)
  /-- Streams are opened, written, closed and reset, windows change. -/
  | updateStreams (streamsMap : StreamsMap) (flowControlManager : φ)
  | updateKeys (cryptoSetup : CryptoSetup)
  | completeHandshake
  | createPath (id : UInt8)
  | close

namespace Sender

variable {φ : Type} [FlowControlManager φ]

/-- One action. Nothing happens to a closed session. -/
def step (wf : WireFormat) (s : Sender φ) (a : SenderAction φ) : Sender φ :=
  if s.closed then s
  else
    match a with
    | .updateLeastUnacked => s.updateLeastUnacked
    | .queueControlFrame frame id =>
      s.setPacker (s.packer.queueControlFrame (frame.map Empty.elim) id)
    | .queueFirstFrames id ack => s.queueFirstFrames id ack
    | .performPacketSending id num r duplicate => s.performPacketSending wf id num r duplicate
    | .ackRemainingPath id ack num r => s.ackRemainingPath wf id ack num r
    | .sendPing id num r => s.sendPing wf id num r
    | .getRetransmission id => s.getRetransmission id
    | .resendHandshake selected num r => s.resendHandshake wf selected num r
    | .handleAckFrame r frame withPacketNumber => s.handleAckFrame r frame withPacketNumber
    | .handleClosePathFrame frame withPacketNumber => s.handleClosePathFrame frame withPacketNumber
    | .setInflightAsLost id => s.onHandler id setInflightAsLost
    | .onAlarm id r potentiallyFailed => s.onHandler id (onAlarm r potentiallyFailed)
    | .updateStreams streamsMap flowControlManager =>
      s.setPacker { s.packer with
        streamFramer := { s.packer.streamFramer with streamsMap, flowControlManager } }
    | .updateKeys cryptoSetup => s.setPacker { s.packer with cryptoSetup }
    | .completeHandshake => { s with handshakeComplete := true }
    | .createPath id => if (s.paths id).isSome then s else s.setPath id newSenderPath
    | .close => s.close

end Sender

end RlncStreaming.Quic
