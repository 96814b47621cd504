import Mathlib.Data.UInt
import RlncStreaming.Lib.Maps
import RlncStreaming.Quic.Frames

/-!
The sender's record of its packets (`ackhandler`: `sent_packet_handler.go`,
`stop_waiting_manager.go`, `packet_linkedlist.go`).

A packet with a retransmittable frame is kept in `packetHistory` until it is acknowledged
or declared lost; a lost one goes to `retransmissionQueue`. Times are nanoseconds since
Go's zero time, and what the handler reads from the clock, the RTT statistics and the
congestion control comes as an argument (`Readings`), so that nothing is assumed about
these.
-/

namespace RlncStreaming.Quic

open Lib

variable {σ : Type}

/-! ### The clock and the estimates -/

/-- `int64` arithmetic. -/
def wrap64 (d : Int) : Int := Int.bmod d (2 ^ 64)

/-- `time.Time.Sub`, which saturates. -/
def timeSub (t u : Int) : Int := max (-2 ^ 63) (min (2 ^ 63 - 1) (t - u))

def millisecond : Int := 1000000

/-- What one call reads: the clock, `rttStats` and `congestion`. The clock is past the
year 293, that is more than `2 ^ 63` nanoseconds from the zero time. -/
structure Readings where
  now : Int
  /-- `rttStats.LatestRTT()` -/
  latestRTT : Int
  /-- `rttStats.SmoothedRTT()` -/
  smoothedRTT : Int
  /-- `congestion.SmoothedRTT()` -/
  congestionRTT : Int
  /-- `congestion.RetransmissionDelay()` -/
  retransmissionDelay : Int
  now_gt : 2 ^ 63 < now

/-- What a new connection reads. -/
def unmeasured : Readings := ⟨2 ^ 63 + 1, 0, 0, 0, 0, by decide⟩

/-! ### STOP_WAITING -/

structure StopWaitingManager where
  largestLeastUnackedSent : Nat
  nextLeastUnacked : Nat
  lastStopWaitingFrame : Option StopWaitingFrame
deriving DecidableEq, Repr

namespace StopWaitingManager

/-- `GetStopWaitingFrame`. -/
def getStopWaitingFrame (s : StopWaitingManager) (force : Bool) :
    Option StopWaitingFrame × StopWaitingManager :=
  let swf : StopWaitingFrame := ⟨s.nextLeastUnacked, none, 0⟩
  if s.nextLeastUnacked ≤ s.largestLeastUnackedSent then
    if force then
      if s.lastStopWaitingFrame = none ∧ 0 < s.largestLeastUnackedSent then
        (some swf, { s with lastStopWaitingFrame := some swf })
      else (s.lastStopWaitingFrame, s)
    else (none, s)
  else
    (some swf, { s with
      largestLeastUnackedSent := s.nextLeastUnacked, lastStopWaitingFrame := some swf })

/-- `ReceivedAck` and `QueuedRetransmissionForPacketNumber`, which do the same with the
largest acknowledged number and with the number of the queued packet. -/
def advance (s : StopWaitingManager) (p : Nat) : StopWaitingManager :=
  if s.nextLeastUnacked ≤ p then { s with nextLeastUnacked := p + 1 } else s

end StopWaitingManager

/-! ### The handler -/

/-- `protocol.MaxTrackedSentPackets`. -/
def maxTrackedSentPackets : Nat := 5000

/-- `protocol.MaxTrackedSkippedPackets`. -/
def maxTrackedSkippedPackets : Nat := 10

/-- `protocol.MaxNonRetransmittablePackets`. -/
def maxNonRetransmittablePackets : Nat := 19

inductive HandlerError where
  /-- `errPacketNumberNotIncreasing` -/
  | packetNumberNotIncreasing
  /-- `ErrTooManyTrackedSentPackets` -/
  | tooManyTrackedSentPackets
  /-- `errAckForUnsentPacket` -/
  | ackForUnsentPacket
  /-- `ErrDuplicateOrOutOfOrderAck` -/
  | duplicateOrOutOfOrderAck
  /-- `ErrAckForSkippedPacket` -/
  | ackForSkippedPacket
  /-- `BUG: ackhandler would have acked wrong packet` -/
  | wrongPacketAcked
deriving DecidableEq, Repr

/-- `sentPacketHandler`, without its statistics. -/
structure SentPacketHandler (σ : Type) where
  lastSentPacketNumber : Nat
  skippedPackets : List Nat
  numNonRetransmittablePackets : Nat
  largestAcked : Nat
  largestReceivedPacketWithAck : Nat
  packetHistory : List (Packet σ)
  stopWaitingManager : StopWaitingManager
  retransmissionQueue : List (Packet σ)
  bytesInFlight : UInt64
  rtoCount : UInt32
  tlpCount : UInt32
  /-- The zero time is `0`. -/
  lossTime : Int
  lastSentTime : Int
  alarm : Int
deriving DecidableEq, Repr

/-- `NewSentPacketHandler`. -/
def newSentPacketHandler : SentPacketHandler σ :=
  ⟨0, [], 0, 0, 0, [], ⟨0, 0, none⟩, [], 0, 0, 0, 0, 0, 0⟩

/-- What a received acknowledgement does: the handler after the call, the packets that are
reported to the congestion control as acknowledged, and the error. -/
structure AckResult (σ : Type) where
  handler : SentPacketHandler σ
  acked : List (Packet σ)
  error : Option HandlerError

/-- The inner loop of `determineNewlyAckedPackets` over the ranges, lowest first: the first
range that does not end below the packet, or the last one. -/
def seekRange (packetNumber : Nat) : List AckRange → List AckRange
  | r :: r' :: rs =>
    if r.last < packetNumber then seekRange packetNumber (r' :: rs) else r :: r' :: rs
  | rs => rs

/-- The loop of `determineNewlyAckedPackets` and `determineNewlyAckedPacketsClosePath`. The
ranges that are still ahead stand lowest first. -/
def newlyAcked (f : AckBlocks) : List AckRange → List (Packet σ) → Option (List (Packet σ))
  | _, [] => some []
  | ranges, p :: ps =>
    if p.packetNumber < f.lowestAcked then newlyAcked f ranges ps
    else if f.largestAcked < p.packetNumber then some []
    else
      match seekRange p.packetNumber ranges with
      | [] => (newlyAcked f [] ps).map (p :: ·)
      | r :: rs =>
        if r.first ≤ p.packetNumber then
          if r.last < p.packetNumber then none
          else (newlyAcked f (r :: rs) ps).map (p :: ·)
        else newlyAcked f (r :: rs) ps

/-- What `SentPacket` stores of a packet: nothing, or its retransmittable frames. -/
def Packet.stored (r : Readings) (packet : Packet σ) : List (Packet σ) :=
  let frames := stripNonRetransmittableFrames packet.frames
  if frames.isEmpty then [] else [{ packet with frames, sendTime := r.now }]

namespace SentPacketHandler

section

variable (h : SentPacketHandler σ)

/-- `largestInOrderAcked`. -/
def largestInOrderAcked : Nat :=
  match h.packetHistory with
  | p :: _ => p.packetNumber - 1
  | [] => h.largestAcked

/-- `GetLeastUnacked`. -/
def getLeastUnacked : Nat := h.largestInOrderAcked + 1

/-- `ShouldSendRetransmittablePacket`. -/
def shouldSendRetransmittablePacket : Bool :=
  decide (maxNonRetransmittablePackets ≤ h.numNonRetransmittablePackets)

/-- `GetStopWaitingFrame`. -/
def getStopWaitingFrame (force : Bool) : Option StopWaitingFrame × SentPacketHandler σ :=
  let (swf, stopWaitingManager) := h.stopWaitingManager.getStopWaitingFrame force
  (swf, { h with stopWaitingManager })

/-- `hasOutstandingRetransmittablePacket`. -/
def hasOutstandingRetransmittablePacket : Bool :=
  h.packetHistory.any Packet.isRetransmittable

/-- `determineNewlyAckedPackets` and `determineNewlyAckedPacketsClosePath`. -/
def determineNewlyAckedPackets (f : AckBlocks) : Option (List (Packet σ)) :=
  newlyAcked f f.ackRanges.reverse h.packetHistory

/-- `determineNewlyAckedPacketsClosePath`, whose body is the same. -/
def determineNewlyAckedPacketsClosePath (f : ClosePathFrame) : Option (List (Packet σ)) :=
  h.determineNewlyAckedPackets f.toAckBlocks

end

/-! #### The alarm -/

/-- `computeRTOTimeout`. -/
def computeRTOTimeout (h : SentPacketHandler σ) (r : Readings) : Int :=
  let rto := if r.retransmissionDelay = 0 then 500 * millisecond else r.retransmissionDelay
  let rto := max rto (200 * millisecond)
  min (wrap64 (rto * 2 ^ h.rtoCount.toNat)) (60000 * millisecond)

/-- `computeTLPTimeout`. -/
def computeTLPTimeout (h : SentPacketHandler σ) (r : Readings) : Int :=
  let rtt := r.congestionRTT
  if 2 ≤ h.packetHistory.length then
    max (wrap64 (2 * rtt)) (wrap64 ((wrap64 (rtt * 3)).tdiv 2 + 100 * millisecond))
  else max (wrap64 (2 * rtt)) (10 * millisecond)

/-- `updateLossDetectionAlarm`. -/
def updateLossDetectionAlarm (r : Readings) (h : SentPacketHandler σ) : SentPacketHandler σ :=
  if h.packetHistory.length = 0 then { h with alarm := 0 }
  else if h.lossTime ≠ 0 then { h with alarm := h.lossTime }
  else if r.smoothedRTT ≠ 0 ∧ h.tlpCount < 2 then
    { h with alarm := h.lastSentTime + h.computeTLPTimeout r }
  else { h with alarm := h.lastSentTime + max (h.computeRTOTimeout r) (200 * millisecond) }

/-! #### Sending -/

/-- One packet number that was skipped. -/
def trackSkipped (skippedPackets : List Nat) (p : Nat) : List Nat :=
  let skippedPackets := skippedPackets ++ [p]
  if maxTrackedSkippedPackets < skippedPackets.length then skippedPackets.drop 1
  else skippedPackets

/-- `SentPacket`. Nothing changes if it returns an error. -/
def sentPacket (r : Readings) (packet : Packet σ) (h : SentPacketHandler σ) :
    Except HandlerError (SentPacketHandler σ) :=
  if packet.packetNumber ≤ h.lastSentPacketNumber then .error .packetNumberNotIncreasing
  else if maxTrackedSentPackets < h.retransmissionQueue.length + h.packetHistory.length + 1 then
    .error .tooManyTrackedSentPackets
  else
    let skipped := List.range' (h.lastSentPacketNumber + 1)
      (packet.packetNumber - (h.lastSentPacketNumber + 1))
    let h := { h with
      skippedPackets := skipped.foldl trackSkipped h.skippedPackets
      lastSentPacketNumber := packet.packetNumber
      lastSentTime := r.now }
    let h :=
      match packet.stored r with
      | [] => { h with numNonRetransmittablePackets := h.numNonRetransmittablePackets + 1 }
      | stored =>
        { h with
          bytesInFlight := h.bytesInFlight + packet.length
          packetHistory := h.packetHistory ++ stored
          numNonRetransmittablePackets := 0 }
    .ok (h.updateLossDetectionAlarm r)

/-! #### Packets that leave the history -/

/-- `packetHistory.Remove`; the numbers in the history are distinct. -/
def remove (p : Packet σ) (h : SentPacketHandler σ) : SentPacketHandler σ :=
  { h with packetHistory := dropKey Packet.packetNumber p.packetNumber h.packetHistory }

/-- `onPacketAcked`. -/
def onPacketAcked (h : SentPacketHandler σ) (p : Packet σ) : SentPacketHandler σ :=
  { h with bytesInFlight := h.bytesInFlight - p.length, rtoCount := 0, tlpCount := 0 }.remove p

/-- `queuePacketForRetransmission`. -/
def queuePacketForRetransmission (h : SentPacketHandler σ) (p : Packet σ) : SentPacketHandler σ :=
  { h with
    bytesInFlight := h.bytesInFlight - p.length
    retransmissionQueue := h.retransmissionQueue ++ [p]
    stopWaitingManager := h.stopWaitingManager.advance p.packetNumber }.remove p

/-- The time after which `detectLostPackets` gives up a packet: nine eighths of the larger RTT. The
source multiplies a `float64` by 1.125 and cuts off. That is the same below 2^53 / 9 ns (11 days),
where the product is exact. -/
def delayUntilLost (r : Readings) : Int := (max r.latestRTT r.smoothedRTT * 9).tdiv 8

/-- The loop of `detectLostPackets`: the lost packets, and the loss time. -/
def scanLost (r : Readings) (largestAcked : Nat) :
    Int → List (Packet σ) → List (Packet σ) × Int
  | lossTime, [] => ([], lossTime)
  | lossTime, p :: ps =>
    if largestAcked < p.packetNumber then ([], lossTime)
    else
      let timeSinceSent := timeSub r.now p.sendTime
      if delayUntilLost r < timeSinceSent then
        let (lost, lossTime) := scanLost r largestAcked lossTime ps
        (p :: lost, lossTime)
      else if lossTime = 0 then
        scanLost r largestAcked (r.now + wrap64 (delayUntilLost r - timeSinceSent)) ps
      else scanLost r largestAcked lossTime ps

/-- `detectLostPackets`. -/
def detectLostPackets (r : Readings) (h : SentPacketHandler σ) : SentPacketHandler σ :=
  let (lost, lossTime) := scanLost r h.largestAcked 0 h.packetHistory
  lost.foldl queuePacketForRetransmission { h with lossTime }

section

variable (h : SentPacketHandler σ)

/-- `SetInflightAsLost`. -/
def setInflightAsLost : SentPacketHandler σ :=
  (h.packetHistory.takeWhile fun p => decide (p.packetNumber ≤ h.largestAcked)).foldl
    queuePacketForRetransmission h

/-- `retransmitTLP`. -/
def retransmitTLP : SentPacketHandler σ :=
  match h.packetHistory.getLast? with
  | some p => h.queuePacketForRetransmission p
  | none => h

/-- `retransmitOldestPacket`. -/
def retransmitOldestPacket : SentPacketHandler σ :=
  match h.packetHistory with
  | p :: _ => h.queuePacketForRetransmission p
  | [] => h

/-- `retransmitAllPackets`: the front packet is queued until there is none. -/
def retransmitAllPackets : SentPacketHandler σ :=
  h.packetHistory.foldl (fun h _ => h.retransmitOldestPacket) h

end

section

variable (r : Readings) (potentiallyFailed : Bool) (h : SentPacketHandler σ)

/-- The branches of `OnAlarm`. `potentiallyFailed` is the result of `onRTOCallback`. -/
def retransmitOnAlarm : SentPacketHandler σ :=
  if h.lossTime ≠ 0 then h.detectLostPackets r
  else if h.tlpCount < 2 then
    let h := h.retransmitTLP
    { h with tlpCount := h.tlpCount + 1 }
  else
    let h :=
      if potentiallyFailed then h.retransmitAllPackets
      else h.retransmitOldestPacket.retransmitOldestPacket
    { h with rtoCount := h.rtoCount + 1 }

/-- `OnAlarm`. -/
def onAlarm : SentPacketHandler σ :=
  if h.hasOutstandingRetransmittablePacket then
    (h.retransmitOnAlarm r potentiallyFailed).updateLossDetectionAlarm r
  else { h with alarm := 0 }

end

/-- `DequeuePacketForRetransmission`. -/
def dequeuePacketForRetransmission (h : SentPacketHandler σ) :
    Option (Packet σ) × SentPacketHandler σ :=
  match h.retransmissionQueue with
  | [] => (none, h)
  | p :: queue => (some p, { h with retransmissionQueue := queue })

/-- `DuplicatePacket`. -/
def duplicatePacket (packet : Packet σ) (h : SentPacketHandler σ) : SentPacketHandler σ :=
  { h with retransmissionQueue := h.retransmissionQueue ++ [packet] }

/-! #### Acknowledgements -/

/-- `skippedPacketsAcked` and `skippedPacketsAckedClosePath`. -/
def skippedPacketsAcked (h : SentPacketHandler σ) (f : AckBlocks) : Bool :=
  h.skippedPackets.any f.acksPacket

/-- `garbageCollectSkippedPackets`: everything up to the last number that is not above
`largestInOrderAcked`. -/
def garbageCollectSkippedPackets (h : SentPacketHandler σ) : SentPacketHandler σ :=
  let deleteIndex := h.skippedPackets.zipIdx.foldl
    (fun index p => if p.1 ≤ h.largestInOrderAcked then p.2 + 1 else index) 0
  { h with skippedPackets := h.skippedPackets.drop deleteIndex }

/-- `h.largestReceivedPacketWithAck = withPacketNumber`. -/
def noteAckPacket (withPacketNumber : Nat) (h : SentPacketHandler σ) : SentPacketHandler σ :=
  { h with largestReceivedPacketWithAck := withPacketNumber }

/-- `h.LargestAcked = largestAcked`. -/
def noteLargestAcked (largestAcked : Nat) (h : SentPacketHandler σ) : SentPacketHandler σ :=
  { h with largestAcked }

/-- `stopWaitingManager.ReceivedAck`. -/
def advanceStopWaiting (largestAcked : Nat) (h : SentPacketHandler σ) : SentPacketHandler σ :=
  { h with stopWaitingManager := h.stopWaitingManager.advance largestAcked }

/-- `ReceivedAck`, without the update of the RTT statistics. -/
def receivedAck (r : Readings) (ackFrame : AckFrame) (withPacketNumber : Nat)
    (h : SentPacketHandler σ) : AckResult σ :=
  if h.lastSentPacketNumber < ackFrame.largestAcked then ⟨h, [], some .ackForUnsentPacket⟩
  else if withPacketNumber ≤ h.largestReceivedPacketWithAck then
    ⟨h, [], some .duplicateOrOutOfOrderAck⟩
  else
    let h := h.noteAckPacket withPacketNumber
    if ackFrame.largestAcked ≤ h.largestInOrderAcked then ⟨h, [], none⟩
    else
      let h := h.noteLargestAcked ackFrame.largestAcked
      if h.skippedPacketsAcked ackFrame.toAckBlocks then ⟨h, [], some .ackForSkippedPacket⟩
      else
        match h.determineNewlyAckedPackets ackFrame.toAckBlocks with
        | none => ⟨h, [], some .wrongPacketAcked⟩
        | some ackedPackets =>
          let h := ackedPackets.foldl onPacketAcked h
          let h := (h.detectLostPackets r).updateLossDetectionAlarm r
          ⟨h.garbageCollectSkippedPackets.advanceStopWaiting ackFrame.largestAcked,
            ackedPackets, none⟩

/-- `ReceivedClosePath`. -/
def receivedClosePath (f : ClosePathFrame) (withPacketNumber : Nat) (h : SentPacketHandler σ) :
    AckResult σ :=
  if h.lastSentPacketNumber < f.largestAcked then ⟨h, [], some .ackForUnsentPacket⟩
  else if withPacketNumber ≤ h.largestReceivedPacketWithAck then
    ⟨h, [], some .duplicateOrOutOfOrderAck⟩
  else
    let h := h.noteAckPacket withPacketNumber
    if h.skippedPacketsAcked f.toAckBlocks then ⟨h, [], some .ackForSkippedPacket⟩
    else
      match h.determineNewlyAckedPackets f.toAckBlocks with
      | none => ⟨h, [], some .wrongPacketAcked⟩
      | some ackedPackets =>
        let h := (ackedPackets.foldl onPacketAcked h).setInflightAsLost
        ⟨h.garbageCollectSkippedPackets, ackedPackets, none⟩

end SentPacketHandler

end RlncStreaming.Quic
