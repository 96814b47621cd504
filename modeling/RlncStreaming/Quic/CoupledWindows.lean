import RlncStreaming.Lib.Runs
import RlncStreaming.Quic.Olia

/-!
The congestion windows of the coupled senders (`olia_sender.go`, `olia.go`,
`hybrid_slow_start.go`, `prr_sender.go`).

`CongestionWindowAfterAck` lets a window shrink to one packet. It does not get there: the
counter is negative enough only right after a loss of share, a sender loses share only if
another one has a smaller window, and no window is below two packets
(`windows_in_bounds`).
-/

namespace RlncStreaming.Quic

open Lib UInt64 OliaSender

/-! ### Parts of a sender -/

/-- `protocol.DefaultTCPMSS`. -/
def defaultTCPMSS : UInt64 := 1460

/-- `maxBurstBytes`. -/
def maxBurstBytes : UInt64 := 3 * defaultTCPMSS

namespace HybridSlowStart

/-- `StartReceiveRound`. -/
def startReceiveRound (h : HybridSlowStart) (lastSent : UInt64) : HybridSlowStart :=
  { h with endPacketNumber := lastSent, currentMinRTT := 0, rttSampleCount := 0, started := true }

/-- `IsEndOfRound`. -/
def isEndOfRound (h : HybridSlowStart) (ack : UInt64) : Bool := decide (h.endPacketNumber < ack)

/-- The threshold of `ShouldExitSlowStart`: an eighth of the RTT, between 4 and 16 ms. The
shift is one of microseconds. -/
def rttIncreaseThreshold (minRTT : Int64) : Int64 :=
  let us := (minRTT / 1000) >>> 3
  let us := if us < 16000 then us else 16000
  (if 4000 < us then us else 4000) * 1000

variable (h : HybridSlowStart)

/-- `ShouldExitSlowStart`. -/
def shouldExitSlowStart (latestRTT minRTT : Int64) (congestionWindow : UInt64)
    : HybridSlowStart × Bool :=
  let h := if h.started then h else h.startReceiveRound h.lastSentPacketNumber
  if h.hystartFound then (h, true)
  else
    let h := { h with rttSampleCount := h.rttSampleCount + 1 }
    let h := if h.rttSampleCount ≤ 8 ∧ (h.currentMinRTT = 0 ∨ latestRTT < h.currentMinRTT) then
      { h with currentMinRTT := latestRTT } else h
    let h := if h.rttSampleCount = 8 ∧ minRTT + rttIncreaseThreshold minRTT < h.currentMinRTT then
      { h with hystartFound := true } else h
    (h, decide (16 ≤ congestionWindow) && h.hystartFound)

/-- `OnPacketSent`. -/
def onPacketSent (packetNumber : UInt64) : HybridSlowStart :=
  { h with lastSentPacketNumber := packetNumber }

/-- `OnPacketAcked`. -/
def onPacketAcked (ackedPacketNumber : UInt64) : HybridSlowStart :=
  if h.isEndOfRound ackedPacketNumber then { h with started := false } else h

/-- `Restart`. -/
def restart : HybridSlowStart :=
  { h with started := false, hystartFound := false }

end HybridSlowStart

namespace PrrSender

/-- `OnPacketSent`. -/
def onPacketSent (p : PrrSender) (sentBytes : UInt64) : PrrSender :=
  { p with bytesSentSinceLoss := p.bytesSentSinceLoss + sentBytes }

/-- `OnPacketLost`. -/
def onPacketLost (bytesInFlight : UInt64) : PrrSender := ⟨0, 0, 0, bytesInFlight⟩

/-- `OnPacketAcked`. -/
def onPacketAcked (p : PrrSender) (ackedBytes : UInt64) : PrrSender :=
  { p with
    bytesDeliveredSinceLoss := p.bytesDeliveredSinceLoss + ackedBytes
    ackCountSinceLoss := p.ackCountSinceLoss + 1 }

end PrrSender

/-! ### The window after an ACK -/

/-- `oliaScale`, with the scale 10. -/
def oliaScale (val : UInt64) : UInt64 := val <<< 10

namespace Olia

variable (o : Olia) (congestionWindow rate cwndScaled : UInt64)

/-- The divisor in `CongestionWindowAfterAck`. -/
def incDen : UInt64 :=
  let incDen := o.epsilonDen.toUInt64 * congestionWindow * rate
  if incDen = 0 then 1 else incDen

/-- What `CongestionWindowAfterAck` adds to the counter if `epsilonNum` is not negative. -/
def increment : UInt64 :=
  oliaScale (o.epsilonNum.toUInt64 * rate + o.epsilonDen.toUInt64 * cwndScaled * cwndScaled) /
    o.incDen congestionWindow rate

/-- The counter in `CongestionWindowAfterAck`. -/
def count : Int64 :=
  let incDen := o.incDen congestionWindow rate
  let scaled := o.epsilonDen.toUInt64 * cwndScaled * cwndScaled
  if o.epsilonNum = -1 then
    if scaled < rate then o.sndCwndCnt - (oliaScale (rate - scaled) / incDen).toInt64
    else o.sndCwndCnt + (oliaScale (scaled - rate) / incDen).toInt64
  else o.sndCwndCnt + (o.increment congestionWindow rate cwndScaled).toInt64

/-- `CongestionWindowAfterAck`: the new window, and the state after the call. -/
def congestionWindowAfterAck : UInt64 × Olia :=
  let sndCwndCnt := o.count congestionWindow rate cwndScaled
  if 1023 ≤ sndCwndCnt then (congestionWindow + 1, { o with sndCwndCnt := 0 })
  else if sndCwndCnt ≤ -1023 then
    (maxPacketNumber 1 (congestionWindow - 1), { o with sndCwndCnt := 0 })
  else (congestionWindow, { o with sndCwndCnt })

/-- Adding to the counter does not overflow: the increment is a number of type `int`, and so
is the sum. -/
def Fits : Prop :=
  o.epsilonNum ≠ -1 →
    o.sndCwndCnt.toInt + (o.increment congestionWindow rate cwndScaled).toNat < 2 ^ 63 ∧
      (o.increment congestionWindow rate cwndScaled).toNat < 2 ^ 63

end Olia

instance (o : Olia) (congestionWindow rate cwndScaled : UInt64) :
    Decidable (o.Fits congestionWindow rate cwndScaled) :=
  inferInstanceAs (Decidable (_ → _ ∧ _))

/-- `getRate`. -/
def getRate (os : List OliaSender) (pathRTT : Int64) : UInt64 :=
  let rate := os.foldl (fun rate s =>
    let scaledNum := oliaScale s.congestionWindow * pathRTT.toUInt64
    if s.smoothedRTT ≠ 0 then rate + scaledNum / s.smoothedRTT.toUInt64 else rate) 1
  rate * rate

/-! ### One sender -/

namespace OliaSender

section

variable (s : OliaSender)

/-- `GetCongestionWindow`. -/
def getCongestionWindow : UInt64 := s.congestionWindow * defaultTCPMSS

/-- `GetSlowStartThreshold`. -/
def getSlowStartThreshold : UInt64 := s.slowstartThreshold * defaultTCPMSS

/-- `InSlowStart`. -/
def inSlowStart : Bool := decide (s.getCongestionWindow < s.getSlowStartThreshold)

/-- `InRecovery`. -/
def inRecovery : Bool :=
  decide (s.largestAckedPacketNumber ≤ s.largestSentAtLastCutback) &&
    decide (s.largestAckedPacketNumber ≠ 0)

/-- `isCwndLimited`. -/
def isCwndLimited (bytesInFlight : UInt64) : Bool :=
  let congestionWindow := s.getCongestionWindow
  if congestionWindow ≤ bytesInFlight then true
  else
    s.inSlowStart && decide (congestionWindow / 2 < bytesInFlight) ||
      decide (congestionWindow - bytesInFlight ≤ maxBurstBytes)

/-- `OnPacketSent`. -/
def onPacketSent (packetNumber bytes : UInt64) (isRetransmittable : Bool) : OliaSender :=
  if isRetransmittable then
    { s with
      prr := if s.inRecovery then s.prr.onPacketSent bytes else s.prr
      largestSentPacketNumber := packetNumber
      hybridSlowStart := s.hybridSlowStart.onPacketSent packetNumber }
  else s

/-- `MaybeExitSlowStart`. -/
def maybeExitSlowStart : OliaSender :=
  if s.inSlowStart then
    let (hybridSlowStart, leaves) := s.hybridSlowStart.shouldExitSlowStart s.latestRTT s.minRTT
      (s.getCongestionWindow / defaultTCPMSS)
    let s := { s with hybridSlowStart }
    if leaves then { s with slowstartThreshold := s.congestionWindow } else s
  else s

/-- `OnPacketLost` for a packet that was sent before the last cutback. -/
def onLateLoss (lostBytes : UInt64) : OliaSender :=
  if s.lastCutbackExitedSlowstart then
    let s := { s with
      slowstartPacketsLost := s.slowstartPacketsLost + 1
      slowstartBytesLost := s.slowstartBytesLost + lostBytes }
    if s.slowStartLargeReduction then
      let s := if s.slowstartPacketsLost = 1 ∨
          (s.slowstartBytesLost - lostBytes) / defaultTCPMSS < s.slowstartBytesLost / defaultTCPMSS
        then { s with
          congestionWindow := maxPacketNumber (s.congestionWindow - 1) s.minCongestionWindow }
        else s
      { s with slowstartThreshold := s.congestionWindow }
    else s
  else s

end

section

variable (scaled : OliaSender → UInt64) (s : OliaSender)

/-- The new window in `OnPacketLost`. `scaled` is the product of the window with `RenoBeta`, in
floating point. -/
def cutWindow : UInt64 :=
  let congestionWindow :=
    if s.slowStartLargeReduction && s.inSlowStart then s.congestionWindow - 1 else scaled s
  if congestionWindow < s.minCongestionWindow then s.minCongestionWindow else congestionWindow

/-- `OnPacketLost`. -/
def onPacketLost (packetNumber lostBytes bytesInFlight : UInt64) : OliaSender :=
  if packetNumber ≤ s.largestSentAtLastCutback then s.onLateLoss lostBytes
  else
    let s := { s with
      lastCutbackExitedSlowstart := s.inSlowStart
      slowstartPacketsLost :=
        if s.inSlowStart then s.slowstartPacketsLost + 1 else s.slowstartPacketsLost
      prr := PrrSender.onPacketLost bytesInFlight
      olia := s.olia.onPacketLost }
    { s with
      congestionWindow := s.cutWindow scaled
      slowstartThreshold := s.cutWindow scaled
      largestSentAtLastCutback := s.largestSentPacketNumber
      congestionWindowCount := 0 }

end

variable (s : OliaSender)

/-- `SetNumEmulatedConnections`. -/
def setNumEmulatedConnections (n : Int64) : OliaSender :=
  { s with numConnections := if n < 1 then 1 else n }

/-- `OnRetransmissionTimeout`. -/
def onRetransmissionTimeout (packetsRetransmitted : Bool) : OliaSender :=
  let s := { s with largestSentAtLastCutback := 0 }
  if packetsRetransmitted then
    { s with
      hybridSlowStart := s.hybridSlowStart.restart
      olia := .reset
      slowstartThreshold := s.congestionWindow / 2
      congestionWindow := s.minCongestionWindow }
  else s

/-- `OnConnectionMigration`. -/
def onConnectionMigration : OliaSender :=
  { s with
    hybridSlowStart := s.hybridSlowStart.restart
    prr := ⟨0, 0, 0, 0⟩
    largestSentPacketNumber := 0
    largestAckedPacketNumber := 0
    largestSentAtLastCutback := 0
    lastCutbackExitedSlowstart := false
    olia := .reset
    congestionWindowCount := 0
    congestionWindow := s.initialCongestionWindow
    slowstartThreshold := s.initialMaxCongestionWindow
    maxTCPCongestionWindow := s.initialMaxCongestionWindow }

/-- The start of `OnPacketAcked`: the number is noted, and outside of recovery the bytes
are, too. -/
def noteAcked (ackedPacketNumber ackedBytes : UInt64) : OliaSender :=
  let s := { s with
    largestAckedPacketNumber := maxPacketNumber ackedPacketNumber s.largestAckedPacketNumber }
  if s.inRecovery then { s with prr := s.prr.onPacketAcked ackedBytes }
  else { s with olia := s.olia.updateAckedSinceLastLoss ackedBytes }

/-- The sender reaches `CongestionWindowAfterAck` in `maybeIncreaseCwnd`. -/
def avoidsCongestion (bytesInFlight : UInt64) : Bool :=
  s.isCwndLimited bytesInFlight && decide (s.congestionWindow < s.maxTCPCongestionWindow) &&
    !s.inSlowStart

/-- The window that `CongestionWindowAfterAck` gives, up to the maximum. -/
def updateWindow (rate : UInt64) : OliaSender :=
  let (congestionWindow, olia) := s.olia.congestionWindowAfterAck s.congestionWindow rate
    (oliaScale s.congestionWindow)
  { s with
    olia, congestionWindow := minPacketNumber s.maxTCPCongestionWindow congestionWindow }

/-- The end of `OnPacketAcked`. -/
def finishAck (ackedPacketNumber : UInt64) : OliaSender :=
  if s.inSlowStart then
    { s with hybridSlowStart := s.hybridSlowStart.onPacketAcked ackedPacketNumber }
  else s

end OliaSender

/-! ### All senders -/

/-- The orders in which an ACK goes over the map, if it does: in `getEpsilon` and in
`getRate`. -/
structure AckOrder extends EpsilonOrder where
  rate : List UInt8
deriving DecidableEq

section

variable (senders : OliaSenders) (id : UInt8) (order : AckOrder)

/-- `maybeIncreaseCwnd` of the sender `id`. -/
def maybeIncreaseCwnd (bytesInFlight : UInt64) : OliaSenders :=
  match senders id with
  | none => senders
  | some s =>
    if !s.isCwndLimited bytesInFlight then senders
    else if s.maxTCPCongestionWindow ≤ s.congestionWindow then senders
    else if s.inSlowStart then
      modify senders id fun s => { s with congestionWindow := s.congestionWindow + 1 }
    else
      let senders := getEpsilon senders order.toEpsilonOrder
      let rate := getRate (values senders order.rate) s.smoothedRTT
      modify senders id fun s => s.updateWindow rate

/-- `OnPacketAcked` of the sender `id`. -/
def onPacketAcked (ackedPacketNumber ackedBytes bytesInFlight : UInt64) : OliaSenders :=
  let senders := modify senders id fun s => s.noteAcked ackedPacketNumber ackedBytes
  if (senders id).any inRecovery then senders
  else modify (maybeIncreaseCwnd senders id order bytesInFlight) id fun s =>
    s.finishAck ackedPacketNumber

end

/-! ### Runs -/

inductive OliaEvent where
  /-- `path.setup` registers a new sender in the map. -/
  | setup (id : UInt8) (initialCongestionWindow initialMaxCongestionWindow : UInt64)
  /-- The RTT statistics of a path change. -/
  | updateRTT (id : UInt8) (smoothedRTT latestRTT minRTT : Int64)
  | onPacketSent (id : UInt8) (packetNumber bytes : UInt64) (isRetransmittable : Bool)
  | onPacketAcked (id : UInt8) (order : AckOrder)
      (ackedPacketNumber ackedBytes bytesInFlight : UInt64)
  | onPacketLost (id : UInt8) (packetNumber lostBytes bytesInFlight : UInt64)
  | onRetransmissionTimeout (id : UInt8) (packetsRetransmitted : Bool)
  | onConnectionMigration (id : UInt8)
  | maybeExitSlowStart (id : UInt8)
  | setSlowStartLargeReduction (id : UInt8) (enabled : Bool)
  | setNumEmulatedConnections (id : UInt8) (n : Int64)
deriving DecidableEq

namespace OliaSenders

/-- One event; `scaled` is the product with `RenoBeta`. -/
def handle (scaled : OliaSender → UInt64) (senders : OliaSenders) : OliaEvent → OliaSenders
  | .setup id initial maximum => fun id' =>
    if id' = id then some (newOliaSender initial maximum) else senders id'
  | .updateRTT id smoothedRTT latestRTT minRTT => modify senders id fun s =>
    { s with smoothedRTT, latestRTT, minRTT }
  | .onPacketSent id packetNumber bytes isRetransmittable => modify senders id fun s =>
    s.onPacketSent packetNumber bytes isRetransmittable
  | .onPacketAcked id order ackedPacketNumber ackedBytes bytesInFlight =>
    onPacketAcked senders id order ackedPacketNumber ackedBytes bytesInFlight
  | .onPacketLost id packetNumber lostBytes bytesInFlight => modify senders id fun s =>
    s.onPacketLost scaled packetNumber lostBytes bytesInFlight
  | .onRetransmissionTimeout id packetsRetransmitted => modify senders id fun s =>
    s.onRetransmissionTimeout packetsRetransmitted
  | .onConnectionMigration id => modify senders id onConnectionMigration
  | .maybeExitSlowStart id => modify senders id OliaSender.maybeExitSlowStart
  | .setSlowStartLargeReduction id enabled => modify senders id fun s =>
    { s with slowStartLargeReduction := enabled }
  | .setNumEmulatedConnections id n => modify senders id fun s => s.setNumEmulatedConnections n

/-- The ACK goes over the map in some order, and `CongestionWindowAfterAck` does not
overflow in case that it is called. -/
structure AckFits (senders : OliaSenders) (id : UInt8) (order : AckOrder)
    (bytesInFlight : UInt64) : Prop where
  epsilonOrder : order.toEpsilonOrder.Of senders
  rateOrder : Lists senders order.rate
  fits : ∀ s s', senders id = some s → s.inRecovery = false →
    s.avoidsCongestion bytesInFlight = true →
    getEpsilon senders order.toEpsilonOrder id = some s' →
    s'.olia.Fits s'.congestionWindow
      (getRate (values (getEpsilon senders order.toEpsilonOrder) order.rate) s.smoothedRTT)
      (oliaScale s'.congestionWindow)

/-- A new sender has a window between 2 and its maximum, and no ACK overflows. -/
def Fits (senders : OliaSenders) : OliaEvent → Prop
  | .setup _ initial maximum => 2 ≤ initial ∧ initial ≤ maximum
  | .onPacketAcked id order ackedPacketNumber ackedBytes bytesInFlight =>
    AckFits (modify senders id fun s => s.noteAcked ackedPacketNumber ackedBytes) id order
      bytesInFlight
  | _ => True

end OliaSenders

/-! ### The invariant -/

namespace OliaSender

/-- A window within its bounds, and a counter that does not let it shrink by itself. -/
structure Sound (s : OliaSender) : Prop where
  minimum : s.minCongestionWindow = 2
  maximum : s.maxTCPCongestionWindow = s.initialMaxCongestionWindow
  initial_ge : 2 ≤ s.initialCongestionWindow
  initial_le : s.initialCongestionWindow ≤ s.initialMaxCongestionWindow
  ge : 2 ≤ s.congestionWindow
  le : s.congestionWindow ≤ s.maxTCPCongestionWindow
  count : -1023 < s.olia.sndCwndCnt.toInt

variable {s s' : OliaSender}

theorem Sound.two_le (h : s.Sound) : 2 ≤ s.maxTCPCongestionWindow := UInt64.le_trans h.ge h.le

theorem count_zero : -1023 < (0 : Int64).toInt := by decide

theorem sound_newOliaSender {initial maximum : UInt64} (hge : 2 ≤ initial)
    (hle : initial ≤ maximum) : (newOliaSender initial maximum).Sound where
  minimum := rfl
  maximum := rfl
  initial_ge := hge
  initial_le := hle
  ge := hge
  le := hle
  count := count_zero

/-! #### Events of one sender -/

section

variable (h : s.Sound)

include h

theorem Sound.onPacketSent (packetNumber bytes : UInt64) (isRetransmittable : Bool) :
    (s.onPacketSent packetNumber bytes isRetransmittable).Sound := by
  unfold OliaSender.onPacketSent
  split
  · exact { h with }
  · exact h

theorem Sound.maybeExitSlowStart : s.maybeExitSlowStart.Sound := by
  unfold OliaSender.maybeExitSlowStart
  split
  · simp only
    split
    · exact { h with }
    · exact { h with }
  · exact h

/-- A window of two packets or more can do without one. -/
theorem Sound.toNat_sub_one : (s.congestionWindow - 1).toNat = s.congestionWindow.toNat - 1 := by
  apply UInt64.toNat_sub_of_le
  rw [le_iff_toNat_le]
  exact Nat.le_trans (by decide) (le_iff_toNat_le.mp h.ge)

theorem Sound.sub_one_le : s.congestionWindow - 1 ≤ s.congestionWindow := by
  rw [le_iff_toNat_le, h.toNat_sub_one]
  exact Nat.sub_le _ _

/-- One packet less, but not below the minimum. -/
theorem Sound.reduced :
    2 ≤ maxPacketNumber (s.congestionWindow - 1) s.minCongestionWindow ∧
      maxPacketNumber (s.congestionWindow - 1) s.minCongestionWindow ≤
        s.maxTCPCongestionWindow := by
  constructor
  · rw [h.minimum]
    exact (le_maxPacketNumber _ _).2
  rcases maxPacketNumber_eq (s.congestionWindow - 1) s.minCongestionWindow with heq | heq
  · rw [heq]
    exact UInt64.le_trans h.sub_one_le h.le
  · rw [heq, h.minimum]
    exact h.two_le

theorem Sound.onLateLoss (lostBytes : UInt64) : (s.onLateLoss lostBytes).Sound := by
  unfold OliaSender.onLateLoss
  split
  · simp only
    split
    · split
      · exact { h with ge := h.reduced.1, le := h.reduced.2 }
      · exact { h with }
    · exact { h with }
  · exact h

section

variable {scaled : OliaSender → UInt64} (hscaled : ∀ s, scaled s ≤ s.congestionWindow)

include hscaled

theorem Sound.cutWindow :
    2 ≤ s.cutWindow scaled ∧ s.cutWindow scaled ≤ s.maxTCPCongestionWindow := by
  unfold OliaSender.cutWindow
  have hcut : (if s.slowStartLargeReduction && s.inSlowStart then s.congestionWindow - 1
      else scaled s) ≤ s.congestionWindow := by
    split
    · exact h.sub_one_le
    · exact hscaled s
  simp only
  generalize (if s.slowStartLargeReduction && s.inSlowStart then s.congestionWindow - 1
    else scaled s) = cut at hcut ⊢
  split
  · rw [h.minimum]
    exact ⟨UInt64.le_refl 2, h.two_le⟩
  · next hlarge =>
    rw [h.minimum] at hlarge
    exact ⟨UInt64.not_lt.mp hlarge, UInt64.le_trans hcut h.le⟩

theorem Sound.onPacketLost (packetNumber lostBytes bytesInFlight : UInt64) :
    (s.onPacketLost scaled packetNumber lostBytes bytesInFlight).Sound := by
  unfold OliaSender.onPacketLost
  split
  · exact h.onLateLoss lostBytes
  have hnoted : Sound { s with
      lastCutbackExitedSlowstart := s.inSlowStart
      slowstartPacketsLost :=
        if s.inSlowStart then s.slowstartPacketsLost + 1 else s.slowstartPacketsLost
      prr := PrrSender.onPacketLost bytesInFlight
      olia := s.olia.onPacketLost } := { h with }
  obtain ⟨hge, hle⟩ := hnoted.cutWindow hscaled
  exact { hnoted with ge := hge, le := hle }

end

theorem Sound.onRetransmissionTimeout (packetsRetransmitted : Bool) :
    (s.onRetransmissionTimeout packetsRetransmitted).Sound := by
  unfold OliaSender.onRetransmissionTimeout
  simp only
  split
  · refine { h with ge := ?_, le := ?_, count := count_zero }
    · simp only [h.minimum, UInt64.le_refl]
    · simp only [h.minimum, h.two_le]
  · exact { h with }

theorem Sound.onConnectionMigration : s.onConnectionMigration.Sound where
  __ := h
  maximum := rfl
  ge := h.initial_ge
  le := h.initial_le
  count := count_zero

theorem Sound.noteAcked (ackedPacketNumber ackedBytes : UInt64) :
    (s.noteAcked ackedPacketNumber ackedBytes).Sound := by
  unfold OliaSender.noteAcked
  simp only
  split
  · exact { h with }
  · exact { h with }

theorem Sound.finishAck (ackedPacketNumber : UInt64) : (s.finishAck ackedPacketNumber).Sound := by
  unfold OliaSender.finishAck
  split
  · exact { h with }
  · exact h

end

/-! #### The window after an ACK -/

/-- The counter does not shrink if `epsilonNum` is not negative. -/
theorem count_ge {o : Olia} {congestionWindow rate cwndScaled : UInt64} (hnum : o.epsilonNum ≠ -1)
    (hcount : -1023 < o.sndCwndCnt.toInt) (hfits : o.Fits congestionWindow rate cwndScaled) :
    -1023 < (o.count congestionWindow rate cwndScaled).toInt := by
  obtain ⟨hsum, hsmall⟩ := hfits hnum
  rw [Olia.count, if_neg hnum, Int64.toInt_add]
  generalize o.increment congestionWindow rate cwndScaled = inc at hsum hsmall
  have hinc : inc.toInt64.toInt = inc.toNat := by
    apply BitVec.toInt_eq_toNat_of_lt (x := inc.toBitVec)
    rw [toNat_toBitVec]
    omega
  rw [hinc, Int.bmod_eq_of_le (by omega) (by omega)]
  omega

/-- With a share that is not negative, or a window of three packets or more, the window
stays in its bounds. -/
theorem Sound.updateWindow (h : s.Sound) {rate : UInt64}
    (hlt : s.congestionWindow < s.maxTCPCongestionWindow)
    (hfits : s.olia.Fits s.congestionWindow rate (oliaScale s.congestionWindow))
    (hshare : s.olia.epsilonNum = -1 → 3 ≤ s.congestionWindow) : (s.updateWindow rate).Sound := by
  have hge := le_iff_toNat_le.mp h.ge
  have hroom := lt_iff_toNat_lt.mp hlt
  have hmax := s.maxTCPCongestionWindow.toNat_lt
  have hmin : ∀ w : UInt64, 2 ≤ w → 2 ≤ minPacketNumber s.maxTCPCongestionWindow w ∧
      minPacketNumber s.maxTCPCongestionWindow w ≤ s.maxTCPCongestionWindow := by
    intro w hw
    unfold minPacketNumber
    split
    · exact ⟨h.two_le, UInt64.le_refl _⟩
    · next hle => exact ⟨hw, UInt64.not_lt.mp hle⟩
  unfold OliaSender.updateWindow Olia.congestionWindowAfterAck
  simp only
  split
  · -- The window grows.
    have hnext : 2 ≤ s.congestionWindow + 1 := by
      rw [le_iff_toNat_le, UInt64.toNat_add]
      simp only [toNat_ofNat] at hge ⊢
      omega
    obtain ⟨hlow, hhigh⟩ := hmin _ hnext
    exact { h with ge := hlow, le := hhigh, count := count_zero }
  split
  · -- The window shrinks, so the share was negative.
    next hsmall =>
    have hnum : s.olia.epsilonNum = -1 := by
      by_contra hnum
      have hcount := count_ge hnum h.count hfits
      rw [Int64.le_iff_toInt_le] at hsmall
      have hbound : (-1023 : Int64).toInt = -1023 := by decide
      omega
    have hthree := le_iff_toNat_le.mp (hshare hnum)
    have hprev : 2 ≤ maxPacketNumber 1 (s.congestionWindow - 1) := by
      refine UInt64.le_trans ?_ (le_maxPacketNumber _ _).2
      rw [le_iff_toNat_le, h.toNat_sub_one]
      simp only [toNat_ofNat] at hthree ⊢
      omega
    obtain ⟨hlow, hhigh⟩ := hmin _ hprev
    exact { h with ge := hlow, le := hhigh, count := count_zero }
  · next hlarge =>
    obtain ⟨hlow, hhigh⟩ := hmin _ h.ge
    refine { h with ge := hlow, le := hhigh, count := ?_ }
    rw [Int64.le_iff_toInt_le] at hlarge
    have hbound : (-1023 : Int64).toInt = -1023 := by decide
    simp only
    omega

end OliaSender

/-! ### All events -/

namespace OliaSenders

/-- Every sender is sound. -/
def Inv (senders : OliaSenders) : Prop := ∀ id s, senders id = some s → s.Sound

variable {senders : OliaSenders}

section

variable (h : senders.Inv)

include h

theorem Inv.modify (id : UInt8) {f : OliaSender → OliaSender}
    (hf : ∀ s : OliaSender, s.Sound → (f s).Sound) : Inv (Lib.modify senders id f) :=
  forall_modify h fun s hs => hf s (h id s hs)

/-- `getEpsilon` changes neither windows nor counters. -/
theorem Inv.getEpsilon {order : EpsilonOrder} (horder : order.Of senders) :
    Inv (getEpsilon senders order) := by
  intro id s' hs'
  have hsome := getEpsilon_isSome horder id
  rw [hs'] at hsome
  obtain ⟨s, hs⟩ := Option.isSome_iff_exists.mp hsome.symm
  obtain ⟨num, den, heq, -, -⟩ := getEpsilon_spec horder hs
  rw [hs'] at heq
  cases heq
  exact { h id s hs with }

/-- A sender that loses share has a window of three packets or more, since another one has
at least two. -/
theorem Inv.three_le {s : OliaSender} {num : Int64} (hshare : Share senders s num)
    (hnum : num = -1) : 3 ≤ s.congestionWindow := by
  cases hshare with
  | none => exact absurd hnum (by decide)
  | gain => exact absurd hnum (by decide)
  | loss _ id' s' hs' hlt =>
    have hge := le_iff_toNat_le.mp (h id' s' hs').ge
    have hlt' := lt_iff_toNat_lt.mp hlt
    rw [le_iff_toNat_le]
    simp only [toNat_ofNat] at hge ⊢
    omega

theorem Inv.maybeIncreaseCwnd {id : UInt8} {order : AckOrder} {bytesInFlight : UInt64}
    (hfits : AckFits senders id order bytesInFlight)
    (hrecovery : ∀ s, senders id = some s → s.inRecovery = false) :
    Inv (maybeIncreaseCwnd senders id order bytesInFlight) := by
  unfold Quic.maybeIncreaseCwnd
  split
  · exact h
  rename_i s hs
  split
  · exact h
  rename_i hlimited
  split
  · exact h
  rename_i hroom
  have hlt := UInt64.not_le.mp hroom
  split
  · -- Slow start.
    refine forall_modify h fun s' hs' => ?_
    rw [hs] at hs'
    cases hs'
    have hsound := h id s hs
    have hge := le_iff_toNat_le.mp hsound.ge
    have hlt' := lt_iff_toNat_lt.mp hlt
    have hmax := s.maxTCPCongestionWindow.toNat_lt
    have hnext : (s.congestionWindow + 1).toNat = s.congestionWindow.toNat + 1 := by
      rw [UInt64.toNat_add]
      exact Nat.mod_eq_of_lt (by simp only [toNat_ofNat]; omega)
    refine { hsound with ge := ?_, le := ?_ }
    · rw [le_iff_toNat_le, hnext]
      omega
    · rw [le_iff_toNat_le, hnext]
      exact hlt'
  · -- Congestion avoidance.
    next hslow =>
    refine forall_modify (h.getEpsilon hfits.epsilonOrder) fun s' hs' => ?_
    obtain ⟨num, den, heq, -, hshare⟩ := getEpsilon_spec hfits.epsilonOrder hs
    rw [hs'] at heq
    cases heq
    have havoids : s.avoidsCongestion bytesInFlight = true := by
      simp only [Bool.not_eq_true', Bool.not_eq_false] at hlimited
      simp [avoidsCongestion, hlimited, hlt, hslow]
    apply ((h.getEpsilon hfits.epsilonOrder) id _ hs').updateWindow hlt
    · exact hfits.fits s _ hs (hrecovery s hs) havoids hs'
    have hthree := h.three_le hshare
    exact hthree

theorem Inv.onPacketAcked {id : UInt8} {order : AckOrder}
    {ackedPacketNumber ackedBytes bytesInFlight : UInt64}
    (hfits : AckFits (Lib.modify senders id fun s => s.noteAcked ackedPacketNumber ackedBytes) id
      order bytesInFlight) :
    Inv (onPacketAcked senders id order ackedPacketNumber ackedBytes bytesInFlight) := by
  have hnoted := h.modify id fun s hs => hs.noteAcked ackedPacketNumber ackedBytes
  unfold Quic.onPacketAcked
  simp only
  split
  · exact hnoted
  rename_i hrecovery
  apply Inv.modify
  · apply hnoted.maybeIncreaseCwnd hfits
    intro s hs
    rw [hs] at hrecovery
    simpa using hrecovery
  · exact fun s hs => hs.finishAck ackedPacketNumber

/-- Step lemma. -/
theorem Inv.handle {scaled : OliaSender → UInt64} (hscaled : ∀ s, scaled s ≤ s.congestionWindow)
    {event : OliaEvent} (hfits : senders.Fits event) : Inv (senders.handle scaled event) := by
  cases event with
  | setup id initial maximum =>
    intro id' s hs
    simp only [OliaSenders.handle] at hs
    split at hs
    · cases hs
      exact sound_newOliaSender hfits.1 hfits.2
    · exact h id' s hs
  | updateRTT id => exact h.modify id fun s hs => { hs with }
  | onPacketSent id number bytes retransmittable =>
    exact h.modify id fun s hs => hs.onPacketSent number bytes retransmittable
  | onPacketAcked => exact h.onPacketAcked hfits
  | onPacketLost id number lost inFlight =>
    exact h.modify id fun s hs => hs.onPacketLost hscaled number lost inFlight
  | onRetransmissionTimeout id retransmitted =>
    exact h.modify id fun s hs => hs.onRetransmissionTimeout retransmitted
  | onConnectionMigration id => exact h.modify id fun s hs => hs.onConnectionMigration
  | maybeExitSlowStart id => exact h.modify id fun s hs => hs.maybeExitSlowStart
  | setSlowStartLargeReduction id =>
    exact h.modify id fun s hs => { hs with }
  | setNumEmulatedConnections id =>
    exact h.modify id fun s hs => { hs with }

end

end OliaSenders

open OliaSenders

/-- In every run of senders that were registered with windows between two packets and the
maximum, all windows stay between the two, if `CongestionWindowAfterAck` does not overflow
and the product with `RenoBeta` is at most the window. -/
theorem windows_in_bounds (scaled : OliaSender → UInt64)
    (hscaled : ∀ s, scaled s ≤ s.congestionWindow) (senders : OliaSenders)
    (hnew : ∀ id s, senders id = some s → ∃ initial maximum, 2 ≤ initial ∧ initial ≤ maximum ∧
      s = newOliaSender initial maximum)
    (events : List OliaEvent) (hfits : AllFit (handle scaled) Fits senders events) (id : UInt8)
    (s : OliaSender) (hs : run (handle scaled) senders events id = some s) :
    s.minCongestionWindow = 2 ∧ s.minCongestionWindow ≤ s.congestionWindow ∧
      s.congestionWindow ≤ s.maxTCPCongestionWindow := by
  have hinit : senders.Inv := by
    intro id s hs
    obtain ⟨initial, maximum, hge, hle, rfl⟩ := hnew id s hs
    exact sound_newOliaSender hge hle
  have hinv := run_inv Fits (fun _ senders => Inv senders)
    (fun _ senders event h hfits => h.handle hscaled hfits) events [] senders hinit hfits
  have hsound := hinv id s hs
  refine ⟨hsound.minimum, ?_, hsound.le⟩
  rw [hsound.minimum]
  exact hsound.ge

/-- Two new senders. -/
def newSenders : OliaSenders := fun id => List.lookup id
  [(1, newOliaSender 32 2500), (3, newOliaSender 32 2500)]

/-- The first path loses a packet, and a later one is acknowledged out of slow start. -/
def lossThenAck : List OliaEvent :=
  [.updateRTT 1 20 20 20, .onPacketSent 1 1 1200 true, .onPacketLost 1 1 1200 40000,
    .onPacketAcked 1 ⟨⟨[1, 3], [3, 1], [1, 3], [3, 1]⟩, [1, 3]⟩ 2 1200 50000]

/-- The window times the default `RenoBeta`, 0.85, rounded down. -/
def scaledByBeta (s : OliaSender) : UInt64 := s.congestionWindow * 85 / 100

theorem scaledByBeta_le (s : OliaSender) : scaledByBeta s ≤ s.congestionWindow := by
  have hmod := Nat.mod_le (s.congestionWindow.toNat * 85) (2 ^ 64)
  rw [le_iff_toNat_le, scaledByBeta, UInt64.toNat_div, UInt64.toNat_mul,
    show (85 : UInt64).toNat = 85 from rfl, show (100 : UInt64).toNat = 100 from rfl]
  omega

/-- The window is cut from 32 packets to 27, the other sender has more, and so the share of
this one grows. -/
theorem windows_in_bounds_loss :
    (run (handle scaledByBeta) newSenders lossThenAck 1).map (·.congestionWindow) = some 27 ∧
    ∀ s, run (handle scaledByBeta) newSenders lossThenAck 1 = some s →
      s.minCongestionWindow = 2 ∧ s.minCongestionWindow ≤ s.congestionWindow ∧
        s.congestionWindow ≤ s.maxTCPCongestionWindow := by
  have hnew : Lists newSenders [1, 3] := lists_lookup _ (by decide)
  -- The senders when the ACK arrives.
  let acked := modify (run (handle scaledByBeta) newSenders (lossThenAck.take 3)) 1 fun s =>
    s.noteAcked 2 1200
  have hacked : Lists acked [1, 3] := hnew.of_isSome fun id => by
    simp [acked, run, lossThenAck, handle, modify_isSome]
  have hacked' : Lists acked [3, 1] := hacked.of_perm (by decide)
  have hroom : (acked 1).all (fun s => (getEpsilon acked ⟨[1, 3], [3, 1], [1, 3], [3, 1]⟩ 1).all
      fun s' => decide (s'.olia.Fits s'.congestionWindow
        (getRate (values (getEpsilon acked ⟨[1, 3], [3, 1], [1, 3], [3, 1]⟩) [1, 3]) s.smoothedRTT)
        (oliaScale s'.congestionWindow))) = true := by
    decide +kernel
  have hfits : AllFit (handle scaledByBeta) Fits newSenders lossThenAck := by
    refine .cons trivial (.cons trivial (.cons trivial (.cons ?_ .nil)))
    refine ⟨⟨hacked, hacked', hacked, hacked'⟩, hacked, fun s s' hs _ _ hs' => ?_⟩
    have hs₁ : acked 1 = some s := hs
    have hs₂ : getEpsilon acked ⟨[1, 3], [3, 1], [1, 3], [3, 1]⟩ 1 = some s' := hs'
    rw [hs₁, hs₂] at hroom
    exact of_decide_eq_true hroom
  have hwindows : ∀ id s, newSenders id = some s → ∃ initial maximum, 2 ≤ initial ∧
      initial ≤ maximum ∧ s = newOliaSender initial maximum := by
    intro id s hs
    simp only [newSenders, List.lookup_cons, List.lookup_nil] at hs
    refine ⟨32, 2500, by decide, by decide, ?_⟩
    split at hs
    · exact (Option.some.inj hs).symm
    split at hs
    · exact (Option.some.inj hs).symm
    · cases hs
  exact ⟨by decide +kernel, windows_in_bounds scaledByBeta scaledByBeta_le newSenders hwindows
    lossThenAck hfits 1⟩

end RlncStreaming.Quic
