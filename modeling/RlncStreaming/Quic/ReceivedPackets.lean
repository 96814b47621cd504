import RlncStreaming.Quic.AckParsing
import RlncStreaming.Quic.ReceivedHistory

/-!
The receiving side of acknowledgements (`ackhandler`: `received_packet_handler.go`).

The largest number of an ACK frame comes from a counter, its ranges come from the history,
which STOP_WAITING frames prune. A STOP_WAITING frame reaches only numbers below its own
packet, so the largest number is always in the history, and every frame that is generated is
a proper one (`generated_acks_valid`). A STOP_WAITING frame that arrives late sets the limit
back, and a packet below a limit that was set before is then acknowledged
(`stop_waiting_overtaken`); without such packets no limit is undercut
(`stop_waiting_final`).
-/

namespace RlncStreaming.Quic

open ReceivedPacketHistory List

/-! ### The handler -/

/-- An ACK frame with the time at which its largest packet was received. -/
structure TimedAckFrame extends AckFrame where
  packetReceivedTime : Option Nat
deriving DecidableEq, Repr

/-- Times are in nanoseconds; the zero time is `none`. -/
structure ReceivedPacketHandler where
  largestObserved : Nat
  lowerLimit : Nat
  largestObservedReceivedTime : Option Nat
  packetHistory : ReceivedPacketHistory
  ackSendDelay : Nat
  packetsReceivedSinceLastAck : Nat
  retransmittablePacketsReceivedSinceLastAck : Nat
  ackQueued : Bool
  ackAlarm : Option Nat
  lastAck : Option TimedAckFrame
  version : Int
  packets : Nat
deriving DecidableEq, Repr

inductive ReceivedPacketError where
  | invalidPacketNumber
  | history (e : HistoryError)
deriving DecidableEq, Repr

def ackDelay : Nat := 25 * 1000000

def maxPacketsReceivedBeforeAckSend : Nat := 20

def retransmittablePacketsBeforeAck : Nat := 2

def newReceivedPacketHandler (version : Int) : ReceivedPacketHandler where
  largestObserved := 0
  lowerLimit := 0
  largestObservedReceivedTime := none
  packetHistory := newReceivedPacketHistory
  ackSendDelay := ackDelay
  packetsReceivedSinceLastAck := 0
  retransmittablePacketsReceivedSinceLastAck := 0
  ackQueued := false
  ackAlarm := none
  lastAck := none
  version := version
  packets := 0

namespace ReceivedPacketHandler

variable (h : ReceivedPacketHandler)

/-- The packet is counted and becomes the largest one if its number is larger. -/
def observe (now packetNumber : Nat) : ReceivedPacketHandler :=
  if h.largestObserved < packetNumber then
    { h with packets := add64 h.packets 1, largestObserved := packetNumber,
             largestObservedReceivedTime := some now }
  else { h with packets := add64 h.packets 1 }

/-- The reasons of `maybeQueueAck` to acknowledge a packet at once. The counters count the
packet already. -/
def mustAck (packetNumber : Nat) : Bool :=
  match h.lastAck with
  | none => true
  | some ack =>
    h.ackQueued ||
      (decide (h.version < 39) &&
        decide (maxPacketsReceivedBeforeAckSend ≤ h.packetsReceivedSinceLastAck)) ||
      decide (packetNumber < ack.largestAcked) ||
      decide (ack.largestAcked < h.packetHistory.getHighestAckRange.first)

section

variable (now packetNumber : Nat) (shouldInstigateAck : Bool)

/-- `maybeQueueAck`. -/
def maybeQueueAck : ReceivedPacketHandler :=
  let h := { h with
    packetsReceivedSinceLastAck := h.packetsReceivedSinceLastAck + 1
    retransmittablePacketsReceivedSinceLastAck :=
      if shouldInstigateAck then h.retransmittablePacketsReceivedSinceLastAck + 1
      else h.retransmittablePacketsReceivedSinceLastAck }
  let ackQueued := h.mustAck packetNumber ||
    (shouldInstigateAck &&
      decide (retransmittablePacketsBeforeAck ≤ h.retransmittablePacketsReceivedSinceLastAck))
  let ackAlarm :=
    if ackQueued then none
    else if shouldInstigateAck && h.ackAlarm.isNone then some (now + h.ackSendDelay)
    else h.ackAlarm
  { h with ackQueued := ackQueued, ackAlarm := ackAlarm }

/-- `ReceivedPacket`. -/
def receivedPacket : Except ReceivedPacketError Unit × ReceivedPacketHandler :=
  if packetNumber = 0 then (.error .invalidPacketNumber, h)
  else
    let h := h.observe now packetNumber
    if packetNumber ≤ h.lowerLimit then (.ok (), h)
    else
      match h.packetHistory.receivedPacket packetNumber with
      | .error e => (.error (.history e), h)
      | .ok packetHistory =>
        (.ok (), { h with packetHistory }.maybeQueueAck now packetNumber shouldInstigateAck)

end

/-- `SetLowerLimit`. -/
def setLowerLimit (p : Nat) : ReceivedPacketHandler :=
  { h with lowerLimit := p, packetHistory := h.packetHistory.deleteUpTo p }

/-- The numbers that an ACK and a CLOSE_PATH frame report. The lowest one is read from the
last range; without a range that is a panic. -/
def ackBlocks : Option AckBlocks :=
  h.packetHistory.getAckRanges.getLast?.map fun lowest =>
    { pathID := 0
      largestAcked := h.largestObserved
      lowestAcked := lowest.first
      ackRanges :=
        if 1 < h.packetHistory.getAckRanges.length then h.packetHistory.getAckRanges else [] }

/-- No ACK is due. -/
def ackNotDue (now : Nat) : Bool :=
  !h.ackQueued && (match h.ackAlarm with | none => true | some alarm => decide (now < alarm))

/-- `GetAckFrame`; `none` is a panic, and the frame is missing if no ACK is due. -/
def getAckFrame (now : Nat) : Option (Option TimedAckFrame × ReceivedPacketHandler) :=
  if h.ackNotDue now then some (none, h)
  else
    h.ackBlocks.map fun blocks =>
      let ack : TimedAckFrame := ⟨⟨blocks, 0⟩, h.largestObservedReceivedTime⟩
      (some ack, { h with
        lastAck := some ack
        ackAlarm := none
        ackQueued := false
        packetsReceivedSinceLastAck := 0
        retransmittablePacketsReceivedSinceLastAck := 0 })

/-- `GetClosePathFrame`. -/
def getClosePathFrame : Option ClosePathFrame := h.ackBlocks.map fun blocks => ⟨blocks⟩

/-- `GetAlarmTimeout`. -/
def getAlarmTimeout : Option Nat := h.ackAlarm

/-- `GetStatistics`. -/
def getStatistics : Nat := h.packets

/-! ### What the calls change -/

variable (now : Nat) (packetNumber : Nat) (shouldInstigateAck : Bool)

theorem observe_largestObserved :
    (h.observe now packetNumber).largestObserved = max h.largestObserved packetNumber := by
  rw [observe]
  split
  · next hlt => exact (Nat.max_eq_right (Nat.le_of_lt hlt)).symm
  · next hge => exact (Nat.max_eq_left (Nat.not_lt.mp hge)).symm

/-- Only the largest packet, its time and the count change. -/
theorem observe_frame : (h.observe now packetNumber).lowerLimit = h.lowerLimit ∧
    (h.observe now packetNumber).packetHistory = h.packetHistory ∧
    (h.observe now packetNumber).ackQueued = h.ackQueued ∧
    (h.observe now packetNumber).ackAlarm = h.ackAlarm := by
  rw [observe]
  split <;> exact ⟨rfl, rfl, rfl, rfl⟩

/-- What a call does to the largest number, the limit and the history. -/
theorem receivedPacket_cases {packetNumber : Nat} (hne : packetNumber ≠ 0) :
    let h' := (h.receivedPacket now packetNumber shouldInstigateAck).2
    h'.largestObserved = max h.largestObserved packetNumber ∧ h'.lowerLimit = h.lowerLimit ∧
      (h'.packetHistory = h.packetHistory ∧ h'.ackQueued = h.ackQueued ∧ h'.ackAlarm = h.ackAlarm ∧
          (packetNumber ≤ h.lowerLimit ∨
            maxTrackedReceivedAckRanges ≤ h.packetHistory.ranges.length) ∨
        h.lowerLimit < packetNumber ∧
          h.packetHistory.receivedPacket packetNumber = .ok h'.packetHistory) := by
  obtain ⟨hlimit, hhistory, hqueued, halarm⟩ := h.observe_frame now packetNumber
  have hlargest := h.observe_largestObserved now packetNumber
  simp only [receivedPacket, if_neg hne, hlimit, hhistory]
  split
  · next hle => exact ⟨hlargest, hlimit, .inl ⟨hhistory, hqueued, halarm, .inl hle⟩⟩
  rename_i hlt
  split
  · next e herror =>
    refine ⟨hlargest, hlimit, .inl ⟨hhistory, hqueued, halarm, .inr ?_⟩⟩
    refine Nat.not_lt.mp fun hroom => ?_
    rw [receivedPacket_eq hroom] at herror
    cases herror
  · next packetHistory hok => exact ⟨hlargest, rfl, .inr ⟨Nat.not_le.mp hlt, hok⟩⟩

/-! ### The reported numbers -/

variable {h}

section

variable {hist : ReceivedPacketHistory}

theorem mem_getAckRanges {r : AckRange} :
    r ∈ hist.getAckRanges ↔ ⟨r.first, r.last⟩ ∈ hist.ranges := by
  rw [getAckRanges, mem_map]
  constructor
  · rintro ⟨el, hel, rfl⟩
    exact mem_reverse.mp hel
  · exact fun hr => ⟨_, mem_reverse.mpr hr, rfl⟩

theorem covers_iff_getAckRanges {n : Nat} :
    Covers hist.ranges n ↔ ∃ r ∈ hist.getAckRanges, r.first ≤ n ∧ n ≤ r.last := by
  constructor
  · rintro ⟨el, hel, hn⟩
    exact ⟨⟨el.start, el.stop⟩, mem_getAckRanges.mpr hel, hn⟩
  · rintro ⟨r, hr, hn⟩
    exact ⟨⟨r.first, r.last⟩, mem_getAckRanges.mp hr, hn⟩

theorem getAckRanges_pairwise (hranges : Canonical hist.ranges) :
    hist.getAckRanges.Pairwise fun above r => r.last + 1 < above.first := by
  rw [getAckRanges, pairwise_map, pairwise_reverse]
  exact hranges.apart

end

/-- The highest range ends at the largest number of the history. -/
theorem highest_eq {r : AckRange} {rs : List AckRange} {n : Nat}
    (hapart : (r :: rs).Pairwise fun above r => r.last + 1 < above.first)
    (hne : r.first ≤ r.last) (hle : r.last ≤ n)
    (hn : ∃ q ∈ r :: rs, q.first ≤ n ∧ n ≤ q.last) : r.last = n := by
  obtain ⟨q, hq, -, hnq⟩ := hn
  rcases mem_cons.mp hq with rfl | hq
  · exact Nat.le_antisymm hle hnq
  have := (pairwise_cons.mp hapart).1 q hq
  omega

/-- If the largest observed number is the largest of the history, the reported numbers are
those of the history, in proper form. -/
theorem ackBlocks_proper (hranges : Canonical h.packetHistory.ranges)
    (hmem : Covers h.packetHistory.ranges h.largestObserved)
    (hmax : ∀ n, Covers h.packetHistory.ranges n → n ≤ h.largestObserved) :
    ∃ f, h.ackBlocks = some f ∧ f.largestAcked = h.largestObserved ∧ f.Proper ∧
      ∀ n, f.acksPacket n = true ↔ Covers h.packetHistory.ranges n := by
  have hapart := getAckRanges_pairwise hranges
  have hne : ∀ r ∈ h.packetHistory.getAckRanges, r.first ≤ r.last := fun r hr =>
    hranges.nonempty _ (mem_getAckRanges.mp hr)
  simp only [covers_iff_getAckRanges] at hmem hmax ⊢
  have hlast : ∀ r ∈ h.packetHistory.getAckRanges, r.last ≤ h.largestObserved := fun r hr =>
    hmax r.last ⟨r, hr, hne r hr, Nat.le_refl _⟩
  rw [ackBlocks]
  generalize h.packetHistory.getAckRanges = ranges at hmem hapart hne hlast ⊢
  match ranges with
  | [] =>
    obtain ⟨r, hr, -⟩ := hmem
    exact absurd hr not_mem_nil
  | [r] =>
    have hhigh := highest_eq hapart (hne r mem_cons_self) (hlast r mem_cons_self) hmem
    refine ⟨⟨0, h.largestObserved, r.first, []⟩, rfl, rfl, ?_, fun n => ?_⟩
    · constructor <;> simp [← hhigh, hne r]
    have hacks : (AckBlocks.mk 0 h.largestObserved r.first []).acksPacket n = true ↔
        r.first ≤ n ∧ n ≤ h.largestObserved := by
      simp [AckBlocks.acksPacket, AckBlocks.hasMissingRanges]
    simp [hacks, hhigh]
  | r :: r' :: rs =>
    have hhigh := highest_eq hapart (hne r mem_cons_self) (hlast r mem_cons_self) hmem
    obtain ⟨low, hlow⟩ : ∃ low, (r :: r' :: rs).getLast? = some low :=
      ⟨_, getLast?_eq_getLast_of_ne_nil (cons_ne_nil r _)⟩
    have hlowmem := mem_of_getLast? hlow
    have hproper : (AckBlocks.mk 0 h.largestObserved low.first (r :: r' :: rs)).Proper := by
      constructor
      case count => exact .inr (by simp)
      case nonempty => exact hne
      case descending => exact hapart
      case highest =>
        rintro q ⟨⟩
        exact hhigh
      case lowest =>
        simp only [hlow]
        rintro q ⟨⟩
        rfl
      case lowest_le => exact Nat.le_trans (hne low hlowmem) (hlast low hlowmem)
      case within => exact hlast
    refine ⟨_, ?_, rfl, hproper, fun n => hproper.acksPacket_iff (cons_ne_nil r _)⟩
    rw [hlow]
    simp

/-- A due ACK frame is built from the reported numbers. -/
theorem getAckFrame_cases {now : Nat} {f : Option TimedAckFrame} {h' : ReceivedPacketHandler}
    (hcall : h.getAckFrame now = some (f, h')) :
    f = none ∧ h' = h ∨ ∃ ack, f = some ack ∧ h.ackBlocks = some ack.toAckBlocks ∧
      h'.largestObserved = h.largestObserved ∧ h'.lowerLimit = h.lowerLimit ∧
      h'.packetHistory = h.packetHistory ∧ h'.ackQueued = false ∧ h'.ackAlarm = none := by
  rw [getAckFrame] at hcall
  split at hcall
  · cases hcall
    exact .inl ⟨rfl, rfl⟩
  · obtain ⟨blocks, hblocks, heq⟩ := Option.map_eq_some_iff.mp hcall
    cases heq
    exact .inr ⟨_, rfl, hblocks, rfl, rfl, rfl, rfl, rfl⟩

end ReceivedPacketHandler

open Lib ReceivedPacketHandler

/-! ### Packets with STOP_WAITING frames -/

/-- A packet that was decrypted on a path, or a look for an ACK frame to send. -/
inductive PathEvent where
  | packet (now packetNumber : Nat) (isRetransmittable : Bool) (leastUnacked : Option Nat)
  | getAckFrame (now : Nat)
deriving DecidableEq, Repr

namespace PathEvent

/-- What `path.handlePacketImpl` does with the handler: an error ends the packet; otherwise
`handleFrames` comes to its STOP_WAITING frame. A panic leaves no state behind, so the one
before it is kept. -/
def step (h : ReceivedPacketHandler) : PathEvent → ReceivedPacketHandler
  | packet now packetNumber isRetransmittable leastUnacked =>
    match h.receivedPacket now packetNumber isRetransmittable with
    | (.error _, h) => h
    | (.ok _, h) =>
      match leastUnacked with
      | none => h
      | some leastUnacked => h.setLowerLimit (sub64 leastUnacked 1)
  | getAckFrame now => ((h.getAckFrame now).map Prod.snd).getD h

/-- The packet number is not zero, the STOP_WAITING frame names a number up to it, and the
history has room. -/
def Fit (h : ReceivedPacketHandler) : PathEvent → Prop
  | packet _ packetNumber _ leastUnacked => 1 ≤ packetNumber ∧ packetNumber < 2 ^ 64 ∧
      (∀ l ∈ leastUnacked, 1 ≤ l ∧ l ≤ packetNumber) ∧
      h.packetHistory.ranges.length < maxTrackedReceivedAckRanges
  | getAckFrame _ => True

instance (h : ReceivedPacketHandler) : (event : PathEvent) → Decidable (event.Fit h)
  | packet _ packetNumber _ leastUnacked => inferInstanceAs (Decidable
      (1 ≤ packetNumber ∧ packetNumber < 2 ^ 64 ∧ (∀ l ∈ leastUnacked, 1 ≤ l ∧ l ≤ packetNumber) ∧
        h.packetHistory.ranges.length < maxTrackedReceivedAckRanges))
  | getAckFrame _ => inferInstanceAs (Decidable True)

/-- A packet of number `n` was received. -/
def Received (events : List PathEvent) (n : Nat) : Prop :=
  ∃ now isRetransmittable leastUnacked, packet now n isRetransmittable leastUnacked ∈ events

end PathEvent

open PathEvent

/-- The largest number is in the history, which holds received numbers only. -/
structure Acking (events : List PathEvent) (h : ReceivedPacketHandler) : Prop where
  canonical : Canonical h.packetHistory.ranges
  received : ∀ n, Covers h.packetHistory.ranges n → Received events n
  largest : ∀ n, Received events n → n ≤ h.largestObserved
  observed : 0 < h.largestObserved → Covers h.packetHistory.ranges h.largestObserved
  limit : h.lowerLimit ≤ h.largestObserved
  due : h.ackQueued = true ∨ h.ackAlarm ≠ none → 0 < h.largestObserved

namespace Acking

variable {events : List PathEvent} {h : ReceivedPacketHandler}

theorem init (version : Int) : Acking [] (newReceivedPacketHandler version) := by
  constructor <;> simp [newReceivedPacketHandler, newReceivedPacketHistory, Received]
  exact ⟨by simp, .nil, by simp⟩

section

variable (hack : Acking events h)

include hack

/-- A received packet, without its frames. -/
theorem receivedPacket (now : Nat) {pn : Nat} (b : Bool) (least : Option Nat) (hpn : 1 ≤ pn)
    (hpn64 : pn < 2 ^ 64)
    (hroom : h.packetHistory.ranges.length < maxTrackedReceivedAckRanges) :
    Acking (events ++ [.packet now pn b least]) (h.receivedPacket now pn b).2 ∧
      pn ≤ (h.receivedPacket now pn b).2.largestObserved := by
  obtain ⟨hlargest, hlimit, hcases⟩ := h.receivedPacket_cases now b (by omega : pn ≠ 0)
  generalize (h.receivedPacket now pn b).2 = h' at hlargest hlimit hcases
  have hreceived : ∀ n, Received (events ++ [.packet now pn b least]) n ↔
      n = pn ∨ Received events n := by
    intro n
    simp only [Received, mem_append, mem_singleton, packet.injEq]
    constructor
    · rintro ⟨_, _, _, hold | ⟨-, rfl, -⟩⟩
      · exact .inr ⟨_, _, _, hold⟩
      · exact .inl rfl
    · rintro (rfl | ⟨_, _, _, hold⟩)
      · exact ⟨_, _, _, .inr ⟨rfl, rfl, rfl, rfl⟩⟩
      · exact ⟨_, _, _, .inl hold⟩
  have hbelow : ∀ n, Received (events ++ [.packet now pn b least]) n → n ≤ h'.largestObserved := by
    intro n hn
    rw [hlargest]
    rcases (hreceived n).mp hn with rfl | hn
    · exact Nat.le_max_right _ _
    · exact Nat.le_trans (hack.largest n hn) (Nat.le_max_left _ _)
  refine ⟨?_, hbelow pn ((hreceived pn).mpr (.inl rfl))⟩
  have hlimit' : h'.lowerLimit ≤ h'.largestObserved := by
    have := hack.limit
    omega
  rcases hcases with ⟨hhistory, hqueued, halarm, hskip⟩ | ⟨hlate, hok⟩
  · -- A packet below the limit is not larger than the largest one.
    have hsame : h'.largestObserved = h.largestObserved := by
      have := hack.limit
      omega
    refine ⟨hhistory ▸ hack.canonical, fun n hn => (hreceived n).mpr (.inr ?_), hbelow,
      ?_, hlimit', ?_⟩
    · exact hack.received n (hhistory ▸ hn)
    · rw [hhistory, hsame]
      exact hack.observed
    · rw [hqueued, halarm, hsame]
      exact hack.due
  · obtain ⟨hcanonical, hcovers⟩ := receivedPacket_spec hpn hpn64 hack.canonical hok
    refine ⟨hcanonical, fun n hn => ?_, hbelow, fun _ => ?_, hlimit', fun _ => by omega⟩
    · exact (hreceived n).mpr (((hcovers n).mp hn).imp_right (hack.received n))
    rw [hcovers]
    rcases Nat.lt_or_ge h.largestObserved pn with hnew | hold
    · exact .inl (by omega)
    have hsame : h'.largestObserved = h.largestObserved := by omega
    rw [hsame]
    exact .inr (hack.observed (by omega))

/-- A limit below the largest number leaves that number in the history. -/
theorem setLowerLimit {l : Nat} (hl : l < h.largestObserved) :
    Acking events (h.setLowerLimit l) := by
  obtain ⟨hcanonical, hcovers⟩ := deleteUpTo_spec (p := l) hack.canonical
  refine ⟨hcanonical, fun n hn => hack.received n ((hcovers n).mp hn).2, hack.largest,
    fun hpos => ?_, Nat.le_of_lt hl, hack.due⟩
  exact (hcovers _).mpr ⟨hl, hack.observed hpos⟩

theorem getAckFrame {now : Nat} {f : Option TimedAckFrame} {h' : ReceivedPacketHandler}
    (hcall : h.getAckFrame now = some (f, h')) : Acking events h' := by
  rcases getAckFrame_cases hcall with ⟨-, rfl⟩ |
    ⟨ack, -, -, hlargest, hlimit, hhistory, hqueued, halarm⟩
  · exact hack
  obtain ⟨hcanonical, hreceived, hmax, hobserved, hle, -⟩ := hack
  rw [← hhistory] at hcanonical hreceived
  rw [← hlargest] at hmax hobserved hle
  rw [← hhistory] at hobserved
  rw [← hlimit] at hle
  exact ⟨hcanonical, hreceived, hmax, hobserved, hle, by simp [hqueued, halarm]⟩

theorem step {event : PathEvent} (hfit : event.Fit h) :
    Acking (events ++ [event]) (step h event) := by
  cases event with
  | packet now pn b least =>
    obtain ⟨hpn, hpn64, hleast, hroom⟩ := hfit
    obtain ⟨hreceived, hle⟩ := hack.receivedPacket now b least hpn hpn64 hroom
    have hok : (h.receivedPacket now pn b).1 = .ok () := by
      obtain ⟨hlimit, hhistory, -, -⟩ := h.observe_frame now pn
      simp only [ReceivedPacketHandler.receivedPacket, if_neg (show pn ≠ 0 by omega), hlimit,
        hhistory, receivedPacket_eq hroom]
      split <;> rfl
    have hpair : h.receivedPacket now pn b = (.ok (), (h.receivedPacket now pn b).2) :=
      Prod.ext hok rfl
    rw [PathEvent.step, hpair]
    cases least with
    | none => exact hreceived
    | some l =>
      obtain ⟨hone, hlpn⟩ := hleast l rfl
      simp only [sub64_of_le hone]
      exact hreceived.setLowerLimit (by omega)
  | getAckFrame now =>
    have hsame : ∀ n, Received (events ++ [.getAckFrame now]) n ↔ Received events n := by
      simp [Received]
    have hpast : Acking (events ++ [.getAckFrame now]) h :=
      ⟨hack.canonical, fun n hn => (hsame n).mpr (hack.received n hn),
        fun n hn => hack.largest n ((hsame n).mp hn), hack.observed, hack.limit, hack.due⟩
    rw [PathEvent.step]
    cases hcall : h.getAckFrame now with
    | none => exact hpast
    | some result => exact hpast.getAckFrame hcall

end

theorem run (version : Int)
    (hfit : AllFit PathEvent.step (fun h event => event.Fit h) (newReceivedPacketHandler version)
      events) : Acking events (Lib.run PathEvent.step (newReceivedPacketHandler version) events) :=
  run_inv _ Acking (fun _ _ _ hack hfit => hack.step hfit) events [] _ (init version) hfit

end Acking

/-- **Generated ACKs are valid.** After any packets, reordered or repeated, with STOP_WAITING
frames that name numbers up to their own packet's, `GetAckFrame` does not panic. A frame that
it returns ends at the largest number received, has proper ranges, and acknowledges received
packets only. -/
theorem generated_acks_valid (version : Int) (events : List PathEvent)
    (hfit : AllFit PathEvent.step (fun h event => event.Fit h) (newReceivedPacketHandler version)
      events) (now : Nat) :
    ∃ ack h', (run PathEvent.step (newReceivedPacketHandler version) events).getAckFrame now =
        some (ack, h') ∧
      ∀ f ∈ ack, (Received events f.largestAcked ∧ ∀ n, Received events n → n ≤ f.largestAcked) ∧
        f.toAckBlocks.Proper ∧ ∀ n, f.acksPacket n = true → Received events n := by
  have hack := Acking.run version hfit
  generalize run PathEvent.step (newReceivedPacketHandler version) events = h at hack
  by_cases hdue : h.ackNotDue now = true
  · exact ⟨none, h, if_pos hdue, by simp⟩
  have hpos : 0 < h.largestObserved := by
    refine hack.due ?_
    by_contra hnone
    obtain ⟨hqueued, halarm⟩ := not_or.mp hnone
    refine hdue ?_
    rw [ackNotDue, not_not.mp halarm, eq_false_of_ne_true hqueued]
    rfl
  have hmem := hack.observed hpos
  obtain ⟨f, hblocks, hlargest, hproper, hacks⟩ := ackBlocks_proper hack.canonical hmem
    fun n hn => hack.largest n (hack.received n hn)
  refine ⟨_, _, by rw [ReceivedPacketHandler.getAckFrame, if_neg hdue, hblocks]; rfl, ?_⟩
  rintro ack ⟨⟩
  refine ⟨⟨?_, fun n hn => ?_⟩, hproper, fun n hn => hack.received n ((hacks n).mp hn)⟩
  · exact hlargest ▸ hack.received _ hmem
  · exact hlargest ▸ hack.largest n hn

/-- Packet 4 comes late, after a STOP_WAITING frame has cut the history. -/
theorem generated_acks_valid_reordered :
    ∃ ack h', (run PathEvent.step (newReceivedPacketHandler 39)
        [.packet 0 3 true none, .packet 1 6 true (some 4), .packet 2 4 true none]).getAckFrame 3 =
          some (some ack, h') ∧
      ack.ackRanges = [⟨6, 6⟩, ⟨4, 4⟩] ∧ ack.toAckBlocks.Proper := by
  obtain ⟨ack, h', hcall, hframe⟩ := generated_acks_valid 39
    [.packet 0 3 true none, .packet 1 6 true (some 4), .packet 2 4 true none]
    (.cons (by decide) (.cons (by decide) (.cons (by decide) .nil))) 3
  cases hcall
  exact ⟨_, _, rfl, rfl, (hframe _ rfl).2.1⟩

/-! ### Reordered limits -/

inductive HandlerCall where
  | receivedPacket (now packetNumber : Nat) (shouldInstigateAck : Bool)
  | setLowerLimit (p : Nat)
  | getAckFrame (now : Nat)
deriving DecidableEq, Repr

namespace HandlerCall

def step (h : ReceivedPacketHandler) : HandlerCall → ReceivedPacketHandler
  | receivedPacket now packetNumber shouldInstigateAck =>
    (h.receivedPacket now packetNumber shouldInstigateAck).2
  | setLowerLimit p => h.setLowerLimit p
  | getAckFrame now => ((h.getAckFrame now).map Prod.snd).getD h

/-- The arguments are packet numbers. -/
def InRange : HandlerCall → Prop
  | receivedPacket _ packetNumber _ => packetNumber < 2 ^ 64
  | setLowerLimit p => p < 2 ^ 64
  | getAckFrame _ => True

/-- A packet that an earlier limit covers is covered by the limit that is set now. -/
def NotOvertaken (past : List HandlerCall) (h : ReceivedPacketHandler) : HandlerCall → Prop
  | receivedPacket _ packetNumber _ =>
    ∀ l, setLowerLimit l ∈ past → packetNumber ≤ l → packetNumber ≤ h.lowerLimit
  | setLowerLimit _ => True
  | getAckFrame _ => True

end HandlerCall

open HandlerCall

/-- The history is above all limits that were ever set. -/
structure AboveLimits (calls : List HandlerCall) (h : ReceivedPacketHandler) : Prop where
  canonical : Canonical h.packetHistory.ranges
  above : ∀ l, .setLowerLimit l ∈ calls → ∀ n, Covers h.packetHistory.ranges n → l < n

theorem AboveLimits.step {calls : List HandlerCall} {h : ReceivedPacketHandler} {call : HandlerCall}
    (habove : AboveLimits calls h) (hrange : call.InRange) (hfit : call.NotOvertaken calls h) :
    AboveLimits (calls ++ [call]) (step h call) := by
  obtain ⟨hcanonical, habove⟩ := habove
  cases call with
  | receivedPacket now pn b =>
    have hlimits : ∀ l, .setLowerLimit l ∈ calls ++ [.receivedPacket now pn b] →
        .setLowerLimit l ∈ calls := by simp
    by_cases hzero : pn = 0
    · rw [HandlerCall.step, ReceivedPacketHandler.receivedPacket, if_pos hzero]
      exact ⟨hcanonical, fun l hl => habove l (hlimits l hl)⟩
    obtain ⟨-, -, hcases⟩ := h.receivedPacket_cases now b hzero
    rw [HandlerCall.step]
    rcases hcases with ⟨hhistory, -⟩ | ⟨hlate, hok⟩
    · exact ⟨hhistory ▸ hcanonical, fun l hl => hhistory ▸ habove l (hlimits l hl)⟩
    obtain ⟨hcanonical', hcovers⟩ := receivedPacket_spec (by omega) hrange hcanonical hok
    refine ⟨hcanonical', fun l hl n hn => ?_⟩
    rcases (hcovers n).mp hn with rfl | hn
    · refine Nat.not_le.mp fun hle => ?_
      have := hfit l (hlimits l hl) hle
      omega
    · exact habove l (hlimits l hl) n hn
  | setLowerLimit p =>
    obtain ⟨hcanonical', hcovers⟩ := deleteUpTo_spec (p := p) hcanonical
    refine ⟨hcanonical', fun l hl n hn => ?_⟩
    obtain ⟨hlt, hn⟩ := (hcovers n).mp hn
    rcases mem_append.mp hl with hl | hl
    · exact habove l hl n hn
    cases mem_singleton.mp hl
    exact hlt
  | getAckFrame now =>
    have hlimits : ∀ l, .setLowerLimit l ∈ calls ++ [.getAckFrame now] →
        .setLowerLimit l ∈ calls := by simp
    rw [HandlerCall.step]
    cases hcall : h.getAckFrame now with
    | none => exact ⟨hcanonical, fun l hl => habove l (hlimits l hl)⟩
    | some result =>
      have hhistory : result.2.packetHistory = h.packetHistory := by
        rcases getAckFrame_cases hcall with ⟨-, heq⟩ | ⟨-, -, -, -, -, heq, -⟩
        · rw [heq]
        · exact heq
      exact ⟨hhistory ▸ hcanonical, fun l hl => hhistory ▸ habove l (hlimits l hl)⟩

/-- A late STOP_WAITING frame sets the limit back from 9 to 4, and packet 6 is then
acknowledged. -/
theorem stop_waiting_overtaken :
    ∃ ack h', (run HandlerCall.step (newReceivedPacketHandler 39)
        [.receivedPacket 0 10 true, .setLowerLimit 9, .receivedPacket 1 8 true, .setLowerLimit 4,
          .receivedPacket 2 6 true]).getAckFrame 3 = some (some ack, h') ∧
      ack.acksPacket 6 = true ∧ 6 ≤ 9 :=
  ⟨_, _, rfl, rfl, by decide⟩

/-- **STOP_WAITING is final** if no packet overtakes it: in a run in which every received packet
that an earlier limit covers is covered by the limit set last, no frame acknowledges a number
up to any limit that was set before. -/
theorem stop_waiting_final (version : Int) (calls : List HandlerCall)
    (hrange : ∀ call ∈ calls, call.InRange)
    (hfit : ∀ before call after, calls = before ++ call :: after →
      call.NotOvertaken before (run HandlerCall.step (newReceivedPacketHandler version) before))
    {l : Nat} (hl : .setLowerLimit l ∈ calls) {now : Nat} {ack : TimedAckFrame}
    {h' : ReceivedPacketHandler}
    (hcall : (run HandlerCall.step (newReceivedPacketHandler version) calls).getAckFrame now =
      some (some ack, h')) {n : Nat} (hacks : ack.acksPacket n = true) : l < n := by
  have hinit : AboveLimits [] (newReceivedPacketHandler version) :=
    ⟨⟨by simp [newReceivedPacketHandler, newReceivedPacketHistory], .nil,
      by simp [newReceivedPacketHandler, newReceivedPacketHistory]⟩, by simp⟩
  obtain ⟨hcanonical, habove⟩ := run_inv_past
    (fun past h call => call.InRange ∧ call.NotOvertaken past h) AboveLimits
    (fun _ _ _ habove hfit => habove.step hfit.1 hfit.2) _ hinit calls
    (fun before call after heq => ⟨hrange call (by simp [heq]), hfit before call after heq⟩)
  rcases getAckFrame_cases hcall with ⟨hnone, -⟩ | ⟨ack', heq, hblocks, -⟩
  · cases hnone
  cases heq
  obtain ⟨low, hlow, hframe⟩ := Option.map_eq_some_iff.mp hblocks
  have hlowest : ack.lowestAcked = low.first := by rw [← hframe]
  have hmem := mem_getAckRanges.mp (mem_of_getLast? hlow)
  have hlt := habove l hl low.first ⟨_, hmem, Nat.le_refl _, hcanonical.nonempty _ hmem⟩
  have hle : ack.lowestAcked ≤ n := by
    refine Nat.not_lt.mp fun hbelow => ?_
    rw [AckBlocks.acksPacket_outside (.inl hbelow)] at hacks
    cases hacks
  omega

/-- Packet 7 comes after the limit 9, but no frame has set the limit back. -/
theorem stop_waiting_final_late :
    ∃ ack h', (run HandlerCall.step (newReceivedPacketHandler 39)
        [.receivedPacket 0 10 true, .setLowerLimit 9, .receivedPacket 1 7 true]).getAckFrame 2 =
          some (some ack, h') ∧
      ack.acksPacket 10 = true ∧ ∀ n, ack.acksPacket n = true → 9 < n := by
  refine ⟨_, _, rfl, rfl, fun n => @stop_waiting_final 39
    [.receivedPacket 0 10 true, .setLowerLimit 9, .receivedPacket 1 7 true] ?_ ?_ 9 (by simp) 2 _ _
    rfl n⟩
  · simp [InRange]
  intro before call after heq
  match before, heq with
  | [], heq =>
    cases heq
    exact fun l hl => absurd hl not_mem_nil
  | [_], heq =>
    cases heq
    trivial
  | [_, _], heq =>
    cases heq
    exact fun l _ _ => by decide
  | _ :: _ :: _ :: _, heq => simp at heq

end RlncStreaming.Quic
