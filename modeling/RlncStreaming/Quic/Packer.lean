import Mathlib.Data.List.Perm.Subperm
import RlncStreaming.Quic.StreamFramer

/-!
The packet packer (`packet_packer.go`).

A packet is composed of the STOP_WAITING and ACK frames of its path, of queued control
frames, from the last to the first, and of STREAM frames. Data of the crypto stream goes
out alone, and so does a PING that stands in front of the control frames. What the frames
and the public header are written as is a parameter (`WireFormat`): nothing is assumed
about it.

A packet for a PING removes it from the queue before it is known whether the packet will be
sent, and clears the queued ACK frame without sending it; everything else keeps what was
queued (`packer_conserves_iff`).
-/

namespace RlncStreaming.Quic

open Lib List

/-! ### Headers -/

/-- `protocol.NonForwardSecurePacketSizeReduction`. -/
def nonForwardSecurePacketSizeReduction : Nat := 50

/-- `protocol.VersionMP`. -/
def versionMP : Int := 512

/-- `Overhead`: both kinds of sealers add 12 bytes. -/
def Sealer.overhead : Sealer → Nat
  | .null => 12
  | .aesgcm12 _ => 12

/-- `wire.PublicHeader`, as far as `getPublicHeader` sets it. -/
structure PublicHeader where
  connectionID : Nat
  pathID : UInt8
  versionFlag : Bool
  truncateConnectionID : Bool
  multipathFlag : Bool
  packetNumberLen : PacketNumberLen
  packetNumber : Nat
  versionNumber : Int
  diversificationNonce : List UInt8
deriving DecidableEq, Repr

inductive PackError where
  /-- `errGetLengthNotForVersionNegotiation` -/
  | getLengthNotForVersionNegotiation
  /-- The `MinLength` of a frame fails. -/
  | frame (e : FrameError)
  /-- The header or a frame cannot be written. -/
  | write (reason : String)
  /-- `Packet Packer BUG: packet payload too large` -/
  | payloadTooLarge
  /-- `PacketPacker BUG: packet too large` -/
  | packetTooLarge
  /-- `packetPacker BUG: Peeked and Popped packet numbers do not match` -/
  | packetNumberMismatch
  /-- `packet packer BUG: no ack frame queued` -/
  | noAckFrame
  /-- `PacketPacker BUG: forward-secure encrypted handshake packets don't need special
  treatment` -/
  | forwardSecureHandshake
  /-- `PacketPacker BUG: Handshake retransmissions must contain a StopWaitingFrame` -/
  | noStopWaiting
  /-- `GetSealerWithEncryptionLevel` fails. -/
  | noSealer
deriving DecidableEq, Repr

/-- `GetLength`. -/
def PublicHeader.getLength (h : PublicHeader) (pers : Perspective) : Except PackError Nat :=
  if h.versionFlag = true ∧ pers = .server then .error .getLengthNotForVersionNegotiation
  else .ok (1 + h.packetNumberLen.toNat + (if h.truncateConnectionID then 0 else 8) +
    (if h.versionFlag then 4 else 0) + h.diversificationNonce.length +
    if h.multipathFlag then 1 else 0)

/-- `GetPacketNumberLengthForPublicHeader`. -/
def getPacketNumberLengthForPublicHeader (packetNumber leastUnacked : Nat) : PacketNumberLen :=
  let diff := sub64 packetNumber leastUnacked
  if diff < 2 ^ 15 then .len2 else if diff < 2 ^ 31 then .len4 else .len6

/-- What is written and sealed: the bytes of `PublicHeader.Write` and of the `Write` of a
frame, and of `Seal` for a packet number, a header and a payload. -/
structure WireFormat where
  header : PublicHeader → Except String (List UInt8)
  frame : Frame OutFrame → Except String (List UInt8)
  sealed : Sealer → Nat → List UInt8 → List UInt8 → List UInt8

/-- A format for runs on fixed inputs: a frame is one byte. -/
def plainFormat : WireFormat :=
  ⟨fun _ => .ok [], fun _ => .ok [7], fun _ _ header payload => header ++ payload⟩

/-! ### The packer -/

/-- The fields of `path` and of its session that the packer reads. -/
structure PackPath where
  pathID : UInt8
  packetNumberGenerator : PacketNumberGenerator
  leastUnacked : Nat
  handshakeComplete : Bool
deriving DecidableEq, Repr

/-- `packedPacket`; its STREAM frames are references. -/
structure PackedPacket where
  number : Nat
  raw : List UInt8
  frames : List (Frame Nat)
  encryptionLevel : EncryptionLevel
deriving DecidableEq, Repr

/-- `packetPacker`. -/
structure PacketPacker (φ : Type) where
  connectionID : Nat
  perspective : Perspective
  version : Int
  cryptoSetup : CryptoSetup
  /-- `cryptoSetup.DiversificationNonce()` -/
  diversificationNonce : List UInt8
  /-- `connectionParameters.TruncateConnectionID()` -/
  truncateConnectionID : Bool
  streamFramer : StreamFramer φ
  controlFrames : List (Frame Nat)
  stopWaiting : UInt8 → Option StopWaitingFrame
  ackFrame : UInt8 → Option AckFrame

/-- What a call leaves behind and returns. -/
structure Packed (φ : Type) where
  packer : PacketPacker φ
  path : PackPath
  result : Except PackError (Option PackedPacket)

/-- The STREAM frames of a frame, read by `read`. -/
def Frame.map {σ τ : Type} (read : σ → τ) : Frame σ → Frame τ
  | .stream f => .stream (read f)
  | .ack f => .ack f
  | .stopWaiting f => .stopWaiting f
  | .rstStream f => .rstStream f
  | .windowUpdate f => .windowUpdate f
  | .blocked f => .blocked f
  | .ping => .ping
  | .goaway f => .goaway f
  | .connectionClose f => .connectionClose f
  | .addAddress f => .addAddress f
  | .closePath f => .closePath f
  | .paths f => .paths f

/-- The result of the loop over the control frames. -/
structure ControlPop where
  frames : List (Frame Nat)
  rest : List (Frame Nat)
  payloadLength : Nat
  error : Option FrameError

/-- The loop of `composeNextPacket` over the control frames, which stand last first. -/
def popControl (header : Nat → Nat) (maxFrameSize : Nat) : List (Frame Nat) → Nat → ControlPop
  | [], payloadLength => ⟨[], [], payloadLength, none⟩
  | frame :: rest, payloadLength =>
    match frame.minLength header with
    | .error e => ⟨[], frame :: rest, payloadLength, some e⟩
    | .ok minLength =>
      if maxFrameSize < payloadLength + minLength then ⟨[], frame :: rest, payloadLength, none⟩
      else
        let result := popControl header maxFrameSize rest (payloadLength + minLength)
        { result with frames := frame :: result.frames }

/-- The lengths of frames that are sent in any case. -/
def sumLengths (header : Nat → Nat) : List (Frame Nat) → Except FrameError Nat
  | [] => .ok 0
  | frame :: frames => do
    let l ← frame.minLength header
    let ls ← sumLengths header frames
    return l + ls

def newPacketPacker {φ : Type} (connectionID : Nat) (cryptoSetup : CryptoSetup)
    (diversificationNonce : List UInt8) (truncateConnectionID : Bool)
    (streamFramer : StreamFramer φ) (perspective : Perspective) (version : Int) : PacketPacker φ :=
  { connectionID, cryptoSetup, diversificationNonce, truncateConnectionID, streamFramer,
    perspective, version, controlFrames := [], stopWaiting := fun _ => none,
    ackFrame := fun _ => none }

namespace PacketPacker

variable {φ : Type}

section

variable (p : PacketPacker φ)

/-- `getPublicHeader`. -/
def getPublicHeader (encLevel : EncryptionLevel) (pth : PackPath) : PublicHeader :=
  let pnum := pth.packetNumberGenerator.peek
  let multipath := pth.handshakeComplete && decide (versionMP ≤ p.version)
  let versionFlag := decide (p.perspective = .client ∧ encLevel ≠ .forwardSecure)
  { connectionID := p.connectionID
    pathID := if multipath then pth.pathID else 0
    versionFlag
    truncateConnectionID := p.truncateConnectionID && !multipath
    multipathFlag := multipath
    packetNumberLen := getPacketNumberLengthForPublicHeader pnum pth.leastUnacked
    packetNumber := pnum
    versionNumber := if versionFlag then p.version else 0
    diversificationNonce :=
      if p.perspective = .server ∧ encLevel = .secure then p.diversificationNonce else [] }

/-- `canSendData`. -/
def canSendData (encLevel : EncryptionLevel) : Bool :=
  match p.perspective, encLevel with
  | .client, .secure => true
  | .client, .forwardSecure => true
  | .server, .forwardSecure => true
  | _, _ => false

def setStopWaiting (id : UInt8) (f : Option StopWaitingFrame) : PacketPacker φ :=
  { p with stopWaiting := fun id' => if id' = id then f else p.stopWaiting id' }

def setAckFrame (id : UInt8) (f : Option AckFrame) : PacketPacker φ :=
  { p with ackFrame := fun id' => if id' = id then f else p.ackFrame id' }

/-- `QueueControlFrame`. -/
def queueControlFrame (frame : Frame Nat) (id : UInt8) : PacketPacker φ :=
  match frame with
  | .stopWaiting f => p.setStopWaiting id (some f)
  | .ack f => p.setAckFrame id (some f)
  | f => { p with controlFrames := p.controlFrames ++ [f] }

/-- The queued STOP_WAITING frame gets the packet number of the header. -/
def numberStopWaiting (id : UInt8) (ph : PublicHeader) : PacketPacker φ :=
  p.setStopWaiting id ((p.stopWaiting id).map fun f =>
    { f with packetNumber := ph.packetNumber, packetNumberLen := some ph.packetNumberLen })

/-- The header length of a STREAM frame. -/
def streamHeader (r : Nat) : Nat := (p.streamFramer.heap.cells r).minLength

/-- `writeAndSealPacket`; `num` is the random number for the packet numbers. -/
def writeAndSealPacket (wf : WireFormat) (ph : PublicHeader)
    (frames : List (Frame Nat)) (sealer : Sealer) (pth : PackPath) (num : Option Nat) :
    Except PackError (List UInt8) × PackPath :=
  match wf.header ph, (frames.map (Frame.map p.streamFramer.heap.cells)).mapM wf.frame with
  | .error e, _ => (.error (.write e), pth)
  | _, .error e => (.error (.write e), pth)
  | .ok header, .ok payload =>
    if maxPacketSize < header.length + payload.flatten.length + sealer.overhead then
      (.error .packetTooLarge, pth)
    else
      let (popped, generator) := pth.packetNumberGenerator.pop num
      let pth := { pth with packetNumberGenerator := generator }
      if popped ≠ ph.packetNumber then (.error .packetNumberMismatch, pth)
      else (.ok (header ++ wf.sealed sealer ph.packetNumber header payload.flatten), pth)

/-- Write the frames and return the packet. -/
def sealFrames (wf : WireFormat) (ph : PublicHeader)
    (frames : List (Frame Nat)) (encLevel : EncryptionLevel) (sealer : Sealer) (pth : PackPath)
    (num : Option Nat) : Packed φ :=
  let (raw, pth) := p.writeAndSealPacket wf ph frames sealer pth num
  ⟨p, pth, raw.map fun raw => some ⟨ph.packetNumber, raw, frames, encLevel⟩⟩

/-- `PackAckPacket`. -/
def packAckPacket (wf : WireFormat) (pth : PackPath) (num : Option Nat) : Packed φ :=
  match p.ackFrame pth.pathID with
  | none => ⟨p, pth, .error .noAckFrame⟩
  | some ack =>
    let (encLevel, sealer) := p.cryptoSetup.getSealer
    let ph := p.getPublicHeader encLevel pth
    let p := p.numberStopWaiting pth.pathID ph
    let frames := .ack ack :: (p.stopWaiting pth.pathID).toList.map .stopWaiting
    let p := (p.setStopWaiting pth.pathID none).setAckFrame pth.pathID none
    p.sealFrames wf ph frames encLevel sealer pth num

/-- `PackHandshakeRetransmission`. -/
def packHandshakeRetransmission (wf : WireFormat) (packet : Packet Nat) (pth : PackPath)
    (num : Option Nat) : Packed φ :=
  if packet.encryptionLevel = .forwardSecure then ⟨p, pth, .error .forwardSecureHandshake⟩
  else
    match p.cryptoSetup.getSealerWithEncryptionLevel packet.encryptionLevel,
        p.stopWaiting pth.pathID with
    | none, _ => ⟨p, pth, .error .noSealer⟩
    | _, none => ⟨p, pth, .error .noStopWaiting⟩
    | some sealer, some _ =>
      let ph := p.getPublicHeader packet.encryptionLevel pth
      let p := p.numberStopWaiting pth.pathID ph
      let frames := (p.stopWaiting pth.pathID).toList.map .stopWaiting ++ packet.frames
      let p := p.setStopWaiting pth.pathID none
      p.sealFrames wf ph frames packet.encryptionLevel sealer pth num

/-- `packCryptoPacket`. -/
def packCryptoPacket (wf : WireFormat) (pth : PackPath) (num : Option Nat) : Packed φ :=
  let (encLevel, sealer) := p.cryptoSetup.getSealerForCryptoStream
  let ph := p.getPublicHeader encLevel pth
  match ph.getLength p.perspective with
  | .error e => ⟨p, pth, .error e⟩
  | .ok headerLength =>
    let maxLen := sub64 (sub64 (sub64 maxPacketSize sealer.overhead)
      nonForwardSecurePacketSizeReduction) headerLength
    let (frame, streamFramer) := p.streamFramer.popCryptoStreamFrame maxLen
    let p := { p with streamFramer }
    p.sealFrames wf ph (frame.toList.map .stream) encLevel sealer pth num

/-- The end of `PackPacket`, once the frames are known. -/
def finishPacket (wf : WireFormat) (ph : PublicHeader)
    (frames : List (Frame Nat)) (encLevel : EncryptionLevel) (sealer : Sealer) (pth : PackPath)
    (num : Option Nat) : Packed φ :=
  if frames.length = 0 then ⟨p, pth, .ok none⟩
  else if frames.length = 1 ∧ p.stopWaiting pth.pathID ≠ none then ⟨p, pth, .ok none⟩
  else
    let p := (p.setStopWaiting pth.pathID none).setAckFrame pth.pathID none
    p.sealFrames wf ph frames encLevel sealer pth num

end

variable [FlowControlManager φ]

variable (p : PacketPacker φ)

/-- The end of `composeNextPacket`: the STREAM frames, of which the last one goes without
its length, and the BLOCKED frames that they cause. -/
def addStreamFrames (maxLen : Nat) : List (Frame Nat) × PacketPacker φ :=
  let (fs, framer) := p.streamFramer.popStreamFrames maxLen
  let heap := match fs.getLast? with
    | none => framer.heap
    | some r => framer.heap.write r { framer.heap.cells r with dataLenPresent := false }
  (fs.map .stream, { p with
    streamFramer := { framer with heap, blockedFrameQueue := [] }
    controlFrames := p.controlFrames ++ framer.blockedFrameQueue.map .blocked })

/-- The STOP_WAITING and the ACK frame of a path. -/
def firstFrames (id : UInt8) : List (Frame Nat) :=
  (p.stopWaiting id).toList.map .stopWaiting ++ (p.ackFrame id).toList.map .ack

/-- `composeNextPacket`. -/
def composeNextPacket (maxFrameSize : Nat) (canSendStreamFrames : Bool) (id : UInt8)
    : Except PackError (List (Frame Nat)) × PacketPacker φ :=
  let first := p.firstFrames id
  match sumLengths p.streamHeader first with
  | .error e => (.error (.frame e), p)
  | .ok payloadLength =>
    let popped := popControl p.streamHeader maxFrameSize p.controlFrames.reverse payloadLength
    let p := { p with controlFrames := popped.rest.reverse }
    match popped.error with
    | some e => (.error (.frame e), p)
    | none =>
      if maxFrameSize < popped.payloadLength then (.error .payloadTooLarge, p)
      else if canSendStreamFrames then
        let (fs, p) := p.addStreamFrames (maxFrameSize + 2 - popped.payloadLength)
        (.ok (first ++ popped.frames ++ fs), p)
      else (.ok (first ++ popped.frames), p)

/-- `PackPacket`. -/
def packPacket (wf : WireFormat) (pth : PackPath) (num : Option Nat) : Packed φ :=
  if p.streamFramer.hasCryptoStreamFrame then p.packCryptoPacket wf pth num
  else
    let (encLevel, sealer) := p.cryptoSetup.getSealer
    let ph := p.getPublicHeader encLevel pth
    match ph.getLength p.perspective with
    | .error e => ⟨p, pth, .error e⟩
    | .ok headerLength =>
      let p := p.numberStopWaiting pth.pathID ph
      if p.controlFrames.head? = some .ping then
        { p with controlFrames := p.controlFrames.tail }.finishPacket wf ph [.ping] encLevel
          sealer pth num
      else
        let maxSize := sub64 (sub64 maxPacketSize sealer.overhead) headerLength
        match p.composeNextPacket maxSize (p.canSendData encLevel) pth.pathID with
        | (.error e, p) => ⟨p, pth, .error e⟩
        | (.ok frames, p) => p.finishPacket wf ph frames encLevel sealer pth num

/-- `PackPing`; `leastUnacked` comes from the path's sent packet handler. -/
def packPing (wf : WireFormat) (leastUnacked : Nat) (pth : PackPath) (num : Option Nat)
    : Packed φ :=
  { p with controlFrames := .ping :: p.controlFrames }.packPacket wf { pth with leastUnacked } num

end PacketPacker

/-! ### What a packet is composed of -/

theorem popControl_append (header : Nat → Nat) (maxFrameSize : Nat) (fs : List (Frame Nat))
    (payloadLength : Nat) :
    (popControl header maxFrameSize fs payloadLength).frames ++
      (popControl header maxFrameSize fs payloadLength).rest = fs := by
  induction fs generalizing payloadLength with
  | nil => rfl
  | cons f fs ih =>
    rw [popControl]
    split
    · rfl
    split
    · rfl
    · exact congrArg (f :: ·) (ih _)

namespace PacketPacker

variable {φ : Type}

/-- `frames` were taken from the queues of `p`: the first frames of the path, control frames,
and what the framer has popped. -/
structure Composes (p : PacketPacker φ) (id : UInt8) (frames : List (Frame Nat))
    (p' : PacketPacker φ) : Prop where
  stopWaiting : p'.stopWaiting = p.stopWaiting
  ackFrame : p'.ackFrame = p.ackFrame
  frames : ∃ popped fs, frames = p.firstFrames id ++ popped ++ fs.map .stream ∧
    (∀ f ∈ popped, f ∈ p.controlFrames) ∧ p.controlFrames.Subperm (popped ++ p'.controlFrames) ∧
    (p.streamFramer.Valid → p.streamFramer.Pops fs p'.streamFramer)
  control : ∀ f ∈ p'.controlFrames, f ∈ p.controlFrames ∨ ∃ b, f = .blocked b

/-- Control frames are popped from the end. -/
theorem popped_control {fs : List (Frame Nat)} {popped rest : List (Frame Nat)}
    (h : popped ++ rest = fs.reverse) : fs = rest.reverse ++ popped.reverse := by
  rw [← reverse_append, h, reverse_reverse]

variable {packet : Option PackedPacket} {p : PacketPacker φ} {frames : List (Frame Nat)}
  {num : Option Nat} {wf : WireFormat} {pth : PackPath}

theorem sealFrames_ok {ph : PublicHeader} {encLevel : EncryptionLevel} {sealer : Sealer}
    (h : (p.sealFrames wf ph frames encLevel sealer pth num).result = .ok packet) :
    ∃ pk, packet = some pk ∧ pk.frames = frames ∧ pk.encryptionLevel = encLevel := by
  rw [sealFrames] at h
  generalize p.writeAndSealPacket wf ph frames sealer pth num = w at h
  obtain ⟨raw, pth'⟩ := w
  cases raw with
  | error e => cases h
  | ok raw =>
    cases h
    exact ⟨_, rfl, rfl, rfl⟩

/-- The STOP_WAITING and the ACK frame of a path are not queued any more. -/
def clearFirst (p : PacketPacker φ) (id : UInt8) : PacketPacker φ :=
  (p.setStopWaiting id none).setAckFrame id none

/-- What the end of `PackPacket` does with the frames: it may decide to send nothing. -/
def Finishes (p : PacketPacker φ) (id : UInt8) (frames : List (Frame Nat))
    (packet : Option PackedPacket) (p' : PacketPacker φ) : Prop :=
  (packet = none ∧ p' = p ∧ (frames = [] ∨ (frames.length = 1 ∧ p.stopWaiting id ≠ none))) ∨
    ∃ pk, packet = some pk ∧ pk.frames = frames ∧ p' = p.clearFirst id ∧
      ¬ (frames.length = 1 ∧ p.stopWaiting id ≠ none)

theorem finishPacket_ok {ph : PublicHeader} {encLevel : EncryptionLevel} {sealer : Sealer}
    (h : (p.finishPacket wf ph frames encLevel sealer pth num).result = .ok packet) :
    Finishes p pth.pathID frames packet
      (p.finishPacket wf ph frames encLevel sealer pth num).packer := by
  rw [finishPacket] at h ⊢
  split at h
  · next hlen =>
    cases h
    rw [if_pos hlen]
    exact .inl ⟨rfl, rfl, .inl (length_eq_zero_iff.mp hlen)⟩
  rename_i hlen
  rw [if_neg hlen]
  split at h
  · next hone =>
    cases h
    rw [if_pos hone]
    exact .inl ⟨rfl, rfl, .inr hone⟩
  · next hone =>
    rw [if_neg hone]
    obtain ⟨pk, hpk, hframes, -⟩ := sealFrames_ok h
    exact .inr ⟨pk, hpk, hframes, rfl, hone⟩

/-! ### Conservation -/

/-- The frames of what a call has returned. -/
def sentFrames (packet : Option PackedPacket) : List (Frame Nat) :=
  (packet.map PackedPacket.frames).getD []

/-- The ACK frame of the path and every control frame that was queued is in the packet or
queued still. -/
def Conserves (p : PacketPacker φ) (id : UInt8) (packet : Option PackedPacket)
    (p' : PacketPacker φ) : Prop :=
  (∀ f, p.ackFrame id = some f → .ack f ∈ sentFrames packet ∨ p'.ackFrame id = some f) ∧
    p.controlFrames.Subperm (sentFrames packet ++ p'.controlFrames)

/-- A packet for the PING in front of the queue would displace a queued frame of the path. -/
def PingDisplaces (p : PacketPacker φ) (id : UInt8) : Prop :=
  p.streamFramer.hasCryptoStreamFrame = false ∧ p.controlFrames.head? = some .ping ∧
    (p.stopWaiting id ≠ none ∨ p.ackFrame id ≠ none)

variable {q : PacketPacker φ} {id : UInt8}

@[simp] theorem clearFirst_ackFrame (p : PacketPacker φ) (id : UInt8) :
    (p.clearFirst id).ackFrame id = none := if_pos rfl

@[simp] theorem sentFrames_some (pk : PackedPacket) : sentFrames (some pk) = pk.frames := rfl

/-- If at most the STOP_WAITING frame was taken, no control or STREAM frame was. -/
theorem Composes.nothing {popped fs : List (Frame Nat)} (hstop : q.stopWaiting = p.stopWaiting)
    (h : p.firstFrames id ++ popped ++ fs = [] ∨
      ((p.firstFrames id ++ popped ++ fs).length = 1 ∧ q.stopWaiting id ≠ none)) :
    popped = [] ∧ fs = [] := by
  rcases h with hnil | ⟨hone, hsome⟩
  · simp only [append_eq_nil_iff] at hnil
    exact ⟨hnil.1.2, hnil.2⟩
  rw [hstop] at hsome
  obtain ⟨f, hf⟩ := Option.ne_none_iff_exists'.mp hsome
  have hfirst : 1 ≤ (p.firstFrames id).length := by simp [firstFrames, hf]
  rw [length_append, length_append] at hone
  exact ⟨length_eq_zero_iff.mp (by omega), length_eq_zero_iff.mp (by omega)⟩

variable {p' : PacketPacker φ}

/-- A composed packet keeps what was queued. -/
theorem Composes.conserves (hc : Composes p id frames q) (hf : Finishes q id frames packet p') :
    Conserves p id packet p' := by
  obtain ⟨popped, fs, hframes, -, hcontrol, -⟩ := hc.frames
  rcases hf with ⟨rfl, rfl, hnone⟩ | ⟨pk, rfl, hpk, rfl, -⟩
  · -- Nothing is sent: at most the STOP_WAITING frame was taken, and it stays queued.
    refine ⟨fun f hack => .inr (by rw [hc.ackFrame]; exact hack), ?_⟩
    rw [hframes] at hnone
    rw [(Composes.nothing hc.stopWaiting hnone).1] at hcontrol
    exact hcontrol
  rw [Conserves, sentFrames_some, hpk, hframes]
  refine ⟨fun f hack => .inl ?_, hcontrol.trans ?_⟩
  · simp [firstFrames, hack]
  have hsub : (popped ++ q.controlFrames).Sublist
      (p.firstFrames id ++ popped ++ fs.map .stream ++ q.controlFrames) := by
    refine List.Sublist.append ?_ (List.Sublist.refl _)
    rw [append_assoc]
    exact (sublist_append_left _ _).trans (sublist_append_right _ _)
  exact hsub.subperm

/-- The PING was taken from the front of the control frames. -/
structure TakesPing (p : PacketPacker φ) (id : UInt8) (q : PacketPacker φ) : Prop where
  controlFrames : p.controlFrames = .ping :: q.controlFrames
  stopWaiting : q.stopWaiting id = none ↔ p.stopWaiting id = none
  ackFrame : q.ackFrame = p.ackFrame
  streamFramer : q.streamFramer = p.streamFramer

theorem takesPing_of_head {ph : PublicHeader} (hping : p.controlFrames.head? = some .ping) :
    p.TakesPing id { p.numberStopWaiting id ph with controlFrames := p.controlFrames.tail } := by
  refine ⟨?_, by simp [numberStopWaiting, setStopWaiting], rfl, rfl⟩
  cases hq : p.controlFrames with
  | nil => simp [hq] at hping
  | cons f fs =>
    rw [hq] at hping
    cases hping
    rfl

/-- The packet for a PING is not sent while a STOP_WAITING frame is queued. -/
theorem TakesPing.finishes (ht : p.TakesPing id q) (hf : Finishes q id [.ping] packet p') :
    (p.stopWaiting id ≠ none ∧ packet = none ∧ p' = q) ∨
      (p.stopWaiting id = none ∧ ∃ pk, packet = some pk ∧ pk.frames = [.ping] ∧
        p' = q.clearFirst id) := by
  rcases hf with ⟨hpacket, hp', hnone⟩ | ⟨pk, hpacket, hpk, hp', hsend⟩
  · refine .inl ⟨fun hidle => ?_, hpacket, hp'⟩
    exact hnone.elim (by simp) fun hstopped => hstopped.2 (ht.stopWaiting.mpr hidle)
  · exact .inr ⟨ht.stopWaiting.mp (by simpa using hsend), pk, hpacket, hpk, hp'⟩

/-- The packet of a PING takes the place of the queued ACK frame. -/
theorem not_conserves_ping {pk : PackedPacket} (hpk : pk.frames = [.ping])
    (hack : p.ackFrame id ≠ none) : ¬ p.Conserves id (some pk) (q.clearFirst id) := by
  intro hc
  obtain ⟨f, hf⟩ := Option.ne_none_iff_exists'.mp hack
  rcases hc.1 f hf with hmem | hmem
  · simp [hpk] at hmem
  rw [clearFirst_ackFrame] at hmem
  cases hmem

/-- A packet for a PING keeps what was queued only if it displaces nothing. -/
theorem TakesPing.conserves_iff (ht : p.TakesPing id q) (hf : Finishes q id [.ping] packet p') :
    p.Conserves id packet p' ↔ p.stopWaiting id = none ∧ p.ackFrame id = none := by
  rcases ht.finishes hf with ⟨hstop, rfl, rfl⟩ | ⟨hstop, pk, rfl, hpk, rfl⟩
  · -- The PING is gone: the queue is shorter by one frame.
    refine iff_of_false (fun hc => ?_) fun hidle => hstop hidle.1
    have hlen := hc.2.length_le
    simp only [ht.controlFrames, sentFrames, Option.map_none, Option.getD_none, nil_append,
      length_cons] at hlen
    omega
  · refine ⟨fun hc => ⟨hstop, ?_⟩, fun hidle => ?_⟩
    · by_contra hack
      exact not_conserves_ping hpk hack hc
    · refine ⟨fun f hf => by simp [hidle.2] at hf, ?_⟩
      rw [sentFrames_some, hpk, ht.controlFrames]
      exact List.Subperm.refl _

theorem packAckPacket_conserves (p : PacketPacker φ) (packet : Option PackedPacket)
    (h : (p.packAckPacket wf pth num).result = .ok packet) :
    p.Conserves pth.pathID packet (p.packAckPacket wf pth num).packer := by
  rw [packAckPacket] at h ⊢
  split at h
  · cases h
  rename_i ack hack
  obtain ⟨pk, rfl, hpk, -⟩ := sealFrames_ok h
  refine ⟨fun f hf => .inl ?_, (sublist_append_right _ _).subperm⟩
  rw [hack] at hf
  cases hf
  simp [hpk]

/-! ### Stream frames -/

/-- No STREAM frame stands among the control frames. -/
def ControlOnly (p : PacketPacker φ) : Prop := ∀ r, .stream r ∉ p.controlFrames

/-- The STREAM frames of the packet are those that the framer has given out. -/
def Packs (p : PacketPacker φ) (packet : Option PackedPacket) (p' : PacketPacker φ) : Prop :=
  ∃ fs, p.streamFramer.Pops fs p'.streamFramer ∧
    (∀ r, .stream r ∈ sentFrames packet ↔ r ∈ fs) ∧ p'.ControlOnly

theorem Finishes.streamFramer (hf : Finishes p id frames packet p') :
    p'.streamFramer = p.streamFramer ∧ p'.controlFrames = p.controlFrames := by
  rcases hf with ⟨-, rfl, -⟩ | ⟨pk, -, -, rfl, -⟩ <;> exact ⟨rfl, rfl⟩

theorem TakesPing.packs (ht : p.TakesPing id q) (hf : Finishes q id [.ping] packet p')
    (hp : p.ControlOnly) : p.Packs packet p' := by
  obtain ⟨hframer, hqueue⟩ := hf.streamFramer
  refine ⟨[], ?_, fun r => ?_, fun r hr => hp r ?_⟩
  · rw [hframer, ht.streamFramer]
    exact .refl _
  · rcases ht.finishes hf with ⟨-, rfl, -⟩ | ⟨-, pk, rfl, hpk, -⟩
    · simp [sentFrames]
    · simp [hpk]
  · rw [ht.controlFrames]
    exact mem_cons_of_mem _ (hqueue ▸ hr)

theorem Composes.packs (hc : Composes p id frames q) (hf : Finishes q id frames packet p')
    (hp : p.ControlOnly) (hvalid : p.streamFramer.Valid) : p.Packs packet p' := by
  obtain ⟨popped, fs, hframes, hpopped, -, hpops⟩ := hc.frames
  obtain ⟨hframer, hqueue⟩ := hf.streamFramer
  refine ⟨fs, ?_, fun r => ?_, fun r hr => ?_⟩
  · rw [hframer]
    exact hpops hvalid
  · rcases hf with ⟨rfl, -, hnone⟩ | ⟨pk, rfl, hpk, -, -⟩
    · rw [hframes] at hnone
      have hnil := (Composes.nothing hc.stopWaiting hnone).2
      rw [map_eq_nil_iff.mp hnil]
      simp [sentFrames]
    · have hcontrol : .stream r ∉ popped := fun hr => hp r (hpopped _ hr)
      simp [hpk, hframes, firstFrames, hcontrol]
  · rw [hqueue] at hr
    rcases hc.control _ hr with hr | ⟨b, hb⟩
    · exact hp r hr
    · cases hb

theorem packAckPacket_packs (h : (p.packAckPacket wf pth num).result = .ok packet)
    (hp : p.ControlOnly) : p.Packs packet (p.packAckPacket wf pth num).packer := by
  rw [packAckPacket] at h ⊢
  split at h
  · cases h
  obtain ⟨pk, rfl, hpk, -⟩ := sealFrames_ok h
  exact ⟨[], .refl _, fun r => by simp [hpk], hp⟩

/-- A retransmitted handshake packet holds the frames of the packet. -/
theorem packHandshakeRetransmission_ok {packet : Packet Nat} {result : Option PackedPacket}
    (h : (p.packHandshakeRetransmission wf packet pth num).result = .ok result) :
    (∀ r, .stream r ∈ sentFrames result ↔ .stream r ∈ packet.frames) ∧
      (p.packHandshakeRetransmission wf packet pth num).packer.streamFramer = p.streamFramer ∧
      (p.packHandshakeRetransmission wf packet pth num).packer.controlFrames = p.controlFrames := by
  rw [packHandshakeRetransmission] at h ⊢
  split at h
  · cases h
  rename_i hlevel
  rw [if_neg hlevel]
  split at h
  · cases h
  · cases h
  obtain ⟨pk, rfl, hpk, -⟩ := sealFrames_ok h
  exact ⟨fun r => by simp [hpk], rfl, rfl⟩

/-! ### The entry points -/

variable [FlowControlManager φ]

theorem addStreamFrames_pops (p : PacketPacker φ) (hp : p.streamFramer.Valid) (maxLen : Nat) :
    p.streamFramer.Pops (p.streamFramer.popStreamFrames maxLen).1
      (p.addStreamFrames maxLen).2.streamFramer := by
  have hpops := p.streamFramer.popStreamFrames_spec hp maxLen
  refine ⟨?_, hpops.popped, hpops.queue⟩
  have hwrite : ∀ r : Nat, Heap.Moves OutFrame.Carries
      (p.streamFramer.popStreamFrames maxLen).2.heap
      ((p.streamFramer.popStreamFrames maxLen).2.heap.write r
        { (p.streamFramer.popStreamFrames maxLen).2.heap.cells r with dataLenPresent := false })
      [] := fun r => Heap.moves_write fun b => by cases b <;> exact Iff.rfl
  simp only [addStreamFrames]
  split
  · exact hpops.moves
  rename_i r _
  have hboth := hpops.moves.trans (hwrite r)
  rwa [append_nil] at hboth

theorem composeNextPacket_ok {maxFrameSize : Nat} {can : Bool}
    (h : p.composeNextPacket maxFrameSize can id = (.ok frames, p')) : Composes p id frames p' := by
  rw [composeNextPacket] at h
  simp only at h
  split at h
  · cases h
  rename_i payloadLength _
  have hcontrol := popped_control
    (popControl_append p.streamHeader maxFrameSize p.controlFrames.reverse payloadLength)
  generalize popControl p.streamHeader maxFrameSize p.controlFrames.reverse payloadLength = pop
    at h hcontrol
  have hmem : ∀ f ∈ pop.frames, f ∈ p.controlFrames := fun f hf => by
    rw [hcontrol]
    exact mem_append_right _ (mem_reverse.mpr hf)
  have hrest : ∀ f ∈ pop.rest.reverse, f ∈ p.controlFrames := fun f hf => by
    rw [hcontrol]
    exact mem_append_left _ hf
  have hperm : p.controlFrames.Perm (pop.frames ++ pop.rest.reverse) := by
    rw [hcontrol]
    exact perm_append_comm.trans (List.Perm.append_right _ (reverse_perm _))
  split at h
  · cases h
  split at h
  · cases h
  split at h
  · cases h
    generalize hq : ({ p with controlFrames := pop.rest.reverse } : PacketPacker φ) = q
    generalize maxFrameSize + 2 - pop.payloadLength = maxLen
    have hframer : q.streamFramer = p.streamFramer := by rw [← hq]
    refine ⟨by rw [← hq]; rfl, by rw [← hq]; rfl, ⟨pop.frames,
      (q.streamFramer.popStreamFrames maxLen).1, rfl, hmem, ?_, fun hp => ?_⟩, fun f hf => ?_⟩
    · rw [addStreamFrames, ← hq, ← append_assoc]
      exact hperm.subperm.trans (sublist_append_left _ _).subperm
    · rw [← hframer] at hp ⊢
      exact q.addStreamFrames_pops hp maxLen
    rw [addStreamFrames, ← hq] at hf
    rcases mem_append.mp hf with hf | hf
    · exact .inl (hrest f hf)
    obtain ⟨b, -, rfl⟩ := mem_map.mp hf
    exact .inr ⟨b, rfl⟩
  · cases h
    exact ⟨rfl, rfl, ⟨pop.frames, [], by simp, hmem, hperm.subperm,
      fun _ => ⟨.refl _, fun _ hr => .inr hr, fun _ hr => hr⟩⟩, fun f hf => .inl (hrest f hf)⟩

/-- What `PackPacket` does when it returns no error: it sends a frame of the crypto stream,
or it finishes a packet that is either a PING from the front of the queue or composed. -/
theorem packPacket_ok (h : (p.packPacket wf pth num).result = .ok packet) :
    (p.streamFramer.hasCryptoStreamFrame = true ∧ ∃ (r : Option Nat) (framer : StreamFramer φ)
      (pk : PackedPacket), packet = some pk ∧
      pk.frames = r.toList.map .stream ∧ p.streamFramer.Pops r.toList framer ∧
      (p.packPacket wf pth num).packer = { p with streamFramer := framer }) ∨
    (p.streamFramer.hasCryptoStreamFrame = false ∧ ∃ frames q,
      Finishes q pth.pathID frames packet (p.packPacket wf pth num).packer ∧
      ((p.controlFrames.head? = some .ping ∧ frames = [.ping] ∧ p.TakesPing pth.pathID q) ∨
      (p.controlFrames.head? ≠ some .ping ∧
        ∃ ph, Composes (p.numberStopWaiting pth.pathID ph) pth.pathID frames q))) := by
  rw [packPacket] at h ⊢
  split at h
  · next hcrypto =>
    left
    rw [if_pos hcrypto]
    rw [packCryptoPacket] at h ⊢
    simp only at h ⊢
    split at h
    · cases h
    obtain ⟨pk, hpk, hframes, -⟩ := sealFrames_ok h
    exact ⟨hcrypto, _, _, pk, hpk, hframes, p.streamFramer.popCryptoStreamFrame_pops _, rfl⟩
  · next hcrypto =>
    right
    rw [if_neg hcrypto]
    refine ⟨Bool.not_eq_true _ ▸ hcrypto, ?_⟩
    simp only at h ⊢
    split at h
    · cases h
    split at h
    · next hping =>
      rw [if_pos hping]
      exact ⟨_, _, finishPacket_ok h, .inl ⟨hping, rfl, takesPing_of_head hping⟩⟩
    rename_i hping
    rw [if_neg hping]
    split at h
    · cases h
    rename_i frames q hcompose
    exact ⟨frames, q, finishPacket_ok h, .inr ⟨hping, _, composeNextPacket_ok hcompose⟩⟩

theorem packPacket_conserves_iff (p : PacketPacker φ) (packet : Option PackedPacket)
    (h : (p.packPacket wf pth num).result = .ok packet) :
    p.Conserves pth.pathID packet (p.packPacket wf pth num).packer ↔
      ¬ p.PingDisplaces pth.pathID := by
  rcases packPacket_ok h with ⟨hcrypto, r, framer, pk, rfl, -, -, hp⟩ | ⟨hcrypto, frames, q, hf, hq⟩
  · rw [hp]
    refine iff_of_true ⟨fun f hack => .inr hack, (sublist_append_right _ _).subperm⟩ fun hd => ?_
    rw [hd.1] at hcrypto
    cases hcrypto
  · rcases hq with ⟨hping, rfl, ht⟩ | ⟨hping, ph, hc⟩
    · rw [ht.conserves_iff hf]
      simp only [PingDisplaces, hcrypto, hping, true_and, not_or, not_not, ne_eq]
    · exact iff_of_true (hc.conserves hf) fun hd => hping hd.2.1

theorem packPacket_packs (h : (p.packPacket wf pth num).result = .ok packet) (hp : p.ControlOnly)
    (hvalid : p.streamFramer.Valid) : p.Packs packet (p.packPacket wf pth num).packer := by
  rcases packPacket_ok h with ⟨-, r, framer, pk, rfl, hpk, hpops, hp'⟩ | ⟨-, frames, q, hf, hq⟩
  · rw [hp']
    exact ⟨r.toList, hpops, fun r => by simp [hpk], hp⟩
  · rcases hq with ⟨-, rfl, ht⟩ | ⟨-, ph, hc⟩
    · exact ht.packs hf hp
    · exact hc.packs hf hp hvalid

theorem packPing_conserves_iff (p : PacketPacker φ) (leastUnacked : Nat)
    (packet : Option PackedPacket) (h : (p.packPing wf leastUnacked pth num).result = .ok packet) :
    (.ping ∈ sentFrames packet ∧
      p.Conserves pth.pathID packet (p.packPing wf leastUnacked pth num).packer) ↔
    p.streamFramer.hasCryptoStreamFrame = false ∧ p.stopWaiting pth.pathID = none ∧
      p.ackFrame pth.pathID = none := by
  rw [packPing] at h ⊢
  rcases packPacket_ok h with ⟨hcrypto, r, framer, pk, rfl, hpk, -, -⟩ |
    ⟨hcrypto, frames, q, hf, hq⟩
  · -- The crypto packet holds no PING.
    refine iff_of_false (fun hc => ?_) fun hidle => ?_
    · have hmem := hc.1
      rw [sentFrames_some, hpk] at hmem
      obtain ⟨r', -, hr⟩ := mem_map.mp hmem
      cases hr
    · rw [hidle.1] at hcrypto
      cases hcrypto
  · rcases hq with ⟨-, rfl, ht⟩ | ⟨hping, -⟩
    · rcases ht.finishes hf with ⟨hstop, rfl, -⟩ | ⟨hstop, pk, rfl, hpk, hp'⟩
      · exact iff_of_false (fun hc => by simpa [sentFrames] using hc.1) fun hidle => hstop hidle.2.1
      refine ⟨fun hc => ⟨hcrypto, hstop, ?_⟩, fun hidle => ⟨by simp [hpk], ?_⟩⟩
      · by_contra hack
        exact not_conserves_ping hpk hack (hp' ▸ hc.2)
      refine ⟨fun f hf => by simp [hidle.2.2] at hf, ?_⟩
      have hqueue : p.controlFrames = q.controlFrames := (cons.inj ht.controlFrames).2
      rw [hp', hqueue]
      exact (sublist_append_right _ _).subperm
    · exact absurd rfl hping

/-- **The packer keeps what is queued** unless a PING displaces it: a packet that `PackPacket`
composes or takes from the crypto stream, and one of `PackAckPacket`, leaves no ACK or control
frame behind that is not queued any more. The PING that `PackPing` puts in front of the control
frames gets out, and nothing is lost for it, exactly when no crypto data waits and the path has
neither a STOP_WAITING nor an ACK frame queued. -/
theorem packer_conserves_iff (wf : WireFormat) (p : PacketPacker φ) (pth : PackPath)
    (leastUnacked : Nat) (num : Option Nat) :
    (∀ packet, (p.packPacket wf pth num).result = .ok packet →
      (p.Conserves pth.pathID packet (p.packPacket wf pth num).packer ↔
        ¬ p.PingDisplaces pth.pathID)) ∧
    (∀ packet, (p.packPing wf leastUnacked pth num).result = .ok packet →
      ((.ping ∈ sentFrames packet ∧
        p.Conserves pth.pathID packet (p.packPing wf leastUnacked pth num).packer) ↔
      p.streamFramer.hasCryptoStreamFrame = false ∧ p.stopWaiting pth.pathID = none ∧
        p.ackFrame pth.pathID = none)) ∧
    ∀ packet, (p.packAckPacket wf pth num).result = .ok packet →
      p.Conserves pth.pathID packet (p.packAckPacket wf pth num).packer :=
  ⟨p.packPacket_conserves_iff, p.packPing_conserves_iff leastUnacked,
    p.packAckPacket_conserves⟩

/-- A client's packer before the handshake, with a STOP_WAITING or an ACK frame queued for
path 0. -/
def idlePacker (stopWaiting : Option StopWaitingFrame) (ackFrame : Option AckFrame) :
    PacketPacker Unit :=
  let framer := newStreamFramer ⟨fun _ => none, [], 0⟩ ()
  ((newPacketPacker 1 ⟨.client, none, none⟩ [] false framer .client versionMP).setStopWaiting 0
    stopWaiting).setAckFrame 0 ackFrame

/-- With a STOP_WAITING frame queued, `PackPing` returns no packet and the PING is gone; with
an ACK frame queued it returns a packet of the PING alone and the ACK frame is gone. -/
theorem packPing_drops_frames :
    let pth : PackPath := ⟨0, newPacketNumberGenerator 500, 1, false⟩
    let stopped := (idlePacker (some ⟨1, none, 0⟩) none).packPing plainFormat 1 pth none
    let acking := (idlePacker none (some ⟨⟨0, 3, 1, []⟩, 0⟩)).packPing plainFormat 1 pth none
    (stopped.result = .ok none ∧ stopped.packer.controlFrames = []) ∧
      acking.result = .ok (some ⟨1, [7], [.ping], .unencrypted⟩) ∧
      acking.packer.ackFrame 0 = none :=
  ⟨⟨rfl, rfl⟩, rfl, rfl⟩

end PacketPacker

end RlncStreaming.Quic
