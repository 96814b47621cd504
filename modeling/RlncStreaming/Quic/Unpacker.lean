import RlncStreaming.Quic.AckParsing
import RlncStreaming.Quic.FrameWire

/-!
The packet unpacker (`packet_unpacker.go`) and the parsers of the frames (`internal/wire`).

The type byte of a frame selects its parser, by overlapping bit masks for STREAM and ACK
frames and by its value for the others. Every parser takes its frame off the input,
whatever follows (`nextFrame_write`), a STREAM frame without a length apart, which takes
all that is left. So the frames of a payload come back in their order
(`payload_self_delimiting`), if no STREAM frame reaches beyond the largest offset.
-/

namespace RlncStreaming.Quic

open Lib List ConnectionCloseFrame

/-! ### Parsing -/

/-- `io.ReadFull`. -/
def readFull (n : Nat) (bs : List UInt8) : Except WireError (List UInt8 × List UInt8) :=
  if n ≤ bs.length then .ok (bs.take n, bs.drop n)
  else if bs.length = 0 then .error .eof
  else .error .unexpectedEOF

section

variable (o : ByteOrder)

/-- The length of a STREAM frame's data, if it is there. -/
def readDataLen (dataLenPresent : Bool) (bs : List UInt8) : Except WireError (Nat × List UInt8) :=
  if dataLenPresent then o.readUintN 2 bs else .ok (0, bs)

/-- `ParseStreamFrame`. -/
def parseStreamFrame (bs : List UInt8) : Except WireError (OutFrame × List UInt8) := do
  let (typeByte, bs) ← readByte bs
  let finBit := decide (0 < typeByte &&& 0x40)
  let dataLenPresent := decide (0 < typeByte &&& 0x20)
  let offsetBits := ((typeByte &&& 0x1c) >>> 2).toNat
  let offsetLen := if offsetBits ≠ 0 then offsetBits + 1 else 0
  let streamIDLen := (typeByte &&& 0x3).toNat + 1
  let (streamID, bs) ← o.readUintN streamIDLen bs
  let (offset, bs) ← o.readUintN offsetLen bs
  let (dataLen, bs) ← readDataLen o dataLenPresent bs
  if maxPacketSize < dataLen then throw .dataLenTooLarge
  let dataLen := if dataLenPresent then dataLen else bs.length % 2 ^ 16
  let (data, bs) ← readFull dataLen bs
  if add64 offset data.length < offset then throw .dataOverflowsMaximumOffset
  if finBit = false ∧ data.length = 0 then throw .emptyStreamFrameNoFin
  return (⟨⟨offset, data, finBit⟩, streamID, dataLenPresent⟩, bs)

/-- `ParseRstStreamFrame`. -/
def parseRstStreamFrame (bs : List UInt8) : Except WireError (RstStreamFrame × List UInt8) := do
  let (_, bs) ← readByte bs
  let (streamID, bs) ← o.readUintN 4 bs
  let (byteOffset, bs) ← o.readUintN 8 bs
  let (errorCode, bs) ← o.readUintN 4 bs
  return (⟨streamID, errorCode, byteOffset⟩, bs)

/-- `ParseConnectionCloseFrame`. -/
def parseConnectionCloseFrame (bs : List UInt8) :
    Except WireError (ConnectionCloseFrame × List UInt8) := do
  let (_, bs) ← readByte bs
  let (errorCode, bs) ← o.readUintN 4 bs
  let (reasonPhraseLen, bs) ← o.readUintN 2 bs
  if maxPacketSize < reasonPhraseLen then throw .reasonPhraseTooLong
  let (reasonPhrase, bs) ← readFull reasonPhraseLen bs
  return (⟨errorCode, reasonPhrase⟩, bs)

/-- `ParseGoawayFrame`. -/
def parseGoawayFrame (bs : List UInt8) : Except WireError (GoawayFrame × List UInt8) := do
  let (_, bs) ← readByte bs
  let (errorCode, bs) ← o.readUintN 4 bs
  let (lastGoodStream, bs) ← o.readUintN 4 bs
  let (reasonPhraseLen, bs) ← o.readUintN 2 bs
  if maxPacketSize < reasonPhraseLen then throw .reasonPhraseTooLong
  let (reasonPhrase, bs) ← readFull reasonPhraseLen bs
  return (⟨errorCode, lastGoodStream, reasonPhrase⟩, bs)

/-- `ParseWindowUpdateFrame`. -/
def parseWindowUpdateFrame (bs : List UInt8) :
    Except WireError (WindowUpdateFrame × List UInt8) := do
  let (_, bs) ← readByte bs
  let (streamID, bs) ← o.readUintN 4 bs
  let (byteOffset, bs) ← o.readUintN 8 bs
  return (⟨streamID, byteOffset⟩, bs)

/-- `ParseBlockedFrame`. -/
def parseBlockedFrame (bs : List UInt8) : Except WireError (BlockedFrame × List UInt8) := do
  let (_, bs) ← readByte bs
  let (streamID, bs) ← o.readUintN 4 bs
  return (⟨streamID⟩, bs)

/-- `ParseStopWaitingFrame`; only the least number is set in the frame. -/
def parseStopWaitingFrame (packetNumber : Nat) (packetNumberLen : PacketNumberLen) (bs : List UInt8)
    : Except WireError (StopWaitingFrame × List UInt8) := do
  let (_, bs) ← readByte bs
  let (leastUnackedDelta, bs) ← o.readUintN packetNumberLen.toNat bs
  if packetNumber ≤ leastUnackedDelta then throw .invalidLeastUnackedDelta
  return (⟨packetNumber - leastUnackedDelta, none, 0⟩, bs)

end

/-- `ParsePingFrame`. -/
def parsePingFrame (bs : List UInt8) : Except WireError (Unit × List UInt8) := do
  let (_, bs) ← readByte bs
  return ((), bs)

/-- The bytes of an address; an IPv4 address becomes the IPv6 address that stands for it. -/
def readAddr (ipVersion : UInt8) (bs : List UInt8) : Except WireError (List UInt8 × List UInt8) :=
  if ipVersion = 4 then
    if 4 ≤ bs.length then .ok (v4InV6Prefix ++ bs.take 4, bs.drop 4) else .error .eof
  else if ipVersion = 6 then
    if 16 ≤ bs.length then .ok (bs.take 16, bs.drop 16) else .error .eof
  else .error .unknownIPVersion

/-- `ParseAddAddressFrame`. -/
def parseAddAddressFrame (o : ByteOrder) (bs : List UInt8) :
    Except WireError (AddAddressFrame × List UInt8) := do
  let (_, bs) ← readByte bs
  let (ipVersion, bs) ← readByte bs
  let (ip, bs) ← readAddr ipVersion bs
  let (port, bs) ← o.readUintN 2 bs
  return (⟨ipVersion, ip, port⟩, bs)

/-- The loop over the paths. -/
def parsePaths (o : ByteOrder) :
    Nat → List UInt8 → Except WireError ((List UInt8 × List Int) × List UInt8)
  | 0, bs => .ok (([], []), bs)
  | n + 1, bs => do
    let (pathID, bs) ← readByte bs
    let (remoteRTT, bs) ← o.readUfloat16 bs
    let ((ids, rtts), bs) ← parsePaths o n bs
    return ((pathID :: ids, (remoteRTT : Int) * 1000 :: rtts), bs)

/-- `ParsePathsFrame`. -/
def parsePathsFrame (o : ByteOrder) (bs : List UInt8) :
    Except WireError (PathsFrame × List UInt8) := do
  let (_, bs) ← readByte bs
  let (maxNumPaths, bs) ← readByte bs
  let (numPaths, bs) ← readByte bs
  if maxNumPaths < numPaths then throw .tooManyPaths
  let ((pathIDs, remoteRTTs), bs) ← parsePaths o numPaths.toNat bs
  return (⟨maxNumPaths, numPaths, pathIDs, remoteRTTs⟩, bs)

/-! ### Unpacking -/

/-- The errors of `Unpack`, by their codes. -/
inductive UnpackError where
  | decryptionFailure (reason : String)
  | missingPayload
  | invalidStreamData (e : WireError)
  | unencryptedStreamData (streamID : Nat)
  | invalidAckData (e : WireError)
  /-- `unimplemented: CONGESTION_FEEDBACK` -/
  | congestionFeedback
  | invalidRstStreamData (e : WireError)
  | invalidConnectionCloseData (e : WireError)
  | invalidGoawayData (e : WireError)
  | invalidWindowUpdateData (e : WireError)
  | invalidBlockedData (e : WireError)
  | invalidStopWaitingData (e : WireError)
  /-- An error that is passed on as it is. -/
  | frame (e : WireError)
  /-- An unknown type byte. -/
  | invalidFrameData (typeByte : UInt8)
deriving DecidableEq, Repr

/-- The result of a parser, as a frame, and its error under a code. -/
def wrap {α : Type} (code : WireError → UnpackError) (frame : α → Frame OutFrame)
    (result : Except WireError (α × List UInt8)) :
    Except UnpackError (Frame OutFrame × List UInt8) :=
  match result with
  | .error e => .error (code e)
  | .ok (f, rest) => .ok (frame f, rest)

/-- The same for a STREAM frame: data on other streams than the crypto stream must be
encrypted. -/
def wrapStream (level : EncryptionLevel) (result : Except WireError (OutFrame × List UInt8)) :
    Except UnpackError (Frame OutFrame × List UInt8) :=
  match result with
  | .error e => .error (.invalidStreamData e)
  | .ok (f, rest) =>
    if f.streamID ≠ 1 ∧ (level = .unspecified ∨ level = .unencrypted) then
      .error (.unencryptedStreamData f.streamID)
    else .ok (.stream f, rest)

/-- The `switch` of `Unpack`. -/
def parseFrame (o : ByteOrder) (level : EncryptionLevel) (packetNumber : Nat)
    (packetNumberLen : PacketNumberLen) (typeByte : UInt8) (bs : List UInt8) :
    Except UnpackError (Frame OutFrame × List UInt8) :=
  if typeByte &&& 0x80 = 0x80 then wrapStream level (parseStreamFrame o bs)
  else if typeByte &&& 0xc0 = 0x40 then wrap .invalidAckData .ack (parseAckFrame o bs)
  else if typeByte &&& 0xe0 = 0x20 then .error .congestionFeedback
  else if typeByte = 0x01 then wrap .invalidRstStreamData .rstStream (parseRstStreamFrame o bs)
  else if typeByte = 0x02 then
    wrap .invalidConnectionCloseData .connectionClose (parseConnectionCloseFrame o bs)
  else if typeByte = 0x03 then wrap .invalidGoawayData .goaway (parseGoawayFrame o bs)
  else if typeByte = 0x04 then
    wrap .invalidWindowUpdateData .windowUpdate (parseWindowUpdateFrame o bs)
  else if typeByte = 0x05 then wrap .invalidBlockedData .blocked (parseBlockedFrame o bs)
  else if typeByte = 0x06 then
    wrap .invalidStopWaitingData .stopWaiting
      (parseStopWaitingFrame o packetNumber packetNumberLen bs)
  else if typeByte = 0x07 then wrap .frame (fun _ => .ping) (parsePingFrame bs)
  else if typeByte = 0x10 then wrap .frame .addAddress (parseAddAddressFrame o bs)
  else if typeByte = 0x11 then wrap .frame .closePath (parseClosePathFrame o bs)
  else if typeByte = 0x12 then wrap .frame .paths (parsePathsFrame o bs)
  else .error (.invalidFrameData typeByte)

/-- One round of the loop of `Unpack`. A byte zero is padding; the loop does not come to an
empty input. -/
def nextFrame (o : ByteOrder) (level : EncryptionLevel) (packetNumber : Nat)
    (packetNumberLen : PacketNumberLen) :
    List UInt8 → Except UnpackError (Option (Frame OutFrame) × List UInt8)
  | [] => .error (.frame .eof)
  | typeByte :: rest =>
    if typeByte = 0 then .ok (none, rest)
    else
      (parseFrame o level packetNumber packetNumberLen typeByte (typeByte :: rest)).map
        fun (f, rest) => (some f, rest)

/-- `unpackedPacket`. -/
structure UnpackedPacket where
  encryptionLevel : EncryptionLevel
  frames : List (Frame OutFrame)
deriving DecidableEq, Repr

/-- `quicAEAD.Open`: the payload and its level for data, a packet number and the header. -/
abbrev OpenPacket := List UInt8 → Nat → List UInt8 → Except String (List UInt8 × EncryptionLevel)

/-- `Unpack`. -/
def unpack (o : ByteOrder) (openPacket : OpenPacket) (publicHeaderBinary : List UInt8)
    (packetNumber : Nat) (packetNumberLen : PacketNumberLen) (data : List UInt8) :
    Except UnpackError UnpackedPacket :=
  match openPacket data packetNumber publicHeaderBinary with
  | .error e => .error (.decryptionFailure e)
  | .ok (decrypted, encryptionLevel) =>
    if decrypted.length = 0 then .error .missingPayload
    else
      (readItems (nextFrame o encryptionLevel packetNumber packetNumberLen) decrypted).map
        fun frames => ⟨encryptionLevel, frames⟩

/-! ### Every frame takes something off the input -/

section Progress

variable {o : ByteOrder} {bs rest : List UInt8}

/-- At most `n` bytes of the input are left, where `left` stands for the rest. -/
def Leaves {α : Type} (left : α → List UInt8) (n : Nat) (result : Except WireError α) : Prop :=
  ∀ a, result = .ok a → (left a).length ≤ n

/-- Each parser reads its type byte, and none goes back. -/
def Shrinks {α : Type} (parse : List UInt8 → Except WireError (α × List UInt8)) : Prop :=
  ∀ bs a rest, parse bs = .ok (a, rest) → rest.length < bs.length

namespace Leaves

variable {α β γ : Type} {left : α → List UInt8} {n : Nat} {x y : Except WireError α}

theorem ok {a : α} : Leaves left (left a).length (.ok a) := by
  intro _ h
  cases h
  exact Nat.le_refl _

theorem error {e : WireError} : Leaves left n (.error e) := nofun

theorem bind {left' : β → List UInt8} {f : α → Except WireError β} (hx : Leaves left n x)
    (hf : ∀ a, Leaves left' (left a).length (f a)) : Leaves left' n (x >>= f) := by
  intro b h
  obtain ⟨a, ha, h⟩ := bind_eq_ok.mp h
  exact Nat.le_trans (hf a b h) (hx a ha)

theorem ite {c : Prop} [Decidable c] (hx : Leaves left n x) (hy : Leaves left n y) :
    Leaves left n (if c then x else y) := by
  split
  · exact hx
  · exact hy

/-- A check in front of a parser. -/
theorem guard {c : Prop} [Decidable c] {e : WireError} {f : γ → Except WireError α}
    (hx : Leaves left n x) : Leaves left n (if c then throw e >>= f else x) := .ite error hx

theorem drop {a : α} (k : Nat) : Leaves Prod.snd bs.length (.ok (a, bs.drop k)) := by
  intro _ h
  cases h
  rw [length_drop]
  exact Nat.sub_le _ _

end Leaves

theorem readByte_shrinks : Shrinks readByte := by
  intro bs b rest h
  cases bs with
  | nil => cases h
  | cons b bs =>
    cases h
    exact Nat.lt_succ_self _

theorem Shrinks.leaves {α : Type} {parse : List UInt8 → Except WireError (α × List UInt8)}
    (h : Shrinks parse) : Leaves Prod.snd bs.length (parse bs) := fun a hparse =>
  Nat.le_of_lt (h bs a.1 a.2 hparse)

/-- A parser that starts with a byte. -/
theorem shrinks_of_readByte {α : Type} {f : UInt8 × List UInt8 → Except WireError (α × List UInt8)}
    (hf : ∀ b, Leaves Prod.snd b.2.length (f b)) : Shrinks fun bs => readByte bs >>= f := by
  intro bs a rest h
  obtain ⟨b, hread, h⟩ := bind_eq_ok.mp h
  exact Nat.lt_of_le_of_lt (hf b _ h) (readByte_shrinks _ _ _ hread)

theorem readUintN_leaves {k : Nat} : Leaves Prod.snd bs.length (o.readUintN k bs) :=
  .ite (.drop k) .error

theorem readUfloat16_leaves : Leaves Prod.snd bs.length (o.readUfloat16 bs) :=
  .bind readUintN_leaves fun _ => .ok

theorem readByteIf_leaves {c : Bool} : Leaves Prod.snd bs.length (readByteIf c bs) :=
  .ite readByte_shrinks.leaves .ok

theorem readFull_leaves {n : Nat} : Leaves Prod.snd bs.length (readFull n bs) :=
  .ite (.drop n) (.ite .error .error)

theorem readDataLen_leaves {c : Bool} : Leaves Prod.snd bs.length (readDataLen o c bs) :=
  .ite readUintN_leaves .ok

theorem readAddr_leaves {v : UInt8} : Leaves Prod.snd bs.length (readAddr v bs) :=
  .ite (.ite (.drop 4) .error) (.ite (.ite (.drop 16) .error) .error)

theorem parseRanges_leaves {width n : Nat} {st : RangeParser} :
    Leaves Prod.snd bs.length (parseRanges o width n st bs) := by
  induction n generalizing st bs with
  | zero => exact .ok
  | succ n ih => exact .bind readByte_shrinks.leaves fun _ => .bind readUintN_leaves fun _ => ih

theorem parsePaths_leaves {n : Nat} : Leaves Prod.snd bs.length (parsePaths o n bs) := by
  induction n generalizing bs with
  | zero => exact .ok
  | succ n ih =>
    exact .bind readByte_shrinks.leaves fun _ => .bind readUfloat16_leaves fun _ =>
      .bind ih fun _ => .ok

theorem skipDeltas_leaves {n : Nat} : Leaves id bs.length (skipDeltas o n bs) := by
  induction n generalizing bs with
  | zero => exact .ok
  | succ n ih => exact .bind readByte_shrinks.leaves fun _ => .bind readUintN_leaves fun _ => ih

theorem skipTimestamps_leaves : Leaves id bs.length (skipTimestamps o bs) :=
  .bind readByte_shrinks.leaves fun _ => .ite .ok (.bind readByte_shrinks.leaves fun _ =>
    .bind readUintN_leaves fun _ => skipDeltas_leaves)

theorem parseBlocks_leaves {pathID : UInt8} {missing : Bool} {n largest width : Nat} :
    Leaves Prod.snd bs.length (parseBlocks o pathID missing n largest width bs) :=
  .bind readUintN_leaves fun _ => .guard (.guard (.ite
    (.bind parseRanges_leaves fun _ => .bind .ok fun _ => .ite .ok .error)
    (.bind .ok fun _ => .ite .ok .error)))

theorem parseStreamFrame_shrinks : Shrinks (parseStreamFrame o) :=
  shrinks_of_readByte fun _ => .bind readUintN_leaves fun _ => .bind readUintN_leaves fun _ =>
    .bind readDataLen_leaves fun _ => .guard (.bind readFull_leaves fun _ => .guard (.guard .ok))

theorem parseAckFrame_shrinks : Shrinks (parseAckFrame o) :=
  shrinks_of_readByte fun _ => .bind readByteIf_leaves fun _ => .bind readUintN_leaves fun _ =>
    .bind readUfloat16_leaves fun _ => .bind readByteIf_leaves fun _ =>
      .guard (.bind parseBlocks_leaves fun _ => .bind skipTimestamps_leaves fun _ => .ok)

theorem parseClosePathFrame_shrinks : Shrinks (parseClosePathFrame o) :=
  shrinks_of_readByte fun _ => .bind readByte_shrinks.leaves fun _ =>
    .bind readByte_shrinks.leaves fun _ => .bind readByteIf_leaves fun _ =>
      .guard (.bind readUintN_leaves fun _ => .bind parseBlocks_leaves fun _ => .ok)

theorem parseRstStreamFrame_shrinks : Shrinks (parseRstStreamFrame o) :=
  shrinks_of_readByte fun _ => .bind readUintN_leaves fun _ => .bind readUintN_leaves fun _ =>
    .bind readUintN_leaves fun _ => .ok

theorem parseConnectionCloseFrame_shrinks : Shrinks (parseConnectionCloseFrame o) :=
  shrinks_of_readByte fun _ => .bind readUintN_leaves fun _ => .bind readUintN_leaves fun _ =>
    .guard (.bind readFull_leaves fun _ => .ok)

theorem parseGoawayFrame_shrinks : Shrinks (parseGoawayFrame o) :=
  shrinks_of_readByte fun _ => .bind readUintN_leaves fun _ => .bind readUintN_leaves fun _ =>
    .bind readUintN_leaves fun _ => .guard (.bind readFull_leaves fun _ => .ok)

theorem parseWindowUpdateFrame_shrinks : Shrinks (parseWindowUpdateFrame o) :=
  shrinks_of_readByte fun _ => .bind readUintN_leaves fun _ => .bind readUintN_leaves fun _ => .ok

theorem parseBlockedFrame_shrinks : Shrinks (parseBlockedFrame o) :=
  shrinks_of_readByte fun _ => .bind readUintN_leaves fun _ => .ok

theorem parseStopWaitingFrame_shrinks (packetNumber : Nat) (len : PacketNumberLen) :
    Shrinks (parseStopWaitingFrame o packetNumber len) :=
  shrinks_of_readByte fun _ => .bind readUintN_leaves fun _ => .guard .ok

theorem parsePingFrame_shrinks : Shrinks parsePingFrame := shrinks_of_readByte fun _ => .ok

theorem parseAddAddressFrame_shrinks : Shrinks (parseAddAddressFrame o) :=
  shrinks_of_readByte fun _ => .bind readByte_shrinks.leaves fun _ =>
    .bind readAddr_leaves fun _ => .bind readUintN_leaves fun _ => .ok

theorem parsePathsFrame_shrinks : Shrinks (parsePathsFrame o) :=
  shrinks_of_readByte fun _ => .bind readByte_shrinks.leaves fun _ =>
    .bind readByte_shrinks.leaves fun _ => .guard (.bind parsePaths_leaves fun _ => .ok)

theorem Shrinks.wrap {α : Type} {parse : List UInt8 → Except WireError (α × List UInt8)}
    (hparse : Shrinks parse) {code : WireError → UnpackError} {frame : α → Frame OutFrame}
    {f : Frame OutFrame} (h : Quic.wrap code frame (parse bs) = .ok (f, rest)) :
    rest.length < bs.length := by
  cases hresult : parse bs with
  | error e =>
    rw [hresult] at h
    cases h
  | ok result =>
    rw [hresult] at h
    cases h
    exact hparse _ _ _ hresult

theorem wrapStream_length {level : EncryptionLevel} {f : Frame OutFrame}
    (h : wrapStream level (parseStreamFrame o bs) = .ok (f, rest)) : rest.length < bs.length := by
  cases hresult : parseStreamFrame o bs with
  | error e =>
    rw [hresult] at h
    cases h
  | ok result =>
    rw [hresult, wrapStream] at h
    split at h
    · cases h
    cases h
    exact parseStreamFrame_shrinks _ _ _ hresult

theorem of_ite_eq {α : Type} {c : Prop} [Decidable c] {x y z : α} {P : Prop}
    (h : (if c then x else y) = z) (hx : x = z → P) (hy : y = z → P) : P := by
  by_cases hc : c
  · exact hx (by rwa [if_pos hc] at h)
  · exact hy (by rwa [if_neg hc] at h)

theorem parseFrame_length {level : EncryptionLevel} {packetNumber : Nat} {len : PacketNumberLen}
    {typeByte : UInt8} {f : Frame OutFrame}
    (h : parseFrame o level packetNumber len typeByte bs = .ok (f, rest)) :
    rest.length < bs.length := by
  rw [parseFrame] at h
  refine of_ite_eq h wrapStream_length fun h => ?_
  refine of_ite_eq h parseAckFrame_shrinks.wrap fun h => ?_
  refine of_ite_eq h (fun h => nomatch h) fun h => ?_
  refine of_ite_eq h parseRstStreamFrame_shrinks.wrap fun h => ?_
  refine of_ite_eq h parseConnectionCloseFrame_shrinks.wrap fun h => ?_
  refine of_ite_eq h parseGoawayFrame_shrinks.wrap fun h => ?_
  refine of_ite_eq h parseWindowUpdateFrame_shrinks.wrap fun h => ?_
  refine of_ite_eq h parseBlockedFrame_shrinks.wrap fun h => ?_
  refine of_ite_eq h (parseStopWaitingFrame_shrinks _ _).wrap fun h => ?_
  refine of_ite_eq h parsePingFrame_shrinks.wrap fun h => ?_
  refine of_ite_eq h parseAddAddressFrame_shrinks.wrap fun h => ?_
  refine of_ite_eq h parseClosePathFrame_shrinks.wrap fun h => ?_
  exact of_ite_eq h parsePathsFrame_shrinks.wrap fun h => nomatch h

/-- The loop of `Unpack` ends. -/
theorem nextFrame_progress (level : EncryptionLevel) (packetNumber : Nat)
    (len : PacketNumberLen) : Lib.Progress (nextFrame o level packetNumber len) := by
  intro bs a rest h
  cases bs with
  | nil => cases h
  | cons typeByte bs =>
    rw [nextFrame] at h
    split at h
    · cases h
      exact Nat.lt_succ_self _
    obtain ⟨_, hparse, ⟨⟩⟩ := map_eq_ok.mp h
    exact parseFrame_length hparse

/-- What holds of every frame that can be parsed holds of the frames of a packet. -/
theorem forall_mem_unpack {P : Frame OutFrame → Prop} {openPacket : OpenPacket}
    {header data : List UInt8} {packetNumber : Nat} {len : PacketNumberLen}
    {packet : UnpackedPacket}
    (hparse : ∀ level typeByte bs f rest,
      parseFrame o level packetNumber len typeByte bs = .ok (f, rest) → P f)
    (h : unpack o openPacket header packetNumber len data = .ok packet) :
    ∀ f ∈ packet.frames, P f := by
  rw [unpack] at h
  split at h
  · cases h
  rename_i decrypted level _
  split at h
  · cases h
  obtain ⟨frames, hitems, ⟨⟩⟩ := map_eq_ok.mp h
  refine forall_mem_readItems (fun bs f rest hnext => ?_) hitems
  cases bs with
  | nil => cases hnext
  | cons typeByte bs =>
    rw [nextFrame] at hnext
    split at hnext
    · cases hnext
    obtain ⟨_, hresult, ⟨⟩⟩ := map_eq_ok.mp hnext
    exact hparse _ _ _ _ _ hresult

end Progress

/-! ### What is written comes back -/

section RoundTrip

variable (o : ByteOrder) {bs rest : List UInt8}

theorem readFull_append (data rest : List UInt8) :
    readFull data.length (data ++ rest) = .ok (data, rest) := by
  rw [readFull, if_pos (by simp), take_left' rfl, drop_left' rfl]

theorem readDataLen_append (dataLenPresent : Bool) {n : Nat} (h : n < 2 ^ 16) :
    readDataLen o dataLenPresent ((if dataLenPresent then o.bytes 2 n else []) ++ rest) =
      .ok (if dataLenPresent then n else 0, rest) := by
  cases dataLenPresent with
  | false => rfl
  | true => exact o.readUintN_bytes rest h

theorem calculateStreamIDLength_fits {f : OutFrame} (h : f.streamID < 2 ^ 32) :
    f.streamID < 256 ^ f.calculateStreamIDLength ∧
      ∃ i : Fin 4, f.calculateStreamIDLength = i.val + 1 := by
  rw [OutFrame.calculateStreamIDLength]
  split
  · exact ⟨by omega, 0, rfl⟩
  split
  · exact ⟨by omega, 1, rfl⟩
  split
  · exact ⟨by omega, 2, rfl⟩
  · exact ⟨by omega, 3, rfl⟩

theorem getOffsetLength_fits {f : OutFrame} (h : f.offset < 2 ^ 64) :
    f.offset < 256 ^ f.getOffsetLength ∧
      ∃ i : Fin 8, f.getOffsetLength = if i = 0 then 0 else i.val + 1 := by
  rw [OutFrame.getOffsetLength]
  split
  · exact ⟨by omega, 0, rfl⟩
  split
  · exact ⟨by omega, 1, rfl⟩
  split
  · exact ⟨by omega, 2, rfl⟩
  split
  · exact ⟨by omega, 3, rfl⟩
  split
  · exact ⟨by omega, 4, rfl⟩
  split
  · exact ⟨by omega, 5, rfl⟩
  split
  · exact ⟨by omega, 6, rfl⟩
  · exact ⟨by omega, 7, rfl⟩

/-- The fields of the type byte. -/
theorem streamTypeByte_bits : ∀ (fin dataLen : Bool) (i : Fin 8) (j : Fin 4),
    let b := streamTypeByte fin dataLen (if i = 0 then 0 else i.val + 1) (j.val + 1)
    b &&& 0x80 = 0x80 ∧ b ≠ 0 ∧ decide (0 < b &&& 0x40) = fin ∧
      decide (0 < b &&& 0x20) = dataLen ∧
      (if ((b &&& 0x1c) >>> 2).toNat ≠ 0 then ((b &&& 0x1c) >>> 2).toNat + 1 else 0) =
        (if i = 0 then 0 else i.val + 1) ∧ (b &&& 0x3).toNat + 1 = j.val + 1 := by
  decide +kernel

theorem parseStreamFrame_write {f : OutFrame} (hwrite : f.write o = .ok bs)
    (hsize : bs.length ≤ maxPacketSize) (hid : f.streamID < 2 ^ 32)
    (hoffset : f.offset + f.data.length < 2 ^ 64) (hrest : f.dataLenPresent = false → rest = []) :
    parseStreamFrame o (bs ++ rest) = .ok (f, rest) := by
  have hlen := OutFrame.write_length hwrite
  have hdata : f.data.length ≤ 1350 := by
    rw [maxPacketSize] at hsize
    omega
  rw [OutFrame.write] at hwrite
  split at hwrite
  · cases hwrite
  rename_i hfin
  cases hwrite
  obtain ⟨hidfits, j, hj⟩ := calculateStreamIDLength_fits hid
  obtain ⟨hoffsetfits, i, hi⟩ := getOffsetLength_fits (show f.offset < 2 ^ 64 by omega)
  obtain ⟨-, -, hfinbit, hlenbit, hoffsetbits, hidbits⟩ :=
    streamTypeByte_bits f.finBit f.dataLenPresent i j
  rw [← hi, ← hj] at hfinbit hlenbit hoffsetbits hidbits
  simp only [parseStreamFrame, bind_eq_ok, guard_eq_ok, pure_eq_ok, Prod.exists,
    cons_append, append_assoc]
  refine ⟨_, _, rfl, ?_⟩
  simp only [hfinbit, hlenbit, hoffsetbits, hidbits]
  refine ⟨_, _, o.readUintN_bytes _ hidfits, _, _, o.readUintN_bytes _ hoffsetfits, ?_⟩
  have hoverflow : ¬ add64 f.offset f.data.length < f.offset := by
    rw [add64_of_lt hoffset]
    omega
  have hdataLen : (if f.dataLenPresent = true then if f.dataLenPresent = true then f.data.length
      else 0 else (f.data ++ rest).length % 2 ^ 16) = f.data.length := by
    split
    · rfl
    rename_i habsent
    rw [hrest (eq_false_of_ne_true habsent), append_nil]
    exact Nat.mod_eq_of_lt (by omega)
  refine ⟨_, _, readDataLen_append o _ (by omega), ?_, f.data, rest, ?_, hoverflow, ?_, rfl⟩
  · rw [maxPacketSize]
    split <;> omega
  · rw [hdataLen]
    exact readFull_append _ _
  · rw [and_comm]
    exact hfin

theorem parseRstStreamFrame_write {f : RstStreamFrame} (hid : f.streamID < 2 ^ 32)
    (hcode : f.errorCode < 2 ^ 32) (hoffset : f.byteOffset < 2 ^ 64) :
    parseRstStreamFrame o (f.write o ++ rest) = .ok (f, rest) := by
  simp only [parseRstStreamFrame, RstStreamFrame.write, bind_eq_ok, pure_eq_ok, Prod.exists,
    cons_append, append_assoc]
  exact ⟨_, _, rfl, _, _, o.readUintN_bytes _ hid, _, _, o.readUintN_bytes _ hoffset, _, _,
    o.readUintN_bytes _ hcode, rfl⟩

theorem parseWindowUpdateFrame_write {f : WindowUpdateFrame} (hid : f.streamID < 2 ^ 32)
    (hoffset : f.byteOffset < 2 ^ 64) :
    parseWindowUpdateFrame o (f.write o ++ rest) = .ok (f, rest) := by
  simp only [parseWindowUpdateFrame, WindowUpdateFrame.write, bind_eq_ok, pure_eq_ok, Prod.exists,
    cons_append, append_assoc]
  exact ⟨_, _, rfl, _, _, o.readUintN_bytes _ hid, _, _, o.readUintN_bytes _ hoffset, rfl⟩

theorem parseBlockedFrame_write {f : BlockedFrame} (hid : f.streamID < 2 ^ 32) :
    parseBlockedFrame o (f.write o ++ rest) = .ok (f, rest) := by
  simp only [parseBlockedFrame, BlockedFrame.write, bind_eq_ok, pure_eq_ok, Prod.exists,
    cons_append]
  exact ⟨_, _, rfl, _, _, o.readUintN_bytes _ hid, rfl⟩

theorem parseGoawayFrame_write {f : GoawayFrame} (hcode : f.errorCode < 2 ^ 32)
    (hstream : f.lastGoodStream < 2 ^ 32) (hreason : f.reasonPhrase.length ≤ maxPacketSize) :
    parseGoawayFrame o (f.write o ++ rest) = .ok (f, rest) := by
  have hshort : f.reasonPhrase.length < 256 ^ 2 := Nat.lt_of_le_of_lt hreason (by decide)
  simp only [parseGoawayFrame, GoawayFrame.write, bind_eq_ok, guard_eq_ok, pure_eq_ok, Prod.exists,
    cons_append, append_assoc]
  exact ⟨_, _, rfl, _, _, o.readUintN_bytes _ hcode, _, _, o.readUintN_bytes _ hstream, _, _,
    o.readUintN_bytes _ hshort, Nat.not_lt.mpr hreason, _, _, readFull_append _ _, rfl⟩

theorem parseConnectionCloseFrame_write {f : ConnectionCloseFrame} (hwrite : f.write o = .ok bs)
    (hcode : f.errorCode < 2 ^ 32) (hreason : f.reasonPhrase.length ≤ maxPacketSize) :
    parseConnectionCloseFrame o (bs ++ rest) = .ok (f, rest) := by
  have hshort : f.reasonPhrase.length < 256 ^ 2 := Nat.lt_of_le_of_lt hreason (by decide)
  rw [write, if_neg (by omega)] at hwrite
  cases hwrite
  simp only [parseConnectionCloseFrame, bind_eq_ok, guard_eq_ok, pure_eq_ok, Prod.exists,
    cons_append, append_assoc]
  exact ⟨_, _, rfl, _, _, o.readUintN_bytes _ hcode, _, _, o.readUintN_bytes _ hshort,
    Nat.not_lt.mpr hreason, _, _, readFull_append _ _, rfl⟩

/-- A STOP_WAITING frame comes back with the least number alone. -/
theorem parseStopWaitingFrame_write {f : StopWaitingFrame} {len : PacketNumberLen}
    (hwrite : f.write o = .ok bs) (hlen : f.packetNumberLen = some len)
    (hone : 1 ≤ f.leastUnacked) (hdelta : f.packetNumber - f.leastUnacked < 256 ^ len.toNat) :
    parseStopWaitingFrame o f.packetNumber len (bs ++ rest) =
      .ok (⟨f.leastUnacked, none, 0⟩, rest) := by
  rw [StopWaitingFrame.write] at hwrite
  split at hwrite
  · cases hwrite
  split at hwrite
  · cases hwrite
  next hset hle =>
  simp only [hlen] at hwrite
  cases hwrite
  simp only [parseStopWaitingFrame, bind_eq_ok, guard_eq_ok, pure_eq_ok, Prod.exists, cons_append]
  refine ⟨_, _, rfl, _, _, o.readUintN_bytes _ hdelta, by omega, ?_⟩
  rw [Nat.sub_sub_self (Nat.not_lt.mp hle)]

/-- The address that is read stands for the one that was written. -/
theorem readAddr_addrBytes {f : AddAddressFrame} {ip : List UInt8} (h : f.addrBytes = .ok ip) :
    ∃ ip', readAddr f.ipVersion (ip ++ rest) = .ok (ip', rest) ∧ to16 ip' = to16 f.ip := by
  rcases AddAddressFrame.addrBytes_cases h with ⟨hfour, hto, hlen⟩ | ⟨hsix, hto, hlen⟩
  · refine ⟨v4InV6Prefix ++ ip, ?_, ?_⟩
    · rw [readAddr, if_pos hfour, if_pos (by rw [length_append]; omega),
        take_left' hlen, drop_left' hlen]
    have hto16 : to16 (v4InV6Prefix ++ ip) = some (v4InV6Prefix ++ ip) := by
      have hlen16 : (v4InV6Prefix ++ ip).length = 16 := by
        rw [length_append, hlen]
        rfl
      rw [to16, if_neg (by omega), if_pos hlen16]
    rw [hto16]
    rw [to4] at hto
    split at hto
    · next hshort =>
      cases hto
      rw [to16, if_pos hshort]
    · split at hto
      · next hlong =>
        cases hto
        rw [to16, if_neg (by omega), if_pos hlong.1, ← hlong.2, take_append_drop]
      · cases hto
  · refine ⟨ip, ?_, ?_⟩
    · rw [readAddr, if_neg (by rw [hsix]; decide), if_pos hsix,
        if_pos (by rw [length_append]; omega), take_left' hlen, drop_left' hlen]
    · rw [hto, to16, if_neg (by omega), if_pos hlen]

theorem parseAddAddressFrame_write {f : AddAddressFrame} (hwrite : f.write o = .ok bs)
    (hport : 0 ≤ f.port ∧ f.port < 2 ^ 16) :
    ∃ ip', parseAddAddressFrame o (bs ++ rest) = .ok (⟨f.ipVersion, ip', f.port⟩, rest) ∧
      to16 ip' = to16 f.ip := by
  obtain ⟨ip, haddr, rfl⟩ := AddAddressFrame.write_ok hwrite
  obtain ⟨ip', hread, hsame⟩ := readAddr_addrBytes haddr
  refine ⟨ip', ?_, hsame⟩
  have hmod : f.port % 2 ^ 16 = f.port := Int.emod_eq_of_lt hport.1 hport.2
  simp only [parseAddAddressFrame, bind_eq_ok, pure_eq_ok, Prod.exists, cons_append, append_assoc]
  refine ⟨_, _, rfl, _, _, rfl, _, _, hread, _, _, o.readUintN_bytes _ (by omega), ?_⟩
  rw [hmod, Int.toNat_of_nonneg hport.1]

/-- A duration that the 16-bit floats can express, in microseconds. -/
def Representable (d : Int) : Prop := ∃ val, val < 2 ^ 16 ∧ d = (ofUfloat16 val : Int) * 1000

theorem ofUfloat16_lt {val : Nat} (h : val < 2 ^ 16) : ofUfloat16 val < 2 ^ 64 := by
  rw [ofUfloat16]
  split
  · omega
  calc
    (val - (val / 2 ^ 11 - 1) * 2 ^ 11) * 2 ^ (val / 2 ^ 11 - 1) ≤ 2 ^ 16 * 2 ^ 30 :=
      Nat.mul_le_mul (by omega) (Nat.pow_le_pow_right (by decide) (by omega))
    _ < 2 ^ 64 := by decide

theorem Representable.written {d : Int} (h : Representable d) :
    (ofUfloat16 (ufloat16 (microseconds d)) : Int) * 1000 = d := by
  obtain ⟨val, hval, rfl⟩ := h
  have hmicro : microseconds ((ofUfloat16 val : Int) * 1000) = ofUfloat16 val := by
    rw [microseconds, Int.mul_tdiv_cancel _ (by decide)]
    have := ofUfloat16_lt hval
    omega
  rw [hmicro, ufloat16_ofUfloat16 hval]

theorem parsePaths_write {ids : List UInt8} {rtts : List Int} (hlen : ids.length = rtts.length)
    (hrtts : ∀ d ∈ rtts, Representable d) :
    parsePaths o ids.length (writePaths o ids rtts ++ rest) = .ok ((ids, rtts), rest) := by
  induction ids generalizing rtts with
  | nil =>
    obtain rfl := length_eq_zero_iff.mp hlen.symm
    rfl
  | cons id ids ih =>
    cases rtts with
    | nil => cases hlen
    | cons rtt rtts =>
      obtain ⟨hrtt, hrtts⟩ := forall_mem_cons.mp hrtts
      simp only [length_cons, parsePaths, writePaths, bind_eq_ok, pure_eq_ok, Prod.exists,
        cons_append, append_assoc]
      refine ⟨_, _, rfl, _, _, o.readUfloat16_bytes _ (ufloat16_lt _), _, _, _,
        ih (Nat.succ.inj hlen) hrtts, ?_⟩
      rw [hrtt.written]

theorem parsePathsFrame_write {f : PathsFrame} (hwrite : f.write o = .ok bs)
    (hnum : f.numPaths ≤ f.maxNumPaths) (hrtts : ∀ d ∈ f.remoteRTTs, Representable d) :
    parsePathsFrame o (bs ++ rest) = .ok (f, rest) := by
  rw [PathsFrame.write] at hwrite
  split at hwrite
  · cases hwrite
  split at hwrite
  · cases hwrite
  next hids hlens =>
  cases hwrite
  simp only [parsePathsFrame, bind_eq_ok, guard_eq_ok, pure_eq_ok, Prod.exists, cons_append]
  refine ⟨_, _, rfl, _, _, rfl, _, _, rfl, UInt8.not_lt.mpr hnum, f.pathIDs,
    f.remoteRTTs, _, ?_, rfl⟩
  rw [not_not.mp hids]
  exact parsePaths_write o (not_not.mp hlens) hrtts

end RoundTrip

/-! ### Payloads -/

namespace Frame

/-- A STREAM frame without a length takes the rest of the packet. -/
def openEnded : Frame OutFrame → Bool
  | .stream f => !f.dataLenPresent
  | _ => false

/-- The fields of a frame that goes with a packet number of a given length. ACK and CLOSE_PATH
frames are left out. -/
def Sendable (packetNumber : Nat) (packetNumberLen : PacketNumberLen) : Frame OutFrame → Prop
  | .stream f => f.streamID < 2 ^ 32 ∧ f.offset < 2 ^ 64
  | .ack _ => False
  | .stopWaiting f => f.packetNumber = packetNumber ∧ f.packetNumberLen = some packetNumberLen ∧
      1 ≤ f.leastUnacked ∧ packetNumber - f.leastUnacked < 256 ^ packetNumberLen.toNat
  | .rstStream f => f.streamID < 2 ^ 32 ∧ f.errorCode < 2 ^ 32 ∧ f.byteOffset < 2 ^ 64
  | .windowUpdate f => f.streamID < 2 ^ 32 ∧ f.byteOffset < 2 ^ 64
  | .blocked f => f.streamID < 2 ^ 32
  | .ping => True
  | .goaway f => f.errorCode < 2 ^ 32 ∧ f.lastGoodStream < 2 ^ 32
  | .connectionClose f => f.errorCode < 2 ^ 32
  | .addAddress f => 0 ≤ f.port ∧ f.port < 2 ^ 16
  | .closePath _ => False
  | .paths f => f.numPaths ≤ f.maxNumPaths ∧ ∀ d ∈ f.remoteRTTs, Representable d

/-- The data of a STREAM frame end below the largest offset. -/
def EndsInRange : Frame OutFrame → Prop
  | .stream f => f.offset + f.data.length < 2 ^ 64
  | _ => True

/-- The frame that was received stands for the one that was sent: of a STOP_WAITING frame the
least number is kept, and IP addresses are compared by value. -/
def SameFrame : Frame OutFrame → Frame OutFrame → Prop
  | .stopWaiting f, .stopWaiting f' => f'.leastUnacked = f.leastUnacked
  | .addAddress f, .addAddress f' =>
    f'.ipVersion = f.ipVersion ∧ to16 f'.ip = to16 f.ip ∧ f'.port = f.port
  | f, f' => f' = f

end Frame

section Payloads

variable {o : ByteOrder} {delay : AckFrame → Nat} {level : EncryptionLevel} {packetNumber : Nat}
  {len : PacketNumberLen} {f : Frame OutFrame} {bs rest : List UInt8}

theorem nextFrame_of_parseFrame {typeByte : UInt8} (hne : typeByte ≠ 0) {f : Frame OutFrame}
    (h : parseFrame o level packetNumber len typeByte (typeByte :: bs) = .ok (f, rest)) :
    nextFrame o level packetNumber len (typeByte :: bs) = .ok (some f, rest) := by
  rw [nextFrame, if_neg hne, h]
  rfl

/-- The frames that are told apart by the value of their type byte. -/
theorem nextFrame_of_parse {typeByte : UInt8} (hne : typeByte ≠ 0) {α : Type} {a : α}
    {code : WireError → UnpackError} {frame : α → Frame OutFrame}
    {result : Except WireError (α × List UInt8)} (hresult : result = .ok (a, rest))
    (hdispatch : parseFrame o level packetNumber len typeByte (typeByte :: bs) =
      wrap code frame result) :
    nextFrame o level packetNumber len (typeByte :: bs) = .ok (some (frame a), rest) := by
  refine nextFrame_of_parseFrame hne ?_
  rw [hdispatch, hresult]
  rfl

theorem nextFrame_stream (hlevel : level ≠ .unspecified ∧ level ≠ .unencrypted) {f : OutFrame}
    (hwrite : f.write o = .ok bs) (hid : f.streamID < 2 ^ 32) (hoffset : f.offset < 2 ^ 64)
    (hparse : parseStreamFrame o (bs ++ rest) = .ok (f, rest)) :
    nextFrame o level packetNumber len (bs ++ rest) = .ok (some (.stream f), rest) := by
  rw [OutFrame.write] at hwrite
  split at hwrite
  · cases hwrite
  cases hwrite
  obtain ⟨-, j, hj⟩ := calculateStreamIDLength_fits hid
  obtain ⟨-, i, hi⟩ := getOffsetLength_fits hoffset
  obtain ⟨hmask, hne, -⟩ := streamTypeByte_bits f.finBit f.dataLenPresent i j
  rw [← hi, ← hj] at hmask hne
  rw [cons_append] at hparse ⊢
  refine nextFrame_of_parseFrame hne ?_
  rw [parseFrame, if_pos hmask, hparse, wrapStream, if_neg]
  rintro ⟨-, hunspecified | hunencrypted⟩
  · exact hlevel.1 hunspecified
  · exact hlevel.2 hunencrypted

theorem StopWaitingFrame.write_typeByte {f : StopWaitingFrame} (h : f.write o = .ok bs) :
    ∃ tail, bs = 0x06 :: tail := by
  rw [StopWaitingFrame.write] at h
  split at h
  · cases h
  split at h
  · cases h
  split at h
  · cases h
  cases h
  exact ⟨_, rfl⟩

theorem ConnectionCloseFrame.write_typeByte {f : ConnectionCloseFrame} (h : f.write o = .ok bs) :
    ∃ tail, bs = 0x02 :: tail := by
  rw [write] at h
  split at h
  · cases h
  cases h
  exact ⟨_, rfl⟩

theorem PathsFrame.write_typeByte {f : PathsFrame} (h : f.write o = .ok bs) :
    ∃ tail, bs = 0x12 :: tail := by
  rw [PathsFrame.write] at h
  split at h
  · cases h
  split at h
  · cases h
  cases h
  exact ⟨_, rfl⟩

variable (hlevel : level ≠ .unspecified ∧ level ≠ .unencrypted)

include hlevel

/-- A frame that was written is taken off the input, whatever follows. -/
theorem nextFrame_write
    (hwrite : f.write o delay = some (.ok bs)) (hsize : bs.length ≤ maxPacketSize)
    (hf : f.Sendable packetNumber len) (hrange : f.EndsInRange)
    (hrest : f.openEnded = true → rest = []) :
    ∃ f', nextFrame o level packetNumber len (bs ++ rest) = .ok (some f', rest) ∧
      f.SameFrame f' := by
  cases f with
  | stream f =>
    have hwrite := Option.some.inj hwrite
    refine ⟨.stream f, nextFrame_stream hlevel hwrite hf.1 hf.2 ?_, rfl⟩
    exact parseStreamFrame_write o hwrite hsize hf.1 hrange fun habsent =>
      hrest (by rw [Frame.openEnded, habsent]; rfl)
  | ack f => exact hf.elim
  | stopWaiting f =>
    obtain ⟨rfl, hlen, hone, hdelta⟩ := hf
    have hwrite := Option.some.inj hwrite
    obtain ⟨tail, rfl⟩ := StopWaitingFrame.write_typeByte hwrite
    exact ⟨.stopWaiting ⟨f.leastUnacked, none, 0⟩, nextFrame_of_parse (by decide)
      (parseStopWaitingFrame_write o hwrite hlen hone hdelta) rfl, rfl⟩
  | rstStream f =>
    cases hwrite
    exact ⟨.rstStream f, nextFrame_of_parse (by decide)
      (parseRstStreamFrame_write o hf.1 hf.2.1 hf.2.2) rfl, rfl⟩
  | windowUpdate f =>
    cases hwrite
    exact ⟨.windowUpdate f, nextFrame_of_parse (by decide)
      (parseWindowUpdateFrame_write o hf.1 hf.2) rfl, rfl⟩
  | blocked f =>
    cases hwrite
    exact ⟨.blocked f, nextFrame_of_parse (by decide) (parseBlockedFrame_write o hf) rfl, rfl⟩
  | ping =>
    cases hwrite
    have hparse : parsePingFrame (0x07 :: rest) = .ok ((), rest) := rfl
    have hdispatch : parseFrame o level packetNumber len 0x07 (0x07 :: rest) =
        wrap .frame (fun _ => .ping) (parsePingFrame (0x07 :: rest)) := rfl
    exact ⟨.ping, nextFrame_of_parse (by decide) hparse hdispatch, rfl⟩
  | goaway f =>
    cases hwrite
    have hreason : f.reasonPhrase.length ≤ maxPacketSize := by
      simp only [GoawayFrame.write, length_cons, length_append] at hsize
      omega
    exact ⟨.goaway f, nextFrame_of_parse (by decide)
      (parseGoawayFrame_write o hf.1 hf.2 hreason) rfl, rfl⟩
  | connectionClose f =>
    have hwrite := Option.some.inj hwrite
    have hlen := write_length hwrite
    obtain ⟨tail, rfl⟩ := write_typeByte hwrite
    exact ⟨.connectionClose f, nextFrame_of_parse (by decide)
      (parseConnectionCloseFrame_write o hwrite hf (by omega)) rfl, rfl⟩
  | addAddress f =>
    have hwrite := Option.some.inj hwrite
    obtain ⟨ip', hparse, hsame⟩ := parseAddAddressFrame_write o hwrite hf
    obtain ⟨ip, -, rfl⟩ := AddAddressFrame.write_ok hwrite
    exact ⟨.addAddress ⟨f.ipVersion, ip', f.port⟩, nextFrame_of_parse (by decide) hparse rfl, rfl,
      hsame, rfl⟩
  | closePath f => exact hf.elim
  | paths f =>
    have hwrite := Option.some.inj hwrite
    obtain ⟨tail, rfl⟩ := PathsFrame.write_typeByte hwrite
    exact ⟨.paths f, nextFrame_of_parse (by decide)
      (parsePathsFrame_write o hwrite hf.1 hf.2) rfl, rfl⟩

/-- The payload of any frames. -/
theorem readItems_write {fs : List (Frame OutFrame)} {written : List (List UInt8)}
    (hwrite : List.Forall₂ (fun f bs => f.write o delay = some (.ok bs)) fs written)
    (hsize : written.flatten.length ≤ maxPacketSize)
    (hfs : ∀ f ∈ fs, f.Sendable packetNumber len) (hrange : ∀ f ∈ fs, f.EndsInRange)
    (hlast : ∀ f ∈ fs.dropLast, f.openEnded = false) :
    ∃ fs', readItems (nextFrame o level packetNumber len) written.flatten = .ok fs' ∧
      List.Forall₂ Frame.SameFrame fs fs' := by
  induction hwrite with
  | nil => exact ⟨[], rfl, .nil⟩
  | @cons f bs fs written hf hrest ih =>
    obtain ⟨hsendable, hfs⟩ := forall_mem_cons.mp hfs
    obtain ⟨hends, hrange⟩ := forall_mem_cons.mp hrange
    rw [flatten_cons, length_append] at hsize
    have hopen : f.openEnded = true → written.flatten = [] := by
      intro hopen
      cases hrest with
      | nil => rfl
      | cons =>
        rw [hlast f (by simp)] at hopen
        cases hopen
    have hlast' : ∀ g ∈ fs.dropLast, g.openEnded = false := by
      intro g hg
      cases fs with
      | nil => exact absurd hg not_mem_nil
      | cons f' fs => exact hlast g (mem_cons_of_mem f hg)
    obtain ⟨fs', hread, hsame⟩ := ih (by omega) hfs hrange hlast'
    obtain ⟨f', hnext, hsame'⟩ := nextFrame_write hlevel hf (by omega) hsendable hends hopen
    exact ⟨f' :: fs', readItems_append (nextFrame_progress level packetNumber len) hnext hread,
      .cons hsame' hsame⟩

end Payloads

/-- **Payloads are self-delimiting.** Frames that were written one after another come back in
their order, if no STREAM frame ends beyond the largest offset. -/
theorem payload_self_delimiting (o : ByteOrder) (delay : AckFrame → Nat) (openPacket : OpenPacket)
    (header data : List UInt8) (packetNumber : Nat) (len : PacketNumberLen)
    (level : EncryptionLevel) (fs : List (Frame OutFrame)) (written : List (List UInt8))
    (hne : fs ≠ [])
    (hwrite : List.Forall₂ (fun f bs => f.write o delay = some (.ok bs)) fs written)
    (hsize : written.flatten.length ≤ maxPacketSize)
    (hlast : ∀ f ∈ fs.dropLast, f.openEnded = false)
    (hfs : ∀ f ∈ fs, f.Sendable packetNumber len) (hrange : ∀ f ∈ fs, f.EndsInRange)
    (hopen : openPacket data packetNumber header = .ok (written.flatten, level))
    (hlevel : level ≠ .unspecified ∧ level ≠ .unencrypted) :
    ∃ fs', unpack o openPacket header packetNumber len data = .ok ⟨level, fs'⟩ ∧
      List.Forall₂ Frame.SameFrame fs fs' := by
  obtain ⟨fs', hread, hsame⟩ := readItems_write hlevel hwrite hsize hfs hrange hlast
  refine ⟨fs', ?_, hsame⟩
  have hbytes : written.flatten.length ≠ 0 := by
    intro hzero
    rw [length_eq_zero_iff.mp hzero] at hread
    cases hread
    cases hsame
    exact hne rfl
  rw [unpack, hopen]
  simp only [if_neg hbytes, hread]
  rfl

/-- Four frames, the last of them without a length. -/
theorem payload_self_delimiting_four :
    ∃ fs', unpack .bigEndian (fun data _ _ => .ok (data, .forwardSecure)) [] 9 .len2
        [0x07, 0x06, 0, 4, 0x12, 2, 1, 3, 0x21, 0xC4, 0x80, 5, 1, 2] = .ok ⟨.forwardSecure, fs'⟩ ∧
      List.Forall₂ Frame.SameFrame [.ping, .stopWaiting ⟨5, some .len2, 9⟩,
        .paths ⟨2, 1, [3], [20000000]⟩, .stream ⟨⟨0, [1, 2], false⟩, 5, false⟩] fs' := by
  refine payload_self_delimiting .bigEndian (fun _ => 0) _ [] _ 9 .len2 .forwardSecure _
    [[0x07], [0x06, 0, 4], [0x12, 2, 1, 3, 0x21, 0xC4], [0x80, 5, 1, 2]] (cons_ne_nil _ _)
    ?_ (by decide) (by decide) ?_ ?_ rfl (by decide)
  · exact .cons (by decide) (.cons (by decide) (.cons (by decide +kernel) (.cons (by decide) .nil)))
  · have hpaths : (Frame.paths ⟨2, 1, [3], [20000000]⟩).Sendable 9 .len2 := by
      refine ⟨by decide, fun d hd => ?_⟩
      obtain rfl := mem_singleton.mp hd
      exact ⟨0x21C4, by decide, by decide⟩
    have hstop : (Frame.stopWaiting ⟨5, some .len2, 9⟩).Sendable 9 .len2 :=
      ⟨rfl, rfl, by decide, by decide⟩
    have hstream : (Frame.stream ⟨⟨0, [1, 2], false⟩, 5, false⟩).Sendable 9 .len2 :=
      ⟨by decide, by decide⟩
    simp only [forall_mem_cons]
    exact ⟨trivial, hstop, hpaths, hstream, by simp⟩
  · simp [Frame.EndsInRange]

/-- A STREAM frame whose last byte has the largest offset is written, and refused. -/
theorem payload_beyond_offset_refused :
    (Frame.stream ⟨⟨2 ^ 64 - 1, [7], false⟩, 3, true⟩).Sendable 1 .len1 ∧
      (Frame.stream ⟨⟨2 ^ 64 - 1, [7], false⟩, 3, true⟩).write .bigEndian (fun _ => 0) =
        some (.ok [0xBC, 3, 255, 255, 255, 255, 255, 255, 255, 255, 0, 1, 7]) ∧
      unpack .bigEndian (fun data _ _ => .ok (data, .forwardSecure)) [] 1 .len1
        [0xBC, 3, 255, 255, 255, 255, 255, 255, 255, 255, 0, 1, 7] =
          .error (.invalidStreamData .dataOverflowsMaximumOffset) :=
  ⟨⟨by decide, by decide⟩, by decide +kernel, by decide +kernel⟩

end RlncStreaming.Quic
