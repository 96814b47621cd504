import RlncStreaming.Lib.Loops
import RlncStreaming.Quic.PublicHeader
import RlncStreaming.Quic.ReceivedPackets
import RlncStreaming.Quic.SentPackets
import RlncStreaming.Quic.SessionStreams

/-!
The frames of a received packet (`session.go`: `handleFrames` and the functions that it
calls; `path_manager.go`: `handleAddAddressFrame`, `createPaths`, `closePath`).

The peer chooses the path ids in ACK, CLOSE_PATH and PATHS frames. Only the handler of
CLOSE_PATH frames looks whether there is such a path; the two others use what the lookup
gives, and a frame for an unknown path makes them dereference a nil pointer
(`unknown_path_dereferenced`). This is the only way in which the handling of frames can
crash (`handleFrames_safe_iff`). Paths are never removed, so frames for the paths that are
there in the beginning are safe (`handleFrames_of_knows`).
-/

namespace RlncStreaming.Quic

open Lib Option

/-! ### The receiving side of a session -/

/-- `streamsMap` and `flowControlManager`, as far as frames of the peer reach them. Errors
are texts. -/
class StreamLayer (φ : Type) where
  /-- `GetOrOpenStream`; the result is `false` for a stream that was closed. -/
  getOrOpenStream : φ → Nat → Except String Bool × φ
  addStreamFrame : φ → OutFrame → Option String × φ
  registerRemoteError : φ → Nat → String → φ
  resetStream : φ → Nat → Nat → Option String × φ
  updateWindow : φ → Nat → Nat → Option String × φ

/-- Streams that take everything. -/
instance : StreamLayer Unit where
  getOrOpenStream _ _ := (.ok true, ())
  addStreamFrame _ _ := (none, ())
  registerRemoteError _ _ _ := ()
  resetStream _ _ _ := (none, ())
  updateWindow _ _ _ := (none, ())

/-- The streams and the flow control of a session. Errors go by their names. -/
instance : StreamLayer SessionStreams where
  getOrOpenStream s id :=
    match s.getOrOpenStream id.toUInt32 with
    | none => (.ok false, s)
    | some (s, .error e) => (.error (reprStr e), s)
    | some (s, .ok str) => (.ok str.isSome, s)
  addStreamFrame s frame :=
    match s.table.streams frame.streamID.toUInt32 with
    | none => (none, s)
    | some str =>
      let (s, e) := s.addStreamFrame frame.streamID.toUInt32 str frame.toStreamFrame
      (e.map reprStr, s)
  registerRemoteError s id err :=
    match s.table.streams id.toUInt32 with
    | none => s
    | some str => s.setStream id.toUInt32 (str.registerRemoteError (some err))
  resetStream s id byteOffset :=
    let (e, flowControl) := s.flowControl.resetStream id.toUInt32 byteOffset.toUInt64
    (e.map reprStr, { s with flowControl })
  updateWindow s id byteOffset :=
    let (s, e) := s.updateWindow id.toUInt32 byteOffset.toUInt64
    (e.map reprStr, s)

inductive SessionError where
  /-- `unimplemented: handling GOAWAY frames` -/
  | goaway
  /-- `errRstStreamOnInvalidStream` -/
  | rstStreamOnInvalidStream
  /-- `errWindowUpdateOnClosedStream` -/
  | windowUpdateOnClosedStream
  /-- `ErrUnknownIPVersion` -/
  | unknownIPVersion
  /-- `Unknown path ID to close` -/
  | unknownPathToClose
  /-- `errConflictingDiversificationNonces` -/
  | conflictingDiversificationNonces
  /-- An error of a stream or of the flow control. -/
  | stream (e : String)
  | sendPing (e : String)
  | ack (e : HandlerError)
  | path (e : PathError)
  | unpack (e : UnpackError)
  | receivedPacket (e : ReceivedPacketError)
  /-- The error of a CONNECTION_CLOSE frame. -/
  | peer (errorCode : Nat) (reasonPhrase : List UInt8)
deriving DecidableEq, Repr

/-- The errors that `handleFrames` passes over. -/
def SessionError.ignored : SessionError → Bool
  | .ack .duplicateOrOutOfOrderAck => true
  | .rstStreamOnInvalidStream => true
  | .windowUpdateOnClosedStream => true
  | _ => false

/-- `closeError`. -/
structure SessionCloseError where
  err : SessionError
  remote : Bool
deriving DecidableEq, Repr

/-- `receivedPacket`. The zero time is `none`. -/
structure ReceivedPacket where
  remoteAddr : String
  publicHeader : PublicHeader
  /-- `publicHeader.Raw` -/
  raw : List UInt8
  data : List UInt8
  rcvTime : Option Nat
  /-- The address of `rcvPconn`. -/
  localAddr : String
deriving DecidableEq, Repr

/-- What `path` has beside its id, its connection and its packet numbers. -/
structure PathState where
  isOpen : Bool
  /-- `closeChan` has a request for the goroutine of the path. -/
  closeRequested : Bool
  potentiallyFailed : Bool
  lastRcvdPacketNumber : Nat
  largestRcvdPacketNumber : Nat
  lastNetworkActivityTime : Nat
  sentPacketHandler : SentPacketHandler Nat
  receivedPacketHandler : ReceivedPacketHandler
deriving DecidableEq, Repr

/-- A new path after `setup`. -/
def PathState.setup (now : Nat) (version : Int) : PathState :=
  ⟨true, false, false, 0, 0, now, newSentPacketHandler, newReceivedPacketHandler version⟩

/-- A local address with its IP version. -/
structure LocalAddr where
  ipVersion : Nat
  addr : String
deriving DecidableEq, Repr

/-- What the handling of a frame takes from outside. -/
structure Outside where
  now : Nat
  readings : Readings
  /-- `rttStats.SmoothedRTT()` of the paths, by their positions. -/
  smoothedRTT : Nat → Int
  /-- `sendPing` on a new path: its record of sent packets after the call, and the error. -/
  sendPing : Nat → SentPacketHandler Nat × Option String
  /-- `net.UDPAddr.String` -/
  addrString : List UInt8 → Int → String

/-- What packets of the peer reach of `session`. The session's perspective and its table of
paths are in the path manager. -/
structure Receiver (φ : Type) where
  version : Int
  pathManager : PathManager
  /-- `pathManager != nil`; sessions of benchmarks are without a path manager. -/
  managed : Bool
  /-- The paths that were ever set up, by their positions. -/
  states : Nat → PathState
  closedPaths : UInt8 → Bool
  createPaths : Bool
  remoteAddrs4 : List String
  remoteAddrs6 : List String
  /-- `pconnMgr.localAddrs` -/
  localAddrs : List LocalAddr
  advertisedLocAddrs : List String
  remoteRTTs : UInt8 → Option Int
  /-- `streamFramer.addAddressFrameQueue` -/
  addAddressFrameQueue : List LocalAddr
  /-- `streamFramer.pathsFrame` -/
  pathsFrame : Option PathsFrame
  lastPathsFrameSent : Nat
  streams : φ
  peerBlocked : Bool
  /-- `cryptoSetup.diversificationNonce` of a client. -/
  diversificationNonce : List UInt8
  handshakeComplete : Bool
  undecryptablePackets : List ReceivedPacket
  receivedTooManyUndecrytablePacketsTime : Option Nat
  lastNetworkActivityTime : Nat
  keepAlivePingSent : Bool
  /-- What `closeChan` got. -/
  closed : Option SessionCloseError

/-- A session after `setup`, with its initial path. -/
def newReceiver {φ : Type} (perspective : Perspective) (version : Int) (createPaths : Bool)
    (conn : Conn) (remoteIPVersion : Nat) (localAddrs : List LocalAddr) (now : Nat) (streams : φ) :
    Receiver φ where
  version := version
  pathManager := .setup perspective conn
  managed := true
  states := fun _ => .setup now version
  closedPaths := fun _ => false
  createPaths := createPaths
  remoteAddrs4 := if remoteIPVersion = 4 then [conn.remoteAddr] else []
  remoteAddrs6 := if remoteIPVersion = 4 then [] else [conn.remoteAddr]
  localAddrs := localAddrs
  advertisedLocAddrs := []
  remoteRTTs := fun _ => none
  addAddressFrameQueue := []
  pathsFrame := none
  lastPathsFrameSent := 0
  streams := streams
  peerBlocked := false
  diversificationNonce := []
  handshakeComplete := false
  undecryptablePackets := []
  receivedTooManyUndecrytablePacketsTime := none
  lastNetworkActivityTime := now
  keepAlivePingSent := false
  closed := none

namespace Receiver

variable {φ : Type}

/-- The lookup in `paths`; the result is the position of a path. -/
def paths (s : Receiver φ) (id : UInt8) : Option Nat := s.pathManager.paths.lookup id

def setState (i : Nat) (pth : PathState) (s : Receiver φ) : Receiver φ :=
  { s with states := fun j => if j = i then pth else s.states j }

@[simp] theorem setState_self (i : Nat) (pth : PathState) (s : Receiver φ) :
    (s.setState i pth).states i = pth := if_pos rfl

theorem setState_of_ne {i j : Nat} (h : j ≠ i) (pth : PathState) (s : Receiver φ) :
    (s.setState i pth).states j = s.states j := if_neg h

/-- What `closeOnce` guards. -/
def close (e : SessionCloseError) (s : Receiver φ) : Receiver φ :=
  if s.closed.isSome then s else { s with closed := some e }

def closeLocal (e : SessionError) (s : Receiver φ) : Receiver φ := s.close ⟨e, false⟩

def closeRemote (e : SessionError) (s : Receiver φ) : Receiver φ := s.close ⟨e, true⟩

/-! ### Frames of streams -/

section Streams

variable [StreamLayer φ]

/-- `GetOrOpenStream`, and what follows if the stream is there. If it was closed the result is
`closed`. -/
def onStream (id : Nat) (closed : Option SessionError) (act : φ → Option String × φ)
    (s : Receiver φ) : Receiver φ × Option SessionError :=
  match StreamLayer.getOrOpenStream s.streams id with
  | (.error e, streams) => ({ s with streams }, some (.stream e))
  | (.ok false, streams) => ({ s with streams }, closed)
  | (.ok true, streams) =>
    let (e, streams) := act streams
    ({ s with streams }, e.map .stream)

/-- `handleStreamFrame`. -/
def handleStreamFrame (frame : OutFrame) : Receiver φ → Receiver φ × Option SessionError :=
  onStream frame.streamID none fun streams => StreamLayer.addStreamFrame streams frame

/-- `handleRstStreamFrame`. -/
def handleRstStreamFrame (frame : RstStreamFrame) : Receiver φ → Receiver φ × Option SessionError :=
  onStream frame.streamID (some .rstStreamOnInvalidStream) fun streams =>
    StreamLayer.resetStream (StreamLayer.registerRemoteError streams frame.streamID
        ("RST_STREAM received with code " ++ toString frame.errorCode))
      frame.streamID frame.byteOffset

/-- `handleWindowUpdateFrame`. The window of stream 0 is the one of the connection. -/
def handleWindowUpdateFrame (frame : WindowUpdateFrame) (s : Receiver φ) :
    Receiver φ × Option SessionError :=
  if frame.streamID ≠ 0 then
    s.onStream frame.streamID (some .windowUpdateOnClosedStream) fun streams =>
      StreamLayer.updateWindow streams frame.streamID frame.byteOffset
  else
    let (e, streams) := StreamLayer.updateWindow s.streams frame.streamID frame.byteOffset
    ({ s with streams }, e.map .stream)

end Streams

section SessionStreams

variable {s : Receiver SessionStreams}

/-- `GetOrOpenStream` on them, and what follows for a stream that is in the table. -/
theorem streams_onStream {id : Nat} {closed : Option SessionError}
    {closed' : Option StreamLayerError} {act : SessionStreams → Option String × SessionStreams}
    {act' : SessionStreams → SessionStream → SessionStreams × Option StreamLayerError}
    (hact : ∀ t str, t.table.streams id.toUInt32 = some str → (act t).2 = (act' t str).1) :
    (s.onStream id closed act).1.streams =
      (match s.streams.getOrOpenStream id.toUInt32 with
        | none => (s.streams, none)
        | some (t, .error e) => (t, some (StreamLayerError.streams e))
        | some (t, .ok none) => (t, closed')
        | some (t, .ok (some str)) => act' t str).1 := by
  simp only [onStream, StreamLayer.getOrOpenStream]
  cases hget : s.streams.getOrOpenStream id.toUInt32 with
  | none => rfl
  | some found =>
    obtain ⟨t, e | (_ | str)⟩ := found
    · rfl
    · rfl
    · obtain ⟨⟨m, r⟩, hr, heq⟩ := map_eq_some_iff.mp hget
      cases heq
      exact hact _ str (StreamTable.getOrOpenStream_found hr)

/-- The handlers of STREAM, RST_STREAM and WINDOW_UPDATE frames are those of `SessionStreams`. -/
theorem streams_handleStreamFrame (frame : OutFrame) : (s.handleStreamFrame frame).1.streams =
    (s.streams.handleStreamFrame frame.streamID.toUInt32 frame.toStreamFrame).1 := by
  refine streams_onStream fun t str hstr => ?_
  simp only [StreamLayer.addStreamFrame, hstr]

theorem streams_handleRstStreamFrame (frame : RstStreamFrame) :
    (s.handleRstStreamFrame frame).1.streams = (s.streams.handleRstStreamFrame
      frame.streamID.toUInt32 frame.byteOffset.toUInt64 frame.errorCode).1 := by
  refine streams_onStream fun t str hstr => ?_
  simp only [StreamLayer.registerRemoteError, hstr]
  rfl

theorem streams_handleWindowUpdateFrame {frame : WindowUpdateFrame}
    (hid : frame.streamID < 2 ^ 32) :
    (s.handleWindowUpdateFrame frame).1.streams = (s.streams.handleWindowUpdateFrame
      frame.streamID.toUInt32 frame.byteOffset.toUInt64).1 := by
  rw [handleWindowUpdateFrame, SessionStreams.handleWindowUpdateFrame]
  by_cases hzero : frame.streamID = 0
  · rw [if_neg (not_not.mpr hzero), hzero]
    rfl
  · have hne : frame.streamID.toUInt32 ≠ 0 := fun h => hzero (by
      have := congrArg UInt32.toNat h
      rwa [UInt32.toNat_ofNat_of_lt' hid] at this)
    rw [if_pos hzero, if_neg hne]
    exact streams_onStream fun _ _ _ => rfl

end SessionStreams

/-! ### Frames of paths

The result is `none` if a nil pointer is dereferenced. -/

/-- `handleAckFrame`, without the RTT of the session. -/
def handleAckFrame (r : Readings) (frame : AckFrame) (s : Receiver φ) :
    Option (Receiver φ × Option SessionError) :=
  match s.paths frame.pathID with
  | none => none
  | some i =>
    let pth := s.states i
    let result := pth.sentPacketHandler.receivedAck r frame pth.lastRcvdPacketNumber
    some (s.setState i { pth with sentPacketHandler := result.handler }, result.error.map .ack)

/-- `closePath` of the session and of the path manager, without a CLOSE_PATH frame in return. -/
def closePath (pthID : UInt8) (s : Receiver φ) : Except SessionError (Receiver φ) :=
  match s.paths pthID with
  | none => .error .unknownPathToClose
  | some i =>
    if s.closedPaths pthID then .ok s
    else
      let pth := s.states i
      let s :=
        if s.managed && pth.isOpen then s.setState i { pth with closeRequested := true } else s
      .ok { s with closedPaths := fun id => id = pthID || s.closedPaths id }

/-- `handleClosePathFrame`. -/
def handleClosePathFrame (frame : ClosePathFrame) (s : Receiver φ) :
    Option (Receiver φ × Option SessionError) :=
  match s.closePath frame.pathID with
  | .error e => some (s, some e)
  | .ok s =>
    match s.paths frame.pathID with
    | none => none
    | some i =>
      let pth := s.states i
      let result := pth.sentPacketHandler.receivedClosePath frame pth.lastRcvdPacketNumber
      some (s.setState i { pth with sentPacketHandler := result.handler }, result.error.map .ack)

/-- `30 * time.Minute`. -/
def failedRTT : Int := 30 * 60 * 1000000000

/-- One round of the loop over a PATHS frame. -/
def handlePathsEntry (frame : PathsFrame) (k : Nat) (s : Receiver φ) : Option (Receiver φ) :=
  match frame.pathIDs[k]?, frame.remoteRTTs[k]? with
  | some id, some rtt =>
    let s := { s with remoteRTTs := fun id' => if id' = id then some rtt else s.remoteRTTs id' }
    if failedRTT ≤ rtt then
      (s.paths id).map fun i => s.setState i { s.states i with potentiallyFailed := true }
    else some s
  | _, _ => none

def handlePathsFrame (frame : PathsFrame) (s : Receiver φ) : Option (Receiver φ) :=
  forUp (handlePathsEntry frame) 0 frame.numPaths.toNat s

/-- `schedulePathsFrame`, with `AddPathsFrameForTransmission`. A path that may have failed is
reported with an RTT of an hour. -/
def schedulePathsFrame (out : Outside) (s : Receiver φ) : Receiver φ :=
  let entries := s.pathManager.paths
  { s with
    lastPathsFrameSent := out.now
    pathsFrame := some ⟨255, UInt8.ofNat entries.length, entries.map Prod.fst,
      entries.map fun entry =>
        if (s.states entry.2).potentiallyFailed then 60 * 60 * 1000000000
        else out.smoothedRTT entry.2⟩ }

/-! ### New addresses -/

/-- `createPath`. -/
def createPath (out : Outside) (conn : Conn) (s : Receiver φ) : Receiver φ × Option SessionError :=
  if s.pathManager.hasConn conn then (s, none)
  else
    let i := s.pathManager.objects.length
    let (handler, e) := out.sendPing i
    let s := { s with pathManager := s.pathManager.createPath conn }
    (s.setState i { PathState.setup out.now s.version with sentPacketHandler := handler },
      e.map .sendPing)

/-- The loops of `createPaths`, which end with the first error. -/
def createEach (out : Outside) : List Conn → Receiver φ → Receiver φ × Option SessionError
  | [], s => (s.schedulePathsFrame out, none)
  | conn :: conns, s =>
    match s.createPath out conn with
    | (s, some e) => (s, some e)
    | (s, none) => createEach out conns s

/-- `advertiseAddresses`, for one address. -/
def advertise (s : Receiver φ) (locAddr : LocalAddr) : Receiver φ :=
  if locAddr.addr ∈ s.advertisedLocAddrs then s
  else
    { s with
      addAddressFrameQueue := s.addAddressFrameQueue ++ [locAddr]
      advertisedLocAddrs := locAddr.addr :: s.advertisedLocAddrs }

/-- `createPaths`. A server only advertises its addresses. -/
def createNewPaths (out : Outside) (s : Receiver φ) : Receiver φ × Option SessionError :=
  match s.pathManager.perspective with
  | .server => (s.localAddrs.foldl advertise s, none)
  | .client =>
    s.createEach out (s.localAddrs.flatMap fun locAddr =>
      (if locAddr.ipVersion = 4 then s.remoteAddrs4 else s.remoteAddrs6).map fun remAddr =>
        ⟨locAddr.addr, remAddr⟩)

/-- `handleAddAddressFrame`. -/
def handleAddAddressFrame (out : Outside) (f : AddAddressFrame) (s : Receiver φ) :
    Receiver φ × Option SessionError :=
  let addr := out.addrString f.ip f.port
  if f.ipVersion = 4 then
    let s := { s with remoteAddrs4 := s.remoteAddrs4 ++ [addr] }
    if s.createPaths then s.createNewPaths out else (s, none)
  else if f.ipVersion = 6 then
    let s := { s with remoteAddrs6 := s.remoteAddrs6 ++ [addr] }
    if s.createPaths then s.createNewPaths out else (s, none)
  else (s, some .unknownIPVersion)

/-! ### The loop over the frames -/

variable [StreamLayer φ]

/-- The `switch` of `handleFrames`, for a packet on the path at `p`. -/
def handleFrame (p : Nat) (out : Outside) (s : Receiver φ) :
    Frame OutFrame → Option (Receiver φ × Option SessionError)
  | .stream f => some (s.handleStreamFrame f)
  | .ack f => s.handleAckFrame out.readings f
  | .connectionClose f => some (s.closeRemote (.peer f.errorCode f.reasonPhrase), none)
  | .goaway _ => some (s, some .goaway)
  | .stopWaiting f =>
    let pth := s.states p
    some (s.setState p { pth with
      receivedPacketHandler := pth.receivedPacketHandler.setLowerLimit (sub64 f.leastUnacked 1) },
      none)
  | .rstStream f => some (s.handleRstStreamFrame f)
  | .windowUpdate f => some (s.handleWindowUpdateFrame f)
  | .blocked _ => some ({ s with peerBlocked := true }, none)
  | .ping => some (s, none)
  | .addAddress f =>
    if s.managed then
      let (s, e) := s.handleAddAddressFrame out f
      some (s.schedulePathsFrame out, e)
    else some (s, none)
  -- The error is dropped.
  | .closePath f => (s.handleClosePathFrame f).map fun result => (result.1, none)
  | .paths f => (s.handlePathsFrame f).map fun s => (s, none)

/-- One round of the loop, for the frame at a position. -/
def handleNext (p : Nat) (out : Nat → Outside) (s : Receiver φ) (next : Frame OutFrame × Nat) :
    Option (Receiver φ × Option SessionError) :=
  (s.handleFrame p (out next.2) next.1).map fun result =>
    (result.1, result.2.filter fun e => !e.ignored)

/-- `handleFrames`. The frame at position `n` meets `out n`. -/
def handleFrames (p : Nat) (out : Nat → Outside) (fs : List (Frame OutFrame)) (s : Receiver φ) :
    Option (Receiver φ × Option SessionError) :=
  runUntil (handleNext p out) s fs.zipIdx

end Receiver

/-! ### What the unpacker accepts -/

/-- A PATHS frame has as many path ids and RTTs as it says. -/
def Frame.Counted {σ : Type} : Frame σ → Prop
  | .paths f => f.pathIDs.length = f.numPaths.toNat ∧ f.remoteRTTs.length = f.numPaths.toNat
  | _ => True

variable {f : Frame OutFrame}

section Counted

variable {o : ByteOrder} {bs rest : List UInt8}

theorem parsePaths_counted {n : Nat} {paths : List UInt8 × List Int}
    (h : parsePaths o n bs = .ok (paths, rest)) : paths.1.length = n ∧ paths.2.length = n := by
  induction n generalizing bs paths rest with
  | zero =>
    cases h
    exact ⟨rfl, rfl⟩
  | succ n ih =>
    simp only [parsePaths, bind_eq_ok, pure_eq_ok, Prod.exists, Prod.mk.injEq] at h
    obtain ⟨_, _, -, _, _, -, ids, rtts, _, hrest, rfl, -⟩ := h
    obtain ⟨hids, hrtts⟩ := ih hrest
    simp only [List.length_cons, hids, hrtts, and_self]

theorem parsePathsFrame_counted {f : PathsFrame} (h : parsePathsFrame o bs = .ok (f, rest)) :
    Frame.Counted (.paths f : Frame OutFrame) := by
  simp only [parsePathsFrame, bind_eq_ok, guard_eq_ok, pure_eq_ok, Prod.exists, Prod.mk.injEq] at h
  obtain ⟨_, _, -, _, _, -, _, _, -, -, _, _, _, hpaths, rfl, -⟩ := h
  exact parsePaths_counted hpaths

theorem wrap_counted {α : Type} {code : WireError → UnpackError} {frame : α → Frame OutFrame}
    {result : Except WireError (α × List UInt8)}
    (hframe : ∀ a rest, result = .ok (a, rest) → (frame a).Counted)
    (h : wrap code frame result = .ok (f, rest)) : f.Counted := by
  cases result with
  | error e => cases h
  | ok value =>
    cases h
    exact hframe _ _ rfl

theorem wrapStream_counted {level : EncryptionLevel}
    {result : Except WireError (OutFrame × List UInt8)}
    (h : wrapStream level result = .ok (f, rest)) : f.Counted := by
  cases result with
  | error e => cases h
  | ok value =>
    rw [wrapStream] at h
    split at h
    · cases h
    cases h
    trivial

theorem parseFrame_counted {level : EncryptionLevel} {packetNumber : Nat} {len : PacketNumberLen}
    {typeByte : UInt8} (h : parseFrame o level packetNumber len typeByte bs = .ok (f, rest)) :
    f.Counted := by
  rw [parseFrame] at h
  refine of_ite_eq h wrapStream_counted fun h => ?_
  refine of_ite_eq h (wrap_counted fun _ _ _ => trivial) fun h => ?_
  refine of_ite_eq h (fun h => by cases h) fun h => ?_
  iterate 9 refine of_ite_eq h (wrap_counted fun _ _ _ => trivial) fun h => ?_
  exact of_ite_eq h (wrap_counted fun _ _ => parsePathsFrame_counted) fun h => by cases h

theorem unpack_counted {openPacket : OpenPacket} {header data : List UInt8} {packetNumber : Nat}
    {len : PacketNumberLen} {packet : UnpackedPacket}
    (h : unpack o openPacket header packetNumber len data = .ok packet) :
    ∀ f ∈ packet.frames, f.Counted :=
  forall_mem_unpack (fun _ _ _ _ _ hparse => parseFrame_counted hparse) h

end Counted

/-! ### Lookups of paths -/

namespace Receiver

variable {φ : Type} {s s' : Receiver φ}

/-- The paths that the handler of a frame uses without a check are there. -/
def Knows {σ : Type} (s : Receiver φ) : Frame σ → Prop
  | .ack f => (s.paths f.pathID).isSome = true
  | .paths f => ∀ entry ∈ f.pathIDs.zip f.remoteRTTs, failedRTT ≤ entry.2 →
      (s.paths entry.1).isSome = true
  | _ => True

/-- A frame of the peer leaves the paths as they are, or adds some. -/
def Grows (s s' : Receiver φ) : Prop :=
  ∀ id, (s.paths id).isSome = true → (s'.paths id).isSome = true

theorem Grows.of_eq (h : s'.pathManager = s.pathManager) : s.Grows s' := by
  intro id hid
  rw [paths, h]
  exact hid

theorem Grows.trans {s'' : Receiver φ} (h : s.Grows s') (h' : s'.Grows s'') : s.Grows s'' :=
  fun id hid => h' id (h id hid)

theorem Knows.grows (h : s.Grows s') (hf : s.Knows f) : s'.Knows f := by
  cases f with
  | ack f => exact h _ hf
  | paths f => exact fun entry hmem hfailed => h _ (hf entry hmem hfailed)
  | _ => trivial

/-! #### PATHS frames -/

section

variable {frame : PathsFrame}

theorem handlePathsEntry_pathManager {k : Nat} (h : handlePathsEntry frame k s = some s') :
    s'.pathManager = s.pathManager := by
  rw [handlePathsEntry] at h
  split at h
  · next id rtt _ _ =>
    simp only at h
    split at h
    · obtain ⟨i, -, rfl⟩ := map_eq_some_iff.mp h
      rfl
    · cases h
      rfl
  · cases h

theorem handlePathsEntry_isSome_iff {k : Nat} {id : UInt8} {rtt : Int}
    (hid : frame.pathIDs[k]? = some id) (hrtt : frame.remoteRTTs[k]? = some rtt) :
    (handlePathsEntry frame k s).isSome = true ↔
      (failedRTT ≤ rtt → (s.paths id).isSome = true) := by
  rw [handlePathsEntry, hid, hrtt]
  simp only
  split
  · next hfailed =>
    rw [isSome_map]
    exact ⟨fun h _ => h, fun h => h hfailed⟩
  · next hfine => exact ⟨fun _ h => absurd h hfine, fun _ => rfl⟩

theorem handlePathsFrame_isSome_iff (hcount : Frame.Counted (.paths frame : Frame OutFrame)) :
    (s.handlePathsFrame frame).isSome = true ↔ s.Knows (.paths frame : Frame OutFrame) := by
  obtain ⟨hids, hrtts⟩ := hcount
  have hentry : ∀ k < frame.numPaths.toNat, ∃ id rtt,
      frame.pathIDs[k]? = some id ∧ frame.remoteRTTs[k]? = some rtt := by
    intro k hk
    exact ⟨_, _, List.getElem?_eq_getElem (by omega), List.getElem?_eq_getElem (by omega)⟩
  constructor
  · intro hsome entry hmem hfailed
    obtain ⟨k, hk⟩ := List.mem_iff_getElem?.mp hmem
    obtain ⟨hid, hrtt⟩ := List.getElem?_zip_eq_some.mp hk
    by_contra hunknown
    -- The table is the same in every round, so the round of this entry crashes.
    have hcrash : s.handlePathsFrame frame = none := by
      refine forUp_crash (fun s' => s'.pathManager = s.pathManager)
        (fun _ _ _ hs h => (handlePathsEntry_pathManager h).trans hs) (fun s' hs => ?_) rfl
        (Nat.zero_le k) ?_
      · rw [← not_isSome_iff_eq_none, handlePathsEntry_isSome_iff hid hrtt, paths, hs]
        exact fun h => hunknown (h hfailed)
      · have := (List.getElem?_eq_some_iff.mp hid).1
        omega
    rw [hcrash] at hsome
    cases hsome
  · intro hknows
    obtain ⟨s', hs', -⟩ := forUp_inv (fun _ s' => s'.pathManager = s.pathManager)
      (handlePathsEntry frame) 0 frame.numPaths.toNat (s := s) rfl fun k s' _ hk hs => by
        obtain ⟨id, rtt, hid, hrtt⟩ := hentry k (by omega)
        have hmem : (id, rtt) ∈ frame.pathIDs.zip frame.remoteRTTs :=
          List.mem_iff_getElem?.mpr ⟨k, List.getElem?_zip_eq_some.mpr ⟨hid, hrtt⟩⟩
        have hsome : (handlePathsEntry frame k s').isSome = true := by
          rw [handlePathsEntry_isSome_iff hid hrtt, paths, hs]
          exact hknows (id, rtt) hmem
        obtain ⟨s'', hs''⟩ := isSome_iff_exists.mp hsome
        exact ⟨s'', hs'', (handlePathsEntry_pathManager hs'').trans hs⟩
    rw [handlePathsFrame, hs']
    rfl

end

/-! #### CLOSE_PATH frames -/

theorem handleClosePathFrame_spec (frame : ClosePathFrame) (s : Receiver φ) :
    ∃ result, s.handleClosePathFrame frame = some result ∧
      result.1.pathManager = s.pathManager := by
  rw [handleClosePathFrame]
  split
  · exact ⟨_, rfl, rfl⟩
  rename_i s' hclose
  rw [closePath] at hclose
  split at hclose
  · cases hclose
  rename_i i hi
  have hsame : s'.pathManager = s.pathManager := by
    split at hclose
    · cases hclose
      rfl
    cases hclose
    simp only
    split
    · rfl
    · rfl
  have hi' : s'.paths frame.pathID = some i := by rw [paths, hsame]; exact hi
  rw [hi']
  exact ⟨_, rfl, hsame⟩

/-! #### ADD_ADDRESS frames -/

theorem createPath_grows (out : Outside) (conn : Conn) (s : Receiver φ) :
    s.Grows (s.createPath out conn).1 := by
  rw [createPath]
  split
  · exact .of_eq rfl
  rename_i hnew
  intro id hid
  have hcreate : s.pathManager.createPath conn =
      { s.pathManager.addPath s.pathManager.nxtPathID conn with
        nxtPathID := s.pathManager.nxtPathID + 2 } := if_neg hnew
  simp only [paths, setState, hcreate, PathManager.lookup_addPath]
  split
  · rfl
  · exact hid

theorem createEach_grows (out : Outside) (conns : List Conn) (s : Receiver φ) :
    s.Grows (s.createEach out conns).1 := by
  induction conns generalizing s with
  | nil => exact .of_eq rfl
  | cons conn conns ih =>
    have hfirst := createPath_grows out conn s
    rw [createEach]
    split
    · next s' e hcreate =>
      rw [hcreate] at hfirst
      exact hfirst
    · next s' hcreate =>
      rw [hcreate] at hfirst
      exact hfirst.trans (ih s')

theorem advertise_pathManager (addrs : List LocalAddr) :
    (addrs.foldl advertise s).pathManager = s.pathManager := by
  induction addrs generalizing s with
  | nil => rfl
  | cons addr addrs ih =>
    rw [List.foldl_cons, ih, advertise]
    split
    · rfl
    · rfl

theorem createNewPaths_grows (out : Outside) :
    s.Grows (s.createNewPaths out).1 := by
  rw [createNewPaths]
  split
  · exact .of_eq (advertise_pathManager _)
  · exact createEach_grows out _ s

theorem handleAddAddressFrame_grows (out : Outside) (f : AddAddressFrame) :
    s.Grows (s.handleAddAddressFrame out f).1 := by
  -- The new address is noted before paths are created.
  have hnoted : ∀ s' : Receiver φ, s'.pathManager = s.pathManager →
      s.Grows (if s'.createPaths then s'.createNewPaths out else (s', none)).1 := by
    intro s' hs'
    split
    · exact (Grows.of_eq hs').trans (createNewPaths_grows out)
    · exact .of_eq hs'
  rw [handleAddAddressFrame]
  split
  · exact hnoted _ rfl
  split
  · exact hnoted _ rfl
  · exact .of_eq rfl

/-! #### All frames -/

variable [StreamLayer φ]

theorem onStream_pathManager (id : Nat) (closed : Option SessionError)
    (act : φ → Option String × φ) :
    (s.onStream id closed act).1.pathManager = s.pathManager := by
  rw [onStream]
  split
  · rfl
  · rfl
  · rfl

theorem handleFrame_grows {p : Nat} {out : Outside} {e : Option SessionError}
    (h : s.handleFrame p out f = some (s', e)) : s.Grows s' := by
  cases f with
  | stream f =>
    obtain rfl : _ = s' := congrArg Prod.fst (some.inj h)
    exact .of_eq (onStream_pathManager _ _ _)
  | ack f =>
    rw [handleFrame, handleAckFrame] at h
    split at h
    · cases h
    cases h
    exact .of_eq rfl
  | rstStream f =>
    obtain rfl : _ = s' := congrArg Prod.fst (some.inj h)
    exact .of_eq (onStream_pathManager _ _ _)
  | windowUpdate f =>
    obtain rfl : _ = s' := congrArg Prod.fst (some.inj h)
    refine .of_eq ?_
    rw [handleWindowUpdateFrame]
    split
    · exact onStream_pathManager _ _ _
    · rfl
  | connectionClose f =>
    obtain rfl : _ = s' := congrArg Prod.fst (some.inj h)
    refine .of_eq ?_
    rw [closeRemote, close]
    split
    · rfl
    · rfl
  | addAddress f =>
    rw [handleFrame] at h
    split at h
    · obtain rfl : _ = s' := congrArg Prod.fst (some.inj h)
      exact handleAddAddressFrame_grows out f
    · cases h
      exact .of_eq rfl
  | closePath f =>
    obtain ⟨result, hresult, hsame⟩ := handleClosePathFrame_spec f s
    rw [handleFrame, hresult] at h
    cases h
    exact .of_eq hsame
  | paths f =>
    rw [handleFrame] at h
    obtain ⟨_, hpaths, hresult⟩ := map_eq_some_iff.mp h
    cases hresult
    exact .of_eq (forUp_keeps
      (fun _ _ _ hs hentry => (handlePathsEntry_pathManager hentry).trans hs) rfl hpaths)
  | _ =>
    cases h
    exact .of_eq rfl

theorem handleFrames_grows {p : Nat} {out : Nat → Outside} {fs : List (Frame OutFrame)}
    {e : Option SessionError} (h : s.handleFrames p out fs = some (s', e)) : s.Grows s' := by
  refine runUntil_inv (fun s₁ next s₂ e hs₁ hnext => ?_) (Grows.of_eq rfl) h
  obtain ⟨result, hframe, hresult⟩ := map_eq_some_iff.mp hnext
  cases hresult
  exact hs₁.trans (handleFrame_grows hframe)

theorem handleFrame_isSome_iff (p : Nat) (out : Outside) (hcount : f.Counted) :
    (s.handleFrame p out f).isSome = true ↔ s.Knows f := by
  cases f with
  | ack f =>
    simp only [handleFrame, handleAckFrame, Knows]
    cases s.paths f.pathID with
    | none => simp
    | some i => simp
  | paths f =>
    rw [handleFrame, isSome_map]
    exact handlePathsFrame_isSome_iff hcount
  | closePath f =>
    obtain ⟨result, hresult, -⟩ := handleClosePathFrame_spec f s
    simp [handleFrame, hresult, Knows]
  | addAddress f =>
    simp only [handleFrame, Knows]
    split <;> simp
  | _ => simp [handleFrame, Knows]

theorem handleFrames_isSome_iff (p : Nat) (out : Nat → Outside) {fs : List (Frame OutFrame)}
    (hcount : ∀ f ∈ fs, f.Counted) :
    (s.handleFrames p out fs).isSome = true ↔ ∀ before f after s', fs = before ++ f :: after →
      s.handleFrames p out before = some (s', none) → s'.Knows f := by
  have hstep : ∀ (s : Receiver φ), ∀ next ∈ fs.zipIdx,
      (handleNext p out s next).isSome = true ↔ s.Knows next.1 := by
    intro s next hnext
    rw [handleNext, isSome_map]
    exact handleFrame_isSome_iff p _ (hcount _ (List.fst_mem_of_mem_zipIdx hnext))
  rw [handleFrames, runUntil_isSome_iff hstep]
  constructor
  · intro hreach before f after s' hframes hrun
    refine hreach before.zipIdx (f, before.length) (after.zipIdx (before.length + 1)) s' ?_ hrun
    rw [hframes, List.zipIdx_append, List.zipIdx_cons, Nat.zero_add]
  · intro hreach before next after s' hacts hrun
    obtain ⟨first, rest, hframes, rfl, hrest⟩ := List.zipIdx_eq_append_iff.mp hacts
    obtain ⟨f, fs, rfl, rfl, -⟩ := List.zipIdx_eq_cons_iff.mp hrest.symm
    exact hreach first f fs s' hframes hrun

variable {o : ByteOrder} {openPacket : OpenPacket} {header data : List UInt8} {packetNumber : Nat}
  {len : PacketNumberLen} {packet : UnpackedPacket}
  (hunpack : unpack o openPacket header packetNumber len data = .ok packet) (p : Nat)
  (out : Nat → Outside)

include hunpack

/-- Frames that name paths of the session only are safe, in whatever order they come. -/
theorem handleFrames_of_knows (hknows : ∀ f ∈ packet.frames, s.Knows f) :
    (s.handleFrames p out packet.frames).isSome = true := by
  refine (handleFrames_isSome_iff p out (unpack_counted hunpack)).mpr ?_
  intro before f after s' hframes hrun
  have hmem : f ∈ packet.frames := by rw [hframes]; simp
  exact (hknows f hmem).grows (handleFrames_grows hrun)

/-- The frames of a packet are handled without a nil pointer being dereferenced if and only
if each of them that is reached names paths that are there by then. -/
theorem handleFrames_safe_iff (s : Receiver φ) :
    (s.handleFrames p out packet.frames).isSome = true ↔
      ∀ before f after s', packet.frames = before ++ f :: after →
        s.handleFrames p out before = some (s', none) → s'.Knows f :=
  handleFrames_isSome_iff p out (unpack_counted hunpack)

end Receiver

/-- A server with its initial path only. -/
def onePath : Receiver Unit :=
  newReceiver .server 512 true ⟨"10.0.0.1:443", "10.0.0.2:5000"⟩ 4 [] 0 ()

/-- Nothing comes from outside. -/
def quiet : Outside where
  now := 0
  readings := unmeasured
  smoothedRTT := fun _ => 0
  sendPing := fun _ => (newSentPacketHandler, none)
  addrString := fun _ _ => ""

/-- A payload that is not encrypted. -/
def plainPayload : OpenPacket := fun data _ _ => .ok (data, .forwardSecure)

/-- The initial path is declared failed and an address is added before the ACK frame comes. -/
theorem handleFrames_of_knows_changed :
    let frames : List (Frame OutFrame) := [.paths ⟨255, 1, [0], [4396972769280000]⟩,
      .addAddress ⟨4, v4InV6Prefix ++ [10, 0, 0, 3], 443⟩, .blocked ⟨5⟩, .ack ⟨⟨0, 1, 1, []⟩, 0⟩]
    (onePath.handleFrames 0 (fun _ => quiet) frames).isSome = true := by
  intro frames
  have hunpack : unpack .bigEndian plainPayload [] 1 .len1 [0x12, 255, 1, 0, 0xff, 0xff,
      0x10, 4, 10, 0, 0, 3, 1, 187, 0x05, 0, 0, 0, 5, 0x40, 1, 0, 0, 1, 0] =
    .ok ⟨.forwardSecure, frames⟩ := by decide
  exact Receiver.handleFrames_of_knows hunpack 0 _
    (by simp [frames, Receiver.Knows]; exact ⟨fun _ => rfl, rfl⟩)

/-- The PATHS frame names the initial path, which it declares failed; the CLOSE_PATH frame
names a path that does not exist. -/
theorem handleFrames_safe_initial :
    let frames : List (Frame OutFrame) :=
      [.paths ⟨255, 1, [0], [4396972769280000]⟩, .closePath ⟨⟨9, 1, 1, []⟩⟩,
        .ack ⟨⟨0, 1, 1, []⟩, 0⟩]
    unpack .bigEndian plainPayload [] 1 .len1
      [0x12, 255, 1, 0, 0xff, 0xff, 0x11, 9, 0, 1, 1, 0x40, 1, 0, 0, 1, 0] =
        .ok ⟨.forwardSecure, frames⟩ ∧
      ∀ before f after s', frames = before ++ f :: after →
        onePath.handleFrames 0 (fun _ => quiet) before = some (s', none) → s'.Knows f := by
  intro frames
  have hunpack : unpack .bigEndian plainPayload [] 1 .len1
      [0x12, 255, 1, 0, 0xff, 0xff, 0x11, 9, 0, 1, 1, 0x40, 1, 0, 0, 1, 0] =
        .ok ⟨.forwardSecure, frames⟩ := by decide
  exact ⟨hunpack,
    (Receiver.handleFrames_safe_iff hunpack 0 (fun _ => quiet) onePath).mp (by decide)⟩

/-- An ACK frame for path 5, and a PATHS frame that declares path 7 failed. -/
theorem unknown_path_dereferenced :
    (unpack .bigEndian plainPayload [] 1 .len1 [0x50, 5, 1, 0, 0, 1, 0] =
        .ok ⟨.forwardSecure, [.ack ⟨⟨5, 1, 1, []⟩, 0⟩]⟩ ∧
      (onePath.handleFrames 0 (fun _ => quiet) [.ack ⟨⟨5, 1, 1, []⟩, 0⟩]).isNone = true) ∧
    (unpack .bigEndian plainPayload [] 1 .len1 [0x12, 255, 1, 7, 0xff, 0xff] =
        .ok ⟨.forwardSecure, [.paths ⟨255, 1, [7], [4396972769280000]⟩]⟩ ∧
      (onePath.handleFrames 0 (fun _ => quiet)
        [.paths ⟨255, 1, [7], [4396972769280000]⟩]).isNone = true) := by
  decide

end RlncStreaming.Quic
