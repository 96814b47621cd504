import RlncStreaming.Quic.FlowControl
import RlncStreaming.Quic.StreamTable

/-!
The streams of a session with their flow control (`session.go`, `stream.go`).

A stream has a receiving and a sending half, which share the error and the flags of `Reset` and
`RegisterRemoteError`. The session opens streams for frames of the peer, hands them STREAM,
RST_STREAM and WINDOW_UPDATE frames, and removes those that have finished. Bytes are charged to
the flow control when a frame arrives and credited when `Read` has copied them.

What a call does to the table, apart from `AcceptStream` and `garbageCollectStreams`, is a
sequence of `TableStep`s (`table_step`); the two rules `getOrOpenStream_rule` and `collect_rule`
are for what depends on the flow control as well.
-/

namespace RlncStreaming.Quic

open Lib Relation StreamTable

/-! ### Streams -/

/-- `stream`. -/
structure SessionStream where
  receiving : Stream
  sending : SendStream

/-- `newStream`. -/
def newSessionStream (id : UInt32) : SessionStream := ⟨newStream, newSendStream id.toNat⟩

/-- What the user and the framer do to a stream, apart from reading. -/
inductive StreamOp where
  | write (now : Nat) (p : List UInt8)
  | close
  | reset (err : Option String)
  | getDataForWriting (maxBytes : Nat)
  | sentFin
  | setReadDeadline (t : Option Nat)
  | setWriteDeadline (t : Option Nat)
deriving DecidableEq, Repr

namespace Stream

section

variable (s : Stream) (err : Option String)

/-- The receiving half when the stream is reset: the first error stays, and setting it wakes up
`Read`. -/
def reset : Stream :=
  let s := { s with resetLocally := true }
  if s.err = none then { s with err := err.map .stream, readChan := true } else s

/-- The receiving half when the session cancels the stream. -/
def cancel : Stream :=
  let s := { s with cancelled := true }
  if s.err = none then { s with err := err.map .stream, readChan := true } else s

/-- The receiving half when the peer has reset the stream. `Read` is not woken up. -/
def registerRemoteError : Stream :=
  if s.err = none then { s with err := err.map .stream } else s

end

/-- `SetReadDeadline`. An earlier deadline wakes up `Read`; the zero time is the earliest. -/
def setReadDeadline (s : Stream) (t : Option Nat) : Stream :=
  let earlier :=
    match t, s.readDeadline with
    | none, some _ => true
    | some t, some old => decide (t < old)
    | _, none => false
  { s with readDeadline := t, readChan := s.readChan || earlier }

/-- A turn of `Read` has copied from a frame. An empty frame is only there for its FIN bit. -/
def copied (before after : Stream) : Bool :=
  before.readOffset != after.readOffset || after.finishedReading

end Stream

/-- The stream after a turn of `Read`, if the turn does not crash. -/
def Progress.stream? : Progress → Option Stream
  | .running s _ => some s
  | .returned s _ _ => some s
  | .crashed => none

namespace SessionStream

section

variable (s : SessionStream)

def streamID : Nat := s.sending.streamID

/-- `Reset`. -/
def reset (err : Option String) : SessionStream :=
  if s.sending.resetLocally then s else ⟨s.receiving.reset err, s.sending.reset err⟩

/-- `RegisterRemoteError`. -/
def registerRemoteError (err : Option String) : SessionStream :=
  if s.sending.resetRemotely then s
  else ⟨s.receiving.registerRemoteError err, s.sending.registerRemoteError err⟩

def apply : StreamOp → SessionStream
  | .write now p => { s with sending := (s.sending.write now p).1 }
  | .close => { s with sending := s.sending.close }
  | .reset err => s.reset err
  | .getDataForWriting maxBytes => { s with sending := (s.sending.getDataForWriting maxBytes).2 }
  | .sentFin => { s with sending := s.sending.sentFin }
  | .setReadDeadline t => { s with receiving := s.receiving.setReadDeadline t }
  | .setWriteDeadline t => { s with sending := s.sending.setWriteDeadline t }

/-- `finishedWriteAndSentFin`. -/
def finishedWriteAndSentFin : Bool :=
  s.sending.finishedWriting && s.sending.finSent

/-- `finished`. -/
def finished : Bool :=
  s.receiving.cancelled ||
    (s.receiving.finishedReading && s.finishedWriteAndSentFin) ||
    (s.sending.resetRemotely && s.sending.rstSent) ||
    (s.receiving.finishedReading && s.sending.rstSent) ||
    (s.finishedWriteAndSentFin && s.sending.resetRemotely)

end

theorem setErr_sendReset (s : SendStream) (err : Option String) :
    (s.setErr err).sendReset.streamID = s.streamID ∧
      (s.setErr err).sendReset.resetRemotely = s.resetRemotely := by
  have hset : (s.setErr err).streamID = s.streamID ∧
      (s.setErr err).resetRemotely = s.resetRemotely := by
    unfold SendStream.setErr
    split
    · exact ⟨rfl, rfl⟩
    · exact ⟨rfl, rfl⟩
  unfold SendStream.sendReset
  split
  · exact hset
  · exact hset

theorem streamID_registerRemoteError (s : SessionStream) (err : Option String) :
    (s.registerRemoteError err).streamID = s.streamID := by
  unfold registerRemoteError SendStream.registerRemoteError
  split
  · rfl
  · exact (setErr_sendReset _ err).1

/-- What the user does with a stream leaves its ID, and how far it is done for the peer. -/
theorem apply_keeps (s : SessionStream) (op : StreamOp) :
    (s.apply op).streamID = s.streamID ∧
      (s.apply op).sending.resetRemotely = s.sending.resetRemotely ∧
      (s.apply op).receiving.finishedReading = s.receiving.finishedReading ∧
      (s.apply op).receiving.cancelled = s.receiving.cancelled := by
  cases op with
  | write now p =>
    simp only [apply, SendStream.write, streamID, and_true]
    split
    · exact ⟨rfl, rfl⟩
    split
    · exact ⟨rfl, rfl⟩
    split
    · exact ⟨rfl, rfl⟩
    · exact ⟨rfl, rfl⟩
  | reset err =>
    simp only [apply, reset]
    split
    · exact ⟨rfl, rfl, rfl, rfl⟩
    rename_i hlocal
    obtain ⟨hid, hremote⟩ := setErr_sendReset { s.sending with resetLocally := true } err
    simp only [streamID, Stream.reset, SendStream.reset, if_neg hlocal]
    split
    · exact ⟨hid, hremote, rfl, rfl⟩
    · exact ⟨hid, hremote, rfl, rfl⟩
  | getDataForWriting maxBytes =>
    simp only [apply, SendStream.getDataForWriting, streamID, and_true]
    split
    · split
      · exact ⟨rfl, rfl⟩
      · exact ⟨rfl, rfl⟩
    · exact ⟨rfl, rfl⟩
  | _ => exact ⟨rfl, rfl, rfl, rfl⟩

end SessionStream

/-! ### The session -/

inductive StreamLayerError where
  | streams (e : StreamsError)
  | flow (e : FlowError)
  | sorter (e : SorterError)
  /-- `errRstStreamOnInvalidStream` -/
  | rstStreamOnInvalidStream
  /-- `errWindowUpdateOnClosedStream` -/
  | windowUpdateOnClosedStream
deriving DecidableEq, Repr

/-- `streamsMap` and `flowControlManager` of a session. -/
structure SessionStreams where
  table : StreamTable SessionStream
  flowControl : FlowControl

inductive SessionCall where
  /-- A STREAM frame arrives. -/
  | streamFrame (id : UInt32) (frame : StreamFrame)
  /-- A RST_STREAM frame arrives. -/
  | rstStreamFrame (id : UInt32) (byteOffset : UInt64) (errorCode : Nat)
  /-- A WINDOW_UPDATE frame arrives. -/
  | windowUpdateFrame (id : UInt32) (byteOffset : UInt64)
  | getOrOpenStream (id : UInt32)
  /-- `OpenStream`, and `OpenStreamSync` once there is room. -/
  | openStream
  | acceptStream
  /-- The call of `Read` on the stream makes a turn. -/
  | read (id : UInt32) (now : Nat) (c : Call)
  | closeRemote (id : UInt32) (offset : Nat)
  | streamOp (id : UInt32) (op : StreamOp)
  | addBytesSent (id : UInt32) (n : UInt64)
  | addBytesRetrans (id : UInt32) (n : UInt64)
  | getWindowUpdates (scale : UInt64 → UInt64) (readings : UInt32 → WindowReadings)
      (order : List UInt32) (force : Bool)
  | garbageCollectStreams

namespace SessionStreams

/-- A session before the crypto stream is opened. -/
def new (perspective : Perspective) (maxOutgoingStreams maxIncomingStreams : UInt32)
    (params : FlowParameters) : SessionStreams :=
  ⟨newStreamsMap perspective maxOutgoingStreams maxIncomingStreams, newFlowControlManager params⟩

/-- The part of `session.newStream` that gives the streams their flow controllers. -/
def newControllers (f : FlowControl) (ids : List UInt32) : FlowControl :=
  ids.foldl (fun f id => f.newStream id (FlowControl.contributes id)) f

section

variable (s : SessionStreams)

/-- The session with a table in which streams were opened. -/
def withTable (table : StreamTable SessionStream) : SessionStreams where
  table := table
  flowControl := newControllers s.flowControl (table.openStreams.drop s.table.openStreams.length)

/-- `GetOrOpenStream`. -/
def getOrOpenStream (id : UInt32) :
    Option (SessionStreams × Except StreamsError (Option SessionStream)) :=
  (s.table.getOrOpenStream newSessionStream id).map fun (table, r) => (s.withTable table, r)

/-- Store a stream of the table. -/
def setStream (id : UInt32) (str : SessionStream) : SessionStreams :=
  { s with table := { s.table with streams := Function.update s.table.streams id (some str) } }

/-- `AddStreamFrame`. -/
def addStreamFrame (id : UInt32) (str : SessionStream) (frame : StreamFrame) :
    SessionStreams × Option StreamLayerError :=
  match s.flowControl.updateHighestReceived id (frame.offset + frame.dataLen).toUInt64 with
  | (some e, flowControl) => ({ s with flowControl }, some (.flow e))
  | (none, flowControl) =>
    let (receiving, err) := str.receiving.addStreamFrame false frame
    ({ s with flowControl }.setStream id { str with receiving },
      match err with
      | some (.sorter e) => some (.sorter e)
      | _ => none)

/-- `handleStreamFrame`. -/
def handleStreamFrame (id : UInt32) (frame : StreamFrame) :
    SessionStreams × Option StreamLayerError :=
  match s.getOrOpenStream id with
  | none => (s, none)
  | some (s, .error e) => (s, some (.streams e))
  | some (s, .ok none) => (s, none)
  | some (s, .ok (some str)) => s.addStreamFrame id str frame

/-- The last part of `handleRstStreamFrame`, for the stream that was found. -/
def resetStream (id : UInt32) (str : SessionStream) (byteOffset : UInt64) (errorCode : Nat)
    : SessionStreams × Option StreamLayerError :=
  let s := s.setStream id
    (str.registerRemoteError (some ("RST_STREAM received with code " ++ toString errorCode)))
  let (err, flowControl) := s.flowControl.resetStream id byteOffset
  ({ s with flowControl }, err.map .flow)

/-- `handleRstStreamFrame`. -/
def handleRstStreamFrame (id : UInt32) (byteOffset : UInt64) (errorCode : Nat)
    : SessionStreams × Option StreamLayerError :=
  match s.getOrOpenStream id with
  | none => (s, none)
  | some (s, .error e) => (s, some (.streams e))
  | some (s, .ok none) => (s, some .rstStreamOnInvalidStream)
  | some (s, .ok (some str)) => s.resetStream id str byteOffset errorCode

/-- `UpdateWindow` of the flow control. -/
def updateWindow (id : UInt32) (byteOffset : UInt64) : SessionStreams × Option StreamLayerError :=
  let (r, flowControl) := s.flowControl.updateWindow id byteOffset
  ({ s with flowControl }, match r with
    | .error e => some (.flow e)
    | .ok _ => none)

/-- `handleWindowUpdateFrame`. -/
def handleWindowUpdateFrame (id : UInt32) (byteOffset : UInt64) :
    SessionStreams × Option StreamLayerError :=
  if id = 0 then s.updateWindow id byteOffset
  else
    match s.getOrOpenStream id with
    | none => (s, none)
    | some (s, .error e) => (s, some (.streams e))
    | some (s, .ok none) => (s, some .windowUpdateOnClosedStream)
    | some (s, .ok (some _)) => s.updateWindow id byteOffset

/-- A turn of `Read` on a stream that has not been read to its end: the call that takes the FIN
bit returns, and later ones return `io.EOF` at once. What was copied is credited unless the peer
has reset the stream. Nothing is credited to a stream that was removed. -/
def readTurn (id : UInt32) (str : SessionStream) (now : Nat) (c : Call) : SessionStreams :=
  if str.receiving.finishedReading then s
  else
    match (str.receiving.turn now c).stream? with
    | none => s
    | some receiving =>
      let s := s.setStream id { str with receiving }
      if str.receiving.copied receiving && !str.sending.resetRemotely then
        { s with flowControl := (s.flowControl.addBytesRead now id
            (receiving.readOffset - str.receiving.readOffset).toUInt64).2 }
      else s

end

/-- The loop of `garbageCollectStreams` over the IDs of the streams. -/
def collect : List UInt32 → SessionStreams → SessionStreams
  | [], s => s
  | id :: ids, s =>
    match s.table.streams id with
    | none => s
    | some str =>
      if str.finished then
        match s.table.removeStream id with
        | .error _ => s
        | .ok table => collect ids ⟨table, s.flowControl.removeStream id⟩
      else collect ids s

/-- `garbageCollectStreams`. -/
def garbageCollectStreams (s : SessionStreams) : SessionStreams := collect s.table.openStreams s

/-- The session after a call, and the error of a frame that is handled. -/
def step (s : SessionStreams) : SessionCall → SessionStreams × Option StreamLayerError
  | .streamFrame id frame => s.handleStreamFrame id frame
  | .rstStreamFrame id byteOffset errorCode => s.handleRstStreamFrame id byteOffset errorCode
  | .windowUpdateFrame id byteOffset => s.handleWindowUpdateFrame id byteOffset
  | .getOrOpenStream id =>
    match s.getOrOpenStream id with
    | some (s, _) => (s, none)
    | none => (s, none)
  | .openStream => (s.withTable (s.table.openStream newSessionStream).1, none)
  | .acceptStream =>
    match s.table.acceptStream with
    | some (table, _) => ({ s with table }, none)
    | none => (s, none)
  | .read id now c =>
    match s.table.streams id with
    | some str => (s.readTurn id str now c, none)
    | none => (s, none)
  | .closeRemote id offset =>
    match s.table.streams id with
    | some str => s.addStreamFrame id str ⟨offset, [], true⟩
    | none => (s, none)
  | .streamOp id op =>
    match s.table.streams id with
    | some str => (s.setStream id (str.apply op), none)
    | none => (s, none)
  | .addBytesSent id n => ({ s with flowControl := s.flowControl.addBytesSent id n }, none)
  | .addBytesRetrans id n => ({ s with flowControl := s.flowControl.addBytesRetrans id n }, none)
  | .getWindowUpdates scale readings order force =>
    ({ s with flowControl := (s.flowControl.getWindowUpdates scale readings order force).2 }, none)
  | .garbageCollectStreams => (s.garbageCollectStreams, none)

/-! ### Rules -/

variable {s s' : SessionStreams} {id : UInt32} {str : SessionStream}

/-- One more stream in the table is one more flow controller. -/
theorem withTable_append {m m' : StreamTable SessionStream}
    (hlen : s.table.openStreams.length ≤ m.openStreams.length)
    (hopen : m'.openStreams = m.openStreams ++ [id]) :
    s.withTable m' =
      ⟨m', (s.withTable m).flowControl.newStream id (FlowControl.contributes id)⟩ := by
  unfold withTable newControllers
  rw [hopen, List.drop_append_of_le_length hlen, List.foldl_append]
  rfl

theorem withTable_of_eq {m : StreamTable SessionStream}
    (hopen : m.openStreams = s.table.openStreams) : s.withTable m = ⟨m, s.flowControl⟩ := by
  unfold withTable newControllers
  rw [hopen, List.drop_length]
  rfl

theorem withTable_self : s.withTable s.table = s := withTable_of_eq rfl

/-- Rule for `GetOrOpenStream`: what every opened stream keeps holds after the call. -/
theorem getOrOpenStream_rule (P : SessionStreams → Prop) (hpeer : ∀ s, P s → s.table.PeerIds)
    (hopen : ∀ s m', P s → StreamTable.Opens newSessionStream s.table m' →
      P ⟨m', s.flowControl.newStream s.table.firstSid
        (FlowControl.contributes s.table.firstSid)⟩) (h : P s) :
    ∃ s' r, s.getOrOpenStream id = some (s', r) ∧ P s' ∧
      (∀ str, r = .ok (some str) → s'.table.streams id = some str) := by
  have hfound : ∀ m' r, s.table.getOrOpenStream newSessionStream id = some (m', r) →
      ∀ str, r = .ok (some str) → m'.streams id = some str := by
    rintro m' r heq str rfl
    exact getOrOpenStream_found heq
  unfold getOrOpenStream
  by_cases hknown : isLocal s.table.perspective id = true ∨ id ≤ s.table.highestStreamOpenedByPeer
  · obtain ⟨r, heq⟩ := getOrOpenStream_known newSessionStream hknown
    rw [heq]
    refine ⟨s, r, ?_, h, hfound s.table r heq⟩
    simp only [Option.map_some, withTable_self]
  obtain ⟨hlocal, hle⟩ := not_or.mp hknown
  -- the streams that were opened so far have their controllers
  obtain ⟨-, m', r, heq, ⟨-, hP⟩, -⟩ := StreamTable.getOrOpenStream_rule newSessionStream
    (fun _ m => s.table.openStreams.length ≤ m.openStreams.length ∧ P (s.withTable m))
    (fun _ _ hm => hpeer _ hm.2)
    (fun _ m m' hm hopens => by
      have hlist : m'.openStreams = m.openStreams ++ [m.firstSid] := by
        rw [hopens.result]
        rfl
      refine ⟨?_, ?_⟩
      · rw [hlist, List.length_append]
        exact Nat.le_add_right_of_le hm.1
      · rw [withTable_append hm.1 hlist]
        exact hopen _ m' hm.2 hopens)
    ⟨Nat.le_refl _, by rw [withTable_self]; exact h⟩ (Bool.eq_false_iff.mpr hlocal)
    (UInt32.not_le.mp hle)
  rw [heq]
  exact ⟨s.withTable m', r, rfl, hP, hfound m' r heq⟩

/-- `OpenStream` opens the next stream of this side, or none. The next stream may already be in
the table if the IDs have wrapped around. -/
theorem openStream_cases (s : SessionStreams) :
    let m := (s.table.openStream newSessionStream).1
    let id := s.table.nextStream
    (m.streams = s.table.streams ∧ m.openStreams = s.table.openStreams ∧
        (s.step .openStream).1 = ⟨m, s.flowControl⟩) ∨
      (s.table.streams id = none ∧
        m.streams = Function.update s.table.streams id (some (newSessionStream id)) ∧
        m.openStreams = s.table.openStreams ++ [id] ∧
        (s.step .openStream).1 = ⟨m, s.flowControl.newStream id (FlowControl.contributes id)⟩) := by
  intro m id
  have hstep : (s.step .openStream).1 = s.withTable m := rfl
  rw [hstep]
  rcases openStream_eq with heq | ⟨outgoing, incoming, heq⟩
  · left
    have hm : m = s.table := heq
    rw [hm, withTable_self]
    exact ⟨rfl, rfl, rfl⟩
  change m = _ at heq
  unfold putStream at heq
  split at heq
  · left
    have hopen : m.openStreams = s.table.openStreams := by rw [heq]
    exact ⟨by rw [heq], hopen, withTable_of_eq hopen⟩
  · right
    rename_i hnew
    have hopen : m.openStreams = s.table.openStreams ++ [id] := by rw [heq]
    refine ⟨Option.not_isSome_iff_eq_none.mp hnew, by rw [heq], hopen, ?_⟩
    rw [withTable_append (Nat.le_refl _) hopen, withTable_self]

/-- Rule for `garbageCollectStreams`: what every removed stream keeps holds after the call. -/
theorem collect_rule (P : SessionStreams → Prop)
    (hremove : ∀ s id str table, P s → s.table.streams id = some str → str.finished = true →
      s.table.removeStream id = .ok table → P ⟨table, s.flowControl.removeStream id⟩)
    (ids : List UInt32) (h : P s) : P (collect ids s) := by
  induction ids generalizing s with
  | nil => exact h
  | cons id ids ih =>
    unfold collect
    split
    · exact h
    rename_i str hstr
    split
    · rename_i hfinished
      split
      · exact h
      rename_i table hok
      exact ih (hremove s id str table h hstr hfinished hok)
    · exact ih h

/-! ### The table -/

/-- What a call does to the table: the peer's next stream is opened, or a stream of this side, or
a stream is replaced. -/
inductive TableStep : StreamTable SessionStream → StreamTable SessionStream → Prop
  | remote {m m' : StreamTable SessionStream} (h : StreamTable.Opens newSessionStream m m') :
      TableStep m m'
  | own (m : StreamTable SessionStream) : TableStep m (m.openStream newSessionStream).1
  | store {m : StreamTable SessionStream} {id : UInt32} {str : SessionStream}
      (h : m.streams id = some str) (str' : SessionStream) (hid : str'.streamID = str.streamID) :
      TableStep m { m with streams := Function.update m.streams id (some str') }

/-- The calls that neither accept nor remove a stream. -/
def Plain : SessionCall → Prop
  | .acceptStream => False
  | .garbageCollectStreams => False
  | _ => True

theorem getOrOpenStream_steps (h : s.table.PeerIds) (id : UInt32) :
    ∃ s' r, s.getOrOpenStream id = some (s', r) ∧ ReflTransGen TableStep s.table s'.table ∧
      (∀ str, r = .ok (some str) → s'.table.streams id = some str) := by
  obtain ⟨s', r, heq, ⟨-, hsteps⟩, hfound⟩ := getOrOpenStream_rule
    (fun s' => s'.table.PeerIds ∧ ReflTransGen TableStep s.table s'.table) (fun _ h' => h'.1)
    (fun _ _ h' hopens => ⟨hopens.peerIds h'.1, h'.2.tail (.remote hopens)⟩) ⟨h, .refl⟩
  exact ⟨s', r, heq, hsteps, hfound⟩

theorem addStreamFrame_steps (hstr : s.table.streams id = some str) (frame : StreamFrame) :
    ReflTransGen TableStep s.table (s.addStreamFrame id str frame).1.table := by
  unfold addStreamFrame
  split
  · exact .refl
  · exact .single (.store hstr _ rfl)

/-- The calls on the table. -/
theorem table_step (h : s.table.PeerIds) {call : SessionCall} (hplain : Plain call) :
    ReflTransGen TableStep s.table (s.step call).1.table := by
  cases call with
  | streamFrame id frame =>
    obtain ⟨s', r, heq, hsteps, hfound⟩ := getOrOpenStream_steps h id
    simp only [step, handleStreamFrame, heq]
    split
    · exact .refl
    · rename_i hr
      cases hr
      exact hsteps
    · rename_i hr
      cases hr
      exact hsteps
    · rename_i hr
      cases hr
      exact hsteps.trans (addStreamFrame_steps (hfound _ rfl) frame)
  | rstStreamFrame id byteOffset errorCode =>
    obtain ⟨s', r, heq, hsteps, hfound⟩ := getOrOpenStream_steps h id
    simp only [step, handleRstStreamFrame, heq]
    split
    · exact .refl
    · rename_i hr
      cases hr
      exact hsteps
    · rename_i hr
      cases hr
      exact hsteps
    · rename_i hr
      cases hr
      exact hsteps.tail (.store (hfound _ rfl) _ (SessionStream.streamID_registerRemoteError _ _))
  | windowUpdateFrame id byteOffset =>
    obtain ⟨s', r, heq, hsteps, -⟩ := getOrOpenStream_steps h id
    simp only [step, handleWindowUpdateFrame, heq]
    split
    · exact .refl
    split
    · exact .refl
    · rename_i hr
      cases hr
      exact hsteps
    · rename_i hr
      cases hr
      exact hsteps
    · rename_i hr
      cases hr
      exact hsteps
  | getOrOpenStream id =>
    obtain ⟨s', r, heq, hsteps, -⟩ := getOrOpenStream_steps h id
    simp only [step, heq]
    exact hsteps
  | openStream => exact .single (.own s.table)
  | acceptStream => exact hplain.elim
  | read id now c =>
    simp only [step]
    split
    · rename_i str hstr
      unfold readTurn
      split
      · exact .refl
      split
      · exact .refl
      simp only
      split
      · exact .single (.store hstr _ rfl)
      · exact .single (.store hstr _ rfl)
    · exact .refl
  | closeRemote id offset =>
    simp only [step]
    split
    · rename_i str hstr
      exact addStreamFrame_steps hstr _
    · exact .refl
  | streamOp id op =>
    simp only [step]
    split
    · rename_i str hstr
      exact .single (.store hstr _ (str.apply_keeps op).1)
    · exact .refl
  | addBytesSent id n => exact .refl
  | addBytesRetrans id n => exact .refl
  | getWindowUpdates scale readings order force => exact .refl
  | garbageCollectStreams => exact hplain.elim

end SessionStreams

end RlncStreaming.Quic
