import RlncStreaming.Quic.StreamFramer

/-!
Flow control (`flow_controller.go`, `flow_control_manager.go`).

A flow controller counts what was sent and received on a stream, or on the connection, against
the windows that the two sides have granted. A send window of 0 stands for the initial window,
which is negotiated during the handshake. Streams that contribute to the connection are counted
by the controller of the connection, too. Offsets and windows are 64-bit numbers.
-/

namespace RlncStreaming.Quic

/-! ### Flow controllers -/

/-- The windows of the connection parameters. -/
structure FlowParameters where
  sendStreamFlowControlWindow : UInt64
  sendConnectionFlowControlWindow : UInt64
  receiveStreamFlowControlWindow : UInt64
  receiveConnectionFlowControlWindow : UInt64
  maxReceiveStreamFlowControlWindow : UInt64
  maxReceiveConnectionFlowControlWindow : UInt64
deriving DecidableEq, Repr

/-- `flowController`. The zero time is `none`. -/
structure FlowController where
  streamID : UInt32
  contributesToConnection : Bool
  bytesSent : UInt64
  sendWindow : UInt64
  bytesRetrans : UInt64
  lastWindowUpdateTime : Option Int
  bytesRead : UInt64
  highestReceived : UInt64
  receiveWindow : UInt64
  receiveWindowIncrement : UInt64
  maxReceiveWindowIncrement : UInt64
deriving DecidableEq, Repr

/-- `newFlowController`. -/
def newFlowController (streamID : UInt32) (contributesToConnection : Bool)
    (params : FlowParameters) : FlowController :=
  let receiveWindow := if streamID = 0 then params.receiveConnectionFlowControlWindow
    else params.receiveStreamFlowControlWindow
  let maxReceiveWindowIncrement := if streamID = 0 then params.maxReceiveConnectionFlowControlWindow
    else params.maxReceiveStreamFlowControlWindow
  ⟨streamID, contributesToConnection, 0, 0, 0, none, 0, 0, receiveWindow, receiveWindow,
    maxReceiveWindowIncrement⟩

/-- What a window update reads: the clock, the RTT of the session and the highest RTT that the
peer has reported for a path. -/
structure WindowReadings where
  now : Int
  smoothedRTT : Int
  maxRemoteRTT : Int

namespace FlowController

/-- The initial send window. -/
def initialSendWindow (params : FlowParameters) (streamID : UInt32) : UInt64 :=
  if streamID = 0 then params.sendConnectionFlowControlWindow
  else params.sendStreamFlowControlWindow

/-- `getSendWindow`, and `SendWindowOffset`. -/
def getSendWindow (params : FlowParameters) (c : FlowController) : UInt64 :=
  if c.sendWindow = 0 then initialSendWindow params c.streamID else c.sendWindow

/-- `AddBytesSent`. -/
def addBytesSent (c : FlowController) (n : UInt64) : FlowController :=
  { c with bytesSent := c.bytesSent + n }

/-- `AddBytesRetrans`. -/
def addBytesRetrans (c : FlowController) (n : UInt64) : FlowController :=
  { c with bytesRetrans := c.bytesRetrans + n }

/-- `UpdateSendWindow`: whether the window was updated, and the controller. -/
def updateSendWindow (c : FlowController) (newOffset : UInt64) : Bool × FlowController :=
  if c.sendWindow < newOffset then (true, { c with sendWindow := newOffset }) else (false, c)

/-- `SendWindowSize`. -/
def sendWindowSize (params : FlowParameters) (c : FlowController) : UInt64 :=
  if c.getSendWindow params < c.bytesSent then 0 else c.getSendWindow params - c.bytesSent

variable (c : FlowController)

/-- `UpdateHighestReceived`: the increment, or `none` for `ErrReceivedSmallerByteOffset`, where
the increment is 0. -/
def updateHighestReceived (byteOffset : UInt64) : Option UInt64 × FlowController :=
  if byteOffset = c.highestReceived then (some 0, c)
  else if c.highestReceived < byteOffset then
    (some (byteOffset - c.highestReceived), { c with highestReceived := byteOffset })
  else (none, c)

/-- `IncrementHighestReceived`. -/
def incrementHighestReceived (increment : UInt64) : FlowController :=
  { c with highestReceived := c.highestReceived + increment }

/-- `AddBytesRead`. -/
def addBytesRead (now : Int) (n : UInt64) : FlowController :=
  { c with
    lastWindowUpdateTime := if c.bytesRead = 0 then some now else c.lastWindowUpdateTime
    bytesRead := c.bytesRead + n }

/-- `maybeAdjustWindowIncrement`. -/
def maybeAdjustWindowIncrement (r : WindowReadings) : FlowController :=
  match c.lastWindowUpdateTime with
  | none => c
  | some last =>
    if r.smoothedRTT = 0 then c
    else if 2 * max r.smoothedRTT (max 0 r.maxRemoteRTT) ≤ r.now - last then c
    else
      let doubled := 2 * c.receiveWindowIncrement
      { c with receiveWindowIncrement :=
          if doubled < c.maxReceiveWindowIncrement then doubled
          else c.maxReceiveWindowIncrement }

/-- `MaybeUpdateWindow`: whether the window is updated, the new increment and the offset. -/
def maybeUpdateWindow (r : WindowReadings) : Bool × UInt64 × UInt64 × FlowController :=
  if c.receiveWindow - c.bytesRead < c.receiveWindowIncrement / 2 then
    let oldWindowIncrement := c.receiveWindowIncrement
    let c := c.maybeAdjustWindowIncrement r
    let newWindowIncrement :=
      if c.receiveWindowIncrement ≠ oldWindowIncrement then c.receiveWindowIncrement else 0
    let c := { c with
      lastWindowUpdateTime := some r.now
      receiveWindow := c.bytesRead + c.receiveWindowIncrement }
    (true, newWindowIncrement, c.receiveWindow, c)
  else (false, c.receiveWindowIncrement, c.receiveWindow, c)

/-- `EnsureMinimumWindowIncrement`. -/
def ensureMinimumWindowIncrement (inc : UInt64) : FlowController :=
  if c.receiveWindowIncrement < inc then
    { c with
      receiveWindowIncrement :=
        if inc < c.maxReceiveWindowIncrement then inc else c.maxReceiveWindowIncrement
      lastWindowUpdateTime := none }
  else c

/-- `CheckFlowControlViolation`. -/
def checkFlowControlViolation : Bool := decide (c.receiveWindow < c.highestReceived)

end FlowController

/-! ### The manager -/

inductive FlowError where
  /-- `Error accessing the flowController map.` -/
  | mapAccess
  | streamDataAfterTermination
  /-- `Received %d bytes on stream %d, allowed %d bytes` -/
  | tooMuchOnStream (byteOffset : UInt64) (streamID : UInt32) (receiveWindow : UInt64)
  /-- `Received %d bytes for the connection, allowed %d bytes` -/
  | tooMuchOnConnection (highestReceived receiveWindow : UInt64)
deriving DecidableEq, Repr

structure WindowUpdate where
  streamID : UInt32
  offset : UInt64
deriving DecidableEq, Repr

/-- `flowControlManager`. -/
structure FlowControl where
  params : FlowParameters
  streamFlowController : UInt32 → Option FlowController
  connFlowController : FlowController

/-- `NewFlowControlManager`. -/
def newFlowControlManager (params : FlowParameters) : FlowControl :=
  ⟨params, fun _ => none, newFlowController 0 false params⟩

namespace FlowControl

section

variable (f : FlowControl)

/-- Store the controller of a stream. -/
def setStream (streamID : UInt32) (c : FlowController) : FlowControl :=
  { f with streamFlowController := Function.update f.streamFlowController streamID (some c) }

/-- `NewStream`. -/
def newStream (streamID : UInt32) (contributesToConnection : Bool) : FlowControl :=
  match f.streamFlowController streamID with
  | some _ => f
  | none => f.setStream streamID (newFlowController streamID contributesToConnection f.params)

/-- `RemoveStream`. -/
def removeStream (streamID : UInt32) : FlowControl :=
  { f with streamFlowController := Function.update f.streamFlowController streamID none }

/-- The common part of `ResetStream` and `UpdateHighestReceived`, after the controller `c` of
the stream has moved on by `increment`. -/
def charge (c : FlowController) (streamID : UInt32) (byteOffset increment : UInt64)
    : Option FlowError × FlowControl :=
  let f := f.setStream streamID c
  if c.checkFlowControlViolation then
    (some (.tooMuchOnStream byteOffset streamID c.receiveWindow), f)
  else if c.contributesToConnection then
    let conn := f.connFlowController.incrementHighestReceived increment
    (if conn.checkFlowControlViolation then
      some (.tooMuchOnConnection conn.highestReceived conn.receiveWindow) else none,
      { f with connFlowController := conn })
  else (none, f)

/-- `ResetStream`. -/
def resetStream (streamID : UInt32) (byteOffset : UInt64) : Option FlowError × FlowControl :=
  match f.streamFlowController streamID with
  | none => (some .mapAccess, f)
  | some c =>
    match c.updateHighestReceived byteOffset with
    | (none, c) => (some .streamDataAfterTermination, f.setStream streamID c)
    | (some increment, c) => f.charge c streamID byteOffset increment

/-- `UpdateHighestReceived`. A smaller offset is no error here: frames may be reordered. -/
def updateHighestReceived (streamID : UInt32) (byteOffset : UInt64) :
    Option FlowError × FlowControl :=
  match f.streamFlowController streamID with
  | none => (some .mapAccess, f)
  | some c =>
    let (increment, c) := c.updateHighestReceived byteOffset
    f.charge c streamID byteOffset (increment.getD 0)

/-- `AddBytesRead`. -/
def addBytesRead (now : Int) (streamID : UInt32) (n : UInt64) : Option FlowError × FlowControl :=
  match f.streamFlowController streamID with
  | none => (some .mapAccess, f)
  | some c =>
    let f := f.setStream streamID (c.addBytesRead now n)
    (none, if c.contributesToConnection then
        { f with connFlowController := f.connFlowController.addBytesRead now n }
      else f)

end

/-- The loop of `GetWindowUpdates` over the streams, in the order of the map. The increments of
the connection are multiplied in floating point by `scale`. -/
def streamWindowUpdates (scale : UInt64 → UInt64) (readings : UInt32 → WindowReadings)
    (force : Bool) : List UInt32 → List WindowUpdate × FlowControl → List WindowUpdate × FlowControl
  | [], res => res
  | id :: ids, (updates, f) =>
    match f.streamFlowController id with
    | none => streamWindowUpdates scale readings force ids (updates, f)
    | some c =>
      let (necessary, newIncrement, offset, c) := c.maybeUpdateWindow (readings id)
      let f := f.setStream id c
      if force || necessary then
        let f := if c.contributesToConnection && newIncrement != 0 then
            { f with connFlowController :=
                f.connFlowController.ensureMinimumWindowIncrement (scale newIncrement) }
          else f
        streamWindowUpdates scale readings force ids (updates ++ [⟨id, offset⟩], f)
      else streamWindowUpdates scale readings force ids (updates, f)

/-- `GetWindowUpdates`. -/
def getWindowUpdates (scale : UInt64 → UInt64) (readings : UInt32 → WindowReadings)
    (order : List UInt32) (force : Bool) (f : FlowControl) : List WindowUpdate × FlowControl :=
  let (updates, f) := streamWindowUpdates scale readings force order ([], f)
  let (necessary, _, offset, conn) := f.connFlowController.maybeUpdateWindow (readings 0)
  (if force || necessary then updates ++ [⟨0, offset⟩] else updates,
    { f with connFlowController := conn })

/-- `GetReceiveWindow`. -/
def getReceiveWindow (f : FlowControl) (streamID : UInt32) : Option UInt64 :=
  if streamID = 0 then some f.connFlowController.receiveWindow
  else (f.streamFlowController streamID).map FlowController.receiveWindow

/-- `AddBytesSent` and `AddBytesRetrans`: a count on the stream, and on the connection if the
stream contributes to it. -/
def count (add : FlowController → UInt64 → FlowController) (f : FlowControl) (streamID : UInt32)
    (n : UInt64) : FlowControl :=
  match f.streamFlowController streamID with
  | none => f
  | some c =>
    let f := f.setStream streamID (add c n)
    if c.contributesToConnection then
      { f with connFlowController := add f.connFlowController n }
    else f

def addBytesSent : FlowControl → UInt32 → UInt64 → FlowControl := count FlowController.addBytesSent

def addBytesRetrans : FlowControl → UInt32 → UInt64 → FlowControl :=
  count FlowController.addBytesRetrans

/-- `SendWindowSize`, which is 0 beside an error. -/
def sendWindowSize (f : FlowControl) (streamID : UInt32) : UInt64 :=
  match f.streamFlowController streamID with
  | none => 0
  | some c =>
    let res := c.sendWindowSize f.params
    let connRes := f.connFlowController.sendWindowSize f.params
    if c.contributesToConnection ∧ connRes < res then connRes else res

/-- `RemainingConnectionWindowSize`. -/
def remainingConnectionWindowSize (f : FlowControl) : UInt64 :=
  f.connFlowController.sendWindowSize f.params

/-- `UpdateWindow`. -/
def updateWindow (f : FlowControl) (streamID : UInt32) (offset : UInt64) :
    Except FlowError Bool × FlowControl :=
  if streamID = 0 then
    let (updated, conn) := f.connFlowController.updateSendWindow offset
    (.ok updated, { f with connFlowController := conn })
  else
    match f.streamFlowController streamID with
    | none => (.error .mapAccess, f)
    | some c =>
      let (updated, c) := c.updateSendWindow offset
      (.ok updated, f.setStream streamID c)

/-- Which streams contribute to the flow control of the connection (`session.newStream`): all
but the crypto stream and the header stream. -/
def contributes (streamID : UInt32) : Bool := streamID != 1 && streamID != 3

/-- The flow control that the framer and the packer use. -/
instance : FlowControlManager FlowControl where
  sendWindowSize f id := (f.sendWindowSize id.toUInt32).toNat
  addBytesSent f id n := f.addBytesSent id.toUInt32 n.toUInt64
  addBytesRetrans f id n := f.addBytesRetrans id.toUInt32 n.toUInt64
  remainingConnectionWindowSize f := f.remainingConnectionWindowSize.toNat
  getReceiveWindow f id := (f.getReceiveWindow id.toUInt32).map UInt64.toNat

end FlowControl

end RlncStreaming.Quic
