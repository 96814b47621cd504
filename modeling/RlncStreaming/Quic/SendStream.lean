import RlncStreaming.Quic.Frames

/-!
The sending half of a stream (`stream.go`): `Write`, `Close`, `Cancel`, `Reset`, and how the
framer takes data from it (`stream_framer.go`: `maybePopNormalFrames`).

`Write` publishes its buffer and waits until the framer has taken all of it. The framer
runs in another goroutine and takes the lock of the stream three times in one visit, so
that the user's calls may come between any two of these points; a run is an interleaving of
both (`Writing`).

If no deadline has expired when `Write` looks at it, the frames that were popped carry what
the calls report, in order and up to a FIN at its end (`write_reports_sent`). A `Write`
that runs into its deadline reports nothing, but its data is or will be sent
(`write_reports_nothing`).
-/

namespace RlncStreaming.Quic

open Lib List

/-! ### The stream -/

inductive WriteError where
  /-- `errDeadline` -/
  | deadline
  /-- `write on closed stream` -/
  | closed (streamID : Nat)
  /-- The error that the stream was cancelled or reset with. -/
  | stream (reason : String)
deriving DecidableEq, Repr

/-- The fields of `stream` that belong to its sending half. `writeChan` says whether the
channel holds a signal, and a deadline of `none` is the zero time. -/
structure SendStream where
  streamID : Nat
  writeOffset : Nat
  err : Option String
  finishedWriting : Bool
  resetLocally : Bool
  resetRemotely : Bool
  dataForWriting : Option (List UInt8)
  finSent : Bool
  rstSent : Bool
  writeChan : Bool
  writeDeadline : Option Nat
deriving DecidableEq, Repr

def newSendStream (streamID : Nat) : SendStream :=
  ⟨streamID, 0, none, false, false, false, none, false, false, false, none⟩

/-- A call of `Write` that waits: its data, and the deadline that its timer is set to. -/
structure WriteCall where
  data : List UInt8
  deadline : Option Nat
deriving DecidableEq, Repr

/-- What a turn of `Write` leads to. -/
inductive WriteProgress where
  | waiting (c : WriteCall)
  | returned (n : Nat) (err : Option WriteError)
deriving DecidableEq, Repr

def expired (deadline : Option Nat) (now : Nat) : Bool :=
  match deadline with
  | none => false
  | some deadline => decide (deadline ≤ now)

namespace SendStream

variable (s : SendStream)

/-- One turn of the loop of `Write` for the data `p`, with the lock held. -/
def writeTurn (now : Nat) (p : List UInt8) : WriteProgress :=
  if expired s.writeDeadline now then .returned 0 (some .deadline)
  else
    match s.err, s.dataForWriting with
    | some e, data => .returned (p.length - (data.getD []).length) (some (.stream e))
    | none, none => .returned p.length none
    | none, some _ => .waiting ⟨p, s.writeDeadline⟩

/-- `Write` up to the point where it first waits or returns. -/
def write (now : Nat) (p : List UInt8) : SendStream × WriteProgress :=
  if s.resetLocally ∨ s.err ≠ none then (s, .returned 0 (s.err.map .stream))
  else if s.finishedWriting then (s, .returned 0 (some (.closed s.streamID)))
  else if p = [] then (s, .returned 0 none)
  else
    let s := { s with dataForWriting := some p }
    (s, s.writeTurn now p)

/-- `lenOfDataForWriting`. -/
def lenOfDataForWriting : Nat :=
  if s.err = none then (s.dataForWriting.getD []).length else 0

/-- `getDataForWriting`. -/
def getDataForWriting (maxBytes : Nat) : Option (List UInt8) × SendStream :=
  match s.err, s.dataForWriting with
  | none, some data =>
    if maxBytes < data.length then
      (some (data.take maxBytes), { s with
        dataForWriting := some (data.drop maxBytes)
        writeOffset := s.writeOffset + (data.take maxBytes).length })
    else
      (some data, { s with
        dataForWriting := none
        writeChan := true
        writeOffset := s.writeOffset + data.length })
  | _, _ => (none, s)

/-- `Close`. -/
def close : SendStream := { s with finishedWriting := true }

/-- `shouldSendFin`. -/
def shouldSendFin : Bool :=
  s.finishedWriting && !s.finSent && s.err.isNone && s.dataForWriting.isNone

/-- `sentFin`. -/
def sentFin : SendStream := { s with finSent := true }

/-- `shouldSendReset`. -/
def shouldSendReset : Bool :=
  !s.rstSent && (s.resetLocally || s.resetRemotely) && !(s.finishedWriting && s.finSent)

/-- The first error stays. Setting it wakes up `Write`. -/
def setErr (err : Option String) : SendStream :=
  if s.err = none then { s with err, writeChan := true } else s

/-- `onReset`, which queues a RST_STREAM frame. -/
def sendReset : SendStream :=
  if s.shouldSendReset then { s with rstSent := true } else s

/-- `Cancel`. -/
def cancel (err : Option String) : SendStream := s.setErr err

/-- `Reset`. -/
def reset (err : Option String) : SendStream :=
  if s.resetLocally then s else ({ s with resetLocally := true }.setErr err).sendReset

/-- `RegisterRemoteError`. -/
def registerRemoteError (err : Option String) : SendStream :=
  if s.resetRemotely then s else ({ s with resetRemotely := true }.setErr err).sendReset

/-- `SetWriteDeadline`. An earlier deadline wakes up `Write`; the zero time is the earliest. -/
def setWriteDeadline (t : Option Nat) : SendStream :=
  let earlier :=
    match t, s.writeDeadline with
    | none, some _ => true
    | some t, some old => decide (t < old)
    | _, none => false
  { s with writeDeadline := t, writeChan := s.writeChan || earlier }

end SendStream

/-! ### The framer's visit -/

/-- Where a visit of the framer is, between the points at which it takes the lock. -/
inductive Visit where
  | idle
  | measured (offset maxLen lenStreamData : Nat)
  | fetched (offset : Nat) (data : Option (List UInt8))
  | decided (offset : Nat) (data : Option (List UInt8)) (fin : Bool)
deriving DecidableEq, Repr

namespace SendStream

variable (s : SendStream)

/-- The frame header that a visit starts with. -/
def newFrame : OutFrame := ⟨⟨s.writeOffset, [], false⟩, s.streamID, true⟩

/-- How much data may be sent: what the packet has room for, and no more than the window if
there is data. -/
def maxLen (room sendWindowSize : Nat) : Nat :=
  if s.lenOfDataForWriting ≠ 0 then min room sendWindowSize else room

/-- The first part of a visit, up to `getDataForWriting`. `currentLen` of the packet's
`maxBytes` bytes are used already. -/
def startVisit (maxBytes currentLen sendWindowSize : Nat) : Visit :=
  if s.streamID = 1 then .idle
  else if maxBytes < currentLen + s.newFrame.minLength then .idle
  else
    let maxLen := s.maxLen (maxBytes - currentLen - s.newFrame.minLength) sendWindowSize
    if maxLen = 0 then .idle else .measured s.writeOffset maxLen s.lenOfDataForWriting

/-- The next part of a visit, and the frame that it pops. -/
def proceed : Visit → SendStream × Visit × Option OutFrame
  | .idle => (s, .idle, none)
  | .measured offset maxLen lenStreamData =>
    if lenStreamData = 0 then (s, .fetched offset none, none)
    else
      let (data, s) := s.getDataForWriting maxLen
      (s, .fetched offset data, none)
  | .fetched offset data => (s, .decided offset data s.shouldSendFin, none)
  | .decided offset data fin =>
    if data = none ∧ fin = false then (s, .idle, none)
    else
      (if fin then s.sentFin else s, .idle, some ⟨⟨offset, data.getD [], fin⟩, s.streamID, true⟩)

end SendStream

/-! ### Runs -/

/-- A stream with its user and the framer: the call of `Write` in progress, the visit in
progress, the data and the result of each call that has returned, and the frames popped. -/
structure Writing where
  stream : SendStream
  call : Option WriteCall
  visit : Visit
  reported : List (List UInt8 × Nat)
  popped : List OutFrame
deriving DecidableEq, Repr

inductive WriteAction where
  /-- The user calls `Write`. -/
  | write (now : Nat) (p : List UInt8)
  /-- The waiting call is woken up by a signal. -/
  | signal (now : Nat)
  /-- The timer of the waiting call fires. -/
  | timeout (now : Nat)
  | close
  | cancel (err : Option String)
  | reset (err : Option String)
  | registerRemoteError (err : Option String)
  | setWriteDeadline (t : Option Nat)
  /-- The framer starts a visit. -/
  | visit (maxBytes currentLen sendWindowSize : Nat)
  /-- The framer continues its visit. -/
  | proceed
deriving DecidableEq, Repr

namespace Writing

def new (streamID : Nat) : Writing := ⟨newSendStream streamID, none, .idle, [], []⟩

def record (w : Writing) (p : List UInt8) : WriteProgress → Writing
  | .waiting c => { w with call := some c }
  | .returned n _ => { w with call := none, reported := w.reported ++ [(p, n)] }

/-- One action. Calls of `Write` are not concurrent with each other. -/
def act (w : Writing) : WriteAction → Writing
  | .write now p =>
    match w.call with
    | some _ => w
    | none =>
      let (stream, progress) := w.stream.write now p
      { w with stream }.record p progress
  | .signal now =>
    match w.call with
    | some c =>
      if w.stream.writeChan then
        { w with stream := { w.stream with writeChan := false } }.record c.data
          (w.stream.writeTurn now c.data)
      else w
    | none => w
  | .timeout now =>
    match w.call with
    | some c =>
      if expired c.deadline now then w.record c.data (w.stream.writeTurn now c.data) else w
    | none => w
  | .close => { w with stream := w.stream.close }
  | .cancel err => { w with stream := w.stream.cancel err }
  | .reset err => { w with stream := w.stream.reset err }
  | .registerRemoteError err => { w with stream := w.stream.registerRemoteError err }
  | .setWriteDeadline t => { w with stream := w.stream.setWriteDeadline t }
  | .visit maxBytes currentLen sendWindowSize =>
    match w.visit with
    | .idle => { w with visit := w.stream.startVisit maxBytes currentLen sendWindowSize }
    | _ => w
  | .proceed =>
    let (stream, visit, frame) := w.stream.proceed w.visit
    { w with stream, visit, popped := w.popped ++ frame.toList }

/-- What the calls of `Write` claim to have sent: the reported part of the data of each, and
all data of the call in progress. -/
def promised (w : Writing) : List UInt8 :=
  (w.reported.flatMap fun r => r.1.take r.2) ++ (w.call.map WriteCall.data).getD []

/-- What was popped is what was promised. -/
structure Accounted (w : Writing) : Prop where
  contiguous : ∀ before f after, w.popped = before ++ f :: after →
    f.offset = (before.flatMap fun f => f.data).length
  promised : (w.popped.flatMap fun f => f.data) <+: w.promised
  fin : ∀ before f after, w.popped = before ++ f :: after → f.finBit = true →
    after = [] ∧ f.stop = w.promised.length

/-- No deadline has expired when `Write` looks at it. -/
def InTime (w : Writing) : WriteAction → Prop
  | .write now p =>
    w.call = none → w.stream.resetLocally = false → w.stream.err = none →
      w.stream.finishedWriting = false → p ≠ [] → expired w.stream.writeDeadline now = false
  | .signal now => w.call ≠ none → w.stream.writeChan = true →
      expired w.stream.writeDeadline now = false
  | .timeout now => ∀ c, w.call = some c → expired c.deadline now = true →
      expired w.stream.writeDeadline now = false
  | _ => True

end Writing

/-! ### The invariant -/

namespace Visit

/-- The data that a visit has taken. -/
def data : Visit → Option (List UInt8)
  | .fetched _ data => data
  | .decided _ data _ => data
  | _ => none

/-- The visit has decided to send a FIN. -/
def fin : Visit → Bool
  | .decided _ _ fin => fin
  | _ => false

/-- The offset that a visit has read. -/
def offset : Visit → Option Nat
  | .idle => none
  | .measured offset _ _ => some offset
  | .fetched offset _ => some offset
  | .decided offset _ _ => some offset

end Visit

namespace Writing

variable {w : Writing}

/-- The data of the frames popped. -/
def sent (w : Writing) : List UInt8 := w.popped.flatMap fun f => f.data

/-- Everything that the framer has taken from the stream. -/
def taken (w : Writing) : List UInt8 := w.sent ++ w.visit.data.getD []

def reportedData (w : Writing) : List UInt8 := w.reported.flatMap fun r => r.1.take r.2

structure Inv (w : Writing) : Prop where
  contiguous : ∀ before f after, w.popped = before ++ f :: after →
    f.offset = (before.flatMap fun f => f.data).length
  offset : w.stream.writeOffset = w.taken.length
  visitOffset : ∀ offset ∈ w.visit.offset, offset = w.sent.length
  /-- Between two calls nothing waits to be sent. -/
  settled : w.call = none → w.taken = w.reportedData ∧
    (w.stream.dataForWriting = none ∨ w.stream.err ≠ none)
  /-- What is left of the data of a call is not taken yet. -/
  calling : ∀ c, w.call = some c → w.reportedData.length ≤ w.taken.length ∧
    w.taken ++ w.stream.dataForWriting.getD [] = w.reportedData ++ c.data
  fin : w.stream.finSent = true ∨ w.visit.fin = true →
    w.stream.finishedWriting = true ∧ w.stream.dataForWriting = none
  finSent : w.stream.finSent = true → w.visit.data = none ∧ w.visit.fin = false
  last : ∀ before f after, w.popped = before ++ f :: after → f.finBit = true →
    after = [] ∧ w.stream.finSent = true

theorem inv_new (streamID : Nat) : Inv (new streamID) where
  contiguous before f after h := by simp [new] at h
  offset := rfl
  visitOffset _ h := by cases h
  settled _ := ⟨rfl, .inl rfl⟩
  calling _ h := by cases h
  fin h := by simp [new, newSendStream, Visit.fin] at h
  finSent h := by cases h
  last before f after h := by simp [new] at h

/-- The bytes sent are a beginning of those promised, because what the visit and the stream still
hold continues them. -/
theorem Inv.accounted (h : Inv w) : Accounted w := by
  have hpromised : w.sent ++ (w.visit.data.getD [] ++
      if w.call = none then [] else w.stream.dataForWriting.getD []) = w.promised := by
    rw [promised, ← reportedData, ← append_assoc, ← taken]
    cases hcall : w.call with
    | none => simp [(h.settled hcall).1]
    | some c => simpa using (h.calling c hcall).2
  refine ⟨h.contiguous, ⟨_, hpromised⟩, ?_⟩
  intro before f after hpopped hfin
  obtain ⟨rfl, hsent⟩ := h.last before f after hpopped hfin
  refine ⟨rfl, ?_⟩
  -- Once the FIN is sent, the framer holds nothing and nothing waits.
  have hdata := (h.fin (.inl hsent)).2
  have hvisit := (h.finSent hsent).1
  have hsentData : w.sent = w.promised := by
    rw [← hpromised, hdata, hvisit]
    simp
  have hoffset := h.contiguous before f [] hpopped
  rw [← hsentData, sent, hpopped, StreamFrame.stop, StreamFrame.dataLen, hoffset]
  simp

/-! ### The user's side -/

end Writing

namespace SendStream

/-- The data of the stream is untouched; errors, the end of writing and the FIN stay. -/
structure Keeps (s s' : SendStream) : Prop where
  offset : s'.writeOffset = s.writeOffset
  data : s'.dataForWriting = s.dataForWriting
  finSent : s'.finSent = s.finSent
  err : s.err ≠ none → s'.err ≠ none
  finished : s.finishedWriting = true → s'.finishedWriting = true

variable {s s' s'' : SendStream}

theorem Keeps.trans (h : Keeps s s') (h' : Keeps s' s'') : Keeps s s'' :=
  ⟨h'.offset.trans h.offset, h'.data.trans h.data, h'.finSent.trans h.finSent,
    fun herr => h'.err (h.err herr), fun hfin => h'.finished (h.finished hfin)⟩

theorem keeps_setErr (err : Option String) : Keeps s (s.setErr err) := by
  rw [setErr]
  split
  · next hnone => exact ⟨rfl, rfl, rfl, fun herr => absurd hnone herr, id⟩
  · exact ⟨rfl, rfl, rfl, id, id⟩

theorem keeps_sendReset : Keeps s s.sendReset := by
  rw [sendReset]
  split <;> exact ⟨rfl, rfl, rfl, id, id⟩

theorem keeps_reset (err : Option String) : Keeps s (s.reset err) := by
  rw [reset]
  split
  · exact ⟨rfl, rfl, rfl, id, id⟩
  have hflag : Keeps s { s with resetLocally := true } := ⟨rfl, rfl, rfl, id, id⟩
  exact (hflag.trans (keeps_setErr err)).trans keeps_sendReset

theorem keeps_registerRemoteError (err : Option String) : Keeps s (s.registerRemoteError err) := by
  rw [registerRemoteError]
  split
  · exact ⟨rfl, rfl, rfl, id, id⟩
  have hflag : Keeps s { s with resetRemotely := true } := ⟨rfl, rfl, rfl, id, id⟩
  exact (hflag.trans (keeps_setErr err)).trans keeps_sendReset

end SendStream

namespace Writing

theorem Inv.keeps (h : Inv w) {s : SendStream} (hs : w.stream.Keeps s) :
    Inv { w with stream := s } where
  contiguous := h.contiguous
  offset := hs.offset.trans h.offset
  visitOffset := h.visitOffset
  settled hcall := ⟨(h.settled hcall).1, (h.settled hcall).2.imp hs.data.trans hs.err⟩
  calling c hcall := by
    have hold := h.calling c hcall
    rw [← hs.data] at hold
    exact hold
  fin hfin := by
    rw [hs.finSent] at hfin
    obtain ⟨hfinished, hdata⟩ := h.fin hfin
    exact ⟨hs.finished hfinished, hs.data.trans hdata⟩
  finSent hfin := h.finSent (hs.finSent.symm.trans hfin)
  last before f after hpopped hfin := (h.last before f after hpopped hfin).imp id hs.finSent.trans

/-- A call of `Write` returns. -/
theorem Inv.returned (h : Inv w) {p : List UInt8} {n : Nat} (err : Option WriteError)
    (hdata : w.stream.dataForWriting = none ∨ w.stream.err ≠ none)
    (htaken : w.taken = w.reportedData ++ p.take n) : Inv (w.record p (.returned n err)) where
  __ := h
  settled _ := by
    refine ⟨htaken.trans ?_, hdata⟩
    simp [record, reportedData]
  calling c hcall := by cases hcall

/-- A call of `Write` waits. -/
theorem Inv.waiting (h : Inv w) {p : List UInt8} (c : WriteCall)
    (hle : w.reportedData.length ≤ w.taken.length)
    (htaken : w.taken ++ w.stream.dataForWriting.getD [] = w.reportedData ++ c.data) :
    Inv (w.record p (.waiting c)) where
  __ := h
  settled hcall := by cases hcall
  calling c' hcall := by
    cases hcall
    exact ⟨hle, htaken⟩

/-- If `as` reaches over `cs`, it is `cs` and the part of `ds` before `bs`. -/
theorem take_of_append_eq {α : Type} {as bs cs ds : List α} (h : as ++ bs = cs ++ ds)
    (hle : cs.length ≤ as.length) : as = cs ++ ds.take (ds.length - bs.length) := by
  obtain ⟨mid, rfl⟩ := prefix_of_prefix_length_le ⟨ds, h.symm⟩ (prefix_append as bs) hle
  rw [append_assoc, append_cancel_left_eq] at h
  simp [← h]

theorem Inv.writeTurn (h : Inv w) {c : WriteCall} (hcall : w.call = some c) {now : Nat}
    (hnow : expired w.stream.writeDeadline now = false) :
    Inv (w.record c.data (w.stream.writeTurn now c.data)) := by
  obtain ⟨hle, heq⟩ := h.calling c hcall
  have htaken := take_of_append_eq heq hle
  simp only [SendStream.writeTurn, hnow, Bool.false_eq_true, if_false]
  split
  · next e data herr => exact h.returned _ (.inr (by simp [herr])) htaken
  · next hdata =>
    refine h.returned _ (.inl hdata) ?_
    rw [hdata] at htaken
    simpa using htaken
  · exact h.waiting _ hle heq

/-- The stream with new data for writing. -/
theorem Inv.publish (h : Inv w) (hcall : w.call = none)
    (hopen : w.stream.finishedWriting = false) (p : List UInt8) :
    Inv { w with
      stream := { w.stream with dataForWriting := some p }
      call := some ⟨p, none⟩ } := by
  obtain ⟨htaken, -⟩ := h.settled hcall
  have hnofin : ¬ (w.stream.finSent = true ∨ w.visit.fin = true) := fun hfin => by
    have hfinished := (h.fin hfin).1
    rw [hopen] at hfinished
    cases hfinished
  exact
    { contiguous := h.contiguous
      offset := h.offset
      visitOffset := h.visitOffset
      settled := fun hnone => by cases hnone
      calling := by
        rintro c ⟨⟩
        exact ⟨Nat.le_of_eq (congrArg length htaken.symm), congrArg (· ++ p) htaken⟩
      fin := fun hfin => absurd hfin hnofin
      finSent := h.finSent
      last := h.last }

theorem Inv.write (h : Inv w) (hcall : w.call = none) {now : Nat} {p : List UInt8}
    (hfit : w.InTime (.write now p)) : Inv (w.act (.write now p)) := by
  have hearly : ∀ err, Inv (w.record p (.returned 0 err)) := fun err =>
    h.returned err (h.settled hcall).2 (by simp [(h.settled hcall).1])
  simp only [act, hcall, SendStream.write]
  split
  · exact hearly (w.stream.err.map .stream)
  rename_i hok
  rw [not_or, Bool.not_eq_true, not_not] at hok
  split
  · exact hearly (some (.closed w.stream.streamID))
  rename_i hopen
  rw [Bool.not_eq_true] at hopen
  split
  · exact hearly none
  rename_i hne
  have hpublished := h.publish hcall hopen p
  exact hpublished.writeTurn rfl (hfit hcall hok.1 hok.2 hopen hne)

/-! ### The framer's side -/

end Writing

namespace SendStream

theorem startVisit_cases (s : SendStream) (maxBytes currentLen sendWindowSize : Nat) :
    s.startVisit maxBytes currentLen sendWindowSize = .idle ∨ ∃ maxLen lenStreamData,
      s.startVisit maxBytes currentLen sendWindowSize =
        .measured s.writeOffset maxLen lenStreamData := by
  rw [startVisit]
  split
  · exact .inl rfl
  split
  · exact .inl rfl
  simp only
  split
  · exact .inl rfl
  · exact .inr ⟨_, _, rfl⟩

/-- The framer has taken `data` from the front of what waits to be sent. -/
structure Gives (s : SendStream) (data : Option (List UInt8)) (s' : SendStream) : Prop where
  offset : s'.writeOffset = s.writeOffset + (data.getD []).length
  split : data.getD [] ++ s'.dataForWriting.getD [] = s.dataForWriting.getD []
  empty : s.dataForWriting = none → data = none ∧ s'.dataForWriting = none
  refused : s.err ≠ none → data = none
  err : s'.err = s.err
  finSent : s'.finSent = s.finSent
  finished : s'.finishedWriting = s.finishedWriting

theorem gives_none (s : SendStream) : Gives s none s :=
  ⟨rfl, rfl, fun h => ⟨rfl, h⟩, fun _ => rfl, rfl, rfl, rfl⟩

theorem gives_getDataForWriting (s : SendStream) (maxBytes : Nat) :
    Gives s (s.getDataForWriting maxBytes).1 (s.getDataForWriting maxBytes).2 := by
  rw [getDataForWriting]
  cases herr : s.err with
  | some e => exact gives_none s
  | none =>
    cases hdata : s.dataForWriting with
    | none => exact gives_none s
    | some data =>
      simp only
      split
      · exact ⟨rfl, by simp [hdata], by simp [hdata], by simp [herr], herr.symm, rfl, rfl⟩
      · exact ⟨rfl, by simp [hdata], by simp [hdata], by simp [herr], herr.symm, rfl, rfl⟩

end SendStream

namespace Writing

/-- A visit that has no data yet takes some. -/
theorem Inv.gives (h : Inv w) (hfree : w.visit.data = none) {data : Option (List UInt8)}
    {s : SendStream} (hs : w.stream.Gives data s) {v : Visit} (hdata : v.data = data)
    (hfin : v.fin = false) (hoffset : ∀ offset ∈ v.offset, offset = w.sent.length) :
    Inv { w with stream := s, visit := v } := by
  have htaken : w.taken = w.sent := by simp [taken, hfree]
  have hnext : taken { w with stream := s, visit := v } = w.taken ++ data.getD [] := by
    rw [htaken, taken, sent, hdata, sent]
  refine ⟨h.contiguous, ?_, hoffset, ?_, ?_, ?_, ?_, ?_⟩
  · rw [hnext, length_append, ← h.offset]
    exact hs.offset
  · intro hcall
    obtain ⟨hold, hwaits⟩ := h.settled hcall
    have hnothing : data = none := hwaits.elim (fun hnone => (hs.empty hnone).1) hs.refused
    rw [hnext, hnothing]
    refine ⟨(append_nil _).trans hold, hwaits.imp (fun hnone => (hs.empty hnone).2) fun herr => ?_⟩
    rw [hs.err]
    exact herr
  · intro c hcall
    obtain ⟨hle, hold⟩ := h.calling c hcall
    rw [hnext, append_assoc, hs.split, length_append]
    exact ⟨Nat.le_trans hle (Nat.le_add_right _ _), hold⟩
  · rw [hfin, hs.finSent]
    intro hsent
    obtain ⟨hfinished, hnone⟩ := h.fin (.inl (hsent.resolve_right (by simp)))
    exact ⟨hs.finished.trans hfinished, (hs.empty hnone).2⟩
  · intro hsent
    obtain ⟨-, hnone⟩ := h.fin (.inl (hs.finSent.symm.trans hsent))
    exact ⟨hdata.trans (hs.empty hnone).1, hfin⟩
  · intro before f after hpopped hf
    exact (h.last before f after hpopped hf).imp id hs.finSent.trans

theorem Inv.startVisit (h : Inv w) (hidle : w.visit = .idle)
    (maxBytes currentLen sendWindowSize : Nat) :
    Inv { w with visit := w.stream.startVisit maxBytes currentLen sendWindowSize } := by
  have hfree : w.visit.data = none := by rw [hidle]; rfl
  have hposition : w.stream.writeOffset = w.sent.length := by
    rw [h.offset, taken, hfree]
    simp
  rcases w.stream.startVisit_cases maxBytes currentLen sendWindowSize with hv | ⟨n, m, hv⟩
  · exact h.gives hfree (SendStream.gives_none _) (by rw [hv]; rfl) (by rw [hv]; rfl)
      (by rw [hv]; intro _ ho; cases ho)
  · exact h.gives hfree (SendStream.gives_none _) (by rw [hv]; rfl) (by rw [hv]; rfl)
      (by rw [hv]; intro _ ho; cases ho; exact hposition)

/-- The framer decides about the FIN after it has taken the data. -/
theorem Inv.decide (h : Inv w) {offset : Nat} {data : Option (List UInt8)}
    (hv : w.visit = .fetched offset data) :
    Inv { w with visit := .decided offset data w.stream.shouldSendFin } := by
  have hdata : w.visit.data = data := by rw [hv]; rfl
  have htaken : taken { w with visit := .decided offset data w.stream.shouldSendFin } =
      w.taken := by
    rw [taken, taken, hdata]
    rfl
  refine ⟨h.contiguous, h.offset.trans (congrArg _ htaken.symm), ?_, ?_, ?_, ?_, ?_, h.last⟩
  · rintro _ ⟨⟩
    exact h.visitOffset offset (by rw [hv]; rfl)
  · rw [htaken]
    exact h.settled
  · rw [htaken]
    exact h.calling
  · rintro (hsent | hshould)
    · exact h.fin (.inl hsent)
    simp only [Visit.fin, SendStream.shouldSendFin, Bool.and_eq_true,
      Option.isNone_iff_eq_none] at hshould
    exact ⟨hshould.1.1.1, hshould.2⟩
  · intro hsent
    refine ⟨hdata.symm.trans (h.finSent hsent).1, ?_⟩
    simp [Visit.fin, SendStream.shouldSendFin, show w.stream.finSent = true from hsent]

theorem append_singleton_eq {α : Type} {l before after : List α} {a b : α}
    (h : l ++ [a] = before ++ b :: after) :
    (after = [] ∧ before = l ∧ b = a) ∨ ∃ rest, after = rest ++ [a] ∧ l = before ++ b :: rest := by
  rcases eq_nil_or_concat' after with rfl | ⟨rest, c, rfl⟩
  · obtain ⟨rfl, hb⟩ := append_inj' h rfl
    exact .inl ⟨rfl, rfl, (cons.inj hb).1.symm⟩
  rw [← cons_append, ← append_assoc] at h
  obtain ⟨rfl, hc⟩ := append_inj' h rfl
  obtain rfl := (cons.inj hc).1
  exact .inr ⟨rest, rfl, rfl⟩

/-- A visit ends with a frame. -/
theorem Inv.emit (h : Inv w) {offset : Nat} {data : Option (List UInt8)} {fin : Bool}
    (hv : w.visit = .decided offset data fin) (hsome : ¬ (data = none ∧ fin = false)) :
    Inv { w with
      stream := if fin then w.stream.sentFin else w.stream
      visit := .idle
      popped := w.popped ++ [⟨⟨offset, data.getD [], fin⟩, w.stream.streamID, true⟩] } := by
  have hdata : w.visit.data = data := by rw [hv]; rfl
  have hfin : w.visit.fin = fin := by rw [hv]; rfl
  have hoffset : offset = w.sent.length := h.visitOffset offset (by rw [hv]; rfl)
  have hunsent : w.stream.finSent = false := by
    by_contra hsent
    obtain ⟨hd, hf⟩ := h.finSent (by simpa using hsent)
    exact hsome ⟨hdata.symm.trans hd, hfin.symm.trans hf⟩
  -- The stream differs in `finSent` only.
  have hstream : (if fin then w.stream.sentFin else w.stream) =
      { w.stream with finSent := fin } := by
    cases fin with
    | true => rfl
    | false => rw [if_neg Bool.false_ne_true, ← hunsent]
  rw [hstream]
  generalize hf : OutFrame.mk ⟨offset, data.getD [], fin⟩ w.stream.streamID true = f
  have hsent : (w.popped ++ [f]).flatMap (fun f => f.data) = w.taken := by
    rw [taken, hdata, sent, ← hf]
    simp
  have htaken : taken { w with
      stream := { w.stream with finSent := fin }, visit := .idle, popped := w.popped ++ [f] } =
      w.taken := by
    rw [← hsent, taken, sent]
    exact append_nil _
  refine ⟨?_, h.offset.trans (congrArg _ htaken.symm), by rintro _ ⟨⟩, ?_, ?_, ?_, ?_, ?_⟩
  · intro before g after hpopped
    rcases append_singleton_eq hpopped with ⟨-, rfl, rfl⟩ | ⟨rest, -, hold⟩
    · rw [← hf]
      exact hoffset
    · exact h.contiguous before g rest hold
  · rw [htaken]
    exact h.settled
  · rw [htaken]
    exact h.calling
  · rintro (hnow | hnow)
    · exact h.fin (.inr (hfin.trans hnow))
    · cases hnow
  · exact fun _ => ⟨rfl, rfl⟩
  intro before g after hpopped hg
  rcases append_singleton_eq hpopped with ⟨rfl, -, rfl⟩ | ⟨rest, -, hold⟩
  · rw [← hf] at hg
    exact ⟨rfl, hg⟩
  · rw [(h.last before g rest hold hg).2] at hunsent
    cases hunsent

theorem Inv.proceed (h : Inv w) : Inv (w.act .proceed) := by
  rw [act]
  cases hv : w.visit with
  | idle =>
    simp only [SendStream.proceed, Option.toList_none, append_nil]
    rw [← hv]
    exact h
  | measured offset maxLen lenStreamData =>
    have hfree : w.visit.data = none := by rw [hv]; rfl
    have hoffset : offset = w.sent.length := h.visitOffset offset (by rw [hv]; rfl)
    simp only [SendStream.proceed]
    split
    · simp only [Option.toList_none, append_nil]
      exact h.gives hfree (SendStream.gives_none _) rfl rfl (by rintro _ ⟨⟩; exact hoffset)
    · simp only [Option.toList_none, append_nil]
      exact h.gives hfree (w.stream.gives_getDataForWriting maxLen) rfl rfl
        (by rintro _ ⟨⟩; exact hoffset)
  | fetched offset data =>
    simp only [SendStream.proceed, Option.toList_none, append_nil]
    exact h.decide hv
  | decided offset data fin =>
    simp only [SendStream.proceed]
    split
    · next hnothing =>
      simp only [Option.toList_none, append_nil]
      obtain ⟨rfl, rfl⟩ := hnothing
      exact h.gives (by rw [hv]; rfl) (SendStream.gives_none _) rfl rfl (by rintro _ ⟨⟩)
    · next hsome => exact h.emit hv hsome

/-- Every action keeps the invariant, if `Write` is in time. -/
theorem inv_act (h : Inv w) {a : WriteAction} (hfit : w.InTime a) : Inv (w.act a) := by
  cases a with
  | write now p =>
    cases hcall : w.call with
    | some c =>
      simp only [act, hcall]
      exact h
    | none => exact h.write hcall hfit
  | signal now =>
    cases hcall : w.call with
    | none =>
      simp only [act, hcall]
      exact h
    | some c =>
      simp only [act, hcall]
      split
      · next hsignal =>
        have hkept := h.keeps (s := { w.stream with writeChan := false }) ⟨rfl, rfl, rfl, id, id⟩
        exact hkept.writeTurn hcall (hfit (by simp [hcall]) hsignal)
      · exact h
  | timeout now =>
    cases hcall : w.call with
    | none =>
      simp only [act, hcall]
      exact h
    | some c =>
      simp only [act, hcall]
      split
      · next hfired => exact h.writeTurn hcall (hfit c hcall hfired)
      · exact h
  | close => exact h.keeps ⟨rfl, rfl, rfl, id, fun _ => rfl⟩
  | cancel err => exact h.keeps (SendStream.keeps_setErr err)
  | reset err => exact h.keeps (SendStream.keeps_reset err)
  | registerRemoteError err => exact h.keeps (SendStream.keeps_registerRemoteError err)
  | setWriteDeadline t => exact h.keeps ⟨rfl, rfl, rfl, id, id⟩
  | visit maxBytes currentLen sendWindowSize =>
    cases hv : w.visit with
    | idle =>
      simp only [act, hv]
      exact h.startVisit hv maxBytes currentLen sendWindowSize
    | _ =>
      simp only [act, hv]
      exact h
  | proceed => exact h.proceed

/-- **What `Write` reports is what is sent.** In every interleaving of `Write`, `Close`,
`Cancel` and `Reset` calls with the visits of the framer, under any windows and packet sizes,
in which no deadline has expired when `Write` looks at it: the popped frames are contiguous
from offset 0, their data is a prefix of what the calls report, and a FIN is on the last
frame only, at the end of everything reported. -/
theorem write_reports_sent (streamID : Nat) (acts : List WriteAction)
    (hfit : AllFit act InTime (new streamID) acts) : Accounted (run act (new streamID) acts) :=
  (run_inv InTime (fun _ w => Inv w) (fun _ _ _ h hfit => inv_act h hfit) acts [] _
    (inv_new streamID) hfit).accounted

/-- Five bytes: four in the first packet, the last one with a FIN in the second. -/
theorem write_reports_sent_five :
    let w := run act (new 5) [.write 0 [1, 2, 3, 4, 5], .visit 8 0 100, .proceed, .proceed,
      .proceed, .close, .visit 8 0 100, .proceed, .proceed, .proceed, .signal 1]
    w.Accounted ∧ w.reported = [([1, 2, 3, 4, 5], 5)] ∧
      w.popped = [⟨⟨0, [1, 2, 3, 4], false⟩, 5, true⟩, ⟨⟨4, [5], true⟩, 5, true⟩] := by
  refine ⟨write_reports_sent 5 _ ?_, by decide, by decide⟩
  exact .cons (fun _ _ _ _ _ => rfl) (.cons trivial (.cons trivial (.cons trivial (.cons trivial
    (.cons trivial (.cons trivial (.cons trivial (.cons trivial (.cons trivial
      (.cons (fun _ _ => rfl) .nil))))))))))

/-- The deadline has expired: `Write` reports nothing, and the framer sends its data. -/
theorem write_reports_nothing :
    let w := run act (new 5) [.setWriteDeadline (some 9), .write 9 [1, 2], .visit 100 0 100,
      .proceed, .proceed, .proceed]
    w.reported = [([1, 2], 0)] ∧ w.popped = [⟨⟨0, [1, 2], false⟩, 5, true⟩] ∧
      ¬ w.sent <+: w.promised := by
  decide

end Writing

end RlncStreaming.Quic
