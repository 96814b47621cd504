import RlncStreaming.Quic.FlowControl

/-!
Flow control of the sender, over whole runs (`stream_framer.go`, `flow_control_manager.go`).

New data is sent by `maybePopNormalFrames` only, which asks for the smaller one of the two
windows of a stream. So whatever the peer grants, no more is ever sent than the largest offset
that was granted.

A controller stores 0 as long as the initial window holds, and compares a WINDOW_UPDATE frame
with what it has stored. The first one takes effect even if it is lower than the initial window:
the offset up to which a stream may be sent goes back (`window_shrinks`). This is the only way
in which it can (`send_windows_iff`).
-/

namespace RlncStreaming.Quic

open Lib FlowControl Option Function

/-! ### Runs -/

inductive SendEvent where
  /-- `session.newStream`. -/
  | newStream (id : UInt32)
  /-- Writing, closing or anything else that is done to the streams. -/
  | streams (streamsMap : StreamsMap)
  /-- `maybePopNormalFrames`. -/
  | pop (maxBytes : Nat)
  /-- `UpdateWindow`, for a WINDOW_UPDATE frame. -/
  | updateWindow (id : UInt32) (offset : UInt64)

/-- The framer with its flow control, the frames that it has given out, and the largest offsets
that the peer has granted for the streams and for the connection. -/
structure Sending where
  framer : StreamFramer FlowControl
  sent : List OutFrame
  granted : UInt32 → Nat
  connGranted : Nat

namespace Sending

/-- A session with these streams, before anything was sent. -/
def new (params : FlowParameters) (streamsMap : StreamsMap) : Sending where
  framer := newStreamFramer streamsMap (newFlowControlManager params)
  sent := []
  granted := fun id => (FlowController.initialSendWindow params id).toNat
  connGranted := params.sendConnectionFlowControlWindow.toNat

def step (s : Sending) : SendEvent → Sending
  | .newStream id =>
    { s with framer := { s.framer with flowControlManager :=
        s.framer.flowControlManager.newStream id (FlowControl.contributes id) } }
  | .streams streamsMap => { s with framer := { s.framer with streamsMap } }
  | .pop maxBytes =>
    let (res, framer) := s.framer.maybePopNormalFrames maxBytes
    { s with framer, sent := s.sent ++ res.map framer.heap.cells }
  | .updateWindow id offset =>
    let flowControlManager := s.framer.flowControlManager
    let known := (flowControlManager.streamFlowController id).isSome
    { s with
      framer := { s.framer with
        flowControlManager := (flowControlManager.updateWindow id offset).2 }
      -- a frame for an unknown stream grants nothing
      granted := if id ≠ 0 ∧ known then
        update s.granted id (max (s.granted id) offset.toNat) else s.granted
      connGranted := if id = 0 then max s.connGranted offset.toNat else s.connGranted }

/-- The new data in the frames of a stream. -/
def sentOn (frames : List OutFrame) (id : UInt32) : Nat :=
  ((frames.filter fun f => f.streamID.toUInt32 = id).map fun f => f.dataLen).sum

/-- The new data in the frames of all streams that contribute to the connection. -/
def sentOnConnection (frames : List OutFrame) : Nat :=
  ((frames.filter fun f => FlowControl.contributes f.streamID.toUInt32).map
    fun f => f.dataLen).sum

/-- No more was sent than granted. -/
def WithinGrants (s : Sending) : Prop :=
  (∀ id, sentOn s.sent id ≤ s.granted id) ∧ sentOnConnection s.sent ≤ s.connGranted

/-- `SendWindowOffset` of a stream, if it has a flow controller. -/
def offset (s : Sending) (id : UInt32) : Option UInt64 :=
  (s.framer.flowControlManager.streamFlowController id).map
    (FlowController.getSendWindow s.framer.flowControlManager.params)

/-- `SendWindowOffset` of the connection. -/
def connOffset (s : Sending) : UInt64 :=
  s.framer.flowControlManager.connFlowController.getSendWindow s.framer.flowControlManager.params

/-- No send window goes back. -/
def KeepsOffsets (s : Sending) (e : SendEvent) : Prop :=
  (∀ id w w', s.offset id = some w → (s.step e).offset id = some w' → w ≤ w') ∧
    s.connOffset ≤ (s.step e).connOffset

/-- The controller takes the offset without going back. -/
def Grants (params : FlowParameters) (c : FlowController) (offset : UInt64) : Prop :=
  c.sendWindow = 0 → offset = 0 ∨ FlowController.initialSendWindow params c.streamID ≤ offset

/-- A WINDOW_UPDATE frame that is the first one for its controller does not stay below the
initial window. -/
def Fits (s : Sending) : SendEvent → Prop
  | .updateWindow id offset =>
    if id = 0 then
      Grants s.framer.flowControlManager.params s.framer.flowControlManager.connFlowController
        offset
    else ∀ c, s.framer.flowControlManager.streamFlowController id = some c →
      Grants s.framer.flowControlManager.params c offset
  | _ => True

/-! ### One controller -/

section Controller

variable {params : FlowParameters} {granted total n : Nat} {c : FlowController} {offset : UInt64}

/-- The controller has counted `total` bytes, and `granted` is the largest offset so far. -/
structure Tracks (params : FlowParameters) (granted total : Nat) (c : FlowController) : Prop where
  counted : c.bytesSent.toNat = total
  within : total ≤ granted
  window : (c.getSendWindow params).toNat ≤ granted

theorem tracks_new (streamID : UInt32) (contributes : Bool) :
    Tracks params (FlowController.initialSendWindow params streamID).toNat 0
      (newFlowController streamID contributes params) :=
  ⟨rfl, Nat.zero_le _, Nat.le_refl _⟩

/-- What fits into the window may be sent. -/
theorem Tracks.addBytesSent (h : Tracks params granted total c)
    (hn : n ≤ (c.sendWindowSize params).toNat) :
    Tracks params granted (total + n) (c.addBytesSent n.toUInt64) := by
  have hbytes := c.bytesSent.toNat_lt
  have hwindow := (c.getSendWindow params).toNat_lt
  have hcounted := h.counted
  have hwithin := h.within
  have hgranted := h.window
  -- either the window is used up, and nothing is sent, or it has room for all of it
  have hroom : n = 0 ∨ c.bytesSent.toNat + n ≤ (c.getSendWindow params).toNat := by
    unfold FlowController.sendWindowSize at hn
    split at hn
    · left
      exact Nat.le_zero.mp hn
    rename_i hle
    have hle' := UInt64.le_iff_toNat_le.mp (UInt64.not_lt.mp hle)
    rw [UInt64.toNat_sub_of_le _ _ (UInt64.not_lt.mp hle)] at hn
    omega
  refine ⟨?_, by omega, h.window⟩
  change (c.bytesSent + n.toUInt64).toNat = total + n
  rw [UInt64.toNat_add, Nat.toUInt64_eq, UInt64.toNat_ofNat']
  omega

theorem Tracks.updateSendWindow (h : Tracks params granted total c) (offset : UInt64) :
    Tracks params (max granted offset.toNat) total (c.updateSendWindow offset).2 := by
  refine ⟨?_, Nat.le_trans h.within (Nat.le_max_left _ _), ?_⟩
  · unfold FlowController.updateSendWindow
    split
    · exact h.counted
    · exact h.counted
  unfold FlowController.updateSendWindow
  split
  · unfold FlowController.getSendWindow
    simp only
    split
    · rename_i hlt hzero
      rw [hzero] at hlt
      exact absurd hlt (UInt64.not_lt.mpr UInt64.zero_le)
    · exact Nat.le_max_right _ _
  · exact Nat.le_trans h.window (Nat.le_max_left _ _)

/-- The send window goes back just if the first offset that is granted is below the initial
window. -/
theorem getSendWindow_le_iff :
    c.getSendWindow params ≤ (c.updateSendWindow offset).2.getSendWindow params ↔
      Grants params c offset := by
  unfold FlowController.updateSendWindow Grants
  by_cases hzero : c.sendWindow = 0
  · by_cases hoffset : offset = 0
    · simp [FlowController.getSendWindow, hzero, hoffset]
    have hlt : 0 < offset := UInt64.pos_iff_ne_zero.mpr hoffset
    simp [FlowController.getSendWindow, hzero, hoffset, hlt]
  simp only [hzero, false_implies, iff_true]
  split
  · rename_i hlt
    have hne : offset ≠ 0 := by
      rintro rfl
      exact absurd hlt (UInt64.not_lt.mpr UInt64.zero_le)
    simp only [FlowController.getSendWindow, hzero, hne, if_false]
    exact UInt64.le_of_lt hlt
  · exact UInt64.le_refl _

end Controller

/-! ### Frames that are popped -/

/-- The data that is taken from a stream is no longer than asked for. -/
theorem length_getDataForWriting (s : SendStream) (maxBytes : Nat) :
    ((s.getDataForWriting maxBytes).1.getD []).length ≤ maxBytes := by
  unfold SendStream.getDataForWriting
  split
  · split
    · rw [getD_some, List.length_take]
      exact Nat.min_le_left _ _
    · rename_i hle
      exact Nat.not_lt.mp hle
  · exact Nat.zero_le _

/-- A visit of the framer pops nothing, or a frame that the windows allow. -/
theorem visitStream_cases {φ : Type} [FlowControlManager φ] (maxBytes : Nat) (st : PopState φ)
    (s : SendStream) :
    (visitStream maxBytes st s).1 = st ∨
      ∃ frame window, (visitStream maxBytes st s).1 = st.pop frame window ∧
        frame.streamID = s.streamID ∧
        frame.dataLen ≤ FlowControlManager.sendWindowSize st.flowControlManager s.streamID := by
  have hfinish : ∀ window (data : Option (List UInt8)) (s' : SendStream),
      (data.getD []).length ≤ FlowControlManager.sendWindowSize st.flowControlManager s.streamID →
      (finishVisit maxBytes window st s.newFrame data s').1 = st ∨
      ∃ frame window', (finishVisit maxBytes window st s.newFrame data s').1 =
          st.pop frame window' ∧ frame.streamID = s.streamID ∧
        frame.dataLen ≤ FlowControlManager.sendWindowSize st.flowControlManager s.streamID := by
    intro window data s' hdata
    unfold finishVisit
    split
    · exact .inl rfl
    · exact .inr ⟨_, _, rfl, rfl, hdata⟩
  unfold visitStream
  split
  · exact .inl rfl
  split
  · exact .inl rfl
  simp only
  split
  · exact .inl rfl
  split
  · exact hfinish _ none _ (Nat.zero_le _)
  rename_i hlen
  apply hfinish
  -- a stream with data is limited by its window
  refine Nat.le_trans (length_getDataForWriting s _) ?_
  unfold SendStream.maxLen
  rw [if_pos hlen]
  exact Nat.min_le_right _ _

theorem sentOn_append (frames : List OutFrame) (frame : OutFrame) (id : UInt32) :
    sentOn (frames ++ [frame]) id =
      sentOn frames id + if frame.streamID.toUInt32 = id then frame.dataLen else 0 := by
  unfold sentOn
  by_cases hid : frame.streamID.toUInt32 = id
  · simp [List.filter_append, hid]
  · simp [List.filter_append, hid]

theorem sentOnConnection_append (frames : List OutFrame) (frame : OutFrame) :
    sentOnConnection (frames ++ [frame]) = sentOnConnection frames +
      if contributes frame.streamID.toUInt32 then frame.dataLen else 0 := by
  unfold sentOnConnection
  cases hid : contributes frame.streamID.toUInt32 with
  | true => simp [List.filter_append, hid]
  | false => simp [List.filter_append, hid]

/-! ### The controllers of a session -/

/-- The controllers have counted the frames. -/
structure Accounts (granted : UInt32 → Nat) (connGranted : Nat) (frames : List OutFrame)
    (f : FlowControl) : Prop where
  streams : ∀ id c, f.streamFlowController id = some c →
    Tracks f.params (granted id) (sentOn frames id) c ∧
      c.contributesToConnection = FlowControl.contributes id
  others : ∀ id, f.streamFlowController id = none →
    sentOn frames id = 0 ∧ granted id = (FlowController.initialSendWindow f.params id).toNat
  conn : Tracks f.params connGranted (sentOnConnection frames) f.connFlowController

/-- The windows are the same. -/
structure SameWindows (f f' : FlowControl) : Prop where
  streams : ∀ id, (f'.streamFlowController id).map (FlowController.getSendWindow f'.params) =
    (f.streamFlowController id).map (FlowController.getSendWindow f.params)
  conn : f'.connFlowController.getSendWindow f'.params = f.connFlowController.getSendWindow f.params

variable {granted : UInt32 → Nat} {connGranted : Nat} {frames : List OutFrame} {f : FlowControl}
  {frame : OutFrame} {id : UInt32} {c : FlowController}

/-- The window of a stream is also one of the connection. -/
theorem le_sendWindowSize {n : Nat} (hc : f.streamFlowController id = some c)
    (hn : n ≤ (f.sendWindowSize id).toNat) :
    n ≤ (c.sendWindowSize f.params).toNat ∧ (c.contributesToConnection = true →
      n ≤ (f.connFlowController.sendWindowSize f.params).toNat) := by
  unfold sendWindowSize at hn
  rw [hc] at hn
  simp only at hn
  split at hn
  · rename_i hless
    exact ⟨Nat.le_trans hn (Nat.le_of_lt (UInt64.lt_iff_toNat_lt.mp hless.2)), fun _ => hn⟩
  · rename_i hnot
    refine ⟨hn, fun hcontributes => Nat.le_trans hn ?_⟩
    exact UInt64.le_iff_toNat_le.mp (UInt64.not_lt.mp fun hless => hnot ⟨hcontributes, hless⟩)

theorem addBytesSent_some (n : UInt64) (hc : f.streamFlowController id = some c) :
    f.addBytesSent id n = { f with
      streamFlowController := update f.streamFlowController id (some (c.addBytesSent n))
      connFlowController := if c.contributesToConnection then f.connFlowController.addBytesSent n
        else f.connFlowController } := by
  unfold addBytesSent count
  rw [hc]
  cases hcontributes : c.contributesToConnection with
  | true => simp [setStream, hcontributes]
  | false => simp [setStream, hcontributes]

theorem addBytesSent_none (n : UInt64) (hc : f.streamFlowController id = none) :
    f.addBytesSent id n = f := by
  unfold addBytesSent count
  rw [hc]

/-- Sending a frame that the windows allow. -/
theorem Accounts.addBytesSent (h : Accounts granted connGranted frames f)
    (hn : frame.dataLen ≤ (f.sendWindowSize frame.streamID.toUInt32).toNat) :
    Accounts granted connGranted (frames ++ [frame])
      (f.addBytesSent frame.streamID.toUInt32 frame.dataLen.toUInt64) := by
  cases hc : f.streamFlowController frame.streamID.toUInt32 with
  | none =>
    -- a stream without a controller has no window
    have hzero : frame.dataLen = 0 := by
      unfold sendWindowSize at hn
      rw [hc] at hn
      exact Nat.le_zero.mp hn
    have hsame : ∀ id, sentOn (frames ++ [frame]) id = sentOn frames id := fun id => by
      rw [sentOn_append, hzero, ite_self, Nat.add_zero]
    have hconn : sentOnConnection (frames ++ [frame]) = sentOnConnection frames := by
      rw [sentOnConnection_append, hzero, ite_self, Nat.add_zero]
    rw [addBytesSent_none _ hc]
    refine ⟨fun id c hid => ?_, fun id hid => ?_, ?_⟩
    · rw [hsame]
      exact h.streams id c hid
    · rw [hsame]
      exact h.others id hid
    · rw [hconn]
      exact h.conn
  | some c =>
    obtain ⟨htracks, hcontributes⟩ := h.streams _ c hc
    obtain ⟨hstream, hconnection⟩ := le_sendWindowSize hc hn
    rw [addBytesSent_some _ hc]
    refine ⟨fun id c' hid => ?_, fun id hid => ?_, ?_⟩
    · change update f.streamFlowController frame.streamID.toUInt32 _ id = some c' at hid
      rw [sentOn_append]
      by_cases heq : id = frame.streamID.toUInt32
      · subst heq
        rw [update_self] at hid
        cases hid
        rw [if_pos rfl]
        exact ⟨htracks.addBytesSent hstream, hcontributes⟩
      · rw [update_of_ne heq] at hid
        rw [if_neg (Ne.symm heq), Nat.add_zero]
        exact h.streams id c' hid
    · change update f.streamFlowController frame.streamID.toUInt32 _ id = none at hid
      have heq : id ≠ frame.streamID.toUInt32 := by
        rintro rfl
        simp at hid
      rw [update_of_ne heq] at hid
      rw [sentOn_append, if_neg (Ne.symm heq), Nat.add_zero]
      exact h.others id hid
    · rw [sentOnConnection_append, ← hcontributes]
      change Tracks f.params _ _ (if c.contributesToConnection then _ else _)
      split
      · rename_i hyes
        exact h.conn.addBytesSent (hconnection hyes)
      · exact h.conn

theorem SameWindows.refl (f : FlowControl) : SameWindows f f := ⟨fun _ => rfl, rfl⟩

theorem SameWindows.addBytesSent {f₀ : FlowControl} (h : SameWindows f₀ f) (id : UInt32)
    (n : UInt64) : SameWindows f₀ (f.addBytesSent id n) := by
  cases hc : f.streamFlowController id with
  | none =>
    rw [addBytesSent_none _ hc]
    exact h
  | some c =>
    rw [addBytesSent_some _ hc]
    refine ⟨fun id' => ?_, ?_⟩
    · rw [← h.streams id']
      change (update f.streamFlowController id _ id').map _ = _
      by_cases heq : id' = id
      · subst heq
        rw [update_self, hc]
        rfl
      · rw [update_of_ne heq]
    · rw [← h.conn]
      change FlowController.getSendWindow f.params (if c.contributesToConnection then _ else _) = _
      split
      · rfl
      · rfl

/-! ### One event -/

/-- The state in the middle of `maybePopNormalFrames`, after `sent` was given out by earlier
calls. -/
structure Popping (granted : UInt32 → Nat) (connGranted : Nat) (sent : List OutFrame)
    (f : FlowControl) (st : PopState FlowControl) : Prop where
  accounts : Accounts granted connGranted (sent ++ st.res.map st.heap.cells) st.flowControlManager
  inUse : ∀ r ∈ st.res, r < st.heap.next
  windows : SameWindows f st.flowControlManager

section

variable {sent : List OutFrame} {st : PopState FlowControl}
  (h : Popping granted connGranted sent f st)

include h

theorem Popping.pop (window : Nat)
    (hn : frame.dataLen ≤ (st.flowControlManager.sendWindowSize frame.streamID.toUInt32).toNat) :
    Popping granted connGranted sent f (st.pop frame window) := by
  have hcells : (st.pop frame window).res.map (st.pop frame window).heap.cells =
      st.res.map st.heap.cells ++ [frame] := by
    unfold PopState.pop
    simp only [List.map_append, List.map_cons, List.map_nil, Heap.alloc_self]
    congr 1
    exact List.map_congr_left fun r hr => Heap.alloc_of_lt (h.inUse r hr)
  refine ⟨?_, fun r hr => ?_, h.windows.addBytesSent _ _⟩
  · rw [hcells, ← List.append_assoc]
    exact h.accounts.addBytesSent hn
  change r ∈ st.res ++ [st.heap.next] at hr
  change r < st.heap.next + 1
  rcases List.mem_append.mp hr with hold | hnew
  · exact Nat.lt_succ_of_lt (h.inUse r hold)
  rw [List.mem_singleton.mp hnew]
  exact Nat.lt_succ_self _

theorem Popping.visitStream (maxBytes : Nat) (s : SendStream) :
    Popping granted connGranted sent f (visitStream maxBytes st s).1 := by
  rcases visitStream_cases maxBytes st s with heq | ⟨frame, window, heq, hid, hn⟩
  · rw [heq]
    exact h
  · rw [heq]
    rw [← hid] at hn
    exact h.pop window hn

end

variable {s : Sending}

/-- The invariant of a run. -/
def Accounted (s : Sending) : Prop :=
  Accounts s.granted s.connGranted s.sent s.framer.flowControlManager

theorem accounted_new (params : FlowParameters) (streamsMap : StreamsMap) :
    (new params streamsMap).Accounted where
  streams := fun _ _ hc => by simp [new, newStreamFramer, newFlowControlManager] at hc
  others := fun _ _ => ⟨rfl, rfl⟩
  conn := tracks_new 0 false

theorem Accounted.withinGrants (h : s.Accounted) : s.WithinGrants := by
  refine ⟨fun id => ?_, h.conn.within⟩
  cases hc : s.framer.flowControlManager.streamFlowController id with
  | none =>
    rw [(h.others id hc).1]
    exact Nat.zero_le _
  | some c => exact (h.streams id c hc).1.within

theorem newStream_some (hc : f.streamFlowController id = some c) (contributes : Bool) :
    f.newStream id contributes = f := by
  unfold FlowControl.newStream
  rw [hc]

theorem newStream_none (hc : f.streamFlowController id = none) (contributes : Bool) :
    f.newStream id contributes = f.setStream id (newFlowController id contributes f.params) := by
  unfold FlowControl.newStream
  rw [hc]

/-- A controller of `f` after one was stored. -/
theorem setStream_cases {id' : UInt32} {c' : FlowController}
    (h : (f.setStream id c).streamFlowController id' = some c') :
    (id' = id ∧ c' = c) ∨ (id' ≠ id ∧ f.streamFlowController id' = some c') := by
  change update f.streamFlowController id _ id' = some c' at h
  by_cases heq : id' = id
  · subst heq
    rw [update_self] at h
    exact .inl ⟨rfl, (some.inj h).symm⟩
  · rw [update_of_ne heq] at h
    exact .inr ⟨heq, h⟩

theorem setStream_none {id' : UInt32} (h : (f.setStream id c).streamFlowController id' = none) :
    id' ≠ id ∧ f.streamFlowController id' = none := by
  change update f.streamFlowController id _ id' = none at h
  by_cases heq : id' = id
  · subst heq
    rw [update_self] at h
    cases h
  · rw [update_of_ne heq] at h
    exact ⟨heq, h⟩

theorem Accounts.newStream (h : Accounts granted connGranted frames f) (id : UInt32) :
    Accounts granted connGranted frames (f.newStream id (contributes id)) := by
  cases hc : f.streamFlowController id with
  | some c =>
    rw [newStream_some hc]
    exact h
  | none =>
    rw [newStream_none hc]
    obtain ⟨hsent, hgranted⟩ := h.others id hc
    refine ⟨fun id' c' hid' => ?_, fun id' hid' => h.others id' (setStream_none hid').2, h.conn⟩
    rcases setStream_cases hid' with ⟨rfl, rfl⟩ | ⟨-, hold⟩
    · refine ⟨?_, rfl⟩
      rw [hsent, hgranted]
      exact tracks_new id' _
    · exact h.streams id' c' hold

theorem updateWindow_some (hid : id ≠ 0) (hc : f.streamFlowController id = some c) (offset : UInt64)
    : (f.updateWindow id offset).2 = f.setStream id (c.updateSendWindow offset).2 := by
  unfold updateWindow
  rw [if_neg hid, hc]

theorem updateWindow_none (hid : id ≠ 0) (hc : f.streamFlowController id = none) (offset : UInt64) :
    (f.updateWindow id offset).2 = f := by
  unfold updateWindow
  rw [if_neg hid, hc]

theorem Accounts.updateStream (h : Accounts granted connGranted frames f)
    (hc : f.streamFlowController id = some c) (offset : UInt64) :
    Accounts (update granted id (max (granted id) offset.toNat)) connGranted frames
      (f.setStream id (c.updateSendWindow offset).2) := by
  obtain ⟨htracks, hcontributes⟩ := h.streams id c hc
  refine ⟨fun id' c' hid' => ?_, fun id' hid' => ?_, h.conn⟩
  · rcases setStream_cases hid' with ⟨rfl, rfl⟩ | ⟨hne, hold⟩
    · rw [update_self]
      refine ⟨htracks.updateSendWindow offset, Eq.trans ?_ hcontributes⟩
      rw [FlowController.updateSendWindow]
      split
      · rfl
      · rfl
    · rw [update_of_ne hne]
      exact h.streams id' c' hold
  · obtain ⟨hne, hold⟩ := setStream_none hid'
    rw [update_of_ne hne]
    exact h.others id' hold

theorem Accounted.updateWindow (h : s.Accounted) (id : UInt32) (offset : UInt64) :
    (s.step (.updateWindow id offset)).Accounted := by
  unfold Accounted
  by_cases hid : id = 0
  · subst hid
    simp only [step, FlowControl.updateWindow, ne_eq, not_true, false_and, if_false, if_true]
    exact ⟨h.streams, h.others, h.conn.updateSendWindow offset⟩
  cases hc : s.framer.flowControlManager.streamFlowController id with
  | none =>
    simp only [step, updateWindow_none hid hc, hid, hc, if_false, isSome_none,
      Bool.false_eq_true, and_false]
    exact h
  | some c =>
    simp only [step, updateWindow_some hid hc, hid, hc, if_false, isSome_some, ne_eq,
      not_false_eq_true, and_self, if_true]
    exact h.updateStream hc offset

theorem Accounted.popping (h : s.Accounted) (maxBytes : Nat) :
    Popping s.granted s.connGranted s.sent s.framer.flowControlManager
      (s.framer.streamsMap.roundRobinIterate (Quic.visitStream maxBytes)
        ⟨s.framer.heap, [], 0, s.framer.flowControlManager, s.framer.blockedFrameQueue⟩).1 := by
  apply StreamsMap.roundRobinIterate_inv _
    (Popping s.granted s.connGranted s.sent s.framer.flowControlManager)
  · exact fun st stream hst => hst.visitStream maxBytes stream
  refine ⟨?_, fun r hr => absurd hr List.not_mem_nil, .refl _⟩
  change Accounts _ _ (s.sent ++ []) _
  rw [List.append_nil]
  exact h

theorem Accounted.step (h : s.Accounted) (e : SendEvent) : (s.step e).Accounted := by
  cases e with
  | newStream id => exact h.newStream id
  | streams streamsMap => exact h
  | pop maxBytes => exact (h.popping maxBytes).accounts
  | updateWindow id offset => exact h.updateWindow id offset

/-! ### Send windows -/

theorem keepsOffsets_of_same {e : SendEvent}
    (h : SameWindows s.framer.flowControlManager (s.step e).framer.flowControlManager) :
    s.KeepsOffsets e := by
  refine ⟨fun id w w' hw hw' => ?_, UInt64.le_of_eq h.conn.symm⟩
  have hsame : (s.step e).offset id = s.offset id := h.streams id
  rw [hsame, hw] at hw'
  cases hw'
  exact UInt64.le_refl _

/-- One controller is stored, and its window does not go back. -/
theorem keepsOffsets_of_set {e : SendEvent} {c : FlowController}
    (h : (s.step e).framer.flowControlManager = s.framer.flowControlManager.setStream id c)
    (hc : ∀ c₀, s.framer.flowControlManager.streamFlowController id = some c₀ →
      c₀.getSendWindow s.framer.flowControlManager.params ≤
        c.getSendWindow s.framer.flowControlManager.params) : s.KeepsOffsets e := by
  refine ⟨fun id' w w' hw hw' => ?_, ?_⟩
  · simp only [offset, h] at hw'
    obtain ⟨c', hc', rfl⟩ := map_eq_some_iff.mp hw'
    obtain ⟨c₀, hold, rfl⟩ := map_eq_some_iff.mp hw
    rcases setStream_cases hc' with ⟨rfl, rfl⟩ | ⟨-, hold'⟩
    · exact hc c₀ hold
    · cases hold.symm.trans hold'
      exact UInt64.le_refl _
  · simp only [connOffset, h]
    exact UInt64.le_refl _

/-- A new stream does not change the windows of the others. -/
theorem keepsOffsets_newStream : s.KeepsOffsets (.newStream id) := by
  cases hc : s.framer.flowControlManager.streamFlowController id with
  | some c =>
    apply keepsOffsets_of_same
    simp only [step, newStream_some hc]
    exact .refl _
  | none =>
    refine keepsOffsets_of_set (newStream_none hc _) fun c₀ hold => ?_
    cases hc.symm.trans hold

/-- A WINDOW_UPDATE frame for the connection. -/
theorem keepsOffsets_updateConn_iff (offset : UInt64) :
    s.KeepsOffsets (.updateWindow 0 offset) ↔ s.Fits (.updateWindow 0 offset) := by
  unfold KeepsOffsets
  simp only [Fits, if_true]
  rw [← getSendWindow_le_iff]
  refine and_iff_right ?_
  intro id w w' hw hw'
  change s.offset id = some w' at hw'
  rw [hw] at hw'
  cases hw'
  exact UInt64.le_refl _

theorem keepsOffsets_updateStream_iff (hid : id ≠ 0) (offset : UInt64) :
    s.KeepsOffsets (.updateWindow id offset) ↔ s.Fits (.updateWindow id offset) := by
  simp only [Fits, hid, if_false]
  cases hc : s.framer.flowControlManager.streamFlowController id with
  | none =>
    have hkeeps : s.KeepsOffsets (.updateWindow id offset) := by
      apply keepsOffsets_of_same
      simp only [step, updateWindow_none hid hc]
      exact .refl _
    exact ⟨fun _ _ hc' => absurd hc' (by simp), fun _ => hkeeps⟩
  | some c =>
    constructor
    · intro hkeeps c' hc'
      cases hc'
      rw [← getSendWindow_le_iff]
      refine hkeeps.1 id _ _ (by simp only [Sending.offset, hc]; rfl) ?_
      simp only [Sending.offset, step, updateWindow_some hid hc, setStream, update_self]
      rfl
    intro hfits
    refine keepsOffsets_of_set (updateWindow_some hid hc offset) fun c₀ hold => ?_
    cases hc.symm.trans hold
    exact getSendWindow_le_iff.mpr (hfits c rfl)

/-- An event keeps all send windows just if it is no WINDOW_UPDATE frame that starts below the
initial window. -/
theorem Accounted.keepsOffsets_iff (h : s.Accounted) (e : SendEvent) :
    s.KeepsOffsets e ↔ s.Fits e := by
  cases e with
  | newStream id => exact ⟨fun _ => trivial, fun _ => keepsOffsets_newStream⟩
  | streams streamsMap => exact ⟨fun _ => trivial, fun _ => keepsOffsets_of_same (.refl _)⟩
  | pop maxBytes =>
    exact ⟨fun _ => trivial, fun _ => keepsOffsets_of_same (h.popping maxBytes).windows⟩
  | updateWindow id offset =>
    by_cases hid : id = 0
    · subst hid
      exact keepsOffsets_updateConn_iff offset
    · exact keepsOffsets_updateStream_iff hid offset

/-! ### Whole runs -/

theorem accounted_run (params : FlowParameters) (streamsMap : StreamsMap)
    (events : List SendEvent) : (run step (new params streamsMap) events).Accounted :=
  run_inv (fun _ _ => True) (fun _ => Accounted) (fun _ _ e (h : Accounted _) _ => h.step e) events
    [] _ (accounted_new params streamsMap) fun _ _ _ _ => trivial

/-- In every run no more data was ever sent on a stream, or on all contributing streams, than
the largest offset granted, and no send window goes back, just if no controller gets a first
WINDOW_UPDATE frame below its initial window. -/
theorem send_windows_iff (params : FlowParameters) (streamsMap : StreamsMap)
    (events : List SendEvent) :
    ((∀ before after, events = before ++ after →
        (run step (new params streamsMap) before).WithinGrants) ∧
      AllFit step KeepsOffsets (new params streamsMap) events) ↔
      AllFit step Fits (new params streamsMap) events := by
  have hstep : ∀ before e, (run step (new params streamsMap) before).KeepsOffsets e ↔
      (run step (new params streamsMap) before).Fits e := fun before e =>
    (accounted_run params streamsMap before).keepsOffsets_iff e
  constructor
  · rintro ⟨-, hkeeps⟩ before e after heq
    exact (hstep before e).mp (hkeeps before e after heq)
  intro hfits
  refine ⟨fun before _ _ => (accounted_run params streamsMap before).withinGrants, ?_⟩
  intro before e after heq
  exact (hstep before e).mpr (hfits before e after heq)

/-- The initial windows are 16384, and the first WINDOW_UPDATE frames, for stream 5 and for the
connection, have the offset 1. -/
theorem window_shrinks :
    let params : FlowParameters := ⟨16384, 16384, 16384, 16384, 16384, 16384⟩
    let s := run step (new params ⟨fun _ => none, [], 0⟩) [.newStream 5]
    s.offset 5 = some 16384 ∧ (s.step (.updateWindow 5 1)).offset 5 = some 1 ∧
      s.connOffset = 16384 ∧ (s.step (.updateWindow 0 1)).connOffset = 1 := by
  decide

end Sending

end RlncStreaming.Quic
