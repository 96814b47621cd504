import Mathlib.Data.UInt
import Mathlib.Tactic.Abel
import RlncStreaming.Lib.Totals
import RlncStreaming.Quic.SessionStreams

/-!
The receive window of the connection (`flow_control_manager.go`, `stream.go`, `session.go`).

What arrives on a stream is charged to the controllers of the stream and of the connection, what
`Read` copies is credited to both, and what the connection has received but not read is the sum
of that over the open streams (`Credited`). A stream that is removed with unread data takes its
part with it: the connection is never credited for it. This happens to a stream that the peer
resets before all of it was read (`receive_credit_leaks`). If everything on a stream is read when
it ends, nothing is lost (`receive_credit`).
-/

namespace RlncStreaming.Quic

open Lib StreamTable FlowController SessionStream Option Function
open FlowControl (contributes count streamWindowUpdates charge)

/-- The stream was read to its end, or the peer has reset it: nothing more is credited. -/
def SessionStream.settled (s : SessionStream) : Bool :=
  s.receiving.finishedReading || s.sending.resetRemotely

/-- What was charged to the connection for a stream, and not credited. -/
def FlowController.unread (c : FlowController) : UInt64 :=
  if c.contributesToConnection then c.highestReceived - c.bytesRead else 0

/-- What the balance of a connection depends on. -/
def FlowController.credit (c : FlowController) : Bool × UInt64 × UInt64 :=
  (c.contributesToConnection, c.highestReceived, c.bytesRead)

/-- `FlowControlReceivedTooMuchData`. -/
def StreamLayerError.isViolation : StreamLayerError → Bool
  | .flow (.tooMuchOnStream _ _ _) => true
  | .flow (.tooMuchOnConnection _ _) => true
  | _ => false

namespace SessionStreams

section

variable (s : SessionStreams)

/-- The session after a call. -/
def next (call : SessionCall) : SessionStreams := (s.step call).1

/-- The call does not violate the flow control. -/
def Obeys (call : SessionCall) : Prop :=
  ∀ e, (s.step call).2 = some e → e.isViolation = false

/-- The stream that a frame is handed to, with its flow controller. -/
def target (id : UInt32) : Option (SessionStream × FlowController) :=
  match s.getOrOpenStream id with
  | some (s', .ok (some str)) => (s'.flowControl.streamFlowController id).map fun c => (str, c)
  | _ => none

/-- On a stream that contributes to the connection, everything up to the offset of a RST_STREAM
frame was read and nothing beyond it was received; the FIN bit is read at the highest offset that
was received; and no frame goes beyond that once the stream was read to its end or reset. -/
def Fits : SessionCall → Prop
  | .streamFrame id frame => ∀ str c, s.target id = some (str, c) →
      c.contributesToConnection = true → str.settled = true →
        (frame.offset + frame.dataLen).toUInt64 ≤ c.highestReceived
  | .closeRemote id offset => ∀ str c, s.table.streams id = some str →
      s.flowControl.streamFlowController id = some c → c.contributesToConnection = true →
        str.settled = true → offset.toUInt64 ≤ c.highestReceived
  | .rstStreamFrame id byteOffset _ => ∀ str c, s.target id = some (str, c) →
      c.contributesToConnection = true → c.bytesRead = byteOffset ∧ c.highestReceived ≤ byteOffset
  | .read id now call => ∀ str c receiving, s.table.streams id = some str →
      s.flowControl.streamFlowController id = some c → c.contributesToConnection = true →
        str.settled = false → (str.receiving.turn now call).stream? = some receiving →
          receiving.finishedReading = true →
            c.bytesRead + (receiving.readOffset - str.receiving.readOffset).toUInt64 =
              c.highestReceived
  | _ => True

end

/-! ### The balance -/

/-- An open stream and its flow controller. -/
structure Paired (id : UInt32) (str : SessionStream) (c : FlowController) : Prop where
  contributes : c.contributesToConnection = FlowControl.contributes id
  notCancelled : str.receiving.cancelled = false
  settled : c.contributesToConnection = true → str.settled = true → c.highestReceived = c.bytesRead

/-- What the connection has received and not read is the sum over the open streams. -/
structure Credited (s : SessionStreams) : Prop where
  orderly : s.table.Orderly
  paired : ∀ id, Option.Rel (Paired id) (s.table.streams id) (s.flowControl.streamFlowController id)
  balance : s.flowControl.connFlowController.highestReceived -
      s.flowControl.connFlowController.bytesRead =
    total FlowController.unread s.flowControl.streamFlowController s.table.openStreams

variable {s : SessionStreams} {id : UInt32} {str str' : SessionStream}
  {c c' conn : FlowController} {f : FlowControl}

/-- A finished stream was read to its end, or reset by the peer, unless it was cancelled. -/
theorem settled_of_finished (h : str.finished = true)
    (hcancelled : str.receiving.cancelled = false) : str.settled = true := by
  unfold finished at h
  unfold settled
  rw [hcancelled] at h
  cases hreading : str.receiving.finishedReading with
  | true => rfl
  | false =>
    rw [hreading] at h
    simp only [Bool.false_or, Bool.false_and, Bool.or_false, Bool.or_eq_true,
      Bool.and_eq_true] at h ⊢
    rcases h with h | h
    · exact h.1
    · exact h.2

theorem Credited.controller (h : Credited s) (hstr : s.table.streams id = some str) :
    ∃ c, s.flowControl.streamFlowController id = some c ∧ Paired id str c := by
  have hpaired := h.paired id
  rw [hstr] at hpaired
  cases hc : s.flowControl.streamFlowController id with
  | none =>
    rw [hc] at hpaired
    cases hpaired
  | some c =>
    rw [hc] at hpaired
    cases hpaired with
    | some hpaired => exact ⟨c, rfl, hpaired⟩

theorem Credited.no_controller (h : Credited s) (hstr : s.table.streams id = none) :
    s.flowControl.streamFlowController id = none := by
  have hpaired := h.paired id
  rw [hstr] at hpaired
  cases hc : s.flowControl.streamFlowController id with
  | none => rfl
  | some c =>
    rw [hc] at hpaired
    cases hpaired

/-- The open streams are those with a controller. -/
theorem Credited.lists (h : Credited s) :
    Lists s.flowControl.streamFlowController s.table.openStreams := by
  refine ⟨h.orderly.lists.nodup, fun id => ?_⟩
  rw [h.orderly.lists.mem_iff]
  cases hstr : s.table.streams id with
  | none => rw [h.no_controller hstr]; simp
  | some str =>
    obtain ⟨c, hc, -⟩ := h.controller hstr
    rw [hc]
    simp

theorem credited_new (perspective : Perspective) (maxOutgoing maxIncoming : UInt32)
    (params : FlowParameters) : Credited (new perspective maxOutgoing maxIncoming params) where
  orderly := orderly_new perspective maxOutgoing maxIncoming
  paired := fun _ => .none
  balance := by simp [new, newFlowControlManager, newFlowController, newStreamsMap, total]

/-- A stream is opened, and gets a controller. -/
theorem Credited.enter (h : Credited s) {m : StreamTable SessionStream} (horderly : m.Orderly)
    (hnew : s.table.streams id = none)
    (hstreams : m.streams = update s.table.streams id (some (newSessionStream id)))
    (hopen : m.openStreams = s.table.openStreams ++ [id]) :
    Credited ⟨m, s.flowControl.newStream id (contributes id)⟩ := by
  have hnone := h.no_controller hnew
  have hflow : s.flowControl.newStream id (contributes id) =
      s.flowControl.setStream id (newFlowController id (contributes id) s.flowControl.params) := by
    unfold FlowControl.newStream
    rw [hnone]
  rw [hflow]
  have hunread : (newFlowController id (contributes id) s.flowControl.params).unread =
      0 := by
    unfold unread newFlowController
    simp
  refine ⟨horderly, ?_, ?_⟩
  · rw [hstreams]
    exact rel_update h.paired (.some ⟨rfl, rfl, fun _ hsettled => by cases hsettled⟩)
  · change _ = total _ (update _ id _) m.openStreams
    rw [hopen, h.lists.total_add _ hnone, hunread, add_zero]
    exact h.balance

/-- An open stream and its controller are replaced, and the connection changes by what the stream
changes. -/
theorem Credited.replace (conn : FlowController) (h : Credited s)
    (hstr : s.table.streams id = some str)
    (hc : s.flowControl.streamFlowController id = some c) (hpaired : Paired id str' c')
    (hconn : conn.highestReceived - conn.bytesRead =
      s.flowControl.connFlowController.highestReceived -
        s.flowControl.connFlowController.bytesRead + (c'.unread - c.unread)) :
    Credited
      ⟨{ s.table with streams := update s.table.streams id (some str') },
        { s.flowControl.setStream id c' with connFlowController := conn }⟩ := by
  refine ⟨h.orderly.store (by rw [hstr]; rfl) str', rel_update h.paired (.some hpaired), ?_⟩
  change _ = total _ (update _ id _) s.table.openStreams
  rw [h.lists.total_replace _ hc, ← h.balance]
  exact hconn

/-- A stream is replaced that has the same controller. -/
theorem Credited.store (h : Credited s) (hstr : s.table.streams id = some str)
    (hpaired : ∀ c, Paired id str c → Paired id str' c) : Credited (s.setStream id str') := by
  obtain ⟨c, hc, hold⟩ := h.controller hstr
  have hself : s.flowControl.setStream id c = s.flowControl := by
    unfold FlowControl.setStream
    rw [← hc, update_eq_self]
  have hreplaced := h.replace s.flowControl.connFlowController hstr hc (hpaired c hold)
    (by rw [sub_self, add_zero])
  rw [hself] at hreplaced
  exact hreplaced

/-- A finished stream leaves nothing unread. -/
theorem Credited.remove (h : Credited s) (hstr : s.table.streams id = some str)
    (hfinished : str.finished = true) {m : StreamTable SessionStream}
    (hok : s.table.removeStream id = .ok m) :
    Credited ⟨m, s.flowControl.removeStream id⟩ := by
  obtain ⟨c, hc, hpaired⟩ := h.controller hstr
  have hsettled := settled_of_finished hfinished hpaired.notCancelled
  have horderly := h.orderly.removeStream hok
  obtain ⟨-, heq⟩ := removeStream_ok hok
  rw [heq] at horderly ⊢
  refine ⟨horderly, rel_update h.paired .none, ?_⟩
  change _ = total _ (update _ id _) (s.table.openStreams.erase id)
  have hunread : c.unread = 0 := by
    unfold unread
    split
    · next hcontributes => rw [hpaired.settled hcontributes hsettled, sub_self]
    · rfl
  rw [h.lists.total_remove _ hc, hunread, sub_zero]
  exact h.balance

/-! ### Calls that neither charge nor credit -/

/-- No controller was charged or credited. -/
structure SameCredit (f f' : FlowControl) : Prop where
  connection : f'.connFlowController.credit = f.connFlowController.credit
  streams : ∀ id, (f'.streamFlowController id).map FlowController.credit =
    (f.streamFlowController id).map FlowController.credit

theorem SameCredit.refl (f : FlowControl) : SameCredit f f := ⟨rfl, fun _ => rfl⟩

theorem SameCredit.trans {f f' f'' : FlowControl} (h : SameCredit f f') (h' : SameCredit f' f'') :
    SameCredit f f'' :=
  ⟨h'.connection.trans h.connection, fun id => (h'.streams id).trans (h.streams id)⟩

theorem SameCredit.setStream (hc : f.streamFlowController id = some c)
    (hcredit : c'.credit = c.credit) : SameCredit f (f.setStream id c') := by
  refine ⟨rfl, (forall_update_iff f.streamFlowController fun id o =>
    o.map credit = (f.streamFlowController id).map credit).mpr
    ⟨?_, fun _ _ => rfl⟩⟩
  rw [hc, map_some, map_some, hcredit]

theorem SameCredit.setConnection (hcredit : conn.credit = f.connFlowController.credit) :
    SameCredit f { f with connFlowController := conn } := ⟨hcredit, fun _ => rfl⟩

theorem Paired.of_credit (h : Paired id str c) (hcredit : c'.credit = c.credit) :
    Paired id str c' := by
  obtain ⟨hcontributes, hrest⟩ := Prod.mk.inj hcredit
  obtain ⟨hhighest, hread⟩ := Prod.mk.inj hrest
  refine ⟨hcontributes.trans h.contributes, h.notCancelled, fun hc' hsettled => ?_⟩
  rw [hhighest, hread]
  exact h.settled (hcontributes.symm.trans hc') hsettled

theorem unread_of_credit (hcredit : c'.credit = c.credit) : c'.unread = c.unread := by
  obtain ⟨hcontributes, hrest⟩ := Prod.mk.inj hcredit
  obtain ⟨hhighest, hread⟩ := Prod.mk.inj hrest
  unfold unread
  rw [hcontributes, hhighest, hread]

/-- The controllers change in other respects. -/
theorem Credited.sameCredit (h : Credited s) (hsame : SameCredit s.flowControl f) :
    Credited { s with flowControl := f } := by
  obtain ⟨-, hrest⟩ := Prod.mk.inj hsame.connection
  obtain ⟨hhighest, hread⟩ := Prod.mk.inj hrest
  refine ⟨h.orderly, fun id => ?_, ?_⟩
  · change Option.Rel (Paired id) (s.table.streams id) (f.streamFlowController id)
    have hpaired := h.paired id
    have hcredit := hsame.streams id
    cases hc : s.flowControl.streamFlowController id with
    | none =>
      rw [hc] at hpaired hcredit
      rw [map_eq_none_iff.mp hcredit]
      exact hpaired
    | some c =>
      rw [hc] at hpaired hcredit
      obtain ⟨c', hc', heq⟩ := map_eq_some_iff.mp hcredit
      rw [hc']
      generalize s.table.streams id = o at hpaired ⊢
      cases hpaired with
      | some hpaired => exact .some (hpaired.of_credit heq)
  · change f.connFlowController.highestReceived - f.connFlowController.bytesRead = _
    rw [hhighest, hread, h.balance]
    apply total_congr
    intro id _
    have hcredit := hsame.streams id
    cases hc : s.flowControl.streamFlowController id with
    | none =>
      rw [hc] at hcredit
      rw [map_eq_none_iff.mp hcredit]
    | some c =>
      rw [hc] at hcredit
      obtain ⟨c', hc', heq⟩ := map_eq_some_iff.mp hcredit
      rw [hc']
      exact (unread_of_credit heq).symm

theorem sameCredit_count (add : FlowController → UInt64 → FlowController)
    (hadd : ∀ c n, (add c n).credit = c.credit) (n : UInt64) :
    SameCredit f (f.count add id n) := by
  unfold count
  split
  · exact .refl f
  rename_i c hc
  have hset : SameCredit f (f.setStream id (add c n)) := .setStream hc (hadd c n)
  simp only
  split
  · exact hset.trans (.setConnection (hadd _ n))
  · exact hset

theorem sameCredit_updateWindow (offset : UInt64) :
    SameCredit f (f.updateWindow id offset).2 := by
  have hupdate : ∀ c : FlowController, (c.updateSendWindow offset).2.credit = c.credit := by
    intro c
    unfold updateSendWindow
    split
    · rfl
    · rfl
  unfold FlowControl.updateWindow
  split
  · exact .setConnection (hupdate _)
  split
  · exact .refl f
  rename_i c hc
  exact .setStream hc (hupdate c)

theorem credit_maybeUpdateWindow (r : WindowReadings) :
    (c.maybeUpdateWindow r).2.2.2.credit = c.credit := by
  have hadjust : (c.maybeAdjustWindowIncrement r).credit = c.credit := by
    unfold maybeAdjustWindowIncrement
    split
    · rfl
    split
    · rfl
    split
    · rfl
    · rfl
  unfold maybeUpdateWindow
  split
  · exact hadjust
  · rfl

theorem credit_ensureMinimumWindowIncrement (inc : UInt64) :
    (c.ensureMinimumWindowIncrement inc).credit = c.credit := by
  unfold ensureMinimumWindowIncrement
  split
  · rfl
  · rfl

section

variable (scale : UInt64 → UInt64) (readings : UInt32 → WindowReadings) (force : Bool)
  (order : List UInt32)

include scale readings force order

theorem sameCredit_streamWindowUpdates (updates : List WindowUpdate) (f : FlowControl) :
    SameCredit f (streamWindowUpdates scale readings force order (updates, f)).2 := by
  induction order generalizing updates f with
  | nil => exact .refl f
  | cons id order ih =>
    rw [streamWindowUpdates]
    split
    · exact ih updates f
    rename_i c hc
    have hset : SameCredit f (f.setStream id (c.maybeUpdateWindow (readings id)).2.2.2) :=
      .setStream hc (credit_maybeUpdateWindow _)
    simp only
    split
    · split
      · exact (hset.trans (.setConnection (credit_ensureMinimumWindowIncrement _))).trans (ih _ _)
      · exact hset.trans (ih _ _)
    · exact hset.trans (ih _ _)

theorem sameCredit_getWindowUpdates :
    SameCredit f (f.getWindowUpdates scale readings order force).2 := by
  unfold FlowControl.getWindowUpdates
  exact (sameCredit_streamWindowUpdates scale readings force order [] f).trans
    (.setConnection (credit_maybeUpdateWindow _))

end

/-! ### Charging and crediting -/

/-- `UpdateHighestReceived` of a controller. -/
theorem updateHighestReceived_spec (offset : UInt64) :
    (c.updateHighestReceived offset).2.bytesRead = c.bytesRead ∧
      (c.updateHighestReceived offset).2.contributesToConnection = c.contributesToConnection ∧
      (c.updateHighestReceived offset).2.highestReceived =
        c.highestReceived + (c.updateHighestReceived offset).1.getD 0 ∧
      (offset ≤ c.highestReceived →
        (c.updateHighestReceived offset).2.highestReceived = c.highestReceived) ∧
      (c.highestReceived ≤ offset →
        (c.updateHighestReceived offset).2.highestReceived = offset) := by
  unfold updateHighestReceived
  by_cases heq : offset = c.highestReceived
  · simp [heq]
  by_cases hlt : c.highestReceived < offset
  · simp [heq, hlt, UInt64.not_le.mpr hlt]
  simp only [heq, hlt, if_false, getD_none, add_zero, true_and, implies_true]
  intro hle
  exact absurd (UInt64.le_antisymm (UInt64.not_lt.mp hlt) hle) heq

theorem isViolation_charge {increment offset : UInt64} {e : FlowError}
    (h : (f.charge c id offset increment).1 = some e) :
    (StreamLayerError.flow e).isViolation = true := by
  unfold charge at h
  simp only at h
  split at h
  · cases h
    rfl
  split at h
  · split at h
    · cases h
      rfl
    · cases h
  · cases h

theorem connFlowController_setStream :
    (f.setStream id c).connFlowController = f.connFlowController := rfl

section

variable (h : Credited s) (hstr : s.table.streams id = some str)
  (hc : s.flowControl.streamFlowController id = some c)

include h hstr hc

/-- A stream and the connection are charged alike. -/
theorem Credited.charge (hpaired : Paired id str' c') (hread : c'.bytesRead = c.bytesRead)
    (hcontributes : c'.contributesToConnection = c.contributesToConnection)
    {increment offset : UInt64} (hhighest : c'.highestReceived = c.highestReceived + increment)
    (hobeys : (s.flowControl.charge c' id offset increment).1 = none) :
    Credited
      ⟨{ s.table with streams := update s.table.streams id (some str') },
        (s.flowControl.charge c' id offset increment).2⟩ := by
  unfold FlowControl.charge at hobeys ⊢
  simp only at hobeys ⊢
  split at hobeys
  · cases hobeys
  rename_i hviolation
  rw [if_neg hviolation]
  cases hside : c.contributesToConnection with
  | true =>
    rw [if_pos (hcontributes.trans hside)]
    refine h.replace _ hstr hc hpaired ?_
    unfold incrementHighestReceived unread
    rw [hcontributes, hside, hread, hhighest]
    simp only [if_true, connFlowController_setStream]
    abel
  | false =>
    rw [if_neg (by rw [hcontributes, hside]; simp)]
    refine h.replace s.flowControl.connFlowController hstr hc hpaired ?_
    unfold unread
    rw [hcontributes, hside]
    simp

/-- What was read is credited to the stream and to the connection. -/
theorem Credited.credit {now : Int} {n : UInt64} (hpaired : Paired id str' (c.addBytesRead now n)) :
    Credited
      ⟨{ s.table with streams := update s.table.streams id (some str') },
        (s.flowControl.addBytesRead now id n).2⟩ := by
  unfold FlowControl.addBytesRead
  rw [hc]
  cases hside : c.contributesToConnection with
  | true =>
    simp only [hside, if_true]
    refine h.replace _ hstr hc hpaired ?_
    unfold addBytesRead unread
    simp only [hside, if_true, connFlowController_setStream]
    abel
  | false =>
    simp only [hside, Bool.false_eq_true, if_false]
    refine h.replace s.flowControl.connFlowController hstr hc hpaired ?_
    unfold addBytesRead unread
    simp [hside]

end

/-! ### Streams -/

theorem cancelled_registerRemoteError (s : SessionStream) (err : Option String) :
    (s.registerRemoteError err).receiving.cancelled = s.receiving.cancelled := by
  unfold registerRemoteError Stream.registerRemoteError
  split
  · rfl
  simp only
  split
  · rfl
  · rfl

theorem cancelled_copyFrom (s : Stream) (c : Call) (frame : StreamFrame) {s' : Stream}
    (h : (s.copyFrom c frame).stream? = some s') : s'.cancelled = s.cancelled := by
  unfold Stream.copyFrom at h
  simp only at h
  split at h
  · cases h
    rfl
  split at h
  · split at h
    · cases h
      rfl
    · cases h
      rfl
  · cases h
    rfl

theorem cancelled_await (s : Stream) (now : Nat) (c : Call) (frame : Option StreamFrame)
    {s' : Stream} (h : (s.await now c frame).stream? = some s') : s'.cancelled = s.cancelled := by
  unfold Stream.await at h
  split at h
  · split at h
    · cases h
      rfl
    · exact cancelled_copyFrom _ _ _ h
    · cases h
  split at h
  · cases h
    rfl
  split at h
  · split at h
    · have hcopy := cancelled_copyFrom _ _ _ h
      exact hcopy
    · cases h
  · cases h
    rfl

theorem cancelled_turn (s : Stream) (now : Nat) (c : Call) {s' : Stream}
    (h : (s.turn now c).stream? = some s') : s'.cancelled = s.cancelled := by
  unfold Stream.turn at h
  split at h
  · split at h
    · have hawait := cancelled_await _ _ _ _ h
      exact hawait
    split at h
    · exact cancelled_await _ _ _ _ h
    cases h
    rfl
  · split at h
    · split at h
      · split at h
        · cases h
          rfl
        · exact cancelled_await _ _ _ _ h
      · exact cancelled_await _ _ _ _ h
    · cases h
      rfl

/-! ### One call -/

section

variable (h : Credited s) (hstr : s.table.streams id = some str)

include h hstr

theorem Credited.addStreamFrame (frame : StreamFrame)
    (hobeys : ∀ e, (s.addStreamFrame id str frame).2 = some e → e.isViolation = false)
    (hfit : ∀ c, s.flowControl.streamFlowController id = some c →
      c.contributesToConnection = true → str.settled = true →
        (frame.offset + frame.dataLen).toUInt64 ≤ c.highestReceived) :
    Credited (s.addStreamFrame id str frame).1 := by
  obtain ⟨c, hc, hpaired⟩ := h.controller hstr
  obtain ⟨hread, hcontributes, hhighest, hkeeps, -⟩ :=
    updateHighestReceived_spec (frame.offset + frame.dataLen).toUInt64
  obtain ⟨hfinished, hcancelled⟩ :
      (str.receiving.addStreamFrame false frame).1.finishedReading =
          str.receiving.finishedReading ∧
        (str.receiving.addStreamFrame false frame).1.cancelled = str.receiving.cancelled := by
    unfold Stream.addStreamFrame
    simp only [Bool.false_eq_true, if_false]
    split <;> exact ⟨rfl, rfl⟩
  unfold SessionStreams.addStreamFrame FlowControl.updateHighestReceived at hobeys ⊢
  simp only [hc] at hobeys ⊢
  split at hobeys
  · rename_i e f' hcharge
    have hviolation := isViolation_charge (congrArg Prod.fst hcharge)
    rw [hobeys _ rfl] at hviolation
    cases hviolation
  rename_i f' hcharge
  have hafter : Paired id { str with receiving := (str.receiving.addStreamFrame false frame).1 }
      (c.updateHighestReceived (frame.offset + frame.dataLen).toUInt64).2 := by
    refine ⟨hcontributes.trans hpaired.contributes, hcancelled.trans hpaired.notCancelled,
      fun hc' hsettled => ?_⟩
    have hside := hcontributes.symm.trans hc'
    have hsettled' : str.settled = true := by
      unfold settled at hsettled ⊢
      rw [← hfinished]
      exact hsettled
    rw [hkeeps (hfit c hc hside hsettled'), hread]
    exact hpaired.settled hside hsettled'
  have hcharged := h.charge hstr hc hafter hread hcontributes hhighest (congrArg Prod.fst hcharge)
  rw [hcharge] at hcharged
  exact hcharged

theorem Credited.resetStream (byteOffset : UInt64) (errorCode : Nat)
    (hobeys : ∀ e, (s.resetStream id str byteOffset errorCode).2 = some e → e.isViolation = false)
    (hfit : ∀ c, s.flowControl.streamFlowController id = some c →
      c.contributesToConnection = true →
        c.bytesRead = byteOffset ∧ c.highestReceived ≤ byteOffset) :
    Credited (s.resetStream id str byteOffset errorCode).1 := by
  obtain ⟨c, hc, hpaired⟩ := h.controller hstr
  obtain ⟨hread, hcontributes, hhighest, -, hreaches⟩ := updateHighestReceived_spec byteOffset
  have hcancelled := cancelled_registerRemoteError str
    (some ("RST_STREAM received with code " ++ toString errorCode))
  unfold SessionStreams.resetStream FlowControl.resetStream at hobeys ⊢
  simp only [SessionStreams.setStream, hc] at hobeys ⊢
  -- everything up to the offset was read, if the stream contributes
  have hafter : Paired id (str.registerRemoteError
      (some ("RST_STREAM received with code " ++ toString errorCode)))
      (c.updateHighestReceived byteOffset).2 := by
    refine ⟨hcontributes.trans hpaired.contributes, hcancelled.trans hpaired.notCancelled,
      fun hc' _ => ?_⟩
    obtain ⟨hoffset, hle⟩ := hfit c hc (hcontributes.symm.trans hc')
    rw [hreaches hle, hread, hoffset]
  cases hresult : c.updateHighestReceived byteOffset with
  | mk increment c' =>
    rw [hresult] at hread hcontributes hhighest hafter
    simp only [hresult] at hobeys ⊢
    cases increment with
    | none =>
      refine h.replace s.flowControl.connFlowController hstr hc hafter ?_
      unfold unread
      rw [hcontributes, hread, hhighest]
      simp
    | some increment =>
      refine h.charge hstr hc hafter hread hcontributes hhighest ?_
      cases hcharge : (s.flowControl.charge c' id byteOffset increment).1 with
      | none => rfl
      | some e =>
        have hviolation := isViolation_charge hcharge
        simp only [hcharge] at hobeys
        rw [hobeys _ rfl] at hviolation
        cases hviolation

theorem Credited.readTurn (now : Nat) (call : Call)
    (hfit : ∀ c receiving, s.flowControl.streamFlowController id = some c →
      c.contributesToConnection = true → str.settled = false →
        (str.receiving.turn now call).stream? = some receiving →
          receiving.finishedReading = true →
            c.bytesRead + (receiving.readOffset - str.receiving.readOffset).toUInt64 =
              c.highestReceived) :
    Credited (s.readTurn id str now call) := by
  obtain ⟨c, hc, hpaired⟩ := h.controller hstr
  unfold SessionStreams.readTurn
  split
  · exact h
  rename_i hunfinished
  rw [Bool.not_eq_true] at hunfinished
  split
  · exact h
  rename_i receiving hturn
  have hcancelled := cancelled_turn _ _ _ hturn
  simp only
  split
  · rename_i hcredits
    obtain ⟨-, hremote⟩ := Bool.and_eq_true_iff.mp hcredits
    rw [Bool.not_eq_true'] at hremote
    have hunsettled : str.settled = false := by
      unfold settled
      rw [hunfinished, hremote]
      rfl
    refine h.credit hstr hc ⟨hpaired.contributes, hcancelled.trans hpaired.notCancelled,
      fun hside hsettled => ?_⟩
    unfold settled at hsettled
    simp only [hremote, Bool.or_false] at hsettled
    exact (hfit c receiving hc hside hunsettled hturn hsettled).symm
  · rename_i hcredits
    refine h.store hstr fun c hold => ⟨hold.contributes, hcancelled.trans hold.notCancelled,
      fun hside hsettled => hold.settled hside ?_⟩
    -- the turn has not reached the FIN bit, or the peer has reset the stream
    unfold settled at hsettled ⊢
    cases hremote : str.sending.resetRemotely with
    | true => simp
    | false =>
      simp only [hremote, Bool.or_false] at hsettled
      simp [hremote, Stream.copied, hsettled] at hcredits

end

theorem Credited.getOrOpenStream (h : Credited s) (id : UInt32) :
    ∃ s' r, s.getOrOpenStream id = some (s', r) ∧ Credited s' ∧
      (∀ str, r = .ok (some str) → s'.table.streams id = some str) := by
  refine getOrOpenStream_rule Credited (fun _ h => h.orderly.peerIds) (fun s m' h hopens => ?_) h
  apply h.enter (h.orderly.opens hopens) hopens.new
  · rw [hopens.result]
    rfl
  · rw [hopens.result]
    rfl

theorem target_eq {s' : SessionStreams} (hfound : s.getOrOpenStream id = some (s', .ok (some str)))
    (hc : s'.flowControl.streamFlowController id = some c) : s.target id = some (str, c) := by
  simp only [target, hfound, hc, map_some]

section

variable (h : Credited s)

include h

theorem Credited.handleStreamFrame (frame : StreamFrame)
    (hobeys : s.Obeys (.streamFrame id frame)) (hfit : s.Fits (.streamFrame id frame)) :
    Credited (s.handleStreamFrame id frame).1 := by
  obtain ⟨s', r, heq, hs', hfound⟩ := h.getOrOpenStream id
  change ∀ e, (s.handleStreamFrame id frame).2 = some e → _ at hobeys
  unfold SessionStreams.handleStreamFrame at hobeys ⊢
  rw [heq] at hobeys ⊢
  match r with
  | .error e => exact hs'
  | .ok none => exact hs'
  | .ok (some str) =>
    exact hs'.addStreamFrame (hfound str rfl) frame hobeys fun c hc => hfit str c (target_eq heq hc)

theorem Credited.handleRstStreamFrame (byteOffset : UInt64) (errorCode : Nat)
    (hobeys : s.Obeys (.rstStreamFrame id byteOffset errorCode))
    (hfit : s.Fits (.rstStreamFrame id byteOffset errorCode)) :
    Credited (s.handleRstStreamFrame id byteOffset errorCode).1 := by
  obtain ⟨s', r, heq, hs', hfound⟩ := h.getOrOpenStream id
  change ∀ e, (s.handleRstStreamFrame id byteOffset errorCode).2 = some e → _ at hobeys
  unfold SessionStreams.handleRstStreamFrame at hobeys ⊢
  rw [heq] at hobeys ⊢
  match r with
  | .error e => exact hs'
  | .ok none => exact hs'
  | .ok (some str) =>
    exact hs'.resetStream (hfound str rfl) byteOffset errorCode hobeys
      fun c hc => hfit str c (target_eq heq hc)

theorem Credited.handleWindowUpdateFrame (id : UInt32) (byteOffset : UInt64) :
    Credited (s.handleWindowUpdateFrame id byteOffset).1 := by
  have hupdate : ∀ s : SessionStreams, Credited s → Credited (s.updateWindow id byteOffset).1 :=
    fun s h => h.sameCredit (sameCredit_updateWindow byteOffset)
  obtain ⟨s', r, heq, hs', -⟩ := h.getOrOpenStream id
  unfold SessionStreams.handleWindowUpdateFrame
  rw [heq]
  split
  · exact hupdate s h
  match r with
  | .error e => exact hs'
  | .ok none => exact hs'
  | .ok (some str) => exact hupdate s' hs'

theorem Credited.openStream : Credited (s.next .openStream) := by
  have horderly := h.orderly.openStream newSessionStream
  unfold SessionStreams.next
  rcases s.openStream_cases with ⟨hstreams, hopen, heq⟩ | ⟨hnew, hstreams, hopen, heq⟩
  · rw [heq]
    refine ⟨horderly, fun id => ?_, ?_⟩
    · rw [hstreams]
      exact h.paired id
    · rw [hopen]
      exact h.balance
  · rw [heq]
    exact h.enter horderly hnew hstreams hopen

theorem Credited.acceptStream : Credited (s.next .acceptStream) := by
  simp only [SessionStreams.next, step]
  split
  · rename_i table r haccept
    obtain ⟨nextStreamToAccept, rfl⟩ := acceptStream_table haccept
    exact ⟨⟨h.orderly.lists, ⟨h.orderly.peerIds.below, h.orderly.peerIds.highest⟩,
      h.orderly.nextLocal, h.orderly.zero⟩, h.paired, h.balance⟩
  · exact h

end

/-- A call that obeys the flow control and meets the condition keeps the balance. -/
theorem Credited.next {call : SessionCall} (h : Credited s) (hobeys : s.Obeys call)
    (hfit : s.Fits call) : Credited (s.next call) := by
  cases call with
  | streamFrame id frame => exact h.handleStreamFrame frame hobeys hfit
  | rstStreamFrame id byteOffset errorCode =>
    exact h.handleRstStreamFrame byteOffset errorCode hobeys hfit
  | windowUpdateFrame id byteOffset => exact h.handleWindowUpdateFrame id byteOffset
  | getOrOpenStream id =>
    obtain ⟨s', r, heq, hs', -⟩ := h.getOrOpenStream id
    simp only [SessionStreams.next, step, heq]
    exact hs'
  | openStream => exact h.openStream
  | acceptStream => exact h.acceptStream
  | read id now call =>
    simp only [SessionStreams.next, step]
    split
    · rename_i str hstr
      exact h.readTurn hstr now call fun c receiving hc => hfit str c receiving hstr hc
    · exact h
  | closeRemote id offset =>
    simp only [SessionStreams.next, step]
    split
    · rename_i str hstr
      simp only [Obeys, step, hstr] at hobeys
      exact h.addStreamFrame hstr _ hobeys fun c hc => hfit str c hstr hc
    · exact h
  | streamOp id op =>
    simp only [SessionStreams.next, step]
    split
    · rename_i str hstr
      obtain ⟨-, hremote, hfinished, hcancelled⟩ := str.apply_keeps op
      refine h.store hstr fun c hold => ⟨hold.contributes, hcancelled.trans hold.notCancelled,
        fun hside hsettled => hold.settled hside ?_⟩
      unfold settled at hsettled ⊢
      rwa [hremote, hfinished] at hsettled
    · exact h
  | addBytesSent id n =>
    exact h.sameCredit (sameCredit_count addBytesSent (fun _ _ => rfl) n)
  | addBytesRetrans id n =>
    exact h.sameCredit (sameCredit_count addBytesRetrans (fun _ _ => rfl) n)
  | getWindowUpdates scale readings order force =>
    exact h.sameCredit (sameCredit_getWindowUpdates scale readings force order)
  | garbageCollectStreams =>
    exact collect_rule Credited (fun s id str table h hstr hfinished hok =>
      h.remove hstr hfinished hok) _ h

/-! ### Whole runs -/

/-- In every run that obeys the flow control and whose calls all meet `Fits`, the connection has
read what it has received whenever no open stream contributes to it. -/
theorem receive_credit (perspective : Perspective) (maxOutgoing maxIncoming : UInt32)
    (params : FlowParameters) (calls : List SessionCall)
    (hobeys : AllFit next Obeys (new perspective maxOutgoing maxIncoming params) calls)
    (hfit : AllFit next Fits (new perspective maxOutgoing maxIncoming params) calls) :
    let s := run next (new perspective maxOutgoing maxIncoming params) calls
    (∀ id ∈ s.table.openStreams, contributes id = false) →
      s.flowControl.connFlowController.bytesRead =
        s.flowControl.connFlowController.highestReceived := by
  intro s hremoved
  have h : Credited s := run_inv (fun s call => s.Obeys call ∧ s.Fits call) (fun _ => Credited)
    (fun _ _ _ h hcall => h.next hcall.1 hcall.2) calls [] _
    (credited_new perspective maxOutgoing maxIncoming params)
    fun before call after hcalls => ⟨hobeys before call after hcalls, hfit before call after hcalls⟩
  have hzero : total unread s.flowControl.streamFlowController s.table.openStreams = 0 := by
    apply total_eq_zero
    intro id hid
    obtain ⟨str, hstr⟩ := isSome_iff_exists.mp ((h.orderly.lists.mem_iff id).mp hid)
    obtain ⟨c, hc, hpaired⟩ := h.controller hstr
    rw [hc, elim_some, unread, hpaired.contributes, hremoved id hid]
    rfl
  exact (sub_eq_zero.mp (h.balance.trans hzero)).symm

theorem obeys_of_none {call : SessionCall} (h : (s.step call).2 = none) : s.Obeys call := by
  intro e he
  rw [h] at he
  cases he

/-- A stream of one byte is read to its end, closed and removed. -/
theorem receive_credit_read :
    let calls := [.streamFrame 5 ⟨0, [7], true⟩, .read 5 1 ⟨1, [], false⟩, .streamOp 5 .close,
      .streamOp 5 .sentFin, .garbageCollectStreams]
    let s₀ := new .server 10 10 ⟨100, 100, 100, 100, 100, 100⟩
    let s := run next s₀ calls
    AllFit next Obeys s₀ calls ∧ AllFit next Fits s₀ calls ∧ s.table.openStreams = [1, 3] ∧
      s.flowControl.connFlowController.bytesRead =
        s.flowControl.connFlowController.highestReceived := by
  intro calls
  let s₀ := new .server 10 10 ⟨100, 100, 100, 100, 100, 100⟩
  have hnew : (s₀.target 5).map (fun p => p.1.settled) = some false := by decide +kernel
  have hturn : ((s₀.next (.streamFrame 5 ⟨0, [7], true⟩)).table.streams 5).map (fun str =>
      (str.receiving.turn 1 ⟨1, [], false⟩).stream?.map fun receiving =>
        receiving.readOffset - str.receiving.readOffset) = some (some 1) := by
    decide +kernel
  have hcontroller :
      ((s₀.next (.streamFrame 5 ⟨0, [7], true⟩)).flowControl.streamFlowController 5).map
        (fun c => (c.bytesRead, c.highestReceived)) = some (0, 1) := by
    decide +kernel
  have hobeys : AllFit next Obeys s₀ calls :=
    .cons (obeys_of_none (by decide +kernel)) (.cons (obeys_of_none (by decide +kernel))
      (.cons (obeys_of_none (by decide +kernel)) (.cons (obeys_of_none (by decide +kernel))
        (.cons (obeys_of_none rfl) .nil))))
  have hfit : AllFit next Fits s₀ calls := by
    refine .cons ?_ (.cons ?_ (.cons trivial (.cons trivial (.cons trivial .nil))))
    · intro str c htarget _ hsettled
      rw [htarget] at hnew
      exact absurd (hsettled.symm.trans (some.inj hnew)) (by decide)
    intro str c receiving hstr hc _ _ hreceiving _
    rw [hstr, map_some, hreceiving] at hturn
    rw [hc] at hcontroller
    obtain ⟨hread, hhighest⟩ := Prod.mk.inj (some.inj hcontroller)
    have hone : receiving.readOffset - str.receiving.readOffset = 1 := some.inj (some.inj hturn)
    rw [hread, hhighest, hone]
    rfl
  refine ⟨hobeys, hfit, by decide +kernel, receive_credit .server 10 10
    ⟨100, 100, 100, 100, 100, 100⟩ _ hobeys hfit ?_⟩
  -- the walk over the list, not one over all the IDs
  exact @of_decide_eq_true _ (List.decidableBAll _ _) (by decide +kernel)

/-- The client sends one byte on stream 5 and resets the stream. The server removes it without
having read the byte, and the connection never gets credit for it. -/
theorem receive_credit_leaks :
    let calls := [.streamFrame 5 ⟨0, [7], false⟩, .rstStreamFrame 5 1 0, .garbageCollectStreams]
    let s₀ := new .server 10 10 ⟨100, 100, 100, 100, 100, 100⟩
    let s := run next s₀ calls
    AllFit next Obeys s₀ calls ∧ s.table.openStreams = [1, 3] ∧
      s.flowControl.connFlowController.bytesRead = 0 ∧
      s.flowControl.connFlowController.highestReceived = 1 := by
  refine ⟨?_, by decide +kernel, by decide +kernel, by decide +kernel⟩
  exact .cons (obeys_of_none (by decide +kernel)) (.cons (obeys_of_none (by decide +kernel))
    (.cons (obeys_of_none rfl) .nil))

end SessionStreams

end RlncStreaming.Quic
