import RlncStreaming.Quic.Bookkeeping

/-!
The alarm for lost packets.

Every operation that can add to the history sets the alarm, and none of them sets it to the
zero time while packets are outstanding, because these were sent after the zero time. But
`OnAlarm` disarms it whenever the history has no packet that `IsRetransmittable` knows,
although a packet with only a CONNECTION_CLOSE or a CLOSE_PATH frame is kept there
(`alarm_armed_iff`).
-/

namespace RlncStreaming.Quic

open Lib SentPacketHandler

variable {σ : Type}

/-! ### Calls of the handler -/

namespace SentPacketHandler

variable {h h' : SentPacketHandler σ} {r : Readings}

/-- The alarm is set while packets are outstanding. -/
def Armed (h : SentPacketHandler σ) : Prop := h.packetHistory ≠ [] → h.alarm ≠ 0

/-- Outstanding packets were sent at some time. -/
def Timed (h : SentPacketHandler σ) : Prop := h.packetHistory ≠ [] → 2 ^ 63 < h.lastSentTime

theorem neg_le_wrap64 (d : Int) : -2 ^ 63 ≤ wrap64 d := by
  have := Int.le_bmod (x := d) (m := 2 ^ 64) (by decide)
  rw [wrap64]
  omega

theorem armed_updateLossDetectionAlarm (ht : h.Timed) : Armed (h.updateLossDetectionAlarm r) := by
  intro hne
  rw [(sameQueues_updateLossDetectionAlarm r h).history] at hne
  have htime := ht hne
  have hlen : h.packetHistory.length ≠ 0 := fun h0 => hne (List.length_eq_zero_iff.mp h0)
  rw [updateLossDetectionAlarm, if_neg hlen]
  split
  · assumption
  split
  · have hwrap := neg_le_wrap64 (2 * r.congestionRTT)
    simp only [computeTLPTimeout]
    split <;> omega
  · have hpos : (0 : Int) < 200 * millisecond := by decide
    simp only
    omega

theorem Takes.timed {ps : List (Packet σ)} (htakes : Takes h h' ps) (ht : h.Timed) : h'.Timed := by
  intro hne
  rw [htakes.lastSentTime]
  refine ht fun hnil => hne ?_
  have hsub := htakes.sublist
  rw [hnil] at hsub
  exact List.sublist_nil.mp hsub

/-- Packets have only left the history, and the alarm is as before. -/
theorem Takes.armed {ps : List (Packet σ)} (htakes : Takes h h' ps) (halarm : h'.alarm = h.alarm)
    (ha : h.Armed) : h'.Armed := by
  intro hne
  rw [halarm]
  refine ha fun hnil => hne ?_
  have hsub := htakes.sublist
  rw [hnil] at hsub
  exact List.sublist_nil.mp hsub

@[simp] theorem foldl_acked_alarm (ps : List (Packet σ)) (h : SentPacketHandler σ) :
    (ps.foldl onPacketAcked h).alarm = h.alarm := by
  induction ps generalizing h with
  | nil => rfl
  | cons p ps ih => exact ih _

@[simp] theorem foldl_queue_alarm (ps : List (Packet σ)) (h : SentPacketHandler σ) :
    (ps.foldl queuePacketForRetransmission h).alarm = h.alarm := by
  induction ps generalizing h with
  | nil => rfl
  | cons p ps ih => exact ih _

theorem armed_receivedAck (hn : Numbered h) (ht : h.Timed) (ha : h.Armed) (ackFrame : AckFrame)
    (withPacketNumber : Nat) : Armed (h.receivedAck r ackFrame withPacketNumber).handler := by
  have hsame := sameQueues_noteLargestAcked withPacketNumber ackFrame.largestAcked h
  have hkept : Armed ((h.noteAckPacket withPacketNumber).noteLargestAcked ackFrame.largestAcked) :=
    ha
  rw [receivedAck]
  split
  · exact ha
  split
  · exact ha
  simp only
  split
  · exact ha
  generalize (h.noteAckPacket withPacketNumber).noteLargestAcked ackFrame.largestAcked = h₁
    at hsame hkept ⊢
  split
  · exact hkept
  split
  · exact hkept
  rename_i ps hacked
  -- The alarm is set anew after the last packet has left the history.
  have hacks := takes_foldl_sublist (fun _ _ => takes_onPacketAcked) (hsame.numbered hn)
    (newlyAcked_sublist hacked)
  obtain ⟨lost, hlost, -⟩ := queues_detectLostPackets (r := r) (hacks.numbered (hsame.numbered hn))
  have htimed := hlost.timed (hacks.timed (((Takes.refl h).same hsame).timed ht))
  exact armed_updateLossDetectionAlarm htimed

theorem receivedClosePath_alarm (f : ClosePathFrame) (withPacketNumber : Nat) :
    (h.receivedClosePath f withPacketNumber).handler.alarm = h.alarm := by
  rw [receivedClosePath]
  split
  · rfl
  split
  · rfl
  simp only
  split
  · rfl
  split
  · rfl
  · simp [garbageCollectSkippedPackets, setInflightAsLost, noteAckPacket]

/-- `OnAlarm` keeps the alarm if there is nothing outstanding or something that
`IsRetransmittable` knows, and only then. -/
theorem armed_onAlarm_iff (hn : Numbered h) (ht : h.Timed) (potentiallyFailed : Bool) :
    Armed (h.onAlarm r potentiallyFailed) ↔
      h.packetHistory = [] ∨ h.hasOutstandingRetransmittablePacket = true := by
  rw [onAlarm]
  split
  · next hsome =>
    obtain ⟨lost, hlost, -⟩ := queues_retransmitOnAlarm (r := r) potentiallyFailed hn
    exact iff_of_true (armed_updateLossDetectionAlarm (hlost.timed ht)) (.inr hsome)
  rename_i hnone
  constructor
  · intro harmed
    left
    by_contra hne
    exact harmed hne rfl
  · rintro (hnil | hsome)
    · exact fun hne => absurd hnil hne
    · exact absurd hsome hnone

end SentPacketHandler

/-! ### Runs -/

namespace Tracker

/-- `OnAlarm` is not called while the history holds only packets that `IsRetransmittable`
does not know: packets without frames other than CONNECTION_CLOSE and CLOSE_PATH. -/
def AlarmFit (t : Tracker σ) : HandlerAction σ → Prop
  | .onAlarm _ _ =>
    t.handler.packetHistory = [] ∨ t.handler.hasOutstandingRetransmittablePacket = true
  | _ => True

variable {t : Tracker σ}

theorem dequeue_handler (t : Tracker σ) :
    (t.step .dequeue).handler.packetHistory = t.handler.packetHistory ∧
      (t.step .dequeue).handler.lastSentTime = t.handler.lastSentTime ∧
      (t.step .dequeue).handler.alarm = t.handler.alarm := by
  simp only [step, dequeuePacketForRetransmission]
  cases t.handler.retransmissionQueue with
  | nil => exact ⟨rfl, rfl, rfl⟩
  | cons p queue => exact ⟨rfl, rfl, rfl⟩

theorem timed_step (hc : t.Consistent) (ht : t.handler.Timed) (a : HandlerAction σ) :
    (t.step a).handler.Timed := by
  cases a with
  | sentPacket r packet =>
    rw [step]
    cases hsent : t.handler.sentPacket r packet with
    | error e => exact ht
    | ok h =>
      intro _
      obtain ⟨-, -, htime, -⟩ := sentPacket_ok hsent
      rw [htime]
      exact r.now_gt
  | receivedAck r ackFrame withPacketNumber =>
    obtain ⟨lost, htakes, -⟩ := acknowledges_receivedAck (r := r) hc.numbered ackFrame
      withPacketNumber
    exact htakes.timed ht
  | receivedClosePath f withPacketNumber =>
    obtain ⟨lost, htakes, -⟩ := acknowledges_receivedClosePath hc.numbered f withPacketNumber
    exact htakes.timed ht
  | setInflightAsLost =>
    obtain ⟨lost, htakes, -⟩ := queues_setInflightAsLost hc.numbered
    exact htakes.timed ht
  | onAlarm r potentiallyFailed =>
    obtain ⟨lost, htakes, -⟩ := queues_onAlarm (r := r) potentiallyFailed hc.numbered
    exact htakes.timed ht
  | dequeue =>
    obtain ⟨hhistory, htime, -⟩ := dequeue_handler t
    rwa [Timed, hhistory, htime]

theorem armed_step (hc : t.Consistent) (ht : t.handler.Timed) (ha : t.handler.Armed)
    {a : HandlerAction σ} (hfit : t.AlarmFit a) : (t.step a).handler.Armed := by
  cases a with
  | sentPacket r packet =>
    rw [step]
    cases hsent : t.handler.sentPacket r packet with
    | error e => exact ha
    | ok h =>
      obtain ⟨-, -, htime, -, -, -, h₁, rfl⟩ := sentPacket_ok hsent
      refine armed_updateLossDetectionAlarm fun _ => ?_
      rw [← (sameQueues_updateLossDetectionAlarm r h₁).lastSentTime, htime]
      exact r.now_gt
  | receivedAck r ackFrame withPacketNumber =>
    exact armed_receivedAck hc.numbered ht ha ackFrame withPacketNumber
  | receivedClosePath f withPacketNumber =>
    obtain ⟨lost, htakes, -⟩ := acknowledges_receivedClosePath hc.numbered f withPacketNumber
    exact htakes.armed (receivedClosePath_alarm f withPacketNumber) ha
  | setInflightAsLost =>
    obtain ⟨lost, htakes, -⟩ := queues_setInflightAsLost hc.numbered
    exact htakes.armed (foldl_queue_alarm _ _) ha
  | onAlarm r potentiallyFailed =>
    exact (armed_onAlarm_iff hc.numbered ht potentiallyFailed).mpr hfit
  | dequeue =>
    obtain ⟨hhistory, -, halarm⟩ := dequeue_handler t
    rwa [Armed, hhistory, halarm]

theorem timed_new : (new : Tracker σ).handler.Timed := fun hne => absurd rfl hne

theorem armed_new : (new : Tracker σ).handler.Armed := fun hne => absurd rfl hne

theorem timed_run (acts : List (HandlerAction σ)) : (run step new acts).handler.Timed := by
  have hrun : (run step new acts).Consistent ∧ (run step new acts).handler.Timed :=
    run_inv (fun _ _ => True) (fun _ (t : Tracker σ) => t.Consistent ∧ t.handler.Timed)
      (fun _ _ a ht _ => ⟨consistent_step ht.1 a, timed_step ht.1 ht.2 a⟩) acts [] new
      ⟨consistent_new, timed_new⟩ (fun _ _ _ _ => trivial)
  exact hrun.2

/-- **When the loss alarm stays armed.** In every state of a run the alarm is set while the
history is not empty, if and only if `OnAlarm` is never called while the history is not
empty and holds no packet that `IsRetransmittable` knows. -/
theorem alarm_armed_iff (acts : List (HandlerAction σ)) :
    (∀ before after, acts = before ++ after → (run step new before).handler.Armed) ↔
      AllFit step AlarmFit new acts := by
  constructor
  · rintro harmed before a after rfl
    cases a with
    | onAlarm r potentiallyFailed =>
      have hnext := harmed (before ++ [.onAlarm r potentiallyFailed]) after (by simp)
      rw [run_append] at hnext
      exact (armed_onAlarm_iff (consistent_run before).numbered (timed_run before)
        potentiallyFailed).mp hnext
    | _ => trivial
  · rintro hfit before after rfl
    have hrun := run_inv AlarmFit
      (fun _ (t : Tracker σ) => t.Consistent ∧ t.handler.Timed ∧ t.handler.Armed)
      (fun _ _ a ht hfit => ⟨consistent_step ht.1 a, timed_step ht.1 ht.2.1 a,
        armed_step ht.1 ht.2.1 ht.2.2 hfit⟩) before [] new
      ⟨consistent_new, timed_new, armed_new⟩ hfit.left
    exact hrun.2.2

/-- A packet with only a CLOSE_PATH frame is sent and the alarm fires: the packet stays in
the history, and no alarm is set for it. -/
theorem alarm_disarmed :
    let r : Readings := ⟨2 ^ 63 + 1, 0, 0, 0, 0, by decide⟩
    let t : Tracker OutFrame := run step new
      [.sentPacket r ⟨1, [.closePath ⟨⟨1, 0, 0, []⟩⟩], 40, .forwardSecure, 0⟩, .onAlarm r false]
    t.handler.packetHistory.length = 1 ∧ t.handler.alarm = 0 := by
  decide

end Tracker

end RlncStreaming.Quic
