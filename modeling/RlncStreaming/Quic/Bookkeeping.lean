import Mathlib.Algebra.BigOperators.Group.List.Basic
import Mathlib.Algebra.Order.Group.Multiset
import Mathlib.Tactic.Abel
import RlncStreaming.Quic.SentPackets

/-!
The sender's bookkeeping over whole runs.

Every operation takes packets out of the history in one of two ways, as acknowledged or for
retransmission, and `Takes` says what that does to the history and to the bytes in flight.
From this follows that the record stays consistent in every run
(`sender_bookkeeping_consistent`).
-/

namespace RlncStreaming.Quic

open Lib List Packet

variable {σ : Type}

namespace SentPacketHandler

/-! ### Packets that leave the history -/

/-- The bytes of packets, in 64-bit arithmetic. -/
def lengthSum (ps : List (Packet σ)) : UInt64 := (ps.map Packet.length).sum

/-- The packets `ps`, and no others, have left the history of `h`. -/
structure Takes (h h' : SentPacketHandler σ) (ps : List (Packet σ)) : Prop where
  history : h.packetHistory.Perm (ps ++ h'.packetHistory)
  sublist : h'.packetHistory.Sublist h.packetHistory
  bytes : h.bytesInFlight = lengthSum ps + h'.bytesInFlight
  lastSent : h'.lastSentPacketNumber = h.lastSentPacketNumber
  lastSentTime : h'.lastSentTime = h.lastSentTime

/-- Packets have left the history of `h` for its retransmission queue. -/
def Queues (h h' : SentPacketHandler σ) : Prop :=
  ∃ lost, Takes h h' lost ∧ h'.retransmissionQueue = h.retransmissionQueue ++ lost

/-- The numbers in the history are distinct. -/
def Numbered (h : SentPacketHandler σ) : Prop := (h.packetHistory.map Packet.packetNumber).Nodup

variable {h h' h'' : SentPacketHandler σ} {p : Packet σ} {ps qs : List (Packet σ)} {r : Readings}

@[simp] theorem lengthSum_nil : lengthSum ([] : List (Packet σ)) = 0 := rfl

@[simp] theorem lengthSum_cons : lengthSum (p :: ps) = p.length + lengthSum ps := by
  simp [lengthSum]

theorem lengthSum_append : lengthSum (ps ++ qs) = lengthSum ps + lengthSum qs := by
  rw [lengthSum, map_append, sum_append]
  rfl

theorem lengthSum_perm (h : ps.Perm qs) : lengthSum ps = lengthSum qs :=
  (h.map Packet.length).sum_eq

theorem Takes.refl (h : SentPacketHandler σ) : Takes h h [] := ⟨.refl _, .refl _, by simp, rfl, rfl⟩

theorem Takes.trans (hp : Takes h h' ps) (hq : Takes h' h'' qs) : Takes h h'' (ps ++ qs) where
  history := by
    rw [append_assoc]
    exact hp.history.trans (hq.history.append_left ps)
  sublist := hq.sublist.trans hp.sublist
  bytes := by rw [hp.bytes, hq.bytes, lengthSum_append, UInt64.add_assoc]
  lastSent := hq.lastSent.trans hp.lastSent
  lastSentTime := hq.lastSentTime.trans hp.lastSentTime

theorem Takes.numbered (ht : Takes h h' ps) (hn : Numbered h) : Numbered h' :=
  hn.sublist (ht.sublist.map _)

theorem Queues.refl (h : SentPacketHandler σ) : Queues h h := ⟨[], .refl h, by simp⟩

theorem Queues.trans : Queues h h' → Queues h' h'' → Queues h h''
  | ⟨ps, hp, hpq⟩, ⟨qs, hq, hqq⟩ => ⟨ps ++ qs, hp.trans hq, by rw [hqq, hpq, append_assoc]⟩

theorem Queues.numbered : Queues h h' → Numbered h → Numbered h'
  | ⟨_, ht, _⟩ => ht.numbered

theorem bytes_cancel (a : UInt64) : a = lengthSum [p] + (a - p.length) := by
  rw [lengthSum_cons, lengthSum_nil, UInt64.add_zero, UInt64.add_comm, UInt64.sub_add_cancel]

theorem takes_onPacketAcked (hn : Numbered h) (hp : p ∈ h.packetHistory) :
    Takes h (h.onPacketAcked p) [p] :=
  ⟨perm_dropKey hn hp, dropKey_sublist _, bytes_cancel _, rfl, rfl⟩

theorem takes_queue (hn : Numbered h) (hp : p ∈ h.packetHistory) :
    Takes h (h.queuePacketForRetransmission p) [p] :=
  ⟨perm_dropKey hn hp, dropKey_sublist _, bytes_cancel _, rfl, rfl⟩

/-- A loop that takes one packet in each iteration. -/
theorem takes_foldl (take : SentPacketHandler σ → Packet σ → SentPacketHandler σ)
    (htake : ∀ h p, Numbered h → p ∈ h.packetHistory → Takes h (take h p) [p]) (hn : Numbered h)
    (hps : (ps.map packetNumber).Nodup) (hmem : ∀ p ∈ ps, p ∈ h.packetHistory) :
    Takes h (ps.foldl take h) ps := by
  induction ps generalizing h with
  | nil => exact .refl h
  | cons p ps ih =>
    have hfirst := htake h p hn (hmem p mem_cons_self)
    rw [map_cons, nodup_cons] at hps
    have hrest : ∀ q ∈ ps, q ∈ (take h p).packetHistory := by
      intro q hq
      have hne : q ≠ p := fun heq => hps.1 (heq ▸ mem_map_of_mem hq)
      have hin := hfirst.history.mem_iff.mp (hmem q (mem_cons_of_mem p hq))
      exact (mem_cons.mp hin).resolve_left hne
    exact hfirst.trans (ih (hfirst.numbered hn) hps.2 hrest)

theorem takes_foldl_sublist {take : SentPacketHandler σ → Packet σ → SentPacketHandler σ}
    (htake : ∀ h p, Numbered h → p ∈ h.packetHistory → Takes h (take h p) [p]) (hn : Numbered h)
    (hps : ps.Sublist h.packetHistory) : Takes h (ps.foldl take h) ps :=
  takes_foldl take htake hn (hn.sublist (hps.map _)) fun _ hp => hps.subset hp

@[simp] theorem foldl_acked_queue (ps : List (Packet σ)) (h : SentPacketHandler σ) :
    (ps.foldl onPacketAcked h).retransmissionQueue = h.retransmissionQueue := by
  induction ps generalizing h with
  | nil => rfl
  | cons p ps ih => exact ih _

@[simp] theorem foldl_queue_queue (ps : List (Packet σ)) (h : SentPacketHandler σ) :
    (ps.foldl queuePacketForRetransmission h).retransmissionQueue =
      h.retransmissionQueue ++ ps := by
  induction ps generalizing h with
  | nil => simp
  | cons p ps ih =>
    rw [foldl_cons, ih, queuePacketForRetransmission, remove]
    simp

theorem queues_foldl (hn : Numbered h) (hps : ps.Sublist h.packetHistory) :
    Queues h (ps.foldl queuePacketForRetransmission h) :=
  ⟨ps, takes_foldl_sublist (fun _ _ => takes_queue) hn hps, foldl_queue_queue ps h⟩

/-! ### What the operations take -/

theorem scanLost_sublist (largestAcked : Nat) (lossTime : Int) :
    (scanLost r largestAcked lossTime ps).1.Sublist ps := by
  induction ps generalizing lossTime with
  | nil => exact .refl _
  | cons p ps ih =>
    rw [scanLost]
    split
    · exact nil_sublist _
    simp only
    split
    · exact (ih lossTime).cons_cons p
    split
    · exact (ih _).cons p
    · exact (ih _).cons p

section

variable (hn : Numbered h)

include hn

theorem queues_detectLostPackets : Queues h (h.detectLostPackets r) := by
  obtain ⟨lost, ht, hq⟩ := queues_foldl
    (h := { h with lossTime := (scanLost r h.largestAcked 0 h.packetHistory).2 }) hn
    (scanLost_sublist h.largestAcked 0)
  exact ⟨lost, { ht with }, hq⟩

theorem queues_setInflightAsLost : Queues h h.setInflightAsLost :=
  queues_foldl hn (takeWhile_sublist _)

theorem queues_one (hp : p ∈ h.packetHistory) : Queues h (h.queuePacketForRetransmission p) :=
  ⟨[p], takes_queue hn hp, rfl⟩

theorem queues_retransmitTLP : Queues h h.retransmitTLP := by
  rw [retransmitTLP]
  split
  · next p hlast => exact queues_one hn (mem_of_getLast? hlast)
  · exact .refl h

theorem queues_retransmitOldestPacket : Queues h h.retransmitOldestPacket := by
  rw [retransmitOldestPacket]
  split
  · next p ps hps => exact queues_one hn (by rw [hps]; exact mem_cons_self)
  · exact .refl h

theorem queues_retransmitAllPackets : Queues h h.retransmitAllPackets := by
  rw [retransmitAllPackets]
  generalize h.packetHistory = ps
  induction ps generalizing h with
  | nil => exact .refl h
  | cons p ps ih =>
    have hfirst := queues_retransmitOldestPacket hn
    exact hfirst.trans (ih (hfirst.numbered hn))

end

/-- Nothing that the queues depend on is changed. -/
structure SameQueues (h h' : SentPacketHandler σ) : Prop where
  history : h'.packetHistory = h.packetHistory
  queue : h'.retransmissionQueue = h.retransmissionQueue
  bytes : h'.bytesInFlight = h.bytesInFlight
  lastSent : h'.lastSentPacketNumber = h.lastSentPacketNumber
  lastSentTime : h'.lastSentTime = h.lastSentTime

theorem SameQueues.numbered (hs : SameQueues h h') (hn : Numbered h) : Numbered h' := by
  rw [Numbered, hs.history]
  exact hn

theorem Takes.same (ht : Takes h h' ps) (hs : SameQueues h' h'') : Takes h h'' ps :=
  ⟨by rw [hs.history]; exact ht.history, by rw [hs.history]; exact ht.sublist,
    by rw [hs.bytes]; exact ht.bytes, hs.lastSent.trans ht.lastSent,
    hs.lastSentTime.trans ht.lastSentTime⟩

theorem Queues.same : Queues h h' → SameQueues h' h'' → Queues h h''
  | ⟨lost, ht, hq⟩, hs => ⟨lost, ht.same hs, hs.queue.trans hq⟩

theorem sameQueues_updateLossDetectionAlarm (r : Readings) (h : SentPacketHandler σ) :
    SameQueues h (h.updateLossDetectionAlarm r) := by
  rw [updateLossDetectionAlarm]
  split
  · exact ⟨rfl, rfl, rfl, rfl, rfl⟩
  split
  · exact ⟨rfl, rfl, rfl, rfl, rfl⟩
  · split <;> exact ⟨rfl, rfl, rfl, rfl, rfl⟩

theorem queues_retransmitOnAlarm (potentiallyFailed : Bool) (hn : Numbered h) :
    Queues h (h.retransmitOnAlarm r potentiallyFailed) := by
  rw [retransmitOnAlarm]
  split
  · exact queues_detectLostPackets hn
  split
  · exact (queues_retransmitTLP hn).same ⟨rfl, rfl, rfl, rfl, rfl⟩
  split
  · exact (queues_retransmitAllPackets hn).same ⟨rfl, rfl, rfl, rfl, rfl⟩
  have hfirst := queues_retransmitOldestPacket hn
  exact (hfirst.trans (queues_retransmitOldestPacket (hfirst.numbered hn))).same
    ⟨rfl, rfl, rfl, rfl, rfl⟩

theorem queues_onAlarm (potentiallyFailed : Bool) (hn : Numbered h) :
    Queues h (h.onAlarm r potentiallyFailed) := by
  rw [onAlarm]
  split
  · exact (queues_retransmitOnAlarm potentiallyFailed hn).same
      (sameQueues_updateLossDetectionAlarm r _)
  · exact (Queues.refl h).same ⟨rfl, rfl, rfl, rfl, rfl⟩

theorem newlyAcked_sublist {f : AckBlocks} {ranges : List AckRange}
    (h : newlyAcked f ranges ps = some qs) : qs.Sublist ps := by
  induction ps generalizing ranges qs with
  | nil =>
    cases h
    exact .refl _
  | cons p ps ih =>
    rw [newlyAcked] at h
    split at h
    · exact (ih h).cons p
    split at h
    · cases h
      exact nil_sublist _
    split at h
    · obtain ⟨rest, hrest, rfl⟩ := Option.map_eq_some_iff.mp h
      exact (ih hrest).cons_cons p
    split at h
    · split at h
      · cases h
      obtain ⟨rest, hrest, rfl⟩ := Option.map_eq_some_iff.mp h
      exact (ih hrest).cons_cons p
    · exact (ih h).cons p

/-- What an acknowledgement does to the queues: the acknowledged packets are gone, lost ones
are queued. -/
def Acknowledges (h : SentPacketHandler σ) (result : AckResult σ) : Prop :=
  ∃ lost, Takes h result.handler (result.acked ++ lost) ∧
    result.handler.retransmissionQueue = h.retransmissionQueue ++ lost

theorem acknowledges_nothing {error : Option HandlerError} (hs : SameQueues h h') :
    Acknowledges h ⟨h', [], error⟩ :=
  ⟨[], (Takes.refl h).same hs, by rw [append_nil]; exact hs.queue⟩

/-- The acknowledged packets are taken first, then packets are queued. -/
theorem acknowledges_of {f : AckBlocks} (hn : Numbered h) (hs : SameQueues h h')
    (hacked : h'.determineNewlyAckedPackets f = some ps)
    (hqueues : Queues (ps.foldl onPacketAcked h') h'') {error : Option HandlerError} :
    Acknowledges h ⟨h'', ps, error⟩ := by
  have htaken := takes_foldl_sublist (fun _ _ => takes_onPacketAcked) (hs.numbered hn)
    (newlyAcked_sublist hacked)
  obtain ⟨lost, hlost, hqueue⟩ := hqueues
  refine ⟨lost, ((Takes.refl h).same hs).trans (htaken.trans hlost), ?_⟩
  rw [hqueue, foldl_acked_queue, hs.queue]

theorem Numbered.foldl_acked {f : AckBlocks} (hn : Numbered h)
    (hacked : h.determineNewlyAckedPackets f = some ps) : Numbered (ps.foldl onPacketAcked h) :=
  (takes_foldl_sublist (fun _ _ => takes_onPacketAcked) hn (newlyAcked_sublist hacked)).numbered hn

theorem sameQueues_noteAckPacket (n : Nat) (h : SentPacketHandler σ) :
    SameQueues h (h.noteAckPacket n) := ⟨rfl, rfl, rfl, rfl, rfl⟩

theorem sameQueues_noteLargestAcked (n m : Nat) (h : SentPacketHandler σ) :
    SameQueues h ((h.noteAckPacket n).noteLargestAcked m) := ⟨rfl, rfl, rfl, rfl, rfl⟩

theorem acknowledges_receivedAck (hn : Numbered h) (ackFrame : AckFrame) (withPacketNumber : Nat) :
    Acknowledges h (h.receivedAck r ackFrame withPacketNumber) := by
  have hsame := sameQueues_noteLargestAcked withPacketNumber ackFrame.largestAcked h
  rw [receivedAck]
  split
  · exact acknowledges_nothing ⟨rfl, rfl, rfl, rfl, rfl⟩
  split
  · exact acknowledges_nothing ⟨rfl, rfl, rfl, rfl, rfl⟩
  simp only
  split
  · exact acknowledges_nothing (sameQueues_noteAckPacket _ h)
  generalize (h.noteAckPacket withPacketNumber).noteLargestAcked ackFrame.largestAcked =
    h₁ at hsame ⊢
  split
  · exact acknowledges_nothing hsame
  split
  · exact acknowledges_nothing hsame
  rename_i ps hacked
  have hlost := queues_detectLostPackets (r := r) ((hsame.numbered hn).foldl_acked hacked)
  have hset := hlost.same (sameQueues_updateLossDetectionAlarm r _)
  refine acknowledges_of hn hsame hacked (hset.same ?_)
  exact ⟨rfl, rfl, rfl, rfl, rfl⟩

theorem acknowledges_receivedClosePath (hn : Numbered h) (f : ClosePathFrame)
    (withPacketNumber : Nat) : Acknowledges h (h.receivedClosePath f withPacketNumber) := by
  have hsame := sameQueues_noteAckPacket withPacketNumber h
  rw [receivedClosePath]
  split
  · exact acknowledges_nothing ⟨rfl, rfl, rfl, rfl, rfl⟩
  split
  · exact acknowledges_nothing ⟨rfl, rfl, rfl, rfl, rfl⟩
  simp only
  generalize h.noteAckPacket withPacketNumber = h₁ at hsame ⊢
  split
  · exact acknowledges_nothing hsame
  split
  · exact acknowledges_nothing hsame
  rename_i ps hacked
  have hlost := queues_setInflightAsLost ((hsame.numbered hn).foldl_acked hacked)
  refine acknowledges_of hn hsame hacked (hlost.same ?_)
  exact ⟨rfl, rfl, rfl, rfl, rfl⟩

/-- What `SentPacket` does when it accepts a packet: a packet with a retransmittable frame
is stored under a new number. -/
theorem sentPacket_ok (hok : h.sentPacket r p = .ok h') :
    h.lastSentPacketNumber < p.packetNumber ∧ h'.lastSentPacketNumber = p.packetNumber ∧
      h'.lastSentTime = r.now ∧ h'.retransmissionQueue = h.retransmissionQueue ∧
      h'.packetHistory = h.packetHistory ++ p.stored r ∧
      h'.bytesInFlight = h.bytesInFlight + lengthSum (p.stored r) ∧
      ∃ h₁ : SentPacketHandler σ, h' = h₁.updateLossDetectionAlarm r := by
  rw [sentPacket] at hok
  split at hok
  · cases hok
  rename_i hnew
  split at hok
  · cases hok
  simp only [Except.ok.injEq] at hok
  subst hok
  have hsame := fun h : SentPacketHandler σ => sameQueues_updateLossDetectionAlarm r h
  simp only [(hsame _).history, (hsame _).queue, (hsame _).bytes, (hsame _).lastSent,
    (hsame _).lastSentTime]
  cases hstored : p.stored r with
  | nil => exact ⟨by omega, rfl, rfl, rfl, by simp, by simp, _, rfl⟩
  | cons q qs =>
    have hlength : lengthSum (q :: qs) = p.length := by
      rw [stored] at hstored
      split at hstored
      · cases hstored
      cases hstored
      simp
    exact ⟨by omega, rfl, rfl, rfl, rfl, by rw [hlength], _, rfl⟩

end SentPacketHandler

open SentPacketHandler

/-! ### Runs -/

/-- A call of the handler. -/
inductive HandlerAction (σ : Type) where
  | sentPacket (r : Readings) (packet : Packet σ)
  | receivedAck (r : Readings) (ackFrame : AckFrame) (withPacketNumber : Nat)
  | receivedClosePath (f : ClosePathFrame) (withPacketNumber : Nat)
  | setInflightAsLost
  | onAlarm (r : Readings) (potentiallyFailed : Bool)
  | dequeue

/-- A handler with the packets that it has to track, handed out for retransmission, and
reported as acknowledged. -/
structure Tracker (σ : Type) where
  handler : SentPacketHandler σ
  accepted : List (Packet σ)
  dequeued : List (Packet σ)
  acked : List (Packet σ)

namespace Tracker

def new : Tracker σ := ⟨newSentPacketHandler, [], [], []⟩

/-- A packet with a retransmittable frame has to be tracked, with all such frames. -/
def tracked (r : Readings) (packet : Packet σ) : List (Packet σ) :=
  if ∃ f ∈ packet.frames, isFrameRetransmittable f = true then
    [{ packet with frames := packet.frames.filter isFrameRetransmittable, sendTime := r.now }]
  else []

/-- That is what `SentPacket` stores. -/
theorem stored_eq_tracked (r : Readings) (p : Packet σ) : p.stored r = tracked r p := by
  have hempty : (p.frames.filter isFrameRetransmittable).isEmpty = true ↔
      ¬ ∃ f ∈ p.frames, isFrameRetransmittable f = true := by
    simp [filter_eq_nil_iff]
  by_cases hany : ∃ f ∈ p.frames, isFrameRetransmittable f = true
  · rw [tracked, if_pos hany]
    exact if_neg fun h => hempty.mp h hany
  · rw [tracked, if_neg hany]
    exact if_pos (hempty.mpr hany)

/-- The call of an action. A call that fails changes the handler as far as the code does
before it returns. -/
def step (t : Tracker σ) : HandlerAction σ → Tracker σ
  | .sentPacket r packet =>
    match t.handler.sentPacket r packet with
    | .error _ => t
    | .ok handler => { t with handler, accepted := t.accepted ++ tracked r packet }
  | .receivedAck r ackFrame withPacketNumber =>
    let result := t.handler.receivedAck r ackFrame withPacketNumber
    { t with handler := result.handler, acked := t.acked ++ result.acked }
  | .receivedClosePath f withPacketNumber =>
    let result := t.handler.receivedClosePath f withPacketNumber
    { t with handler := result.handler, acked := t.acked ++ result.acked }
  | .setInflightAsLost => { t with handler := t.handler.setInflightAsLost }
  | .onAlarm r potentiallyFailed => { t with handler := t.handler.onAlarm r potentiallyFailed }
  | .dequeue =>
    let (packet, handler) := t.handler.dequeuePacketForRetransmission
    { t with handler, dequeued := t.dequeued ++ packet.toList }

/-- The record is consistent: the bytes in flight are those of the history, its numbers
increase, and every packet that has to be tracked is in exactly one place. -/
structure Consistent (t : Tracker σ) : Prop where
  bytes : t.handler.bytesInFlight = lengthSum t.handler.packetHistory
  increasing : (t.handler.packetHistory.map Packet.packetNumber).Pairwise (· < ·)
  below : ∀ p ∈ t.accepted, p.packetNumber ≤ t.handler.lastSentPacketNumber
  distinct : (t.accepted.map Packet.packetNumber).Nodup
  placed : t.accepted.Perm (t.handler.packetHistory ++ t.handler.retransmissionQueue ++
    t.dequeued ++ t.acked)

variable {t : Tracker σ} {h : SentPacketHandler σ}

theorem Consistent.numbered (ht : t.Consistent) : Numbered t.handler :=
  ht.increasing.imp fun hlt => Nat.ne_of_lt hlt

/-- Packets that leave the history are found in the queue or among the acknowledged. -/
theorem Consistent.takes (ht : t.Consistent) {acked lost : List (Packet σ)}
    (htakes : Takes t.handler h (acked ++ lost))
    (hqueue : h.retransmissionQueue = t.handler.retransmissionQueue ++ lost) :
    Consistent { t with handler := h, acked := t.acked ++ acked } where
  bytes := by
    have hsum := htakes.bytes
    rw [ht.bytes, lengthSum_perm htakes.history, lengthSum_append] at hsum
    exact (UInt64.add_right_inj _).mp hsum.symm
  increasing := ht.increasing.sublist (htakes.sublist.map _)
  below := by
    rw [htakes.lastSent]
    exact ht.below
  distinct := ht.distinct
  placed := by
    refine ht.placed.trans ?_
    have hmoved := Multiset.coe_eq_coe.mpr htakes.history
    rw [← Multiset.coe_eq_coe]
    simp only [hqueue, ← Multiset.coe_add] at hmoved ⊢
    rw [hmoved]
    abel

theorem Consistent.queues (ht : t.Consistent) (hq : Queues t.handler h) :
    Consistent { t with handler := h } := by
  obtain ⟨lost, htakes, hqueue⟩ := hq
  have hnext : Consistent { t with handler := h, acked := t.acked ++ [] } := ht.takes htakes hqueue
  rw [append_nil] at hnext
  exact hnext

theorem Consistent.acknowledges (ht : t.Consistent) {result : AckResult σ}
    (hr : Acknowledges t.handler result) :
    Consistent { t with handler := result.handler, acked := t.acked ++ result.acked } := by
  obtain ⟨lost, htakes, hqueue⟩ := hr
  exact ht.takes htakes hqueue

theorem stored_packetNumber {r : Readings} {p q : Packet σ} (hq : q ∈ p.stored r) :
    q.packetNumber = p.packetNumber := by
  rw [stored] at hq
  split at hq
  · exact absurd hq not_mem_nil
  · rw [mem_singleton.mp hq]

theorem stored_pairwise (r : Readings) (p : Packet σ) (R : Nat → Nat → Prop) :
    ((p.stored r).map packetNumber).Pairwise R := by
  rw [stored]
  split
  · exact .nil
  · exact pairwise_singleton R _

/-- A stored packet has a greater number than all before it. -/
theorem Consistent.sent (ht : t.Consistent) {r : Readings} {p : Packet σ}
    (hok : t.handler.sentPacket r p = .ok h) :
    Consistent { t with handler := h, accepted := t.accepted ++ p.stored r } := by
  obtain ⟨hnew, hlast, -, hqueue, hhistory, hbytes, -⟩ := sentPacket_ok hok
  have hgreater : ∀ n ∈ t.accepted.map packetNumber,
      ∀ m ∈ (p.stored r).map packetNumber, n < m := by
    intro n hn m hm
    obtain ⟨q, hq, rfl⟩ := mem_map.mp hn
    obtain ⟨q', hq', rfl⟩ := mem_map.mp hm
    have hbelow := ht.below q hq
    rw [stored_packetNumber hq']
    omega
  have haccepted : ∀ q ∈ t.handler.packetHistory, q ∈ t.accepted := fun q hq =>
    ht.placed.mem_iff.mpr (by simp [hq])
  refine ⟨?_, ?_, ?_, ?_, ?_⟩
  · simp only
    rw [hbytes, ht.bytes, hhistory, lengthSum_append]
  · simp only
    rw [hhistory, map_append, pairwise_append]
    refine ⟨ht.increasing, stored_pairwise r p _, fun n hn => hgreater n ?_⟩
    obtain ⟨q, hq, rfl⟩ := mem_map.mp hn
    exact mem_map_of_mem (haccepted q hq)
  · intro q hq
    simp only at hq ⊢
    rw [hlast]
    rcases mem_append.mp hq with hq | hq
    · have hbelow := ht.below q hq
      omega
    · exact Nat.le_of_eq (stored_packetNumber hq)
  · simp only
    rw [map_append, nodup_append]
    exact ⟨ht.distinct, stored_pairwise r p _, fun n hn m hm => Nat.ne_of_lt (hgreater n hn m hm)⟩
  · have hplaced := Multiset.coe_eq_coe.mpr ht.placed
    rw [← Multiset.coe_eq_coe]
    simp only [hhistory, hqueue, ← Multiset.coe_add] at hplaced ⊢
    rw [hplaced]
    abel

theorem Consistent.dequeue (ht : t.Consistent) : Consistent (t.step .dequeue) := by
  rw [step, dequeuePacketForRetransmission]
  cases hqueue : t.handler.retransmissionQueue with
  | nil => simpa using ht
  | cons p queue =>
    refine { ht with placed := ?_ }
    have hplaced := ht.placed
    rw [hqueue] at hplaced
    rw [← Multiset.coe_eq_coe] at hplaced ⊢
    simp only [Option.toList_some, ← Multiset.coe_add, ← Multiset.cons_coe,
      ← Multiset.singleton_add, Multiset.coe_nil, add_zero] at hplaced ⊢
    rw [hplaced]
    abel

theorem consistent_step (ht : t.Consistent) (a : HandlerAction σ) : Consistent (t.step a) := by
  cases a with
  | sentPacket r packet =>
    rw [step]
    cases hsent : t.handler.sentPacket r packet with
    | error e => exact ht
    | ok h =>
      simp only [← stored_eq_tracked]
      exact ht.sent hsent
  | receivedAck r ackFrame withPacketNumber =>
    exact ht.acknowledges (acknowledges_receivedAck ht.numbered ackFrame withPacketNumber)
  | receivedClosePath f withPacketNumber =>
    exact ht.acknowledges (acknowledges_receivedClosePath ht.numbered f withPacketNumber)
  | setInflightAsLost => exact ht.queues (queues_setInflightAsLost ht.numbered)
  | onAlarm r potentiallyFailed => exact ht.queues (queues_onAlarm potentiallyFailed ht.numbered)
  | dequeue => exact ht.dequeue

theorem consistent_new : Consistent (new : Tracker σ) :=
  ⟨rfl, .nil, fun _ hp => absurd hp not_mem_nil, .nil, .refl _⟩

theorem consistent_run (acts : List (HandlerAction σ)) : Consistent (run step new acts) :=
  run_inv (fun _ _ => True) (fun _ t => Consistent t)
    (fun _ _ a ht _ => consistent_step ht a) acts [] new consistent_new (fun _ _ _ _ => trivial)

/-- The packets with the number of `p`, over all places. -/
def occurrences (t : Tracker σ) (p : Packet σ) : Nat :=
  let same := fun q : Packet σ => decide (q.packetNumber = p.packetNumber)
  t.handler.packetHistory.countP same + t.handler.retransmissionQueue.countP same +
    t.dequeued.countP same + t.acked.countP same

theorem Consistent.occurrences_eq (ht : t.Consistent) {p : Packet σ} (hp : p ∈ t.accepted) :
    t.occurrences p = 1 := by
  have hcount := ht.placed.countP_eq fun q => decide (q.packetNumber = p.packetNumber)
  rw [countP_append, countP_append, countP_append] at hcount
  rw [occurrences, ← hcount]
  have hnumber : t.accepted.countP (fun q => decide (q.packetNumber = p.packetNumber)) =
      (t.accepted.map packetNumber).count p.packetNumber := by
    rw [count, countP_map]
    congr 1
  rw [hnumber]
  exact count_eq_one_of_mem ht.distinct (mem_map_of_mem hp)

theorem lengthSum_toNat (ps : List (Packet σ)) :
    (lengthSum ps).toNat = (ps.map fun p => p.length.toNat).sum % 2 ^ 64 := by
  induction ps with
  | nil => rfl
  | cons p ps ih => simp [lengthSum_cons, UInt64.toNat_add, ih, Nat.add_mod]

/-- **The sender's bookkeeping is consistent.** After every sequence of calls, the bytes in
flight are the sum of the lengths in the history (modulo `2 ^ 64`, and so the sum itself
while it is smaller), the numbers in the history increase, and every packet that was
accepted with a retransmittable frame is in exactly one place: the history, the
retransmission queue, dequeued, or acknowledged. -/
theorem sender_bookkeeping_consistent (acts : List (HandlerAction σ)) :
    let t := run step new acts
    t.handler.bytesInFlight.toNat =
        (t.handler.packetHistory.map fun p => p.length.toNat).sum % 2 ^ 64 ∧
      (t.handler.packetHistory.map packetNumber).Pairwise (· < ·) ∧
      t.accepted.Perm (t.handler.packetHistory ++ t.handler.retransmissionQueue ++ t.dequeued ++
        t.acked) ∧
      ∀ p ∈ t.accepted, t.occurrences p = 1 := by
  intro t
  have ht : t.Consistent := consistent_run acts
  refine ⟨?_, ht.increasing, ht.placed, fun p hp => ht.occurrences_eq hp⟩
  rw [ht.bytes, lengthSum_toNat]

end Tracker

end RlncStreaming.Quic
