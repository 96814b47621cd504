import RlncStreaming.Quic.AckParsing
import RlncStreaming.Quic.Bookkeeping

/-!
Closing a path on a CLOSE_PATH frame (`session.go`: `closePath`, `handleClosePathFrame`).

The frame acknowledges packets of the path, and what is left in flight should be queued for
retransmission. The loop over the ranges finds exactly the packets that the frame
acknowledges (`newlyAcked_eq_filter`), but the sweep over the rest stops at the largest
number that an earlier ACK frame acknowledged, and the frame is refused if its path has
received nothing since the last ACK frame (`close_path_drains_iff`).
-/

namespace RlncStreaming.Quic

open SentPacketHandler List

variable {σ : Type}

/-! ### The acknowledged packets -/

theorem seekRange_spec {n : Nat} (ranges : List AckRange) (hne : ranges ≠ []) :
    ∃ below r rs, seekRange n ranges = r :: rs ∧ ranges = below ++ r :: rs ∧
      (∀ q ∈ below, q.last < n) ∧ (n ≤ r.last ∨ rs = []) := by
  induction ranges with
  | nil => exact absurd rfl hne
  | cons r ranges ih =>
    cases ranges with
    | nil => exact ⟨[], r, [], rfl, rfl, by simp, .inr rfl⟩
    | cons r' rs =>
      rw [seekRange]
      split
      · next hlt =>
        obtain ⟨below, q, qs, hseek, hsplit, hbelow, hend⟩ := ih (by simp)
        refine ⟨r :: below, q, qs, hseek, by rw [hsplit]; rfl, ?_, hend⟩
        intro p hp
        rcases mem_cons.mp hp with rfl | hp
        · exact hlt
        · exact hbelow p hp
      · next hle => exact ⟨[], r, r' :: rs, rfl, rfl, by simp, .inl (by omega)⟩

/-- A packet that the range found by `seekRange` starts above is in no range at all. -/
theorem AckBlocks.Ordered.acksPacket_seek {f : AckBlocks} (hf : f.Ordered)
    {below rs : List AckRange} {r : AckRange} {n : Nat}
    (hsplit : f.ackRanges.reverse = below ++ r :: rs) (hbelow : ∀ q ∈ below, q.last < n)
    (hlow : f.lowestAcked ≤ n) (hhigh : n ≤ f.largestAcked) (hend : n ≤ r.last ∨ rs = []) :
    n ≤ r.last ∧ (f.acksPacket n = true ↔ r.first ≤ n) := by
  have hranges : f.ackRanges = rs.reverse ++ r :: below.reverse := by
    rw [← f.ackRanges.reverse_reverse, hsplit]
    simp
  have hne : f.ackRanges ≠ [] := by simp [hranges]
  obtain ⟨top, tops, htop⟩ := exists_cons_of_ne_nil hne
  obtain ⟨hdesc, hlargest, -⟩ := hf top tops htop
  rw [← htop, hranges] at hdesc
  have hlast : n ≤ r.last := by
    rcases hend with hle | rfl
    · exact hle
    -- The highest range ends at the largest number.
    rw [hranges] at htop
    obtain rfl : r = top := (cons.inj htop).1
    omega
  refine ⟨hlast, (acksPacket_iff hne hlow hhigh).trans ⟨?_, fun hfirst => ⟨r, ?_, hfirst, hlast⟩⟩⟩
  · rintro ⟨q, hq, hqfirst, hqlast⟩
    rw [hranges] at hq
    rcases mem_append.mp hq with habove | hhere
    · have hpair := (pairwise_append.mp hdesc.pairwise).2.2 q habove r mem_cons_self
      have hle := (hdesc.mem (mem_append_right _ mem_cons_self) : r.first ≤ r.last ∧ _).1
      omega
    · rcases mem_cons.mp hhere with rfl | hunder
      · exact hqfirst
      have := hbelow q (mem_reverse.mp hunder)
      omega
  · rw [hranges]
    simp

/-- Whatever the ranges are, the loop reports only packets that the frame acknowledges. -/
theorem newlyAcked_acksPacket {f : AckBlocks} {ps qs : List (Packet σ)} {ranges : List AckRange}
    (hranges : ∀ r ∈ ranges, r ∈ f.ackRanges) (hne : ranges = [] → f.ackRanges = [])
    (h : newlyAcked f ranges ps = some qs) : ∀ p ∈ qs, f.acksPacket p.packetNumber = true := by
  induction ps generalizing ranges qs with
  | nil =>
    cases h
    simp
  | cons p ps ih =>
    rw [newlyAcked] at h
    split at h
    · exact ih hranges hne h
    rename_i hlow
    split at h
    · cases h
      simp
    rename_i hhigh
    by_cases hnil : ranges = []
    · subst hnil
      obtain ⟨rest, hrest, rfl⟩ := Option.map_eq_some_iff.mp h
      refine forall_mem_cons.mpr ⟨?_, ih hranges hne hrest⟩
      exact AckBlocks.acksPacket_nil (hne rfl) (Nat.not_lt.mp hlow) (Nat.not_lt.mp hhigh)
    obtain ⟨below, r, rs, hseek, hsplit, -, -⟩ := seekRange_spec (n := p.packetNumber) ranges hnil
    have hsub : ∀ q ∈ r :: rs, q ∈ f.ackRanges := fun q hq =>
      hranges q (hsplit ▸ mem_append_right below hq)
    rw [hseek] at h
    simp only at h
    split at h
    · next hfirst =>
      split at h
      · cases h
      rename_i hlast
      obtain ⟨rest, hrest, rfl⟩ := Option.map_eq_some_iff.mp h
      refine forall_mem_cons.mpr ⟨?_, ih hsub (by simp) hrest⟩
      have hmem := hsub r mem_cons_self
      exact (AckBlocks.acksPacket_iff (ne_nil_of_mem hmem) (Nat.not_lt.mp hlow)
        (Nat.not_lt.mp hhigh)).mpr ⟨r, hmem, hfirst, Nat.not_lt.mp hlast⟩
    · exact ih hsub (by simp) h

theorem determineNewlyAcked_acksPacket {f : AckBlocks} {h : SentPacketHandler σ}
    {ps : List (Packet σ)} (hacked : h.determineNewlyAckedPackets f = some ps) :
    ∀ p ∈ ps, f.acksPacket p.packetNumber = true :=
  newlyAcked_acksPacket (fun _ hr => mem_reverse.mp hr)
    (fun hnil => reverse_eq_nil_iff.mp hnil) hacked

theorem receivedAck_acksPacket (r : Readings) (f : AckFrame) (withPacketNumber : Nat)
    (h : SentPacketHandler σ) :
    ∀ p ∈ (h.receivedAck r f withPacketNumber).acked,
      (h.receivedAck r f withPacketNumber).error = none ∧ f.acksPacket p.packetNumber = true := by
  rw [receivedAck]
  split
  · simp
  split
  · simp
  simp only
  split
  · simp
  split
  · simp
  split
  · simp
  · next ps hacked => exact fun p hp => ⟨rfl, determineNewlyAcked_acksPacket hacked p hp⟩

theorem receivedClosePath_acksPacket (f : ClosePathFrame) (withPacketNumber : Nat)
    (h : SentPacketHandler σ) :
    ∀ p ∈ (h.receivedClosePath f withPacketNumber).acked,
      (h.receivedClosePath f withPacketNumber).error = none ∧
        f.acksPacket p.packetNumber = true := by
  rw [receivedClosePath]
  split
  · simp
  split
  · simp
  simp only
  split
  · simp
  split
  · simp
  · next ps hacked => exact fun p hp => ⟨rfl, determineNewlyAcked_acksPacket hacked p hp⟩

/-- The loop over descending ranges and an increasing history finds the packets that the
frame acknowledges. -/
theorem newlyAcked_eq_filter {f : AckBlocks} (hf : f.Ordered) {ps : List (Packet σ)}
    (hps : (ps.map Packet.packetNumber).Pairwise (· < ·)) {below ranges : List AckRange}
    (hsplit : f.ackRanges.reverse = below ++ ranges) (hne : ranges = [] → f.ackRanges = [])
    (hbelow : ∀ r ∈ below, ∀ p ∈ ps, r.last < p.packetNumber) :
    newlyAcked f ranges ps = some (ps.filter fun p => f.acksPacket p.packetNumber) := by
  induction ps generalizing below ranges with
  | nil => rfl
  | cons p ps ih =>
    rw [map_cons, pairwise_cons] at hps
    obtain ⟨hlater, hrest⟩ := hps
    have hgreater : ∀ q ∈ ps, p.packetNumber < q.packetNumber := fun q hq =>
      hlater _ (mem_map_of_mem hq)
    have hskip := ih hrest hsplit hne fun r hr q hq => hbelow r hr q (mem_cons_of_mem p hq)
    rw [newlyAcked]
    split
    · next hlow =>
      rw [hskip, filter_cons, AckBlocks.acksPacket_outside (.inl hlow)]
      rfl
    rename_i hlow
    split
    · next hhigh =>
      have hnone : ∀ q ∈ p :: ps, ¬ f.acksPacket q.packetNumber = true := by
        intro q hq
        have hle : p.packetNumber ≤ q.packetNumber := by
          rcases mem_cons.mp hq with rfl | hq
          · exact Nat.le_refl _
          · exact Nat.le_of_lt (hgreater q hq)
        simp [AckBlocks.acksPacket_outside (f := f) (n := q.packetNumber) (.inr (by omega))]
      rw [filter_eq_nil_iff.mpr hnone]
    · next hhigh =>
      by_cases hnil : ranges = []
      · subst hnil
        have hacked := AckBlocks.acksPacket_nil (hne rfl) (Nat.not_lt.mp hlow) (Nat.not_lt.mp hhigh)
        simp only [seekRange, hskip, Option.map_some]
        rw [filter_cons, if_pos hacked]
      obtain ⟨under, r, rs, hseek, hunder, hlt, hend⟩ :=
        seekRange_spec (n := p.packetNumber) ranges hnil
      rw [hunder, ← append_assoc] at hsplit
      have hpassed : ∀ q ∈ below ++ under, q.last < p.packetNumber := by
        intro q hq
        rcases mem_append.mp hq with hq | hq
        · exact hbelow q hq p mem_cons_self
        · exact hlt q hq
      obtain ⟨hlast, hacks⟩ := hf.acksPacket_seek hsplit hpassed (Nat.not_lt.mp hlow)
        (Nat.not_lt.mp hhigh) hend
      have hnext := ih hrest hsplit (fun h => by simp at h) fun q hq p' hp' =>
        Nat.lt_trans (hpassed q hq) (hgreater p' hp')
      simp only [hseek]
      split
      · next hfirst =>
        rw [if_neg (by omega), hnext, filter_cons, if_pos (hacks.mpr hfirst)]
        rfl
      · next hfirst =>
        rw [hnext, filter_cons, if_neg fun h => hfirst (hacks.mp h)]

theorem SentPacketHandler.determineNewlyAckedPackets_eq {f : AckBlocks} (hf : f.Ordered)
    {h : SentPacketHandler σ} (hinc : (h.packetHistory.map Packet.packetNumber).Pairwise (· < ·)) :
    h.determineNewlyAckedPackets f =
      some (h.packetHistory.filter fun p => f.acksPacket p.packetNumber) :=
  newlyAcked_eq_filter hf hinc (nil_append _).symm
    (fun hnil => reverse_eq_nil_iff.mp hnil) fun _ hr => absurd hr not_mem_nil

/-- **Which packets an acknowledgement finds.** For every frame that its parser accepts and every
history with increasing numbers, exactly the packets that the frame acknowledges, in order, and
never the error for a wrong packet. -/
theorem newly_acked_exact (o : ByteOrder) (bs : List UInt8) (h : SentPacketHandler σ)
    (hinc : (h.packetHistory.map Packet.packetNumber).Pairwise (· < ·)) :
    (∀ f rest, parseAckFrame o bs = .ok (f, rest) →
        h.determineNewlyAckedPackets f.toAckBlocks =
          some (h.packetHistory.filter fun p => f.acksPacket p.packetNumber)) ∧
      ∀ f rest, parseClosePathFrame o bs = .ok (f, rest) →
        h.determineNewlyAckedPacketsClosePath f =
          some (h.packetHistory.filter fun p => f.acksPacket p.packetNumber) := by
  constructor
  · intro f rest hparse
    exact determineNewlyAckedPackets_eq (parseAckFrame_blocks hparse).ordered hinc
  · intro f rest hparse
    exact determineNewlyAckedPackets_eq (parseClosePathFrame_blocks hparse).ordered hinc

/-- A handler with the packets 1 to 4 in its history. -/
def fourSent : SentPacketHandler OutFrame :=
  { newSentPacketHandler with
    packetHistory := [1, 2, 3, 4].map fun n => ⟨n, [.ping], 40, .forwardSecure, 0⟩ }

/-- Frames of either kind for the packets 1, 2 and 4. -/
theorem newly_acked_three :
    fourSent.determineNewlyAckedPackets ⟨0, 4, 1, [⟨4, 4⟩, ⟨1, 2⟩]⟩ =
        some ([1, 2, 4].map fun n => ⟨n, [.ping], 40, .forwardSecure, 0⟩) ∧
      fourSent.determineNewlyAckedPacketsClosePath ⟨⟨1, 4, 1, [⟨4, 4⟩, ⟨1, 2⟩]⟩⟩ =
        some ([1, 2, 4].map fun n => ⟨n, [.ping], 40, .forwardSecure, 0⟩) := by
  have hack : parseAckFrame .bigEndian [0x60, 4, 0, 0, 1, 1, 1, 2, 0] =
      .ok (⟨⟨0, 4, 1, [⟨4, 4⟩, ⟨1, 2⟩]⟩, 0⟩, []) := by decide +kernel
  have hclose : parseClosePathFrame .bigEndian [0x11, 1, 0x10, 1, 4, 1, 1, 2] =
      .ok (⟨⟨1, 4, 1, [⟨4, 4⟩, ⟨1, 2⟩]⟩⟩, []) := by decide +kernel
  constructor
  · exact (newly_acked_exact _ _ fourSent (by decide)).1 _ _ hack
  · exact (newly_acked_exact _ _ fourSent (by decide)).2 _ _ hclose

/-! ### The handler -/

namespace SentPacketHandler

variable {h h' : SentPacketHandler σ} {p : Packet σ} {ps : List (Packet σ)}

theorem Takes.mem_iff (ht : Takes h h' ps) (hn : Numbered h) :
    p ∈ h'.packetHistory ↔ p ∈ h.packetHistory ∧ p ∉ ps := by
  have hnodup : (ps ++ h'.packetHistory).Nodup := (ht.history.nodup_iff).mp (List.Nodup.of_map _ hn)
  rw [ht.history.mem_iff, mem_append]
  constructor
  · intro hp
    exact ⟨.inr hp, fun hps => (nodup_append.mp hnodup).2.2 p hps p hp rfl⟩
  · rintro ⟨hp | hp, hnot⟩
    · exact absurd hp hnot
    · exact hp

theorem mem_takeWhile_le (hps : (ps.map Packet.packetNumber).Pairwise (· < ·)) (n : Nat) :
    p ∈ ps.takeWhile (fun q => decide (q.packetNumber ≤ n)) ↔ p ∈ ps ∧ p.packetNumber ≤ n := by
  induction ps with
  | nil => simp
  | cons q ps ih =>
    rw [map_cons, pairwise_cons] at hps
    rw [takeWhile_cons]
    split
    · next hle =>
      rw [mem_cons, mem_cons, ih hps.2, or_and_right]
      refine or_congr_left ⟨?_, fun h => h.1⟩
      rintro rfl
      exact ⟨rfl, of_decide_eq_true hle⟩
    rename_i hgt
    simp only [not_mem_nil, false_iff]
    rintro ⟨hp, hle⟩
    have hq : ¬ q.packetNumber ≤ n := fun hq => hgt (decide_eq_true hq)
    rcases mem_cons.mp hp with rfl | hp
    · exact hq hle
    have := hps.1 _ (mem_map_of_mem hp)
    omega

theorem foldl_acked_largestAcked (h : SentPacketHandler σ) :
    (ps.foldl onPacketAcked h).largestAcked = h.largestAcked := by
  induction ps generalizing h with
  | nil => rfl
  | cons p ps ih => exact ih _

/-- `SetInflightAsLost` queues what is not above the largest acknowledged number. -/
theorem mem_setInflightAsLost
    (hinc : (h.packetHistory.map Packet.packetNumber).Pairwise (· < ·)) :
    (∀ p, p ∈ h.setInflightAsLost.packetHistory ↔
      p ∈ h.packetHistory ∧ h.largestAcked < p.packetNumber) ∧
    ∀ p ∈ h.packetHistory, p.packetNumber ≤ h.largestAcked →
      p ∈ h.setInflightAsLost.retransmissionQueue := by
  have hn : Numbered h := hinc.imp fun hlt => Nat.ne_of_lt hlt
  have hlost := takes_foldl_sublist (fun _ _ => takes_queue) hn
    (takeWhile_sublist fun p => decide (p.packetNumber ≤ h.largestAcked))
  refine ⟨fun p => ?_, fun p hp hle => ?_⟩
  · rw [setInflightAsLost, hlost.mem_iff hn, mem_takeWhile_le hinc]
    refine and_congr_right fun hp => ?_
    simp only [hp, true_and, Nat.not_le]
  · rw [setInflightAsLost, foldl_queue_queue]
    exact mem_append_right _ ((mem_takeWhile_le hinc _).mpr ⟨hp, hle⟩)

/-- What `ReceivedClosePath` leaves in flight and what it queues, if it accepts the frame. -/
theorem mem_receivedClosePath {f : ClosePathFrame} {n : Nat} (hf : f.Ordered)
    (hinc : (h.packetHistory.map Packet.packetNumber).Pairwise (· < ·))
    (hsent : f.largestAcked ≤ h.lastSentPacketNumber) (hnew : h.largestReceivedPacketWithAck < n)
    (hskipped : h.skippedPacketsAcked f.toAckBlocks = false) :
    (∀ p, p ∈ (h.receivedClosePath f n).handler.packetHistory ↔ (p ∈ h.packetHistory ∧
      f.acksPacket p.packetNumber = false) ∧ h.largestAcked < p.packetNumber) ∧
    ∀ p ∈ h.packetHistory, f.acksPacket p.packetNumber = false →
      p.packetNumber ≤ h.largestAcked →
        p ∈ (h.receivedClosePath f n).handler.retransmissionQueue := by
  have hn : Numbered h := hinc.imp fun hlt => Nat.ne_of_lt hlt
  have hsame := sameQueues_noteAckPacket n h
  have hacked : (h.noteAckPacket n).determineNewlyAckedPackets f.toAckBlocks =
      some (h.packetHistory.filter fun p => f.acksPacket p.packetNumber) :=
    determineNewlyAckedPackets_eq (h := h.noteAckPacket n) hf hinc
  have htakes := takes_foldl_sublist (fun _ _ => takes_onPacketAcked) (hsame.numbered hn)
    (newlyAcked_sublist hacked)
  rw [receivedClosePath, if_neg (by omega), if_neg (by omega)]
  simp only [show (h.noteAckPacket n).skippedPacketsAcked f.toAckBlocks = false from hskipped,
    Bool.false_eq_true, if_false, hacked, garbageCollectSkippedPackets]
  generalize hafter : (h.packetHistory.filter fun p => f.acksPacket p.packetNumber).foldl
    onPacketAcked (h.noteAckPacket n) = h₁ at htakes ⊢
  have hlargest : h₁.largestAcked = h.largestAcked := by
    rw [← hafter, foldl_acked_largestAcked]
    rfl
  have hleft : ∀ p, p ∈ h₁.packetHistory ↔
      p ∈ h.packetHistory ∧ f.acksPacket p.packetNumber = false := by
    intro p
    rw [htakes.mem_iff (hsame.numbered hn), hsame.history, mem_filter]
    refine and_congr_right fun hp => ?_
    simp only [hp, true_and, Bool.not_eq_true]
  obtain ⟨hhistory, hqueue⟩ := mem_setInflightAsLost
    (hinc.sublist ((htakes.sublist : h₁.packetHistory.Sublist h.packetHistory).map _))
  rw [hlargest] at hhistory hqueue
  refine ⟨fun p => ?_, fun p hp hnot hle => hqueue p ((hleft p).mpr ⟨hp, hnot⟩) hle⟩
  rw [hhistory, hleft]

end SentPacketHandler

/-! ### The session -/

/-- A path as far as closing it is concerned. The numbers in its history increase. -/
structure SendPath (σ : Type) where
  sentPacketHandler : SentPacketHandler σ
  lastRcvdPacketNumber : Nat
  increasing : (sentPacketHandler.packetHistory.map Packet.packetNumber).Pairwise (· < ·)

/-- `paths` and `closedPaths` of a session. -/
structure PathTable (σ : Type) where
  paths : UInt8 → Option (SendPath σ)
  closedPaths : UInt8 → Bool

inductive CloseError where
  /-- `Unknown path ID to close` -/
  | unknownPath
  | handler (e : HandlerError)
deriving DecidableEq, Repr

namespace SendPath

theorem numbered (pth : SendPath σ) : Numbered pth.sentPacketHandler :=
  pth.increasing.imp fun hlt => Nat.ne_of_lt hlt

/-- `SetInflightAsLost` on a path. -/
def setInflightAsLost (pth : SendPath σ) : SendPath σ where
  sentPacketHandler := pth.sentPacketHandler.setInflightAsLost
  lastRcvdPacketNumber := pth.lastRcvdPacketNumber
  increasing := by
    obtain ⟨lost, htakes, -⟩ := queues_setInflightAsLost pth.numbered
    exact pth.increasing.sublist (htakes.sublist.map _)

/-- `ReceivedClosePath` on a path. The packet number is the last one that the closed path
has received. -/
def receivedClosePath (f : ClosePathFrame) (pth : SendPath σ) : SendPath σ where
  sentPacketHandler := (pth.sentPacketHandler.receivedClosePath f pth.lastRcvdPacketNumber).handler
  lastRcvdPacketNumber := pth.lastRcvdPacketNumber
  increasing := by
    obtain ⟨lost, htakes, -⟩ := acknowledges_receivedClosePath pth.numbered f
      pth.lastRcvdPacketNumber
    exact pth.increasing.sublist (htakes.sublist.map _)

end SendPath

namespace PathTable

def setPath (id : UInt8) (pth : SendPath σ) (s : PathTable σ) : PathTable σ :=
  { s with paths := fun id' => if id' = id then some pth else s.paths id' }

/-- `closePath`, without the signal to the path's goroutine and the frame that is queued. -/
def closePath (pthID : UInt8) (sendClosePathFrame : Bool) (s : PathTable σ) :
    Except CloseError (PathTable σ) :=
  match s.paths pthID with
  | none => .error .unknownPath
  | some pth =>
    if s.closedPaths pthID then .ok s
    else
      let s := { s with closedPaths := fun id => id = pthID || s.closedPaths id }
      if sendClosePathFrame then .ok (s.setPath pthID pth.setInflightAsLost) else .ok s

/-- `handleClosePathFrame`: the table after the call, and the error. -/
def handleClosePathFrame (frame : ClosePathFrame) (s : PathTable σ) :
    PathTable σ × Option CloseError :=
  match s.closePath frame.pathID false with
  | .error e => (s, some e)
  | .ok s =>
    match s.paths frame.pathID with
    | none => (s, some .unknownPath)
    | some pth =>
      let error := (pth.sentPacketHandler.receivedClosePath frame
        pth.lastRcvdPacketNumber).error
      (s.setPath frame.pathID (pth.receivedClosePath frame), error.map .handler)

variable {s : PathTable σ} {pth : SendPath σ}

@[simp] theorem setPath_self (id : UInt8) (pth : SendPath σ) (s : PathTable σ) :
    (s.setPath id pth).paths id = some pth := if_pos rfl

/-- A CLOSE_PATH frame goes to the handler of its path, whether or not the path was closed
before. -/
theorem handleClosePathFrame_paths {f : ClosePathFrame} (hpath : s.paths f.pathID = some pth) :
    (s.handleClosePathFrame f).1.paths f.pathID = some (pth.receivedClosePath f) := by
  rw [handleClosePathFrame, closePath]
  cases hclosed : s.closedPaths f.pathID <;> simp [hpath]

end PathTable

/-- Nothing is in flight after the frame: each packet was acknowledged by it or is queued
for retransmission. -/
def ClosePathFrame.Drains (f : ClosePathFrame) (before after : SentPacketHandler σ) : Prop :=
  after.packetHistory = [] ∧ ∀ p ∈ before.packetHistory,
    f.acksPacket p.packetNumber = true ∨ p ∈ after.retransmissionQueue

/-- **When closing a path leaves nothing in flight.** For every frame that the parser
accepts, whose largest number was sent and which acknowledges no skipped packet: if and only
if nothing was in flight before, or the path has received a packet since its last
acknowledgement and every packet that the frame does not acknowledge is at most the largest
number that ACK frames have acknowledged. -/
theorem close_path_drains_iff {o : ByteOrder} {bs rest : List UInt8} {f : ClosePathFrame}
    (hparse : parseClosePathFrame o bs = .ok (f, rest)) (s : PathTable σ) (pth : SendPath σ)
    (hpath : s.paths f.pathID = some pth)
    (hsent : f.largestAcked ≤ pth.sentPacketHandler.lastSentPacketNumber)
    (hskipped : pth.sentPacketHandler.skippedPacketsAcked f.toAckBlocks = false) :
    (∃ pth', (s.handleClosePathFrame f).1.paths f.pathID = some pth' ∧
      f.Drains pth.sentPacketHandler pth'.sentPacketHandler) ↔
      pth.sentPacketHandler.packetHistory = [] ∨
        (pth.sentPacketHandler.largestReceivedPacketWithAck < pth.lastRcvdPacketNumber ∧
          ∀ p ∈ pth.sentPacketHandler.packetHistory, f.acksPacket p.packetNumber = true ∨
            p.packetNumber ≤ pth.sentPacketHandler.largestAcked) := by
  rw [PathTable.handleClosePathFrame_paths hpath]
  simp only [Option.some.injEq, exists_eq_left', SendPath.receivedClosePath]
  by_cases hnil : pth.sentPacketHandler.packetHistory = []
  · refine iff_of_true ⟨?_, by simp [hnil]⟩ (.inl hnil)
    obtain ⟨lost, htakes, -⟩ := acknowledges_receivedClosePath pth.numbered f
      pth.lastRcvdPacketNumber
    exact sublist_nil.mp (hnil ▸ htakes.sublist)
  rw [or_iff_right hnil]
  by_cases hnew : pth.sentPacketHandler.largestReceivedPacketWithAck < pth.lastRcvdPacketNumber
  · obtain ⟨hhistory, hqueue⟩ := mem_receivedClosePath (parseClosePathFrame_blocks hparse).ordered
      pth.increasing hsent hnew hskipped
    refine ⟨fun hdrains => ⟨hnew, fun p hp => ?_⟩, fun hcond => ⟨?_, fun p hp => ?_⟩⟩
    · by_contra hcon
      rw [not_or, Bool.not_eq_true, Nat.not_le] at hcon
      have hleft := (hhistory p).mpr ⟨⟨hp, hcon.1⟩, hcon.2⟩
      rw [hdrains.1] at hleft
      exact not_mem_nil hleft
    · refine eq_nil_iff_forall_not_mem.mpr fun p hp => ?_
      obtain ⟨⟨hp, hnot⟩, hgt⟩ := (hhistory p).mp hp
      rcases hcond.2 p hp with hacks | hle
      · rw [hnot] at hacks
        cases hacks
      · omega
    · cases hacks : f.acksPacket p.packetNumber with
      | true => exact .inl rfl
      | false =>
        refine .inr (hqueue p hp hacks ((hcond.2 p hp).resolve_left ?_))
        simp [hacks]
  · -- The frame is refused as a duplicate, and the history stays as it is.
    refine iff_of_false (fun hdrains => hnil ?_) fun hcond => hnew hcond.1
    have hhistory := hdrains.1
    rwa [receivedClosePath, if_neg (by omega), if_pos (by omega)] at hhistory

/-- A table whose path 1 has sent the packets 1 and 2 and received packet 1. No ACK frame has
arrived. -/
def silentPath : PathTable OutFrame where
  paths := fun id => if id = 1 then some
    { sentPacketHandler := { newSentPacketHandler with
        lastSentPacketNumber := 2
        packetHistory := [⟨1, [.ping], 40, .forwardSecure, 0⟩,
          ⟨2, [.ping], 40, .forwardSecure, 0⟩] }
      lastRcvdPacketNumber := 1
      increasing := by decide } else none
  closedPaths := fun _ => false

/-- A frame that acknowledges both packets. -/
theorem close_path_drains_both :
    ∃ pth', (silentPath.handleClosePathFrame ⟨⟨1, 2, 1, []⟩⟩).1.paths 1 = some pth' ∧
      pth'.sentPacketHandler.packetHistory = [] := by
  have hparse :
      parseClosePathFrame .littleEndian [0x11, 1, 0, 2, 2] = .ok (⟨⟨1, 2, 1, []⟩⟩, []) := rfl
  obtain ⟨pth', hpath, hdrains⟩ := (close_path_drains_iff hparse silentPath _ rfl (by decide)
    (by decide)).mpr (.inr ⟨by decide, by decide⟩)
  exact ⟨pth', hpath, hdrains.1⟩

/-- A frame that acknowledges only the first packet: the second one stays in flight. -/
theorem close_path_leaves_packet :
    parseClosePathFrame .littleEndian [0x11, 1, 0, 1, 1] = .ok (⟨⟨1, 1, 1, []⟩⟩, []) ∧
      ((silentPath.handleClosePathFrame ⟨⟨1, 1, 1, []⟩⟩).1.paths 1).map (fun pth =>
        (pth.sentPacketHandler.packetHistory.map Packet.packetNumber,
          pth.sentPacketHandler.retransmissionQueue.map Packet.packetNumber)) = some ([2], []) ∧
      (silentPath.handleClosePathFrame ⟨⟨1, 1, 1, []⟩⟩).2 = none := by
  exact ⟨rfl, by decide, by decide⟩

end RlncStreaming.Quic
