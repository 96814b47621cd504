import RlncStreaming.Quic.Recovery

/-!
Who holds the STREAM frames that are sent and not acknowledged.

Between two places a frame is in hand. The invariant `Sound` names the frames in hand; each
part of a step moves them on, and after a step the hand is empty (`step_settled`). A frame
leaves all places only by an acknowledgement (`Sound.acknowledge`), or where
`getRetransmission` throws a packet away: packets that are not forward-secure once the
handshake is complete, and a handshake packet for which no path is selected. A run without
such a step abandons no stream data (`stream_data_held`); data of a client's first flight is
lost otherwise (`early_data_abandoned`).
-/

namespace RlncStreaming.Quic

open Lib SentPacketHandler List PacketPacker

/-! ### Where frames are held -/

/-- A packet of the history or of the retransmission queue refers to the frame. -/
def SentPacketHandler.Refers (h : SentPacketHandler Nat) (ref : Nat) : Prop :=
  ∃ p ∈ h.packetHistory ++ h.retransmissionQueue, .stream ref ∈ p.frames

/-- The numbers in the history increase, up to the last one sent. -/
structure SentPacketHandler.Ascending (h : SentPacketHandler Nat) : Prop where
  increasing : (h.packetHistory.map Packet.packetNumber).Pairwise (· < ·)
  below : ∀ p ∈ h.packetHistory, p.packetNumber ≤ h.lastSentPacketNumber

theorem mem_streamRefs {frames : List (Frame Nat)} {ref : Nat} :
    ref ∈ streamRefs frames ↔ .stream ref ∈ frames := by
  rw [streamRefs, mem_filterMap]
  constructor
  · rintro ⟨f, hf, href⟩
    cases f <;> cases href
    exact hf
  · exact fun h => ⟨_, h, rfl⟩

namespace SentPacketHandler

variable {h h' : SentPacketHandler Nat} {ps : List (Packet Nat)}

theorem Ascending.numbered (ha : h.Ascending) : Numbered h :=
  ha.increasing.imp fun hlt => Nat.ne_of_lt hlt

theorem Ascending.takes (ha : h.Ascending) (ht : Takes h h' ps) : h'.Ascending where
  increasing := ha.increasing.sublist (ht.sublist.map _)
  below := fun p hp => ht.lastSent ▸ ha.below p (ht.sublist.subset hp)

theorem Queues.ascending (hq : Queues h h') (ha : h.Ascending) : h'.Ascending := by
  obtain ⟨lost, ht, -⟩ := hq
  exact ha.takes ht

theorem Queues.history (hq : Queues h h') : h'.packetHistory ⊆ h.packetHistory := by
  obtain ⟨lost, ht, -⟩ := hq
  exact ht.sublist.subset

/-- Where packets only move to the retransmission queue, the same frames are referred to. -/
theorem Queues.refers_iff (hq : Queues h h') (ref : Nat) : h'.Refers ref ↔ h.Refers ref := by
  obtain ⟨lost, ht, hqueue⟩ := hq
  have hmem : ∀ p, p ∈ h'.packetHistory ++ h'.retransmissionQueue ↔
      p ∈ h.packetHistory ++ h.retransmissionQueue := by
    intro p
    have hp := ht.history.mem_iff (a := p)
    simp only [mem_append] at hp ⊢
    rw [hqueue, hp, mem_append]
    tauto
  exact exists_congr fun p => and_congr_left fun _ => hmem p

/-- After an acknowledgement the frames of the acknowledged packets may be unheld. -/
theorem Acknowledges.refers {result : AckResult Nat} (hr : Acknowledges h result) (ref : Nat) :
    (h.Refers ref → result.handler.Refers ref ∨ ∃ p ∈ result.acked, .stream ref ∈ p.frames) ∧
      (result.handler.Refers ref → h.Refers ref) := by
  obtain ⟨lost, ht, hqueue⟩ := hr
  constructor
  · rintro ⟨p, hp, href⟩
    have hplace := ht.history.mem_iff (a := p)
    simp only [mem_append] at hp hplace
    rcases hp with hp | hp
    · rcases hplace.mp hp with (hp | hp) | hp
      · exact .inr ⟨p, hp, href⟩
      · exact .inl ⟨p, by rw [hqueue]; simp [hp], href⟩
      · exact .inl ⟨p, by simp [hp], href⟩
    · exact .inl ⟨p, by rw [hqueue]; simp [hp], href⟩
  · rintro ⟨p, hp, href⟩
    have hplace := ht.history.mem_iff (a := p)
    rw [hqueue] at hp
    simp only [mem_append] at hp hplace
    refine ⟨p, mem_append.mpr ?_, href⟩
    rcases hp with hp | hp | hp
    · exact .inl (hplace.mpr (.inr hp))
    · exact .inr hp
    · exact .inl (hplace.mpr (.inl (.inr hp)))

/-- `SentPacket` stores the STREAM frames of a packet. -/
theorem stored_refers {r : Readings} {p : Packet Nat} {ref : Nat} :
    (∃ q ∈ p.stored r, .stream ref ∈ q.frames) ↔ .stream ref ∈ p.frames := by
  have hstrip : .stream ref ∈ stripNonRetransmittableFrames p.frames ↔ .stream ref ∈ p.frames := by
    rw [stripNonRetransmittableFrames, mem_filter]
    exact and_iff_left rfl
  rw [Packet.stored]
  split
  · next hnil =>
    rw [← hstrip, isEmpty_iff.mp hnil]
    simp
  · simp [hstrip]

theorem sentPacket_refers {r : Readings} {p : Packet Nat} (hok : h.sentPacket r p = .ok h')
    (ref : Nat) : h'.Refers ref ↔ h.Refers ref ∨ .stream ref ∈ p.frames := by
  obtain ⟨-, -, -, hqueue, hhistory, -⟩ := sentPacket_ok hok
  rw [← stored_refers (r := r)]
  simp only [Refers, hqueue, hhistory, mem_append, or_and_right, exists_or]
  exact or_right_comm

theorem Ascending.sentPacket (ha : h.Ascending) {r : Readings} {p : Packet Nat}
    (hok : h.sentPacket r p = .ok h') : h'.Ascending := by
  obtain ⟨hnew, hlast, -, -, hhistory, -⟩ := sentPacket_ok hok
  have hstored : ∀ q ∈ p.stored r, q.packetNumber = p.packetNumber :=
    fun q hq => Tracker.stored_packetNumber hq
  constructor
  · rw [hhistory, map_append, pairwise_append]
    refine ⟨ha.increasing, Tracker.stored_pairwise r p _, ?_⟩
    intro m hm n hn
    obtain ⟨q, hq, rfl⟩ := mem_map.mp hm
    obtain ⟨q', hq', rfl⟩ := mem_map.mp hn
    rw [hstored q' hq']
    exact Nat.lt_of_le_of_lt (ha.below q hq) hnew
  · intro q hq
    rw [hhistory] at hq
    rw [hlast]
    rcases mem_append.mp hq with hq | hq
    · exact Nat.le_of_lt (Nat.lt_of_le_of_lt (ha.below q hq) hnew)
    · exact Nat.le_of_eq (hstored q hq)

end SentPacketHandler

namespace Sender

variable {φ : Type}

/-- The frame is held: by the framer, by a packet of a path, or by the handshake packet that
is about to be resent. -/
def Refers (s : Sender φ) (ref : Nat) : Prop :=
  ref ∈ s.packer.streamFramer.retransmissionQueue ∨
    (∃ id pth, s.paths id = some pth ∧ pth.sentPacketHandler.Refers ref) ∨
    ∃ p, s.handshakePacket = some p ∧ .stream ref ∈ p.frames

/-- A byte or a FIN is held by some frame. -/
def Held (s : Sender φ) (b : Atom) : Prop := ∃ ref, s.Refers ref ∧ (s.heap.cells ref).Carries b

/-- A byte or a FIN was in a packet that is acknowledged. -/
def Delivered (s : Sender φ) (b : Atom) : Prop :=
  ∃ record ∈ s.sent, record.acked = true ∧ record.Carries b

/-- Nothing that was sent and not acknowledged is abandoned. -/
def Recoverable (s : Sender φ) : Prop :=
  ∀ record ∈ s.sent, ∀ b, record.Carries b → s.Delivered b ∨ s.Held b

/-- The frame is in hand or held. -/
def InUse (hand : List Nat) (s : Sender φ) (ref : Nat) : Prop := ref ∈ hand ∨ s.Refers ref

/-- A packet is accounted for: what its frames carry was written to a packet of its number. -/
def Logged (s : Sender φ) (id : UInt8) (p : Packet Nat) : Prop :=
  ∃ record ∈ s.sent, record.pathID = id ∧ record.packetNumber = p.packetNumber ∧
    ∀ ref, .stream ref ∈ p.frames → ∀ b, (s.heap.cells ref).Carries b → record.Carries b

/-- The invariant, with frames in hand. -/
structure Sound (hand : List Nat) (s : Sender φ) : Prop where
  valid : ∀ ref, s.InUse hand ref → ref < s.heap.next
  control : s.packer.ControlOnly
  ascending : ∀ id pth, s.paths id = some pth → pth.sentPacketHandler.Ascending
  logged : ∀ id pth, s.paths id = some pth → ∀ p ∈ pth.sentPacketHandler.packetHistory,
    s.Logged id p
  covered : ∀ record ∈ s.sent, ∀ b, record.Carries b →
    s.Delivered b ∨ ∃ ref, s.InUse hand ref ∧ (s.heap.cells ref).Carries b

variable {s : Sender φ}

theorem Delivered.mono {s' : Sender φ} (hsent : s.sent ⊆ s'.sent) {b : Atom} :
    s.Delivered b → s'.Delivered b :=
  fun ⟨record, hrecord, hacked⟩ => ⟨record, hsent hrecord, hacked⟩

variable {id : UInt8}

theorem Logged.mono {s' : Sender φ} (hheap : s'.heap = s.heap) (hsent : s.sent ⊆ s'.sent)
    {p : Packet Nat} (h : s.Logged id p) : s'.Logged id p := by
  obtain ⟨record, hrecord, hid⟩ := h
  rw [Logged, hheap]
  exact ⟨record, hsent hrecord, hid⟩

theorem Sound.recoverable (hs : Sound [] s) : s.Recoverable := by
  intro record hrecord b hb
  refine (hs.covered record hrecord b hb).imp_right ?_
  rintro ⟨ref, huse, hc⟩
  rcases huse with hnil | href
  · exact absurd hnil not_mem_nil
  · exact ⟨ref, href, hc⟩

variable {hand : List Nat}

/-- Frames change hands: the heap and the record stay, and what is not in use any more is
delivered. -/
theorem Sound.transfer {hand' : List Nat} {s' : Sender φ} (hs : Sound hand s)
    (hheap : s'.heap = s.heap) (hsent : s'.sent = s.sent) (hcontrol : s'.packer.ControlOnly)
    (hback : ∀ ref, s'.InUse hand' ref → s.InUse hand ref)
    (hkeep : ∀ ref, s.InUse hand ref →
      s'.InUse hand' ref ∨ ∀ b, (s.heap.cells ref).Carries b → s.Delivered b)
    (hpaths : ∀ id pth', s'.paths id = some pth' → pth'.sentPacketHandler.Ascending ∧
      ∀ p ∈ pth'.sentPacketHandler.packetHistory, s.Logged id p) : Sound hand' s' := by
  have hsub : s.sent ⊆ s'.sent := fun _ h => hsent ▸ h
  refine ⟨fun ref href => ?_, hcontrol, fun id pth' hpth' => (hpaths id pth' hpth').1,
    fun id pth' hpth' p hp => ((hpaths id pth' hpth').2 p hp).mono hheap hsub, ?_⟩
  · rw [hheap]
    exact hs.valid ref (hback ref href)
  intro record hrecord b hb
  rw [hsent] at hrecord
  rw [hheap]
  rcases hs.covered record hrecord b hb with hdone | ⟨ref, href, hc⟩
  · exact .inl (hdone.mono hsub)
  rcases hkeep ref href with hheld | hdone
  · exact .inr ⟨ref, hheld, hc⟩
  · exact .inl ((hdone b hc).mono hsub)

theorem Sound.paths (hs : Sound hand s) (id : UInt8) (pth : SenderPath)
    (hpth : s.paths id = some pth) : pth.sentPacketHandler.Ascending ∧
      ∀ p ∈ pth.sentPacketHandler.packetHistory, s.Logged id p :=
  ⟨hs.ascending id pth hpth, hs.logged id pth hpth⟩

/-- Frames change hands, and the paths stay. -/
theorem Sound.exchange {hand' : List Nat} {s' : Sender φ} (hs : Sound hand s)
    (hheap : s'.heap = s.heap) (hsent : s'.sent = s.sent) (hcontrol : s'.packer.ControlOnly)
    (hpaths : s'.paths = s.paths) (huse : ∀ ref, s'.InUse hand' ref ↔ s.InUse hand ref) :
    Sound hand' s' :=
  hs.transfer hheap hsent hcontrol (fun ref => (huse ref).mp)
    (fun ref href => .inl ((huse ref).mpr href)) (hpaths ▸ hs.paths)

/-- The framer gives out frames, which are in hand then. -/
theorem Sound.pops (hs : Sound [] s) {p' : PacketPacker φ} {fs : List Nat}
    (hpops : s.packer.streamFramer.Pops fs p'.streamFramer) (hcontrol : p'.ControlOnly) :
    Sound fs (s.setPacker p') := by
  have hvalid : ∀ ref, s.Refers ref → ref < s.heap.next := fun ref href => hs.valid ref (.inr href)
  -- What was held is held still, or has come out.
  have hkept : ∀ ref, s.Refers ref → (s.setPacker p').InUse fs ref := by
    rintro ref (hqueue | hpath | hshake)
    · exact (hpops.popped ref hqueue).imp_right .inl
    · exact .inr (.inr (.inl hpath))
    · exact .inr (.inr (.inr hshake))
  refine ⟨?_, hcontrol, hs.ascending, ?_, ?_⟩
  · rintro ref (hout | hqueue | hpath | hshake)
    · exact hpops.moves.out_lt ref hout
    · exact Nat.lt_of_lt_of_le (hvalid ref (.inl (hpops.queue ref hqueue))) hpops.moves.next_le
    · exact Nat.lt_of_lt_of_le (hvalid ref (.inr (.inl hpath))) hpops.moves.next_le
    · exact Nat.lt_of_lt_of_le (hvalid ref (.inr (.inr hshake))) hpops.moves.next_le
  · intro id pth hpth p hp
    obtain ⟨record, hrecord, hid, hnumber, hcarries⟩ := hs.logged id pth hpth p hp
    refine ⟨record, hrecord, hid, hnumber, fun ref href b hb => hcarries ref href b ?_⟩
    refine hpops.moves.shrinks ref (hvalid ref (.inr (.inl ⟨id, pth, hpth, p, ?_, href⟩))) b hb
    exact mem_append_left _ hp
  · intro record hrecord b hb
    refine (hs.covered record hrecord b hb).imp_right ?_
    rintro ⟨ref, hnil | href, hc⟩
    · exact absurd hnil not_mem_nil
    rcases hpops.moves.kept ref (hvalid ref href) b hc with hstays | ⟨ref', hout, hmoved⟩
    · exact ⟨ref, hkept ref href, hstays⟩
    · exact ⟨ref', .inl hout, hmoved⟩

/-! #### One path -/

/-- The frame is held, but not by the path `id`. -/
def RefersElsewhere (s : Sender φ) (id : UInt8) (ref : Nat) : Prop :=
  ref ∈ s.packer.streamFramer.retransmissionQueue ∨
    (∃ id' pth, id' ≠ id ∧ s.paths id' = some pth ∧ pth.sentPacketHandler.Refers ref) ∨
    ∃ p, s.handshakePacket = some p ∧ .stream ref ∈ p.frames

variable {pth : SenderPath}

theorem refers_iff (hpth : s.paths id = some pth) (ref : Nat) :
    s.Refers ref ↔ s.RefersElsewhere id ref ∨ pth.sentPacketHandler.Refers ref := by
  constructor
  · rintro (hqueue | ⟨id', pth', hpth', href⟩ | hshake)
    · exact .inl (.inl hqueue)
    · by_cases hid : id' = id
      · subst hid
        rw [hpth] at hpth'
        cases hpth'
        exact .inr href
      · exact .inl (.inr (.inl ⟨id', pth', hid, hpth', href⟩))
    · exact .inl (.inr (.inr hshake))
  · rintro ((hqueue | ⟨id', pth', -, hpth', href⟩ | hshake) | href)
    · exact .inl hqueue
    · exact .inr (.inl ⟨id', pth', hpth', href⟩)
    · exact .inr (.inr hshake)
    · exact .inr (.inl ⟨id, pth, hpth, href⟩)

@[simp] theorem setPath_self (s : Sender φ) (id : UInt8) (pth : SenderPath) :
    (s.setPath id pth).paths id = some pth := if_pos rfl

theorem setPath_of_ne {id' : UInt8} (hne : id' ≠ id) :
    (s.setPath id pth).paths id' = s.paths id' := if_neg hne

theorem refersElsewhere_setPath (ref : Nat) :
    (s.setPath id pth).RefersElsewhere id ref ↔ s.RefersElsewhere id ref := by
  refine or_congr_right (or_congr_left (exists_congr fun id' => exists_congr fun pth' => ?_))
  exact and_congr_right fun hne => by rw [setPath_of_ne hne]

/-- A property of every path, after a path was changed. -/
theorem forall_setPath {P : UInt8 → SenderPath → Prop}
    (h : ∀ id pth, s.paths id = some pth → P id pth) {pth' : SenderPath} (hpth' : P id pth') :
    ∀ id' pth, (s.setPath id pth').paths id' = some pth → P id' pth := by
  intro id' pth hpth
  by_cases hid : id' = id
  · subst hid
    rw [setPath_self] at hpth
    cases hpth
    exact hpth'
  · rw [setPath_of_ne hid] at hpth
    exact h id' pth hpth

/-- A path is changed: the frames it refers to stay, are exchanged with the hand, or are
delivered. -/
theorem Sound.setPath {hand' : List Nat} (hs : Sound hand s)
    {pth' : SenderPath} (hpth : s.paths id = some pth)
    (hascending : pth'.sentPacketHandler.Ascending)
    (hhistory : pth'.sentPacketHandler.packetHistory ⊆ pth.sentPacketHandler.packetHistory)
    (hback : ∀ ref, ref ∈ hand' ∨ pth'.sentPacketHandler.Refers ref →
      ref ∈ hand ∨ pth.sentPacketHandler.Refers ref)
    (hkeep : ∀ ref, ref ∈ hand ∨ pth.sentPacketHandler.Refers ref →
      (ref ∈ hand' ∨ pth'.sentPacketHandler.Refers ref) ∨
        ∀ b, (s.heap.cells ref).Carries b → s.Delivered b) : Sound hand' (s.setPath id pth') := by
  have hnew : ∀ ref, (s.setPath id pth').InUse hand' ref ↔
      s.RefersElsewhere id ref ∨ (ref ∈ hand' ∨ pth'.sentPacketHandler.Refers ref) := fun ref => by
    rw [InUse, refers_iff (setPath_self s id pth'), refersElsewhere_setPath, or_left_comm]
  have hold : ∀ ref, s.InUse hand ref ↔
      s.RefersElsewhere id ref ∨ (ref ∈ hand ∨ pth.sentPacketHandler.Refers ref) := fun ref => by
    rw [InUse, refers_iff hpth, or_left_comm]
  refine hs.transfer rfl rfl hs.control (fun ref href => ?_) (fun ref href => ?_) ?_
  · rw [hnew] at href
    exact (hold ref).mpr (href.imp_right (hback ref))
  · rw [hnew]
    rcases (hold ref).mp href with helse | hhere
    · exact .inl (.inl helse)
    · exact (hkeep ref hhere).imp_left .inr
  · exact forall_setPath hs.paths ⟨hascending, fun p hp => hs.logged id pth hpth p (hhistory hp)⟩

/-- A change of a path that leaves its packets alone. -/
theorem Sound.setPath_same (hs : Sound hand s) {pth' : SenderPath} (hpth : s.paths id = some pth)
    (hhistory : pth'.sentPacketHandler.packetHistory = pth.sentPacketHandler.packetHistory)
    (hqueue : pth'.sentPacketHandler.retransmissionQueue =
      pth.sentPacketHandler.retransmissionQueue)
    (hlast : pth'.sentPacketHandler.lastSentPacketNumber =
      pth.sentPacketHandler.lastSentPacketNumber) : Sound hand (s.setPath id pth') := by
  obtain ⟨hincreasing, hbelow⟩ := hs.ascending id pth hpth
  have hrefers : ∀ ref, pth'.sentPacketHandler.Refers ref ↔ pth.sentPacketHandler.Refers ref :=
    fun ref => by rw [SentPacketHandler.Refers, hhistory, hqueue]; rfl
  refine hs.setPath hpth ⟨by rwa [hhistory], by rwa [hhistory, hlast]⟩
    (by rw [hhistory]; exact fun _ hp => hp) (fun ref href => ?_) fun ref href => ?_
  · rwa [← hrefers]
  rw [hrefers]
  exact .inl href

/-- The frames in hand go into a packet that `SentPacket` accepts. -/
theorem Sound.accept (hs : Sound hand s) (hpth : s.paths id = some pth) {r : Readings}
    {packet : PackedPacket} {handler : SentPacketHandler Nat}
    (hok : pth.sentPacketHandler.sentPacket r packet.toPacket = .ok handler)
    (hhand : ∀ ref, .stream ref ∈ packet.frames ↔ ref ∈ hand) :
    Sound [] ((s.setHandler id pth handler).addRecord
      ⟨id, packet.number, (streamRefs packet.frames).map s.heap.cells, false⟩) := by
  generalize hnew : (⟨id, packet.number, (streamRefs packet.frames).map s.heap.cells, false⟩ :
    SentRecord) = new
  have hcarries : ∀ b, new.Carries b ↔
      ∃ ref, .stream ref ∈ packet.frames ∧ (s.heap.cells ref).Carries b := by
    intro b
    rw [← hnew, SentRecord.Carries]
    simp only [mem_map, mem_streamRefs]
    constructor
    · rintro ⟨f, ⟨ref, href, rfl⟩, hb⟩
      exact ⟨ref, href, hb⟩
    · rintro ⟨ref, href, hb⟩
      exact ⟨_, ⟨ref, href, rfl⟩, hb⟩
  have huse : ∀ ref, (s.setHandler id pth handler).Refers ref ↔ s.InUse hand ref := by
    intro ref
    rw [setHandler, refers_iff (setPath_self s id _), refersElsewhere_setPath, InUse,
      refers_iff hpth, sentPacket_refers hok, ← hhand]
    exact or_assoc.symm.trans or_comm
  generalize hs' : (s.setHandler id pth handler).addRecord new = s'
  have hsent : s'.sent = s.sent ++ [new] := by rw [← hs']; rfl
  have hsub : s.sent ⊆ s'.sent := hsent ▸ subset_append_left _ _
  have hheap : s'.heap = s.heap := by rw [← hs']; rfl
  have hold : ∀ id' p, s.Logged id' p → s'.Logged id' p := fun _ _ hp => hp.mono hheap hsub
  have hstored : ∀ p ∈ handler.packetHistory, s'.Logged id p := by
    intro p hp
    rw [(sentPacket_ok hok).2.2.2.2.1] at hp
    rcases mem_append.mp hp with hp | hp
    · exact hold id p (hs.logged id pth hpth p hp)
    refine ⟨new, by simp [hsent], by rw [← hnew],
      by rw [← hnew, Tracker.stored_packetNumber hp]; rfl, fun ref href b hb => ?_⟩
    rw [hheap] at hb
    exact (hcarries b).mpr ⟨ref, stored_refers.mp ⟨p, hp, href⟩, hb⟩
  have hpaths : ∀ id' pth', (s.setHandler id pth handler).paths id' = some pth' →
      pth'.sentPacketHandler.Ascending ∧
        ∀ p ∈ pth'.sentPacketHandler.packetHistory, s'.Logged id' p := by
    refine forall_setPath (fun id' pth' h => ?_)
      ⟨(hs.ascending id pth hpth).sentPacket hok, hstored⟩
    exact ⟨hs.ascending id' pth' h, fun p hp => hold id' p (hs.logged id' pth' h p hp)⟩
  have hrefers : ∀ ref, s'.InUse [] ref ↔ s.InUse hand ref := by
    intro ref
    rw [← huse, ← hs']
    exact or_iff_right not_mem_nil
  subst hs'
  refine ⟨fun ref href => hs.valid ref ((hrefers ref).mp href), hs.control,
    fun id' pth' h => (hpaths id' pth' h).1, fun id' pth' h => (hpaths id' pth' h).2, ?_⟩
  intro record hrecord b hb
  rw [hsent] at hrecord
  simp only [hrefers, hheap]
  rcases mem_append.mp hrecord with hrecord | hrecord
  · exact (hs.covered record hrecord b hb).imp_left (.mono hsub)
  rw [mem_singleton.mp hrecord] at hb
  obtain ⟨ref, href, hc⟩ := (hcarries b).mp hb
  exact .inr ⟨ref, .inl ((hhand ref).mp href), hc⟩

theorem Sound.markAcked (hs : Sound hand s) (id : UInt8) (f : AckBlocks) :
    Sound hand (s.markAcked id f) := by
  refine ⟨hs.valid, hs.control, hs.ascending, ?_, ?_⟩
  · intro id' pth hpth p hp
    obtain ⟨record, hrecord, h⟩ := hs.logged id' pth hpth p hp
    exact ⟨record.mark id f, mem_map_of_mem hrecord, h⟩
  · intro marked hmarked b hb
    obtain ⟨record, hrecord, rfl⟩ := mem_map.mp hmarked
    refine (hs.covered record hrecord b hb).imp_left ?_
    rintro ⟨done, hdone, hacked, hc⟩
    exact ⟨done.mark id f, mem_map_of_mem hdone, by simp [SentRecord.mark, hacked], hc⟩

/-- An acknowledgement: a frame that is not held any more was acknowledged. -/
theorem Sound.acknowledge (hs : Sound [] s) (hpth : s.paths id = some pth) {f : AckBlocks}
    {result : AckResult Nat} (hr : Acknowledges pth.sentPacketHandler result)
    (hacked : ∀ p ∈ result.acked, result.error = none ∧ f.acksPacket p.packetNumber = true) :
    Sound [] (s.acknowledge id pth f result) := by
  have hr' := hr
  obtain ⟨lost, htakes, -⟩ := hr'
  have hmem : ∀ p ∈ result.acked, p ∈ pth.sentPacketHandler.packetHistory := fun p hp =>
    htakes.history.mem_iff.mpr (by simp [hp])
  rw [Sender.acknowledge]
  generalize hmarked : (if result.error = none then s.markAcked id f else s) = s₁
  have hs₁ : Sound [] s₁ := by
    rw [← hmarked]
    split
    · exact hs.markAcked id f
    · exact hs
  have hpth₁ : s₁.paths id = some pth := by
    rw [← hmarked]
    split <;> exact hpth
  refine hs₁.setPath hpth₁ ((hs.ascending id pth hpth).takes htakes) htakes.sublist.subset
    (fun ref href => href.imp_right (hr.refers ref).2) fun ref href => ?_
  rcases href with hnil | href
  · exact absurd hnil not_mem_nil
  refine ((hr.refers ref).1 href).imp .inr ?_
  rintro ⟨p, hp, hframe⟩ b hc
  obtain ⟨hnone, hnames⟩ := hacked p hp
  rw [if_pos hnone] at hmarked
  subst hmarked
  obtain ⟨record, hrecord, hid, hnumber, hcarries⟩ := hs.logged id pth hpth p (hmem p hp)
  refine ⟨record.mark id f, mem_map_of_mem hrecord, ?_, hcarries ref hframe b hc⟩
  simp [SentRecord.mark, hid, hnumber, hnames]

/-! #### The packer -/

/-- A change of the packer that leaves the frames to be retransmitted alone. -/
theorem Sound.setPacker (hs : Sound hand s) {p : PacketPacker φ}
    (hheap : p.streamFramer.heap = s.packer.streamFramer.heap)
    (hqueue : p.streamFramer.retransmissionQueue = s.packer.streamFramer.retransmissionQueue)
    (hcontrol : p.ControlOnly) : Sound hand (s.setPacker p) := by
  have huse : ∀ ref, (s.setPacker p).InUse hand ref ↔ s.InUse hand ref := by
    intro ref
    rw [InUse, Refers, Sender.setPacker, hqueue]
    rfl
  exact hs.exchange hheap rfl hcontrol rfl huse

/-- The STOP_WAITING and ACK frames do not matter. -/
theorem Sound.setFirst (hs : Sound hand s) (id : UInt8) (swf : Option StopWaitingFrame)
    (ack : Option AckFrame) :
    Sound hand (s.setPacker
      ((if swf.isSome then s.packer.setStopWaiting id swf else s.packer).setAckFrame id ack)) := by
  split <;> exact hs.setPacker rfl rfl hs.control

/-- The frames of a packet are in hand when it has been packed. -/
theorem Sound.packs (hs : Sound [] s) {packet : Option PackedPacket} {p' : PacketPacker φ}
    (hp : s.packer.Packs packet p') :
    ∃ hand, Sound hand (s.setPacker p') ∧ ∀ ref, .stream ref ∈ sentFrames packet ↔ ref ∈ hand := by
  obtain ⟨fs, hpops, hmem, hcontrol⟩ := hp
  exact ⟨fs, hs.pops hpops hcontrol, hmem⟩

theorem queueControlFrame_streamFramer (p : PacketPacker φ) (frame : Frame Nat) :
    (p.queueControlFrame frame id).streamFramer = p.streamFramer := by
  cases frame <;> rfl

theorem queueControlFrame_controlOnly {p : PacketPacker φ} (hp : p.ControlOnly) {frame : Frame Nat}
    (hframe : frame.stream? = none) : (p.queueControlFrame frame id).ControlOnly := by
  intro ref href
  cases frame with
  | stream f => cases hframe
  | ack f => exact hp ref href
  | stopWaiting f => exact hp ref href
  | _ =>
    rcases mem_append.mp href with href | href
    · exact hp ref href
    · cases mem_singleton.mp href

/-! #### Sending -/

/-- The session is closed, or sound with all frames put away. -/
def Settled (s : Sender φ) : Prop := s.closed = true ∨ Sound [] s

/-- The path refers to the frames. -/
def PathHolds (s : Sender φ) (id : UInt8) (frames : List (Frame Nat)) : Prop :=
  ∃ pth, s.paths id = some pth ∧ ∀ ref, .stream ref ∈ frames → pth.sentPacketHandler.Refers ref

theorem sendPackedPacket_settled (hs : Sound hand s) (r : Readings)
    {packet : PackedPacket} (hhand : ∀ ref, .stream ref ∈ packet.frames ↔ ref ∈ hand) :
    (s.sendPackedPacket id r packet).closed = true ∨
      Sound [] (s.sendPackedPacket id r packet) ∧
        (s.sendPackedPacket id r packet).PathHolds id packet.frames := by
  rw [sendPackedPacket]
  split
  · exact .inl rfl
  rename_i pth hpth
  split
  · exact .inl rfl
  rename_i handler hok
  refine .inr ⟨hs.accept hpth hok hhand, _, setPath_self s id _, fun ref href => ?_⟩
  exact (sentPacket_refers hok ref).mpr (.inr href)

/-- What becomes of a packed packet. -/
def Sends (s : Sender φ) (id : UInt8) (packed : Packed φ) : Prop :=
  s.closed = true ∨ Sound [] s ∧
    ∀ packet, packed.result = .ok (some packet) → s.PathHolds id packet.frames

theorem Sends.settled {packed : Packed φ} (h : s.Sends id packed) :
    s.Settled := h.imp_right And.left

theorem sendPacked_sends (r : Readings) (required : Bool) {packed : Packed φ}
    (h : ∀ packet, packed.result = .ok packet → ∃ hand, Sound hand (s.setPacker packed.packer) ∧
      ∀ ref, .stream ref ∈ sentFrames packet ↔ ref ∈ hand) :
    (s.sendPacked id r required packed).Sends id packed := by
  rw [sendPacked]
  split
  · exact .inl rfl
  rename_i pth hpth
  simp only
  split
  · exact .inl rfl
  · next hresult =>
    split
    · exact .inl rfl
    obtain ⟨hand, hsound, hhand⟩ := h none hresult
    obtain rfl : hand = [] := eq_nil_iff_forall_not_mem.mpr fun ref href =>
      absurd ((hhand ref).mpr href) not_mem_nil
    refine .inr ⟨hsound.setPath_same hpth rfl rfl rfl, fun packet hpacket => ?_⟩
    rw [hresult] at hpacket
    cases hpacket
  · next packet hresult =>
    obtain ⟨hand, hsound, hhand⟩ := h (some packet) hresult
    have hset :
        Sound hand ((s.setPacker packed.packer).setPath id (pth.afterPacking packed.path)) :=
      hsound.setPath_same hpth rfl rfl rfl
    refine (sendPackedPacket_settled hset r hhand).imp_right
      fun hsent => ⟨hsent.1, fun packet' hpacket' => ?_⟩
    rw [hresult] at hpacket'
    cases hpacket'
    exact hsent.2

theorem duplicatePacket_settled {packed : Packed φ} (h : s.Sends id packed) {packet : PackedPacket}
    (hresult : packed.result = .ok (some packet)) : (s.duplicatePacket id packet).Settled := by
  rcases h with hclosed | ⟨hs, hholds⟩
  · left
    rw [duplicatePacket]
    split <;> exact hclosed
  right
  obtain ⟨pth, hpth, hframes⟩ := hholds packet hresult
  have hascending := hs.ascending id pth hpth
  simp only [duplicatePacket, hpth]
  refine hs.setPath hpth ⟨hascending.increasing, hascending.below⟩ (fun _ hp => hp)
    (fun ref href => href.imp_right ?_) fun ref href => .inl (href.imp_right ?_)
  · rintro ⟨p, hp, href⟩
    simp only [SentPacketHandler.duplicatePacket, mem_append, mem_singleton] at hp
    rcases hp with hp | hp | rfl
    · exact ⟨p, mem_append_left _ hp, href⟩
    · exact ⟨p, mem_append_right _ hp, href⟩
    · exact hframes ref href
  · rintro ⟨p, hp, href⟩
    refine ⟨p, ?_, href⟩
    simp only [SentPacketHandler.duplicatePacket, mem_append] at hp ⊢
    exact hp.imp_right .inl

theorem queueFirstFrames_settled (hs : Sound [] s) (ack : Option AckFrame) :
    (s.queueFirstFrames id ack).Settled := by
  rw [queueFirstFrames]
  split
  · exact .inl rfl
  rename_i pth hpth
  right
  simp only
  have hset : ∀ force, Sound [] (s.setHandler id pth
      (pth.sentPacketHandler.getStopWaitingFrame force).2) :=
    fun force => hs.setPath_same hpth rfl rfl rfl
  split
  · refine (hset _).setPacker ?_ ?_ ?_
    · split <;> split <;> rfl
    · split <;> split <;> rfl
    · split <;> split <;> exact hs.control
  · refine hs.setPacker ?_ ?_ ?_
    · split <;> rfl
    · split <;> rfl
    · split <;> exact hs.control

/-! #### Retransmissions -/

/-- A packet that leaves the retransmission queue of a path is in hand. -/
theorem Sound.dequeue (hs : Sound [] s) (hpth : s.paths id = some pth) {packet : Packet Nat}
    {handler : SentPacketHandler Nat}
    (hdequeue : pth.sentPacketHandler.dequeuePacketForRetransmission = (some packet, handler)) :
    Sound (streamRefs packet.frames) (s.setHandler id pth handler) := by
  have hascending := hs.ascending id pth hpth
  rw [dequeuePacketForRetransmission] at hdequeue
  split at hdequeue
  · cases hdequeue
  rename_i p queue hqueue
  cases hdequeue
  have hrefers : ∀ ref, pth.sentPacketHandler.Refers ref ↔ ref ∈ streamRefs packet.frames ∨
      SentPacketHandler.Refers { pth.sentPacketHandler with retransmissionQueue := queue } ref := by
    intro ref
    simp only [SentPacketHandler.Refers, hqueue, mem_streamRefs, mem_append, mem_cons,
      or_and_right, exists_or, exists_eq_left]
    exact or_left_comm
  refine hs.setPath hpth ⟨hascending.increasing, hascending.below⟩ (fun _ hp => hp)
    (fun ref href => .inr ((hrefers ref).mpr href)) fun ref href => .inl ?_
  exact (hrefers ref).mp (href.resolve_left not_mem_nil)

theorem inUse_iff {ref : Nat} :
    s.InUse hand ref ↔ ref ∈ s.packer.streamFramer.retransmissionQueue ∨
      (∃ id pth, s.paths id = some pth ∧ pth.sentPacketHandler.Refers ref) ∨
      (ref ∈ hand ∨ ∃ p, s.handshakePacket = some p ∧ .stream ref ∈ p.frames) :=
  or_left_comm.trans (or_congr_right or_left_comm)

/-- The handshake packet is taken from its place, or put there. -/
theorem Sound.setHandshakePacket {hand' : List Nat} (hs : Sound hand s)
    {packet : Option (Packet Nat)}
    (huse : ∀ ref, (ref ∈ hand' ∨ ∃ p, packet = some p ∧ .stream ref ∈ p.frames) ↔
      (ref ∈ hand ∨ ∃ p, s.handshakePacket = some p ∧ .stream ref ∈ p.frames)) :
    Sound hand' (s.setHandshakePacket packet) := by
  have hsame : ∀ ref, (s.setHandshakePacket packet).InUse hand' ref ↔ s.InUse hand ref := by
    intro ref
    rw [inUse_iff, inUse_iff]
    exact or_congr_right (or_congr_right (huse ref))
  exact hs.exchange rfl rfl hs.control rfl hsame

/-- **When recovery works.** A lost packet with STREAM frames is forward-secure, or the
handshake is not complete yet; and a handshake packet with STREAM frames finds a path. -/
def RecoveryFit (s : Sender φ) : SenderAction φ → Prop
  | .getRetransmission id => ∀ pth packet, s.paths id = some pth →
      pth.sentPacketHandler.retransmissionQueue.head? = some packet →
      streamRefs packet.frames ≠ [] →
      packet.encryptionLevel = .forwardSecure ∨ s.handshakeComplete = false
  | .resendHandshake selected _ _ => ∀ packet, s.handshakePacket = some packet →
      streamRefs packet.frames ≠ [] → s.selectPath selected ≠ none
  | _ => True

theorem resendHandshake_settled (wf : WireFormat) (hs : Sound [] s) {selected : Option UInt8}
    {num : Option Nat} {r : Readings} (hfit : s.RecoveryFit (.resendHandshake selected num r)) :
    (s.resendHandshake wf selected num r).Settled := by
  rw [resendHandshake]
  split
  · exact .inr hs
  rename_i packet hshake
  have hhand : Sound (streamRefs packet.frames) (s.setHandshakePacket none) :=
    hs.setHandshakePacket fun ref => by simp [hshake, mem_streamRefs]
  simp only
  split
  · next hselect =>
    have hnone : streamRefs packet.frames = [] := by
      by_contra hne
      exact hfit packet hshake hne hselect
    rw [hnone] at hhand
    exact .inr hhand
  rename_i id _
  split
  · exact .inl rfl
  rename_i pth hpth
  have hset : Sound (streamRefs packet.frames) ((s.setHandshakePacket none).setHandler id pth
      (pth.sentPacketHandler.getStopWaitingFrame true).2) :=
    hhand.setPath_same hpth rfl rfl rfl
  refine (sendPacked_sends r true fun result hresult => ?_).settled
  obtain ⟨hframes, hframer, hcontrol⟩ := packHandshakeRetransmission_ok hresult
  refine ⟨streamRefs packet.frames, hset.setPacker ?_ ?_ ?_, fun ref => ?_⟩
  · rw [hframer]
    rfl
  · rw [hframer]
    rfl
  · intro ref href
    rw [hcontrol] at href
    exact hs.control ref href
  · rw [hframes, mem_streamRefs]

/-! #### Handlers and paths -/

section

variable (hs : Sound [] s)

include hs

/-- The handlers of the paths stay as they are. -/
theorem Sound.updateLeastUnacked : Sound [] s.updateLeastUnacked := by
  have hpath : ∀ id pth', s.updateLeastUnacked.paths id = some pth' →
      ∃ pth, s.paths id = some pth ∧ pth'.sentPacketHandler = pth.sentPacketHandler := by
    intro id pth' hpth'
    obtain ⟨pth, hpth, rfl⟩ := Option.map_eq_some_iff.mp hpth'
    exact ⟨pth, hpth, rfl⟩
  refine hs.transfer rfl rfl hs.control (fun ref href => ?_) (fun ref href => .inl ?_) ?_
  · refine href.imp_right fun href => href.imp_right fun href => href.imp_left ?_
    rintro ⟨id, pth', hpth', hrefers⟩
    obtain ⟨pth, hpth, hhandler⟩ := hpath id pth' hpth'
    exact ⟨id, pth, hpth, hhandler ▸ hrefers⟩
  · refine href.imp_right fun href => href.imp_right fun href => href.imp_left ?_
    rintro ⟨id, pth, hpth, hrefers⟩
    refine ⟨id, { pth with leastUnacked := pth.sentPacketHandler.getLeastUnacked }, ?_, hrefers⟩
    exact Option.map_eq_some_iff.mpr ⟨pth, hpth, rfl⟩
  · intro id pth' hpth'
    obtain ⟨pth, hpth, hhandler⟩ := hpath id pth' hpth'
    rw [hhandler]
    exact hs.paths id pth hpth

theorem onHandler_sound (id : UInt8) {change : SentPacketHandler Nat → SentPacketHandler Nat}
    (hchange : ∀ h, Numbered h → Queues h (change h)) : Sound [] (s.onHandler id change) := by
  rw [onHandler]
  split
  · exact hs
  rename_i pth hpth
  have hascending := hs.ascending id pth hpth
  have hqueues := hchange _ hascending.numbered
  refine hs.setPath hpth (hqueues.ascending hascending) hqueues.history (fun ref href => ?_)
    fun ref href => .inl ?_
  · exact href.imp_right (hqueues.refers_iff ref).mp
  · exact href.imp_right (hqueues.refers_iff ref).mpr

theorem handleAckFrame_settled (r : Readings) (frame : AckFrame) (withPacketNumber : Nat)
    : (s.handleAckFrame r frame withPacketNumber).Settled := by
  rw [handleAckFrame]
  split
  · exact .inl rfl
  rename_i pth hpth
  have hacked := hs.acknowledge hpth
    (acknowledges_receivedAck (hs.ascending _ pth hpth).numbered frame withPacketNumber)
    (receivedAck_acksPacket r frame withPacketNumber pth.sentPacketHandler)
  simp only
  split
  · exact .inr hacked
  · exact .inl rfl

theorem handleClosePathFrame_sound (frame : ClosePathFrame) (withPacketNumber : Nat)
    : Sound [] (s.handleClosePathFrame frame withPacketNumber) := by
  rw [handleClosePathFrame]
  split
  · exact hs
  rename_i pth hpth
  exact hs.acknowledge hpth
    (acknowledges_receivedClosePath (hs.ascending _ pth hpth).numbered frame withPacketNumber)
    (receivedClosePath_acksPacket frame withPacketNumber pth.sentPacketHandler)

/-- A new path has sent nothing. -/
theorem Sound.createPath (hnone : s.paths id = none) : Sound [] (s.setPath id newSenderPath) := by
  have hnew : ∀ ref, ¬ newSenderPath.sentPacketHandler.Refers ref := by
    rintro ref ⟨p, hp, -⟩
    exact absurd hp not_mem_nil
  have hother : ∀ id' pth, s.paths id' = some pth → id' ≠ id := by
    rintro id' pth hpth rfl
    rw [hnone] at hpth
    cases hpth
  refine hs.transfer rfl rfl hs.control (fun ref href => ?_) (fun ref href => .inl ?_) ?_
  · refine href.imp_right fun href => href.imp_right fun href => href.imp_left ?_
    rintro ⟨id', pth, hpth, hrefers⟩
    exact forall_setPath (P := fun id' pth => pth.sentPacketHandler.Refers ref →
        ∃ id' pth, s.paths id' = some pth ∧ pth.sentPacketHandler.Refers ref)
      (fun id' pth hpth hrefers => ⟨id', pth, hpth, hrefers⟩) (fun href => absurd href (hnew ref))
      id' pth hpth hrefers
  · refine href.imp_right fun href => href.imp_right fun href => href.imp_left ?_
    rintro ⟨id', pth, hpth, hrefers⟩
    exact ⟨id', pth, (setPath_of_ne (hother id' pth hpth)).trans hpth, hrefers⟩
  · exact forall_setPath hs.paths
      ⟨⟨.nil, fun p hp => absurd hp not_mem_nil⟩, fun p hp => absurd hp not_mem_nil⟩

end

theorem sound_newSender (connectionID : Nat) (cryptoSetup : CryptoSetup)
    (diversificationNonce : List UInt8) (truncateConnectionID : Bool) (streamsMap : StreamsMap)
    (flowControlManager : φ) (perspective : Perspective) (version : Int) :
    Sound [] (newSender connectionID cryptoSetup diversificationNonce truncateConnectionID
      streamsMap flowControlManager perspective version) := by
  generalize hnew : newSender connectionID cryptoSetup diversificationNonce truncateConnectionID
    streamsMap flowControlManager perspective version = s
  have hpaths : ∀ id pth, s.paths id = some pth → pth = newSenderPath := by
    intro id pth hpth
    rw [← hnew] at hpth
    exact (Option.some.inj (Option.ite_none_right_eq_some.mp hpth).2).symm
  have hempty : ∀ id pth, s.paths id = some pth → ∀ ref, ¬ pth.sentPacketHandler.Refers ref := by
    rintro id pth hpth ref ⟨p, hp, -⟩
    rw [hpaths id pth hpth] at hp
    exact not_mem_nil hp
  have hsent : s.sent = [] := by rw [← hnew]; rfl
  refine ⟨?_, fun ref href => ?_, fun id pth hpth => ?_, fun id pth hpth p hp => ?_, ?_⟩
  · rintro ref (hnil | hqueue | ⟨id, pth, hpth, href⟩ | ⟨p, hp, -⟩)
    · exact absurd hnil not_mem_nil
    · rw [← hnew] at hqueue
      exact absurd hqueue not_mem_nil
    · exact absurd href (hempty id pth hpth ref)
    rw [← hnew] at hp
    cases hp
  · rw [← hnew] at href
    exact not_mem_nil href
  · rw [hpaths id pth hpth]
    exact ⟨.nil, fun p hp => absurd hp not_mem_nil⟩
  · rw [hpaths id pth hpth] at hp
    exact absurd hp not_mem_nil
  · rw [hsent]
    exact fun record hrecord => absurd hrecord not_mem_nil

variable [FlowControlManager φ]

section

variable (wf : WireFormat)

theorem packPacket_sends {p : PacketPacker φ} (hs : Sound [] (s.setPacker p)) (id : UInt8)
    (r : Readings) (required : Bool) (pth : PackPath) (num : Option Nat) :
    (s.sendPacked id r required (p.packPacket wf pth num)).Sends id (p.packPacket wf pth num) :=
  sendPacked_sends r required fun _ hresult =>
    hs.packs (packPacket_packs hresult hs.control fun ref href => hs.valid ref (.inr (.inl href)))

theorem performPacketSending_settled (hs : Sound [] s) (num : Option Nat)
    (r : Readings) (duplicate : Bool) :
    (s.performPacketSending wf id num r duplicate).Settled := by
  rw [performPacketSending]
  split
  · exact .inl rfl
  rename_i pth hpth
  simp only
  generalize hpacker : (if pth.sentPacketHandler.shouldSendRetransmittablePacket = true then
    s.packer.queueControlFrame .ping id else s.packer) = packer
  have hpinged : Sound [] (s.setPacker packer) := by
    rw [← hpacker]
    split
    · exact hs.setPacker (by rw [queueControlFrame_streamFramer])
        (by rw [queueControlFrame_streamFramer]) (queueControlFrame_controlOnly hs.control rfl)
    · exact hs
  have hsends := packPacket_sends wf hpinged id r false (s.packPath id pth) num
  split
  · next packet hresult =>
    split
    · exact duplicatePacket_settled hsends hresult
    · exact hsends.settled
  · exact hsends.settled

theorem ackRemainingPath_settled (hs : Sound [] s) (ack : Option AckFrame)
    (num : Option Nat) (r : Readings) :
    (s.ackRemainingPath wf id ack num r).Settled := by
  rw [ackRemainingPath]
  split
  · exact .inl rfl
  rename_i pth hpth
  have hset : Sound [] (s.setHandler id pth
      (pth.sentPacketHandler.getStopWaitingFrame false).2) := hs.setPath_same hpth rfl rfl rfl
  have hfirst := hset.setFirst id (pth.sentPacketHandler.getStopWaitingFrame false).1 ack
  simp only
  split
  · refine (sendPacked_sends r true fun _ hresult => ?_).settled
    exact hfirst.packs (packAckPacket_packs hresult hfirst.control)
  · exact (packPacket_sends wf hfirst id r true _ num).settled

theorem sendPing_settled (hs : Sound [] s) (num : Option Nat) (r : Readings)
    : (s.sendPing wf id num r).Settled := by
  rw [sendPing]
  split
  · exact .inl rfl
  rename_i pth hpth
  have hpinged :
      Sound [] (s.setPacker { s.packer with controlFrames := .ping :: s.packer.controlFrames }) :=
    hs.setPacker rfl rfl fun ref href => by
      rcases mem_cons.mp href with href | href
      · cases href
      · exact hs.control ref href
  exact (packPacket_sends wf hpinged id r true _ num).settled

end

/-- The frames of a lost packet go to the framer. -/
theorem retransmitFrame_stream {ref : Nat} (id : UInt8) (hs : Sound (ref :: hand) s) :
    Sound hand (s.setPacker (retransmitFrame id s.packer (.stream ref))) := by
  have huse : ∀ ref', (s.setPacker (retransmitFrame id s.packer (.stream ref))).InUse hand ref' ↔
      s.InUse (ref :: hand) ref' := by
    intro ref'
    rw [inUse_iff, inUse_iff]
    simp only [Sender.setPacker, retransmitFrame, StreamFramer.addFrameForRetransmission,
      mem_append, mem_cons, not_mem_nil, or_false]
    generalize (∃ id pth, s.paths id = some pth ∧ pth.sentPacketHandler.Refers ref') = onPath
    generalize (∃ p, s.handshakePacket = some p ∧ .stream ref' ∈ p.frames) = inShake
    tauto
  exact hs.exchange rfl rfl hs.control rfl huse

theorem retransmitFrame_other {p : PacketPacker φ} {frame : Frame Nat}
    (hframe : frame.stream? = none) (hp : p.ControlOnly) :
    (retransmitFrame id p frame).streamFramer = p.streamFramer ∧
      (retransmitFrame id p frame).ControlOnly := by
  have hqueue : (p.queueControlFrame frame id).streamFramer = p.streamFramer ∧
      (p.queueControlFrame frame id).ControlOnly :=
    ⟨queueControlFrame_streamFramer p frame, queueControlFrame_controlOnly hp hframe⟩
  cases frame with
  | stream f => cases hframe
  | windowUpdate f =>
    rw [retransmitFrame]
    split
    · split
      · exact hqueue
      · exact ⟨rfl, hp⟩
    · exact ⟨rfl, hp⟩
  | paths f => exact ⟨rfl, hp⟩
  | _ => exact hqueue

theorem retransmitFrames_sound (frames : List (Frame Nat))
    (hs : Sound (streamRefs frames) s) :
    Sound [] (s.setPacker (frames.foldl (retransmitFrame id) s.packer)) := by
  induction frames generalizing s with
  | nil => exact hs
  | cons frame frames ih =>
    cases hframe : frame.stream? with
    | none =>
      obtain ⟨hframer, hcontrol⟩ := retransmitFrame_other hframe hs.control
      rw [streamRefs, filterMap_cons_none hframe] at hs
      exact ih (hs.setPacker (by rw [hframer]) (by rw [hframer]) hcontrol)
    | some ref =>
      obtain rfl : frame = .stream ref := by
        cases frame <;> cases hframe
        rfl
      exact ih (retransmitFrame_stream id hs)

theorem getRetransmission_sound (hs : Sound [] s) (hfit : s.RecoveryFit (.getRetransmission id)) :
    Sound [] (s.getRetransmission id) := by
  rw [getRetransmission]
  split
  · next pth hshake hpth =>
    split
    · exact hs
    rename_i packet handler hdequeue
    have hhand := hs.dequeue hpth hdequeue
    have hhead : pth.sentPacketHandler.retransmissionQueue.head? = some packet := by
      rw [dequeuePacketForRetransmission] at hdequeue
      split at hdequeue
      · cases hdequeue
      rename_i hqueue
      cases hdequeue
      rw [hqueue]
      rfl
    simp only
    split
    · next hlevel =>
      split
      · next hcomplete =>
        -- The packet is dropped: it must not hold any STREAM frame.
        have hnone : streamRefs packet.frames = [] := by
          by_contra hne
          rcases hfit pth packet hpth hhead hne with hsecure | hopen
          · exact hlevel hsecure
          · exact absurd (hcomplete.symm.trans hopen) (by decide)
        rwa [hnone] at hhand
      · refine hhand.setHandshakePacket fun ref => ?_
        have hempty : (s.setHandler id pth handler).handshakePacket = none := hshake
        simp [hempty, mem_streamRefs]
    · refine retransmitFrames_sound _ ?_
      have hsame : ∀ ref, ref ∈ streamRefs packet.getFramesForRetransmission ↔
          ref ∈ streamRefs packet.frames := fun ref => by
        rw [mem_streamRefs, mem_streamRefs, Packet.getFramesForRetransmission, mem_filter]
        exact and_iff_left rfl
      exact hhand.exchange rfl rfl hhand.control rfl fun ref => or_congr_left (hsame ref)
  · exact hs

/-! ### Runs -/

theorem step_settled (wf : WireFormat) (hs : s.Settled) {a : SenderAction φ}
    (hfit : s.RecoveryFit a) : (s.step wf a).Settled := by
  unfold step
  split
  · exact hs
  rename_i hopen
  have hs : Sound [] s := hs.resolve_left hopen
  cases a with
  | updateLeastUnacked => exact .inr hs.updateLeastUnacked
  | queueControlFrame frame id =>
    refine .inr (hs.setPacker (by rw [queueControlFrame_streamFramer])
      (by rw [queueControlFrame_streamFramer]) (queueControlFrame_controlOnly hs.control ?_))
    cases frame with
    | stream f => exact f.elim
    | _ => rfl
  | queueFirstFrames id ack => exact queueFirstFrames_settled hs ack
  | performPacketSending id num r duplicate =>
    exact performPacketSending_settled wf hs num r duplicate
  | ackRemainingPath id ack num r => exact ackRemainingPath_settled wf hs ack num r
  | sendPing id num r => exact sendPing_settled wf hs num r
  | getRetransmission id => exact .inr (getRetransmission_sound hs hfit)
  | resendHandshake selected num r => exact resendHandshake_settled wf hs hfit
  | handleAckFrame r frame withPacketNumber =>
    exact handleAckFrame_settled hs r frame withPacketNumber
  | handleClosePathFrame frame withPacketNumber =>
    exact .inr (handleClosePathFrame_sound hs frame withPacketNumber)
  | setInflightAsLost id =>
    exact .inr (onHandler_sound hs id fun _ hn => queues_setInflightAsLost hn)
  | onAlarm id r potentiallyFailed =>
    exact .inr (onHandler_sound hs id fun _ hn => queues_onAlarm potentiallyFailed hn)
  | updateStreams streamsMap flowControlManager => exact .inr (hs.setPacker rfl rfl hs.control)
  | updateKeys cryptoSetup => exact .inr (hs.setPacker rfl rfl hs.control)
  | completeHandshake =>
    exact .inr { hs with }
  | createPath id =>
    cases hpth : s.paths id with
    | none =>
      simp only [hpth, Option.isSome_none, Bool.false_eq_true, if_false]
      exact .inr (hs.createPath hpth)
    | some pth =>
      simp only [hpth, Option.isSome_some, if_true]
      exact .inr hs
  | close => exact .inl rfl

/-- **Loss recovery abandons no stream data**, as long as no packet with STREAM frames is
dropped: in every run all of whose steps are fit, each byte and each FIN of a packet that was
accepted was in an acknowledged packet, or is held by the framer, by a packet of a path, or by
the handshake packet that is about to be resent. A session that is closed has ended. -/
theorem stream_data_held (wf : WireFormat) (connectionID : Nat) (cryptoSetup : CryptoSetup)
    (diversificationNonce : List UInt8) (truncateConnectionID : Bool) (streamsMap : StreamsMap)
    (flowControlManager : φ) (perspective : Perspective) (version : Int)
    (acts : List (SenderAction φ))
    (hfit : AllFit (step wf) RecoveryFit (newSender connectionID cryptoSetup diversificationNonce
      truncateConnectionID streamsMap flowControlManager perspective version) acts) :
    let s := run (step wf) (newSender connectionID cryptoSetup diversificationNonce
      truncateConnectionID streamsMap flowControlManager perspective version) acts
    s.closed = true ∨ s.Recoverable := by
  have hrun := run_inv RecoveryFit (fun _ s => Settled s)
    (fun _ s a hs ha => step_settled wf hs ha) acts [] _ (.inr (sound_newSender connectionID
      cryptoSetup diversificationNonce truncateConnectionID streamsMap flowControlManager
      perspective version)) hfit
  exact hrun.imp_right Sound.recoverable

/-- A client with the bytes 1 and 2 to send on stream 5. -/
def clientWithData (cryptoSetup : CryptoSetup) : Sender Unit :=
  newSender 1 cryptoSetup [] false
    ⟨fun id => if id = 5 then some { newSendStream 5 with dataForWriting := some [1, 2] } else none,
      [5], 0⟩ () .client versionMP

/-- The clock after `t` milliseconds, with no estimate of the round trip. -/
def readingsAt (t : Nat) : Readings where
  now := 2 ^ 63 + 1 + t * millisecond
  latestRTT := 0
  smoothedRTT := 0
  congestionRTT := 0
  retransmissionDelay := 0
  now_gt := by
    have hpos : (0 : Int) ≤ t * millisecond := Int.mul_nonneg (Int.natCast_nonneg t) (by decide)
    omega

/-- Data is sent, the handshake completes, the alarm declares the packet lost, and the
scheduler asks for retransmissions. -/
def lossyRun : List (SenderAction Unit) :=
  [.performPacketSending 0 none (readingsAt 0) false, .completeHandshake,
    .onAlarm 0 (readingsAt 1000) false, .getRetransmission 0]

/-- With forward-secure keys the frame is back at the framer. -/
theorem stream_data_held_lossy :
    let s := run (step plainFormat) (clientWithData ⟨.client, none, some zeroAEAD⟩) lossyRun
    s.closed = false ∧ s.packer.streamFramer.retransmissionQueue = [0] ∧
      (s.closed = true ∨ s.Recoverable) := by
  refine ⟨by decide +kernel, by decide +kernel, stream_data_held plainFormat 1 _ [] false _
    () .client versionMP lossyRun (.cons trivial (.cons trivial (.cons trivial (.cons ?_ .nil))))⟩
  intro pth packet hpth hhead _
  obtain rfl := Option.some.inj hpth
  obtain rfl := Option.some.inj hhead
  exact .inl rfl

/-- A client that has sent data with the keys of the first flight loses it: once the handshake
is complete the lost packet is thrown away, and nothing refers to its frame any more. -/
theorem early_data_abandoned :
    let s := run (step plainFormat) (clientWithData ⟨.client, some zeroAEAD, none⟩) lossyRun
    s.closed = false ∧ s.sent = [⟨0, 1, [⟨⟨0, [1, 2], false⟩, 5, false⟩], false⟩] ∧
      (∀ ref, ¬ s.Refers ref) ∧ ¬ s.Recoverable := by
  intro s
  have hsent : s.sent = [⟨0, 1, [⟨⟨0, [1, 2], false⟩, 5, false⟩], false⟩] := by decide +kernel
  have hqueue : s.packer.streamFramer.retransmissionQueue = [] := by decide +kernel
  have hshake : s.handshakePacket = none := by decide +kernel
  have hinitial : (s.paths 0).map (fun pth =>
    pth.sentPacketHandler.packetHistory ++ pth.sentPacketHandler.retransmissionQueue) =
      some [] := by
    decide +kernel
  have hother : ∀ id, id ≠ 0 → s.paths id = none := by
    intro id hid
    -- Every change of the run is one of path 0.
    exact (if_neg hid).trans ((if_neg hid).trans ((if_neg hid).trans ((if_neg hid).trans
      (if_neg hid))))
  have hnone : ∀ ref, ¬ s.Refers ref := by
    rintro ref (href | ⟨id, pth, hpth, p, hp, -⟩ | ⟨p, hp, -⟩)
    · rw [hqueue] at href
      exact not_mem_nil href
    · by_cases hid : id = 0
      · rw [← hid, hpth] at hinitial
        have hp' : p ∈ ([] : List (Packet Nat)) := Option.some.inj hinitial ▸ hp
        exact not_mem_nil hp'
      · rw [hother id hid] at hpth
        cases hpth
    · rw [hshake] at hp
      cases hp
  refine ⟨by decide +kernel, hsent, hnone, fun hrecoverable => ?_⟩
  have hbyte := hrecoverable ⟨0, 1, [⟨⟨0, [1, 2], false⟩, 5, false⟩], false⟩ (by rw [hsent]; simp)
    (.byte 5 0 1) ⟨_, mem_singleton_self _, rfl, Nat.le_refl _, rfl⟩
  rcases hbyte with ⟨record, hrecord, hacked, -⟩ | ⟨ref, href, -⟩
  · rw [hsent, mem_singleton] at hrecord
    rw [hrecord] at hacked
    cases hacked
  · exact hnone ref href

end Sender

end RlncStreaming.Quic
