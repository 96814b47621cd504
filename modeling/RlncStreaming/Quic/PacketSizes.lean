import RlncStreaming.Quic.FramerSizes
import RlncStreaming.Quic.PublicHeader
import RlncStreaming.Quic.ReceivedPackets

/-!
The size of packets.

The packer adds up announced lengths: those of the header, of the STOP_WAITING and the ACK
frame, of control frames and of STREAM frames, of which the last one goes without its
length. Announced lengths are exact except for PATHS frames of 85 paths and more, and what
the framer gives out fits the room that it was given as long as no frame is queued twice.
Under these two conditions no packet is too large, in any state that the packer reaches
(`packets_fit`). Both are needed (`packets_too_large`).
-/

namespace RlncStreaming.Quic

open Lib List Frame ReceivedPacketHandler

/-! ### Sizes of frames -/

/-- The length that is announced for a frame, with the data of a STREAM frame. -/
def Frame.size (heap : Heap OutFrame) : Frame Nat → Nat
  | .stream r => (heap.cells r).size
  | f => (f.minLength fun _ => 0).toOption.getD 0

/-- A frame that can be written has a length. -/
theorem Frame.write_minLength {o : ByteOrder} {delay : AckFrame → Nat} {f : Frame OutFrame}
    {bs : List UInt8} (hwrite : f.write o delay = some (.ok bs)) :
    ∃ n, f.minLength OutFrame.minLength = .ok n := by
  cases f with
  | stopWaiting f =>
    obtain ⟨len, hlen, -⟩ := StopWaitingFrame.write_length (Option.some.inj hwrite)
    exact ⟨_, by rw [minLength, hlen]⟩
  | addAddress f =>
    obtain ⟨ip, haddr, -⟩ := AddAddressFrame.write_ok (Option.some.inj hwrite)
    rcases AddAddressFrame.addrBytes_cases haddr with ⟨hfour, -, -⟩ | ⟨hsix, -, -⟩
    · exact ⟨_, if_pos hfour⟩
    · exact ⟨_, by rw [minLength, hsix]; rfl⟩
  | _ => exact ⟨_, rfl⟩

/-- Frames are as long as announced, but for PATHS frames of too many paths. -/
theorem Frame.write_size {o : ByteOrder} {delay : AckFrame → Nat} {heap : Heap OutFrame}
    {f : Frame Nat} {bs : List UInt8} (hfit : f.PathsFit)
    (hwrite : (f.map heap.cells).write o delay = some (.ok bs)) : bs.length = f.size heap := by
  obtain ⟨n, hmin⟩ := write_minLength hwrite
  rcases write_length hwrite hmin with ⟨p, hp, hlen, hn⟩ | ⟨-, hlen⟩
  · cases f with
    | paths f =>
      cases hp
      have hfew : p.numPaths.toNat ≤ 84 := hfit
      cases hmin
      rw [hlen]
      exact (hn.trans (Nat.mod_eq_of_lt (by omega))).symm
    | _ => cases hp
  · rw [hlen]
    cases f with
    | stream r =>
      cases hmin
      rfl
    | _ =>
      exact congrArg (fun x => x.toOption.getD 0) hmin.symm

/-- The announced length of a frame other than a STREAM frame. -/
theorem Frame.size_of_minLength {header : Nat → Nat} {f : Frame Nat} {n : Nat}
    (hmin : f.minLength header = .ok n) (hf : ∀ r, f ≠ .stream r) (heap : Heap OutFrame) :
    f.size heap = n := by
  cases f with
  | stream r => exact absurd rfl (hf r)
  | _ => exact congrArg (fun x => x.toOption.getD 0) hmin

theorem sumLengths_size {header : Nat → Nat} {fs : List (Frame Nat)} {n : Nat}
    (hsum : sumLengths header fs = .ok n) (hfs : ∀ f ∈ fs, ∀ r, f ≠ .stream r)
    (heap : Heap OutFrame) : (fs.map (size heap)).sum = n := by
  induction fs generalizing n with
  | nil =>
    cases hsum
    rfl
  | cons f fs ih =>
    obtain ⟨hf, hfs⟩ := forall_mem_cons.mp hfs
    simp only [sumLengths, bind_eq_ok, pure_eq_ok] at hsum
    obtain ⟨l, hl, ls, hls, rfl⟩ := hsum
    rw [map_cons, sum_cons, size_of_minLength hl hf heap, ih hls hfs]

/-- The length that the loop over the control frames counts is that of the frames it takes. -/
theorem popControl_size (header : Nat → Nat) (maxFrameSize : Nat) {fs : List (Frame Nat)}
    (payloadLength : Nat) (hfs : ∀ f ∈ fs, ∀ r, f ≠ .stream r) (heap : Heap OutFrame) :
    let pop := popControl header maxFrameSize fs payloadLength
    pop.payloadLength = payloadLength + (pop.frames.map (size heap)).sum ∧
      (payloadLength ≤ maxFrameSize → pop.payloadLength ≤ maxFrameSize) := by
  induction fs generalizing payloadLength with
  | nil => exact ⟨rfl, id⟩
  | cons f fs ih =>
    obtain ⟨hf, hfs⟩ := forall_mem_cons.mp hfs
    rw [popControl]
    split
    · exact ⟨rfl, id⟩
    rename_i n hmin
    split
    · exact ⟨rfl, id⟩
    rename_i hroom
    obtain ⟨hcount, hle⟩ := ih (payloadLength + n) hfs
    refine ⟨?_, fun _ => hle (Nat.not_lt.mp hroom)⟩
    simp only [hcount, map_cons, sum_cons, size_of_minLength hmin hf heap]
    omega

/-! ### Composed packets -/

/-- The errors that say that a packet does not fit. -/
def PackError.TooLarge (e : PackError) : Prop := e = .payloadTooLarge ∨ e = .packetTooLarge

theorem Sealer.overhead_eq (s : Sealer) : s.overhead = 12 := by cases s <;> rfl

/-- Whatever is written is what `Write` writes; which errors there are is left open. -/
structure WireFormat.Writes (wf : WireFormat) (version : Int) (pers : Perspective) : Prop where
  header : ∀ ph bs, wf.header ph = .ok bs → ph.toWire.write version pers = .ok bs
  frame : ∀ f bs, wf.frame f = .ok bs →
    ∃ delay, f.write (getByteOrder version.toNat) delay = some (.ok bs)

namespace PacketPacker

variable {φ : Type}

/-- The STREAM frames fit, because the last one goes without its length. -/
theorem addStreamFrames_total [FlowControlManager φ] (p : PacketPacker φ) (maxLen : Nat)
    (hvalid : p.streamFramer.Valid) (hnodup : p.streamFramer.retransmissionQueue.Nodup) :
    ((p.addStreamFrames (maxLen + 2)).1.map
      (size (p.addStreamFrames (maxLen + 2)).2.streamFramer.heap)).sum ≤ maxLen := by
  obtain ⟨len, hle, hholds⟩ := p.streamFramer.popStreamFrames_holds hvalid hnodup (maxLen + 2)
  rw [addStreamFrames]
  generalize p.streamFramer.popStreamFrames (maxLen + 2) = popped at hholds
  obtain ⟨fs, framer⟩ := popped
  simp only at hholds
  have htotal : ∀ heap : Heap OutFrame,
      ((fs.map stream).map (size heap)).sum = heap.total OutFrame.size fs := by
    intro heap
    rw [map_map]
    rfl
  simp only [htotal]
  cases hlast : fs.getLast? with
  | none =>
    rw [getLast?_eq_none_iff.mp hlast]
    exact Nat.zero_le _
  | some r =>
    obtain ⟨init, rfl⟩ := getLast?_eq_some_iff.mp hlast
    have hlastSize := OutFrame.size_withoutLength (hholds.present r (by simp))
    generalize hnew : ({ framer.heap.cells r with dataLenPresent := false } : OutFrame) = last
      at hlastSize
    have hinit : (framer.heap.write r last).total OutFrame.size init ≤
        framer.heap.total OutFrame.size init := by
      refine Heap.total_mono fun r' _ => ?_
      by_cases heq : r' = r
      · rw [heq, Heap.write_self]
        omega
      · exact Nat.le_of_eq (congrArg OutFrame.size (Heap.write_of_ne heq))
    have htotal := hholds.total
    simp only [Heap.total_append, Heap.total_cons, Heap.total_nil, Heap.write_self, hnew]
      at htotal hlastSize ⊢
    omega

/-- If the STOP_WAITING and the ACK frame fit, so does what is composed. -/
theorem composeNextPacket_size [FlowControlManager φ] {p p' : PacketPacker φ} {maxFrameSize : Nat}
    {can : Bool} {id : UInt8} {result : Except PackError (List (Frame Nat))}
    (hcontrol : p.ControlOnly) (hvalid : p.streamFramer.Valid)
    (hnodup : p.streamFramer.retransmissionQueue.Nodup)
    (hfirst : ∀ n, sumLengths p.streamHeader (p.firstFrames id) = .ok n → n ≤ maxFrameSize)
    (h : p.composeNextPacket maxFrameSize can id = (result, p')) :
    (∀ e, result = .error e → ¬ e.TooLarge) ∧
      ∀ frames, result = .ok frames →
        (frames.map (size p'.streamFramer.heap)).sum ≤ maxFrameSize := by
  have hstream : ∀ f ∈ p.firstFrames id, ∀ r, f ≠ .stream r := by
    intro f hf r heq
    rw [heq, firstFrames] at hf
    simp at hf
  have hqueue : ∀ f ∈ p.controlFrames.reverse, ∀ r, f ≠ .stream r := by
    intro f hf r heq
    rw [heq, mem_reverse] at hf
    exact hcontrol r hf
  rw [composeNextPacket] at h
  simp only at h
  split at h
  · cases h
    exact ⟨fun e he => by cases he; simp [PackError.TooLarge], fun _ hok => by cases hok⟩
  next payloadLength hsum =>
  have hle := hfirst payloadLength hsum
  have hpop := popControl_size p.streamHeader maxFrameSize payloadLength hqueue
  generalize popControl p.streamHeader maxFrameSize p.controlFrames.reverse payloadLength = pop
    at h hpop
  split at h
  · cases h
    exact ⟨fun e he => by cases he; simp [PackError.TooLarge], fun _ hok => by cases hok⟩
  split at h
  · next htoo => exact absurd ((hpop p.streamFramer.heap).2 hle) (Nat.not_le.mpr htoo)
  next hroom =>
  split at h
  · cases h
    refine ⟨fun e he => (by cases he), fun frames hok => ?_⟩
    cases hok
    obtain ⟨room, hroom'⟩ : ∃ room, maxFrameSize + 2 - pop.payloadLength = room + 2 ∧
        pop.payloadLength + room = maxFrameSize := ⟨maxFrameSize - pop.payloadLength, by omega⟩
    rw [hroom'.1]
    have htotal := addStreamFrames_total { p with controlFrames := pop.rest.reverse } room
      hvalid hnodup
    generalize addStreamFrames { p with controlFrames := pop.rest.reverse } (room + 2) = added
      at htotal
    rw [map_append, map_append, sum_append, sum_append, sumLengths_size hsum hstream]
    have hcount := (hpop added.2.streamFramer.heap).1
    omega
  · cases h
    refine ⟨fun e he => (by cases he), fun frames hok => ?_⟩
    cases hok
    rw [map_append, sum_append, sumLengths_size hsum hstream]
    have hcount := (hpop p.streamFramer.heap).1
    change payloadLength + (pop.frames.map (size p.streamFramer.heap)).sum ≤ maxFrameSize
    omega

/-! ### Sealed packets -/

section

variable {p : PacketPacker φ} {wf : WireFormat} {ph : PublicHeader} {frames : List (Frame Nat)}

/-- A packet is refused for its size only if it has too many bytes. -/
theorem writeAndSealPacket_tooLarge {sealer : Sealer} {pth : PackPath} {num : Option Nat}
    {e : PackError} (herror : (p.writeAndSealPacket wf ph frames sealer pth num).1 = .error e)
    (htoo : e.TooLarge) :
    ∃ header payload, wf.header ph = .ok header ∧
      (frames.map (Frame.map p.streamFramer.heap.cells)).mapM wf.frame = .ok payload ∧
      maxPacketSize < header.length + payload.flatten.length + sealer.overhead := by
  rw [writeAndSealPacket] at herror
  split at herror
  · cases herror
    simp [PackError.TooLarge] at htoo
  · cases herror
    simp [PackError.TooLarge] at htoo
  rename_i header payload hheader hpayload
  split at herror
  · next hlarge => exact ⟨header, payload, hheader, hpayload, hlarge⟩
  simp only at herror
  split at herror
  · cases herror
    simp [PackError.TooLarge] at htoo
  · cases herror

section

variable {encLevel : EncryptionLevel} {sealer : Sealer} {pth : PackPath} {num : Option Nat}
  (hwf : wf.Writes p.version p.perspective) (hfit : ∀ f ∈ frames, f.PathsFit)
  (hsize : ∀ header, ph.toWire.write p.version p.perspective = .ok header →
    header.length + (frames.map (Frame.size p.streamFramer.heap)).sum + sealer.overhead ≤
      maxPacketSize) {e : PackError}

include hwf hfit hsize

theorem sealFrames_fits
    (herror : (p.sealFrames wf ph frames encLevel sealer pth num).result = .error e) :
    ¬ e.TooLarge := by
  have hwrite : ∀ payload, (frames.map (Frame.map p.streamFramer.heap.cells)).mapM wf.frame =
      .ok payload → payload.flatten.length = (frames.map (size p.streamFramer.heap)).sum := by
    intro payload hpayload
    rw [mapM_map] at hpayload
    refine length_flatten_of_mapM hpayload fun f hf bs hbs => ?_
    obtain ⟨delay, hdelay⟩ := hwf.frame _ bs hbs
    exact write_size (hfit f hf) hdelay
  intro htoo
  rw [sealFrames] at herror
  simp only at herror
  cases hraw : (p.writeAndSealPacket wf ph frames sealer pth num).1 with
  | ok raw =>
    rw [hraw] at herror
    cases herror
  | error e' =>
    rw [hraw] at herror
    cases herror
    obtain ⟨header, payload, hheader, hpayload, hlarge⟩ := writeAndSealPacket_tooLarge hraw htoo
    have hle := hsize header (hwf.header ph header hheader)
    rw [hwrite payload hpayload] at hlarge
    omega

theorem finishPacket_fits
    (herror : (p.finishPacket wf ph frames encLevel sealer pth num).result = .error e) :
    ¬ e.TooLarge := by
  rw [finishPacket] at herror
  split at herror
  · cases herror
  split at herror
  · cases herror
  exact sealFrames_fits (p := (p.setStopWaiting pth.pathID none).setAckFrame pth.pathID none) hwf
    hfit hsize herror

end

end

/-! ### Headers -/

theorem getLength_le {h : PublicHeader} {pers : Perspective} {n : Nat}
    (hlen : h.getLength pers = .ok n) : n ≤ 20 + h.diversificationNonce.length := by
  rw [PublicHeader.getLength] at hlen
  split at hlen
  · cases hlen
  cases hlen
  have hnumber : h.packetNumberLen.toNat ≤ 6 := by cases h.packetNumberLen <;> decide
  have hid : (if h.truncateConnectionID = true then 0 else 8) ≤ 8 := by split <;> decide
  have hversion : (if h.versionFlag = true then 4 else 0) ≤ 4 := by split <;> decide
  have hpath : (if h.multipathFlag = true then 1 else 0) ≤ 1 := by split <;> decide
  omega

/-- `GetSealer` never chooses the keys that go with a nonce. -/
theorem getSealer_nonce {p : PacketPacker φ} (hsetup : p.cryptoSetup.perspective = p.perspective)
    (pth : PackPath) :
    (p.getPublicHeader p.cryptoSetup.getSealer.1 pth).diversificationNonce = [] := by
  refine if_neg ?_
  rintro ⟨hserver, hlevel⟩
  rw [CryptoSetup.getSealer, hsetup, hserver] at hlevel
  split at hlevel <;> simp_all

/-! ### Packets -/

/-- What the packer keeps in every state that it reaches. -/
structure Sized (p : PacketPacker φ) : Prop where
  acks : ∀ id f, p.ackFrame id = some f → f.minLength ≤ 1279
  control : p.ControlOnly
  setup : p.cryptoSetup.perspective = p.perspective
  valid : p.streamFramer.Valid

/-- Announced lengths are right and no frame is queued twice for retransmission. -/
structure Countable (p : PacketPacker φ) : Prop where
  paths : ∀ f ∈ p.controlFrames, f.PathsFit
  retransmissions : p.streamFramer.retransmissionQueue.Nodup

/-- The STOP_WAITING and the ACK frame take up at most 1291 bytes. -/
theorem Sized.firstFrames {p : PacketPacker φ} (hp : p.Sized) {id : UInt8} {ph : PublicHeader}
    {n : Nat} (hsum : sumLengths (p.numberStopWaiting id ph).streamHeader
      ((p.numberStopWaiting id ph).firstFrames id) = .ok n) : n ≤ 1291 := by
  have hnumber : ph.packetNumberLen.toNat ≤ 6 := by cases ph.packetNumberLen <;> decide
  have hstop : (p.numberStopWaiting id ph).stopWaiting id = (p.stopWaiting id).map fun f =>
      { f with packetNumber := ph.packetNumber, packetNumberLen := some ph.packetNumberLen } :=
    if_pos rfl
  have hack : (p.numberStopWaiting id ph).ackFrame id = p.ackFrame id := rfl
  rw [PacketPacker.firstFrames, hstop, hack] at hsum
  have hpath : ∀ f : AckFrame, (if f.pathID ≠ 0 then 1 else 0) ≤ 1 := fun f => by
    split <;> decide
  cases ha : p.ackFrame id with
  | none =>
    rw [ha] at hsum
    cases hs : p.stopWaiting id with
    | none =>
      rw [hs] at hsum
      cases hsum
      decide
    | some s =>
      rw [hs] at hsum
      cases hsum
      omega
  | some f =>
    have hle := hp.acks id f ha
    have hone := hpath f
    rw [ha] at hsum
    cases hs : p.stopWaiting id with
    | none =>
      rw [hs] at hsum
      cases hsum
      omega
    | some s =>
      rw [hs] at hsum
      cases hsum
      omega

theorem getLength_error {h : PublicHeader} {pers : Perspective} {e : PackError}
    (herror : h.getLength pers = .error e) : ¬ e.TooLarge := by
  rw [PublicHeader.getLength] at herror
  split at herror
  · cases herror
    simp [PackError.TooLarge]
  · cases herror

theorem packCryptoPacket_fits {p : PacketPacker φ} {wf : WireFormat}
    (hwf : wf.Writes p.version p.perspective) {pth : PackPath} {num : Option Nat} {e : PackError}
    (herror : (p.packCryptoPacket wf pth num).result = .error e) : ¬ e.TooLarge := by
  rw [packCryptoPacket] at herror
  simp only at herror
  split at herror
  · next e' hlen =>
    cases herror
    exact getLength_error hlen
  next headerLength hlen =>
  have hoverhead : p.cryptoSetup.getSealerForCryptoStream.2.overhead = 12 := Sealer.overhead_eq _
  rw [hoverhead] at herror
  generalize hmax : sub64 (sub64 (sub64 maxPacketSize 12) nonForwardSecurePacketSizeReduction)
    headerLength = maxLen at herror
  refine sealFrames_fits (p := { p with
    streamFramer := (p.streamFramer.popCryptoStreamFrame maxLen).2 }) hwf ?_ ?_ herror
  · intro f hf
    obtain ⟨r, -, rfl⟩ := mem_map.mp hf
    trivial
  intro header hheader
  obtain ⟨hwritten, hnonce⟩ := PublicHeader.write_length
    (p.getPublicHeader_versionFlag p.cryptoSetup.getSealerForCryptoStream.1 pth) hheader
  cases hlen.symm.trans hwritten
  have hle := getLength_le hlen
  have hroom : maxLen = 1288 - header.length := by
    rw [← hmax]
    exact sub64_of_le (by change header.length ≤ 1288; omega)
  have hsize : (((p.streamFramer.popCryptoStreamFrame maxLen).1.toList.map stream).map
      (size (p.streamFramer.popCryptoStreamFrame maxLen).2.heap)).sum ≤ maxLen := by
    have hfits := p.streamFramer.popCryptoStreamFrame_size maxLen (by omega)
    cases hpop : (p.streamFramer.popCryptoStreamFrame maxLen).1 with
    | none => exact Nat.zero_le _
    | some r => simpa [size] using hfits r hpop
  change _ + _ + _ ≤ 1350
  simp only [hoverhead]
  omega

/-- What a call may do to the packer: ACK and control frames leave the queues, BLOCKED frames
are queued, and the framer refers to frames in use. -/
structure Reduces (p p' : PacketPacker φ) : Prop where
  setup : p'.cryptoSetup = p.cryptoSetup ∧ p'.perspective = p.perspective ∧ p'.version = p.version
  acks : ∀ id f, p'.ackFrame id = some f → p.ackFrame id = some f
  control : ∀ f ∈ p'.controlFrames, f ∈ p.controlFrames ∨ ∃ b, f = .blocked b
  framer : p.streamFramer.Valid → p'.streamFramer.Valid

namespace Reduces

variable {p p' p'' : PacketPacker φ}

theorem refl (p : PacketPacker φ) : Reduces p p :=
  ⟨⟨rfl, rfl, rfl⟩, fun _ _ h => h, fun _ h => .inl h, fun h => h⟩

theorem trans (h : Reduces p p') (h' : Reduces p' p'') : Reduces p p'' where
  setup := ⟨h'.setup.1.trans h.setup.1, h'.setup.2.1.trans h.setup.2.1,
    h'.setup.2.2.trans h.setup.2.2⟩
  acks := fun id f hf => h.acks id f (h'.acks id f hf)
  control := by
    intro f hf
    rcases h'.control f hf with hf | hblocked
    · exact h.control f hf
    · exact .inr hblocked
  framer := fun hvalid => h'.framer (h.framer hvalid)

theorem sized (h : Reduces p p') (hp : p.Sized) : p'.Sized where
  acks := fun id f hf => hp.acks id f (h.acks id f hf)
  control := by
    intro r hr
    rcases h.control _ hr with hr | ⟨b, hb⟩
    · exact hp.control r hr
    · cases hb
  setup := by rw [h.setup.1, h.setup.2.1, hp.setup]
  valid := h.framer hp.valid

end Reduces

section

variable (p : PacketPacker φ)

include p

theorem setStopWaiting_reduces (id : UInt8) (f : Option StopWaitingFrame) :
    Reduces p (p.setStopWaiting id f) :=
  ⟨⟨rfl, rfl, rfl⟩, fun _ _ h => h, fun _ h => .inl h, fun h => h⟩

theorem numberStopWaiting_reduces (id : UInt8) (ph : PublicHeader) :
    Reduces p (p.numberStopWaiting id ph) := p.setStopWaiting_reduces id _

theorem setAckFrame_reduces (id : UInt8) : Reduces p (p.setAckFrame id none) := by
  refine ⟨⟨rfl, rfl, rfl⟩, fun id' f hf => ?_, fun _ h => .inl h, fun h => h⟩
  simp only [setAckFrame] at hf
  split at hf
  · cases hf
  · exact hf

variable (wf : WireFormat)

theorem finishPacket_reduces (ph : PublicHeader) (frames : List (Frame Nat))
    (encLevel : EncryptionLevel) (sealer : Sealer) (pth : PackPath) (num : Option Nat) :
    Reduces p (p.finishPacket wf ph frames encLevel sealer pth num).packer := by
  rw [finishPacket]
  split
  · exact .refl p
  split
  · exact .refl p
  · exact (p.setStopWaiting_reduces pth.pathID none).trans (setAckFrame_reduces _ pth.pathID)

theorem packAckPacket_reduces (pth : PackPath) (num : Option Nat) :
    Reduces p (p.packAckPacket wf pth num).packer := by
  rw [packAckPacket]
  split
  · exact .refl p
  exact ((p.numberStopWaiting_reduces pth.pathID _).trans
    (setStopWaiting_reduces _ pth.pathID none)).trans (setAckFrame_reduces _ pth.pathID)

theorem packHandshakeRetransmission_reduces (packet : Packet Nat) (pth : PackPath)
    (num : Option Nat) : Reduces p (p.packHandshakeRetransmission wf packet pth num).packer := by
  rw [packHandshakeRetransmission]
  split
  · exact .refl p
  split
  · exact .refl p
  · exact .refl p
  exact (p.numberStopWaiting_reduces pth.pathID _).trans (setStopWaiting_reduces _ pth.pathID none)

theorem packCryptoPacket_reduces (pth : PackPath) (num : Option Nat) :
    Reduces p (p.packCryptoPacket wf pth num).packer := by
  rw [packCryptoPacket]
  simp only
  split
  · exact .refl p
  exact ⟨⟨rfl, rfl, rfl⟩, fun _ _ h => h, fun _ h => .inl h,
    fun hvalid => (p.streamFramer.popCryptoStreamFrame_pops _).valid hvalid⟩

end

variable [FlowControlManager φ]

theorem addStreamFrames_reduces (p : PacketPacker φ) (maxLen : Nat) :
    Reduces p (p.addStreamFrames maxLen).2 := by
  refine ⟨⟨rfl, rfl, rfl⟩, fun _ _ h => h, fun f hf => ?_, fun hvalid =>
    (p.addStreamFrames_pops hvalid maxLen).valid hvalid⟩
  rcases mem_append.mp hf with hf | hf
  · exact .inl hf
  obtain ⟨b, -, rfl⟩ := mem_map.mp hf
  exact .inr ⟨b, rfl⟩

theorem composeNextPacket_reduces {p p' : PacketPacker φ} {maxFrameSize : Nat} {can : Bool}
    {id : UInt8} {result : Except PackError (List (Frame Nat))}
    (h : p.composeNextPacket maxFrameSize can id = (result, p')) : Reduces p p' := by
  obtain rfl : (p.composeNextPacket maxFrameSize can id).2 = p' := congrArg Prod.snd h
  rw [composeNextPacket]
  simp only
  split
  · exact .refl p
  next payloadLength _ =>
  have hcontrol := popped_control
    (popControl_append p.streamHeader maxFrameSize p.controlFrames.reverse payloadLength)
  generalize popControl p.streamHeader maxFrameSize p.controlFrames.reverse payloadLength = pop
    at hcontrol
  have hpop : Reduces p { p with controlFrames := pop.rest.reverse } := by
    refine ⟨⟨rfl, rfl, rfl⟩, fun _ _ h => h, fun f hf => .inl ?_, fun h => h⟩
    rw [hcontrol]
    exact mem_append_left _ hf
  split
  · exact hpop
  split
  · exact hpop
  split
  · exact hpop.trans (addStreamFrames_reduces _ _)
  · exact hpop

theorem packPacket_reduces (p : PacketPacker φ) (wf : WireFormat) (pth : PackPath)
    (num : Option Nat) : Reduces p (p.packPacket wf pth num).packer := by
  rw [packPacket]
  split
  · exact p.packCryptoPacket_reduces wf pth num
  simp only
  split
  · exact .refl p
  have hnumber := p.numberStopWaiting_reduces pth.pathID
    (p.getPublicHeader p.cryptoSetup.getSealer.1 pth)
  split
  · refine hnumber.trans (Reduces.trans ?_ (finishPacket_reduces _ _ _ _ _ _ _ _))
    exact ⟨⟨rfl, rfl, rfl⟩, fun _ _ h => h, fun f hf => .inl (mem_of_mem_tail hf), fun h => h⟩
  split
  · next hcompose => exact hnumber.trans (composeNextPacket_reduces hcompose)
  rename_i hcompose
  exact (hnumber.trans (composeNextPacket_reduces hcompose)).trans
    (finishPacket_reduces _ _ _ _ _ _ _ _)

/-- **A packet fits** in a state with the invariant, if the lengths are right. -/
theorem packPacket_fits {p : PacketPacker φ} {wf : WireFormat} (hp : p.Sized) (hcount : p.Countable)
    (hwf : wf.Writes p.version p.perspective) {pth : PackPath} {num : Option Nat} {e : PackError}
    (herror : (p.packPacket wf pth num).result = .error e) : ¬ e.TooLarge := by
  rw [packPacket] at herror
  split at herror
  · exact packCryptoPacket_fits hwf herror
  simp only at herror
  split at herror
  · next e' hlen =>
    cases herror
    exact getLength_error hlen
  next headerLength hlen =>
  have hwritten : ∀ header, (p.getPublicHeader p.cryptoSetup.getSealer.1 pth).toWire.write p.version
      p.perspective = .ok header → header.length = headerLength := by
    intro header hheader
    cases hlen.symm.trans
      (PublicHeader.write_length (p.getPublicHeader_versionFlag _ pth) hheader).1
    rfl
  have hheader : headerLength ≤ 20 := by
    have hle := getLength_le hlen
    rwa [getSealer_nonce hp.setup pth] at hle
  have hoverhead : p.cryptoSetup.getSealer.2.overhead = 12 := Sealer.overhead_eq _
  have hroom : sub64 (sub64 maxPacketSize p.cryptoSetup.getSealer.2.overhead) headerLength =
      1338 - headerLength := by
    rw [hoverhead]
    exact sub64_of_le (by change headerLength ≤ 1338; omega)
  have hfirst : ∀ n, sumLengths
      (p.numberStopWaiting pth.pathID
        (p.getPublicHeader p.cryptoSetup.getSealer.1 pth)).streamHeader
      ((p.numberStopWaiting pth.pathID
        (p.getPublicHeader p.cryptoSetup.getSealer.1 pth)).firstFrames pth.pathID) = .ok n →
      n ≤ 1338 - headerLength := by
    intro n hsum
    have hle := hp.firstFrames hsum
    omega
  have hreduces := p.numberStopWaiting_reduces pth.pathID
    (p.getPublicHeader p.cryptoSetup.getSealer.1 pth)
  have hcount' : (p.numberStopWaiting pth.pathID
      (p.getPublicHeader p.cryptoSetup.getSealer.1 pth)).Countable := ⟨hcount.paths,
    hcount.retransmissions⟩
  rw [hroom] at herror
  generalize p.numberStopWaiting pth.pathID (p.getPublicHeader p.cryptoSetup.getSealer.1 pth) = q
    at herror hfirst hreduces hcount'
  have hq := hreduces.sized hp
  split at herror
  · -- A PING goes alone.
    refine finishPacket_fits (p := { q with controlFrames := q.controlFrames.tail }) ?_
      (by simp [Frame.PathsFit]) ?_ herror
    · simpa only [hreduces.setup.2.1, hreduces.setup.2.2] using hwf
    intro header hok
    simp only [hreduces.setup.2.1, hreduces.setup.2.2] at hok
    have hlength := hwritten header hok
    change header.length + 1 + _ ≤ 1350
    omega
  split at herror
  · next hcompose =>
    cases herror
    exact
      (composeNextPacket_size hq.control hq.valid hcount'.retransmissions hfirst hcompose).1 _ rfl
  rename_i frames q' hcompose
  have hsum := (composeNextPacket_size hq.control hq.valid hcount'.retransmissions hfirst
    hcompose).2 frames rfl
  obtain ⟨-, hpers, hversion⟩ := (hreduces.trans (composeNextPacket_reduces hcompose)).setup
  refine finishPacket_fits ?_ ?_ ?_ herror
  · simpa only [hpers, hversion] using hwf
  · intro f hf
    obtain ⟨popped, fs, rfl, hpopped, -⟩ := (composeNextPacket_ok hcompose).frames
    simp only [mem_append, firstFrames, mem_map] at hf
    rcases hf with ((⟨s, -, rfl⟩ | ⟨a, -, rfl⟩) | hf) | ⟨r, -, rfl⟩
    · trivial
    · trivial
    · exact hcount'.paths f (hpopped f hf)
    · trivial
  · intro header hok
    rw [hpers, hversion] at hok
    have hlength := hwritten header hok
    change _ + _ + _ ≤ 1350
    omega

end PacketPacker

/-! ### Generated ACK frames -/

theorem foldl_max_le {rs : List AckRange} {bound : Nat} (hrs : ∀ r ∈ rs, r.length ≤ bound) :
    ∀ m ≤ bound, rs.foldl (fun m r => max m r.length) m ≤ bound := by
  induction rs with
  | nil => exact fun m hm => hm
  | cons r rs ih =>
    intro m hm
    obtain ⟨hr, hrs⟩ := forall_mem_cons.mp hrs
    exact ih hrs _ (Nat.max_le.mpr ⟨hm, hr⟩)

/-- With packet numbers of four bytes, the blocks take up at most 1279 bytes. -/
theorem AckBlocks.minLength_le {f : AckBlocks} (hlargest : f.largestAcked < 2 ^ 32)
    (hlow : 1 ≤ f.lowestAcked ∧ f.lowestAcked ≤ f.largestAcked)
    (hranges : ∀ r ∈ f.ackRanges, 1 ≤ r.first ∧ r.first ≤ r.last ∧ r.last ≤ f.largestAcked) :
    f.minLength ≤ 1279 := by
  have hlen : (getPacketNumberLength f.largestAcked).toNat ≤ 4 := by
    rw [getPacketNumberLength, if_pos hlargest]
    split
    · decide
    · split <;> decide
  have hmax : f.maxRangeLength ≤ 0xFFFFFFFF := by
    rw [maxRangeLength]
    split
    · refine foldl_max_le (fun r hr => ?_) 0 (Nat.zero_le _)
      obtain ⟨hone, hle, hlast⟩ := hranges r hr
      rw [AckRange.length_eq hle hone (by omega)]
      omega
    · rw [sub64_of_le hlow.2, add64_of_lt (by omega)]
      omega
  have hdelta : f.getMissingSequenceNumberDeltaLen.toNat ≤ 4 := by
    rw [getMissingSequenceNumberDeltaLen, if_pos hmax]
    split
    · decide
    · split <;> decide
  have hblocks : f.numWritableNackRanges ≤ 255 := by
    rw [numWritableNackRanges]
    split
    · decide
    · exact countBlocks_lt (by decide) _ _
  rw [minLength]
  split
  · have hmul := Nat.mul_le_mul (Nat.add_le_add_left hdelta 1) hblocks
    omega
  · omega

/-- The history holds numbers of four bytes, up to the largest one observed. -/
structure ReceivedPacketHandler.Tracks (h : ReceivedPacketHandler) : Prop where
  canonical : Canonical h.packetHistory.ranges
  covered : ∀ n, Covers h.packetHistory.ranges n → n ≤ h.largestObserved
  small : h.largestObserved < 2 ^ 32

/-- A received packet number has four bytes. -/
def HandlerCall.Small : HandlerCall → Prop
  | receivedPacket _ packetNumber _ => packetNumber < 2 ^ 32
  | _ => True

theorem ReceivedPacketHandler.Tracks.step {h : ReceivedPacketHandler} (hh : h.Tracks)
    {call : HandlerCall} (hcall : call.Small) : (HandlerCall.step h call).Tracks := by
  cases call with
  | receivedPacket now packetNumber shouldInstigateAck =>
    rw [HandlerCall.step]
    by_cases hzero : packetNumber = 0
    · rw [receivedPacket, if_pos hzero]
      exact hh
    have hpn : packetNumber < 2 ^ 32 := hcall
    obtain ⟨hlargest, -, hhistory⟩ := h.receivedPacket_cases now shouldInstigateAck hzero
    have hsmall := hh.small
    generalize (h.receivedPacket now packetNumber shouldInstigateAck).2 = h' at hlargest hhistory
    have hle : h.largestObserved ≤ h'.largestObserved := hlargest ▸ Nat.le_max_left _ _
    have hlt : h'.largestObserved < 2 ^ 32 := hlargest ▸ Nat.max_lt.mpr ⟨hsmall, hpn⟩
    rcases hhistory with ⟨hsame, -⟩ | ⟨-, hok⟩
    · refine ⟨hsame ▸ hh.canonical, fun n hn => ?_, hlt⟩
      exact Nat.le_trans (hh.covered n (hsame ▸ hn)) hle
    obtain ⟨hcanonical, hcovers⟩ := ReceivedPacketHistory.receivedPacket_spec (by omega)
      (by omega) hh.canonical hok
    refine ⟨hcanonical, fun n hn => ?_, hlt⟩
    rcases (hcovers n).mp hn with rfl | hn
    · exact hlargest ▸ Nat.le_max_right _ _
    · exact Nat.le_trans (hh.covered n hn) hle
  | setLowerLimit p =>
    obtain ⟨hcanonical, hcovers⟩ := ReceivedPacketHistory.deleteUpTo_spec (p := p) hh.canonical
    exact ⟨hcanonical, fun n hn => hh.covered n ((hcovers n).mp hn).2, hh.small⟩
  | getAckFrame now =>
    rw [HandlerCall.step]
    cases hget : h.getAckFrame now with
    | none => exact hh
    | some result =>
      obtain ⟨f, h'⟩ := result
      rcases getAckFrame_cases hget with ⟨-, rfl⟩ | ⟨ack, -, -, hlargest, -, hhistory, -⟩
      · exact hh
      exact ⟨hhistory ▸ hh.canonical, fun n hn => hlargest ▸ hh.covered n (hhistory ▸ hn),
        hlargest ▸ hh.small⟩

/-- A frame that `GetAckFrame` has returned, with the ID of its path, after any calls that
received packet numbers of four bytes. -/
def AckFrame.Generated (f : AckFrame) : Prop :=
  ∃ version calls now ack h', (∀ call ∈ calls, HandlerCall.Small call) ∧
    (run HandlerCall.step (newReceivedPacketHandler version) calls).getAckFrame now =
      some (some ack, h') ∧ f.toAckBlocks = { ack.toAckBlocks with pathID := f.pathID }

theorem AckFrame.Generated.minLength_le {f : AckFrame} (hf : f.Generated) : f.minLength ≤ 1279 := by
  obtain ⟨version, calls, now, ack, h', hsmall, hget, hblocks⟩ := hf
  have hinit : (newReceivedPacketHandler version).Tracks := by
    constructor
    · constructor <;> simp [newReceivedPacketHandler, newReceivedPacketHistory]
    · simp [newReceivedPacketHandler, newReceivedPacketHistory]
    · simp [newReceivedPacketHandler]
  have htracks := run_inv (fun _ call => HandlerCall.Small call)
    (fun _ h => ReceivedPacketHandler.Tracks h) (fun _ _ _ h hcall => h.step hcall) calls [] _ hinit
    fun before a after hcalls => hsmall a (by simp [hcalls])
  generalize run HandlerCall.step (newReceivedPacketHandler version) calls = h at hget htracks
  rcases getAckFrame_cases hget with ⟨hnone, -⟩ | ⟨ack', hsome, hack, -⟩
  · cases hnone
  cases hsome
  rw [ackBlocks] at hack
  obtain ⟨lowest, hlowest, heq⟩ := Option.map_eq_some_iff.mp hack
  have hrange : ∀ r ∈ h.packetHistory.getAckRanges,
      1 ≤ r.first ∧ r.first ≤ r.last ∧ r.last ≤ h.largestObserved := by
    intro r hr
    have hmem := mem_getAckRanges.mp hr
    have hne := htracks.canonical.nonempty _ hmem
    exact ⟨(htracks.canonical.range _ hmem).1, hne,
      htracks.covered r.last ⟨_, hmem, hne, Nat.le_refl _⟩⟩
  rw [hblocks, ← heq]
  refine AckBlocks.minLength_le htracks.small ?_ ?_
  · obtain ⟨hone, hle, hlast⟩ := hrange lowest (mem_of_getLast? hlowest)
    exact ⟨hone, Nat.le_trans hle hlast⟩
  intro r hr
  simp only at hr
  split at hr
  · exact hrange r hr
  · exact absurd hr not_mem_nil

/-! ### Runs -/

/-- What the session does with the packer and its framer. -/
inductive PackerAction (φ : Type) where
  | queueControlFrame (frame : Frame Nat) (id : UInt8)
  | addFrameForRetransmission (frame : Nat)
  /-- Streams are opened, written to, closed and reset, and windows change. -/
  | updateStreams (streamsMap : StreamsMap) (flowControlManager : φ)
  /-- The handshake goes on. -/
  | updateSetup (cryptoSetup : CryptoSetup) (diversificationNonce : List UInt8)
    (truncateConnectionID : Bool)
  | packPacket (wf : WireFormat) (pth : PackPath) (num : Option Nat)
  | packAckPacket (wf : WireFormat) (pth : PackPath) (num : Option Nat)
  | packPing (wf : WireFormat) (leastUnacked : Nat) (pth : PackPath) (num : Option Nat)
  | packHandshakeRetransmission (wf : WireFormat) (packet : Packet Nat) (pth : PackPath)
    (num : Option Nat)

namespace PackerAction

variable {φ : Type}

def step [FlowControlManager φ] (p : PacketPacker φ) : PackerAction φ → PacketPacker φ
  | queueControlFrame frame id => p.queueControlFrame frame id
  | addFrameForRetransmission frame =>
    { p with streamFramer := p.streamFramer.addFrameForRetransmission frame }
  | updateStreams streamsMap flowControlManager =>
    { p with streamFramer := { p.streamFramer with streamsMap, flowControlManager } }
  | updateSetup cryptoSetup diversificationNonce truncateConnectionID =>
    { p with cryptoSetup, diversificationNonce, truncateConnectionID }
  | packPacket wf pth num => (p.packPacket wf pth num).packer
  | packAckPacket wf pth num => (p.packAckPacket wf pth num).packer
  | packPing wf leastUnacked pth num => (p.packPing wf leastUnacked pth num).packer
  | packHandshakeRetransmission wf packet pth num =>
    (p.packHandshakeRetransmission wf packet pth num).packer

/-- STREAM frames are no control frames, ACK frames come from `GetAckFrame`, and a frame that
is to be retransmitted exists. -/
def Fit (p : PacketPacker φ) : PackerAction φ → Prop
  | queueControlFrame (.stream _) _ => False
  | queueControlFrame (.ack f) _ => f.Generated
  | addFrameForRetransmission frame => frame < p.streamFramer.heap.next
  | updateSetup cryptoSetup _ _ => cryptoSetup.perspective = p.perspective
  | _ => True

end PackerAction

namespace PacketPacker

variable {φ : Type}

theorem Sized.init (connectionID : Nat) (cryptoSetup : CryptoSetup) (nonce : List UInt8)
    (truncate : Bool) (streamsMap : StreamsMap) (fc : φ) (version : Int) :
    (newPacketPacker connectionID cryptoSetup nonce truncate (newStreamFramer streamsMap fc)
      cryptoSetup.perspective version).Sized where
  acks := fun _ _ h => nomatch h
  control := fun _ h => nomatch h
  setup := rfl
  valid := fun _ h => nomatch h

/-- A frame other than a STREAM frame is queued behind the others. -/
theorem Sized.queue {p : PacketPacker φ} (hp : p.Sized) {frame : Frame Nat}
    (hframe : ∀ r, frame ≠ .stream r) :
    ({ p with controlFrames := p.controlFrames ++ [frame] } : PacketPacker φ).Sized where
  acks := hp.acks
  control := by
    intro r hr
    rcases mem_append.mp hr with hr | hr
    · exact hp.control r hr
    · exact hframe r (mem_singleton.mp hr).symm
  setup := hp.setup
  valid := hp.valid

theorem Sized.queueControlFrame {p : PacketPacker φ} (hp : p.Sized) {frame : Frame Nat} {id : UInt8}
    (hframe : ∀ r, frame ≠ .stream r) (hack : ∀ f, frame = .ack f → f.minLength ≤ 1279) :
    (p.queueControlFrame frame id).Sized := by
  cases frame with
  | stopWaiting f => exact (p.setStopWaiting_reduces id (some f)).sized hp
  | ack f =>
    refine ⟨fun id' f' hf' => ?_, hp.control, hp.setup, hp.valid⟩
    simp only [PacketPacker.queueControlFrame, setAckFrame] at hf'
    split at hf'
    · cases hf'
      exact hack f rfl
    · exact hp.acks id' f' hf'
  | _ => exact hp.queue hframe

variable [FlowControlManager φ]

/-- What one action keeps, besides the invariant: the version and the perspective. -/
theorem Sized.step {p : PacketPacker φ} (hp : p.Sized) {act : PackerAction φ} (hact : act.Fit p) :
    (act.step p).Sized ∧ (act.step p).perspective = p.perspective ∧
      (act.step p).version = p.version := by
  have hreduces : ∀ p', Reduces p p' →
      p'.Sized ∧ p'.perspective = p.perspective ∧ p'.version = p.version := fun p' h =>
    ⟨h.sized hp, h.setup.2⟩
  cases act with
  | queueControlFrame frame id =>
    have hqueue : (p.queueControlFrame frame id).Sized := by
      refine hp.queueControlFrame ?_ ?_
      · rintro r rfl
        exact hact
      · rintro f rfl
        exact hact.minLength_le
    refine ⟨hqueue, ?_⟩
    cases frame <;> exact ⟨rfl, rfl⟩
  | addFrameForRetransmission frame =>
    refine ⟨⟨hp.acks, hp.control, hp.setup, fun r hr => ?_⟩, rfl, rfl⟩
    rcases mem_append.mp hr with hr | hr
    · exact hp.valid r hr
    rw [mem_singleton.mp hr]
    exact hact
  | updateStreams streamsMap flowControlManager =>
    exact ⟨{ hp with }, rfl, rfl⟩
  | updateSetup cryptoSetup nonce truncate =>
    exact ⟨{ hp with setup := hact }, rfl, rfl⟩
  | packPacket wf pth num => exact hreduces _ (p.packPacket_reduces wf pth num)
  | packAckPacket wf pth num => exact hreduces _ (p.packAckPacket_reduces wf pth num)
  | packPing wf leastUnacked pth num =>
    have hping : ({ p with controlFrames := .ping :: p.controlFrames } : PacketPacker φ).Sized :=
      ⟨hp.acks, fun r hr => hp.control r ((mem_cons.mp hr).resolve_left (by simp)), hp.setup,
        hp.valid⟩
    have hpack := packPacket_reduces { p with controlFrames := .ping :: p.controlFrames } wf
      { pth with leastUnacked } num
    exact ⟨hpack.sized hping, hpack.setup.2⟩
  | packHandshakeRetransmission wf packet pth num =>
    exact hreduces _ (p.packHandshakeRetransmission_reduces wf packet pth num)

/-- **Packets fit.** Whatever the session has done with the packer, `PackPacket` does not
fail for the size of a packet, if no PATHS frame of more than 84 paths is queued and no STREAM
frame is queued twice for retransmission. -/
theorem packets_fit (connectionID : Nat) (cryptoSetup : CryptoSetup) (nonce : List UInt8)
    (truncate : Bool) (streamsMap : StreamsMap) (fc : φ) (version : Int)
    (acts : List (PackerAction φ))
    (hfit : AllFit PackerAction.step PackerAction.Fit (newPacketPacker connectionID cryptoSetup
      nonce truncate (newStreamFramer streamsMap fc) cryptoSetup.perspective version) acts)
    (wf : WireFormat) (hwf : wf.Writes version cryptoSetup.perspective) (pth : PackPath)
    (num : Option Nat) :
    let p := run PackerAction.step (newPacketPacker connectionID cryptoSetup nonce truncate
      (newStreamFramer streamsMap fc) cryptoSetup.perspective version) acts
    p.Countable → ∀ e, (p.packPacket wf pth num).result = .error e → ¬ e.TooLarge := by
  intro p hcount e herror
  have hinv := run_inv PackerAction.Fit (fun _ (p : PacketPacker φ) => p.Sized ∧
      p.perspective = cryptoSetup.perspective ∧ p.version = version)
    (fun _ p act hp hact => by
      obtain ⟨hsized, hpers, hversion⟩ := hp.1.step hact
      exact ⟨hsized, hpers.trans hp.2.1, hversion.trans hp.2.2⟩)
    acts [] _ ⟨.init connectionID cryptoSetup nonce truncate streamsMap fc version, rfl, rfl⟩ hfit
  obtain ⟨hsized, hpers, hversion⟩ := hinv
  refine packPacket_fits hsized hcount ?_ herror
  rw [hpers, hversion]
  exact hwf

/-! ### Packets that are too large -/

/-- A format that writes as `Write` does, with errors by their names. -/
def wireFormat (version : Int) (pers : Perspective) : WireFormat where
  header ph := (ph.toWire.write version pers).mapError reprStr
  frame f :=
    match f.write (getByteOrder version.toNat) fun _ => 0 with
    | some result => result.mapError reprStr
    | none => .error "panic"
  sealed _ _ header payload := header ++ payload

theorem wireFormat_writes (version : Int) (pers : Perspective) :
    (wireFormat version pers).Writes version pers := by
  constructor
  · intro ph bs h
    simp only [wireFormat] at h
    cases hwrite : ph.toWire.write version pers with
    | error e =>
      rw [hwrite] at h
      cases h
    | ok bs' =>
      rw [hwrite] at h
      cases h
      rfl
  · intro f bs h
    refine ⟨fun _ => 0, ?_⟩
    simp only [wireFormat] at h
    split at h
    · next result hwrite =>
      rw [hwrite]
      cases result with
      | error e => cases h
      | ok bs' =>
        cases h
        rfl
    · cases h

/-- A client after the handshake, with so many bytes to send on stream 5. -/
def sendingPacker (bytes : Nat) : PacketPacker Unit :=
  let stream := { newSendStream 5 with dataForWriting := some (List.replicate bytes 0) }
  newPacketPacker 7 ⟨.client, none, some zeroAEAD⟩ [] false
    (newStreamFramer ⟨fun id => if id = 5 then some stream else none, [5], 0⟩ ()) .client versionMP

def sendingPath : PackPath := ⟨0, newPacketNumberGenerator 500, 1, true⟩

/-- A PATHS frame of 84 paths and stream data fill a packet. -/
theorem packets_fit_paths :
    let p := run PackerAction.step (sendingPacker 1400)
      [.queueControlFrame (.paths ⟨255, 84, replicate 84 0, replicate 84 0⟩) 0]
    p.Countable ∧ ∀ e, (p.packPacket (wireFormat versionMP .client) sendingPath none).result =
      .error e → ¬ e.TooLarge := by
  intro p
  have hcount : p.Countable := by
    refine ⟨fun f hf => ?_, nodup_nil⟩
    rw [mem_singleton.mp hf]
    exact (by decide : (84 : UInt8) ≤ 84)
  exact ⟨hcount, packets_fit 7 _ [] false _ () versionMP
    [.queueControlFrame (.paths ⟨255, 84, replicate 84 0, replicate 84 0⟩) 0]
    (.cons trivial .nil) (wireFormat versionMP .client) (wireFormat_writes _ _) sendingPath none
    hcount⟩

/-- With a PATHS frame of 85 paths in the queue, or with a STREAM frame that is queued twice
for retransmission, a packet is too large. -/
theorem packets_too_large :
    let wf := wireFormat versionMP .client
    let paths : List (PackerAction Unit) :=
      [.queueControlFrame (.paths ⟨255, 85, replicate 85 0, replicate 85 0⟩) 0]
    let twice : List (PackerAction Unit) := [.packPacket wf sendingPath none,
      .addFrameForRetransmission 0, .addFrameForRetransmission 0]
    (AllFit PackerAction.step PackerAction.Fit (sendingPacker 1400) paths ∧
      ((run PackerAction.step (sendingPacker 1400) paths).packPacket wf sendingPath none).result =
        .error .packetTooLarge) ∧
    AllFit PackerAction.step PackerAction.Fit (sendingPacker 1319) twice ∧
      ((run PackerAction.step (sendingPacker 1319) twice).packPacket wf sendingPath none).result =
        .error .packetTooLarge := by
  intro wf paths twice
  have htwice : ∀ p : PacketPacker Unit,
      0 < (p.packPacket wf sendingPath none).packer.streamFramer.heap.next →
        AllFit PackerAction.step PackerAction.Fit p twice := fun p hnext =>
    .cons trivial (.cons hnext (.cons hnext .nil))
  exact ⟨⟨.cons trivial .nil, by decide +kernel⟩, htwice _ (by decide +kernel), by decide +kernel⟩

end PacketPacker

end RlncStreaming.Quic
