import Mathlib.Algebra.Group.Int.Defs
import RlncStreaming.Quic.Frames

/-!
Frames on the wire (`internal/wire`), and the length that `MinLength` announces for them.

For every type but one a frame is as long as announced, whatever is in it: for ACK and
CLOSE_PATH frames this is the agreement of the blocks that are counted and those that are
written (`writeBlocks_length`). The length of a PATHS frame is computed with 8-bit numbers
and is too small from 85 paths on (`min_length_exact_iff`).
-/

namespace RlncStreaming.Quic

open Option ByteOrder AddAddressFrame
open List (length_nil length_append length_cons)

/-! ### Writing -/

/-- The type byte of a STREAM frame. -/
def streamTypeByte (finBit dataLenPresent : Bool) (offsetLength streamIDLen : Nat) : UInt8 :=
  let fin : UInt8 := if finBit then 0x40 else 0
  let dataLen : UInt8 := if dataLenPresent then 0x20 else 0
  let offset : UInt8 := if 0 < offsetLength then (UInt8.ofNat offsetLength - 1) <<< 2 else 0
  0x80 ^^^ fin ^^^ dataLen ^^^ offset ^^^ (UInt8.ofNat streamIDLen - 1)

section

variable (o : ByteOrder)

/-- `StreamFrame.Write`. -/
def OutFrame.write (f : OutFrame) : Except WireError (List UInt8) :=
  if f.data.length = 0 ∧ f.finBit = false then .error .emptyFrameWithoutFin
  else
    .ok (streamTypeByte f.finBit f.dataLenPresent f.getOffsetLength f.calculateStreamIDLength ::
      (o.bytes f.calculateStreamIDLength f.streamID ++ (o.bytes f.getOffsetLength f.offset ++
        ((if f.dataLenPresent then o.bytes 2 f.data.length else []) ++ f.data))))

/-- `StopWaitingFrame.Write`. -/
def StopWaitingFrame.write (f : StopWaitingFrame) : Except WireError (List UInt8) :=
  if f.packetNumber = 0 then .error .packetNumberNotSet
  else if f.packetNumber < f.leastUnacked then .error .leastUnackedHigherThanPacketNumber
  else
    match f.packetNumberLen with
    | none => .error .packetNumberLenNotSet
    | some len => .ok (0x06 :: o.bytes len.toNat (f.packetNumber - f.leastUnacked))

/-- `RstStreamFrame.Write`. -/
def RstStreamFrame.write (f : RstStreamFrame) : List UInt8 :=
  0x01 :: (o.bytes 4 f.streamID ++ (o.bytes 8 f.byteOffset ++ o.bytes 4 f.errorCode))

/-- `WindowUpdateFrame.Write`. -/
def WindowUpdateFrame.write (f : WindowUpdateFrame) : List UInt8 :=
  0x04 :: (o.bytes 4 f.streamID ++ o.bytes 8 f.byteOffset)

/-- `BlockedFrame.Write`. -/
def BlockedFrame.write (f : BlockedFrame) : List UInt8 :=
  0x05 :: o.bytes 4 f.streamID

/-- `GoawayFrame.Write`. -/
def GoawayFrame.write (f : GoawayFrame) : List UInt8 :=
  0x03 :: (o.bytes 4 f.errorCode ++ (o.bytes 4 f.lastGoodStream ++
    (o.bytes 2 f.reasonPhrase.length ++ f.reasonPhrase)))

/-- `ConnectionCloseFrame.Write`. -/
def ConnectionCloseFrame.write (f : ConnectionCloseFrame) : Except WireError (List UInt8) :=
  if 2 ^ 16 - 1 < f.reasonPhrase.length then .error .reasonPhraseTooLong
  else
    .ok (0x02 :: (o.bytes 4 f.errorCode ++ (o.bytes 2 f.reasonPhrase.length ++ f.reasonPhrase)))

end

/-- The twelve bytes in front of an IPv4 address that is written as an IPv6 address. -/
def v4InV6Prefix : List UInt8 := [0, 0, 0, 0, 0, 0, 0, 0, 0, 0, 0xff, 0xff]

/-- `net.IP.To4`. -/
def to4 (ip : List UInt8) : Option (List UInt8) :=
  if ip.length = 4 then some ip
  else if ip.length = 16 ∧ ip.take 12 = v4InV6Prefix then some (ip.drop 12)
  else none

/-- `net.IP.To16`. -/
def to16 (ip : List UInt8) : Option (List UInt8) :=
  if ip.length = 4 then some (v4InV6Prefix ++ ip)
  else if ip.length = 16 then some ip
  else none

/-- The bytes of the address, by the IP version. -/
def AddAddressFrame.addrBytes (f : AddAddressFrame) : Except WireError (List UInt8) :=
  if f.ipVersion = 4 then
    match to4 f.ip with
    | none => .error .inconsistentAddrIPVersion
    | some ip => .ok (ip.take 4)
  else if f.ipVersion = 6 then
    match to16 f.ip with
    | none => .error .inconsistentAddrIPVersion
    | some ip => .ok (ip.take 16)
  else .error .unknownIPVersion

/-- `AddAddressFrame.Write`. -/
def AddAddressFrame.write (o : ByteOrder) (f : AddAddressFrame) :
    Except WireError (List UInt8) := do
  let ip ← f.addrBytes
  return 0x10 :: f.ipVersion :: (ip ++ o.bytes 2 (f.port % 2 ^ 16).toNat)

/-- A duration in microseconds, as a `uint64`. -/
def microseconds (d : Int) : Nat := (d.tdiv 1000 % 2 ^ 64).toNat

/-- The loop over the paths. -/
def writePaths (o : ByteOrder) : List UInt8 → List Int → List UInt8
  | id :: ids, rtt :: rtts =>
    id :: (o.bytes 2 (ufloat16 (microseconds rtt)) ++ writePaths o ids rtts)
  | _, _ => []

/-- `PathsFrame.Write`. -/
def PathsFrame.write (o : ByteOrder) (f : PathsFrame) : Except WireError (List UInt8) :=
  if f.numPaths.toNat ≠ f.pathIDs.length then .error .pathsNumber
  else if f.pathIDs.length ≠ f.remoteRTTs.length then .error .missingRTT
  else .ok (0x12 :: f.maxNumPaths :: f.numPaths :: writePaths o f.pathIDs f.remoteRTTs)

/-- `Write`; `delay` is the time since the largest packet of an ACK frame was received, in
microseconds, and `none` is a panic. -/
def Frame.write (o : ByteOrder) (delay : AckFrame → Nat) :
    Frame OutFrame → Option (Except WireError (List UInt8))
  | .stream f => some (f.write o)
  | .ack f => f.write o (delay f)
  | .stopWaiting f => some (f.write o)
  | .rstStream f => some (.ok (f.write o))
  | .windowUpdate f => some (.ok (f.write o))
  | .blocked f => some (.ok (f.write o))
  | .ping => some (.ok [0x07])
  | .goaway f => some (.ok (f.write o))
  | .connectionClose f => some (f.write o)
  | .addAddress f => some (f.write o)
  | .closePath f => f.write o
  | .paths f => some (f.write o)

/-! ### Lengths of blocks -/

variable {masked : Bool} {o : ByteOrder} {width : PacketNumberLen} {bs : List UInt8}

theorem writeNumber_length {n : Nat} (h : writeNumber masked o width n = some bs) :
    bs.length = width.toNat := by
  rw [writeNumber] at h
  split at h
  · cases h
  cases h
  exact o.bytes_length _ _

theorem mapM_flatten_length {α β : Type} {g : α → Option (List β)} {k : Nat} {xs : List α}
    {ys : List (List β)} (hg : ∀ x y, g x = some y → y.length = k) (h : xs.mapM g = some ys) :
    ys.flatten.length = xs.length * k := by
  induction xs generalizing ys with
  | nil =>
    obtain rfl : [] = ys := some.inj h
    rw [List.flatten_nil, length_nil, length_nil, Nat.zero_mul]
  | cons x xs ih =>
    simp only [List.mapM_cons, bind_eq_bind, bind_eq_some_iff, pure_def, some.injEq] at h
    obtain ⟨y, hy, ys, hys, rfl⟩ := h
    rw [List.flatten_cons, length_append, ih hys, hg x y hy, length_cons, Nat.succ_mul]
    omega

theorem writeRange_length {gap length : Nat} (h : writeRange masked o width gap length = some bs) :
    bs.length = numBlocks gap * (1 + width.toNat) := by
  simp only [writeRange, bind_eq_bind, pure_def] at h
  split at h
  · next hone =>
    obtain ⟨number, hnumber, hbs⟩ := bind_eq_some_iff.mp h
    cases hbs
    rw [length_cons, writeNumber_length hnumber, hone]
    omega
  obtain ⟨chain, hchain, hbs⟩ := bind_eq_some_iff.mp h
  cases hbs
  rw [mapM_flatten_length ?_ hchain, List.length_range]
  intro i block hblock
  split at hblock
  all_goals
    obtain ⟨number, hnumber, hbs⟩ := bind_eq_some_iff.mp hblock
    cases hbs
    rw [length_cons, writeNumber_length hnumber, Nat.add_comm]

theorem writeRanges_length {numRanges written written' : Nat} {above : AckRange}
    {rs : List AckRange}
    (h : writeRanges masked o width numRanges above rs written = some (bs, written')) :
    written ≤ written' ∧ bs.length = (written' - written) * (1 + width.toNat) := by
  induction rs generalizing above written bs with
  | nil =>
    cases h
    simp
  | cons r rs ih =>
    simp only [writeRanges, bind_eq_bind, pure_def] at h
    obtain ⟨block, hblock, h⟩ := bind_eq_some_iff.mp h
    have hlen := writeRange_length hblock
    split at h
    · cases h
      exact ⟨Nat.le_add_right _ _, by rw [hlen, Nat.add_sub_cancel_left]⟩
    obtain ⟨⟨rest, stop⟩, hrest, h⟩ := bind_eq_some_iff.mp h
    cases h
    obtain ⟨hle, hrestlen⟩ := ih hrest
    refine ⟨by omega, ?_⟩
    rw [length_append, hlen, hrestlen, ← Nat.add_mul]
    congr 1
    omega

namespace AckBlocks

variable {f : AckBlocks}

theorem writeNumRanges_length (h : f.writeNumRanges = some bs) :
    bs.length = if f.hasMissingRanges then 1 else 0 := by
  rw [writeNumRanges] at h
  split at h
  · next hmissing =>
    split at h
    · cases h
    cases h
    rw [if_pos hmissing]
    rfl
  · next hmissing =>
    cases h
    rw [if_neg hmissing]
    rfl

/-- The blocks that are written are the blocks that were counted. -/
theorem writeBlocks_length (h : f.writeBlocks masked o = some (.ok bs)) :
    bs.length + (if f.hasMissingRanges then 1 else 0) +
      (getPacketNumberLength f.largestAcked).toNat = f.minLength := by
  rw [minLength]
  simp only [writeBlocks, bind_eq_bind, pure_def] at h
  split at h
  · next hnil =>
    obtain ⟨number, hnumber, hbs⟩ := bind_eq_some_iff.mp h
    cases hbs
    have hmissing : f.hasMissingRanges = false := by rw [hasMissingRanges, hnil]; rfl
    simp only [hmissing, Bool.false_eq_true, if_false, writeNumber_length hnumber]
    omega
  rename_i r rs hcons
  have hmissing : f.hasMissingRanges = true := by rw [hasMissingRanges, hcons]; rfl
  split at h
  · cases h
  split at h
  · cases h
  obtain ⟨first, hfirst, h⟩ := bind_eq_some_iff.mp h
  obtain ⟨⟨rest, written⟩, hrest, h⟩ := bind_eq_some_iff.mp h
  simp only at h
  split at h
  · cases h
  rename_i hwritten
  cases h
  obtain ⟨hle, hlen⟩ := writeRanges_length hrest
  simp only [hmissing, if_true]
  rw [length_append, writeNumber_length hfirst, hlen, not_not.mp hwritten]
  obtain ⟨k, rfl⟩ := Nat.exists_eq_add_of_le hle
  rw [Nat.add_sub_cancel_left, Nat.mul_comm _ (1 + k), Nat.add_mul 1 k, Nat.one_mul]
  omega

end AckBlocks

/-! ### Lengths of frames -/

theorem AckFrame.write_length {f : AckFrame} {delay : Nat} (h : f.write o delay = some (.ok bs)) :
    bs.length = 1 + 2 + 1 + f.toAckBlocks.minLength + if f.pathID ≠ 0 then 1 else 0 := by
  simp only [AckFrame.write, bind_eq_bind, pure_def] at h
  obtain ⟨numRanges, hnum, h⟩ := bind_eq_some_iff.mp h
  obtain ⟨result, hblocks, h⟩ := bind_eq_some_iff.mp h
  cases result with
  | error e => cases h
  | ok blocks =>
    cases h
    have hlen := AckBlocks.writeBlocks_length hblocks
    have hnumLen := AckBlocks.writeNumRanges_length hnum
    simp only [length_cons, length_append, bytes_length, hnumLen, ← hlen, bne_iff_ne, length_nil]
    split <;> simp only [length_cons, length_nil] <;> omega

theorem ClosePathFrame.write_length {f : ClosePathFrame} (h : f.write o = some (.ok bs)) :
    bs.length = 1 + 1 + 1 + f.toAckBlocks.minLength := by
  simp only [ClosePathFrame.write, bind_eq_bind, pure_def] at h
  obtain ⟨numRanges, hnum, h⟩ := bind_eq_some_iff.mp h
  obtain ⟨largest, hlargest, h⟩ := bind_eq_some_iff.mp h
  obtain ⟨result, hblocks, h⟩ := bind_eq_some_iff.mp h
  cases result with
  | error e => cases h
  | ok blocks =>
    cases h
    have hlen := AckBlocks.writeBlocks_length hblocks
    have hnumLen := AckBlocks.writeNumRanges_length hnum
    simp only [length_cons, length_append, hnumLen, writeNumber_length hlargest, ← hlen]
    omega

theorem OutFrame.write_length {f : OutFrame} (h : f.write o = .ok bs) :
    bs.length = f.minLength + f.data.length := by
  rw [OutFrame.write] at h
  split at h
  · cases h
  cases h
  rw [OutFrame.minLength]
  cases f.dataLenPresent <;>
    simp only [length_cons, length_append, bytes_length, length_nil,
      Bool.false_eq_true, if_true, if_false] <;>
    omega

theorem StopWaitingFrame.write_length {f : StopWaitingFrame} (h : f.write o = .ok bs) :
    ∃ len, f.packetNumberLen = some len ∧ bs.length = 1 + len.toNat := by
  rw [StopWaitingFrame.write] at h
  split at h
  · cases h
  split at h
  · cases h
  split at h
  · cases h
  rename_i len hlen
  cases h
  exact ⟨len, hlen, by rw [length_cons, bytes_length, Nat.add_comm]⟩

theorem ConnectionCloseFrame.write_length {f : ConnectionCloseFrame} (h : f.write o = .ok bs) :
    bs.length = 1 + 4 + 2 + f.reasonPhrase.length := by
  rw [ConnectionCloseFrame.write] at h
  split at h
  · cases h
  cases h
  simp only [length_cons, length_append, bytes_length]
  omega

theorem to4_length {ip ip' : List UInt8} (h : to4 ip = some ip') : ip'.length = 4 := by
  rw [to4] at h
  split at h
  · next hlen =>
    cases h
    exact hlen
  · split at h
    · next hlen =>
      cases h
      rw [List.length_drop, hlen.1]
    · cases h

theorem to16_length {ip ip' : List UInt8} (h : to16 ip = some ip') : ip'.length = 16 := by
  rw [to16] at h
  split at h
  · next hlen =>
    cases h
    rw [length_append, hlen]
    rfl
  · split at h
    · next hlen =>
      cases h
      exact hlen
    · cases h

theorem AddAddressFrame.addrBytes_cases {f : AddAddressFrame} {ip : List UInt8}
    (h : f.addrBytes = .ok ip) :
    f.ipVersion = 4 ∧ to4 f.ip = some ip ∧ ip.length = 4 ∨
      f.ipVersion = 6 ∧ to16 f.ip = some ip ∧ ip.length = 16 := by
  rw [addrBytes] at h
  split at h
  · next hfour =>
    split at h
    · cases h
    rename_i ip' hto
    cases h
    have hlen := to4_length hto
    rw [List.take_of_length_le (Nat.le_of_eq hlen)]
    exact .inl ⟨hfour, hto, hlen⟩
  · split at h
    · next hsix =>
      split at h
      · cases h
      rename_i ip' hto
      cases h
      have hlen := to16_length hto
      rw [List.take_of_length_le (Nat.le_of_eq hlen)]
      exact .inr ⟨hsix, hto, hlen⟩
    · cases h

theorem AddAddressFrame.write_ok {f : AddAddressFrame} (h : f.write o = .ok bs) :
    ∃ ip, f.addrBytes = .ok ip ∧
      bs = 0x10 :: f.ipVersion :: (ip ++ o.bytes 2 (f.port % 2 ^ 16).toNat) := by
  rw [write] at h
  cases haddr : f.addrBytes with
  | error e =>
    rw [haddr] at h
    cases h
  | ok ip =>
    rw [haddr] at h
    cases h
    exact ⟨ip, rfl, rfl⟩

theorem writePaths_length {ids : List UInt8} {rtts : List Int} (h : ids.length = rtts.length) :
    (writePaths o ids rtts).length = 3 * ids.length := by
  induction ids generalizing rtts with
  | nil => rfl
  | cons id ids ih =>
    cases rtts with
    | nil => cases h
    | cons rtt rtts =>
      rw [writePaths, length_cons, length_append, bytes_length, ih (Nat.succ.inj h), length_cons]
      omega

theorem PathsFrame.write_length {f : PathsFrame} (h : f.write o = .ok bs) :
    bs.length = 3 + 3 * f.numPaths.toNat := by
  rw [PathsFrame.write] at h
  split at h
  · cases h
  rename_i hnum
  split at h
  · cases h
  rename_i hrtt
  cases h
  rw [length_cons, length_cons, length_cons, writePaths_length (not_not.mp hrtt), not_not.mp hnum]
  omega

namespace Frame

/-- The data of a STREAM frame, which `MinLength` does not count. -/
def dataLen : Frame OutFrame → Nat
  | .stream f => f.data.length
  | _ => 0

/-- A PATHS frame has so few paths that its length is an 8-bit number. -/
def PathsFit {σ : Type} : Frame σ → Prop
  | .paths f => f.numPaths ≤ 84
  | _ => True

variable {delay : AckFrame → Nat} {f : Frame OutFrame} {n : Nat}

/-- The length that is announced, or the one that a PATHS frame should announce. -/
theorem write_length (hwrite : f.write o delay = some (.ok bs))
    (hmin : f.minLength OutFrame.minLength = .ok n) :
    (∃ p, f = .paths p ∧ bs.length = 3 + 3 * p.numPaths.toNat ∧
        n = (3 + 3 * p.numPaths.toNat) % 2 ^ 8) ∨
      f.PathsFit ∧ bs.length = n + f.dataLen := by
  cases f with
  | stream f =>
    cases hmin
    exact .inr ⟨trivial, OutFrame.write_length (some.inj hwrite)⟩
  | ack f =>
    cases hmin
    exact .inr ⟨trivial, AckFrame.write_length hwrite⟩
  | stopWaiting f =>
    obtain ⟨len, hlen, hbs⟩ := StopWaitingFrame.write_length (some.inj hwrite)
    rw [minLength, hlen] at hmin
    cases hmin
    exact .inr ⟨trivial, hbs⟩
  | rstStream f =>
    cases hmin
    cases hwrite
    exact .inr ⟨trivial, by simp [RstStreamFrame.write, dataLen]⟩
  | windowUpdate f =>
    cases hmin
    cases hwrite
    exact .inr ⟨trivial, by simp [WindowUpdateFrame.write, dataLen]⟩
  | blocked f =>
    cases hmin
    cases hwrite
    exact .inr ⟨trivial, by simp [BlockedFrame.write, dataLen]⟩
  | ping =>
    cases hmin
    cases hwrite
    exact .inr ⟨trivial, rfl⟩
  | goaway f =>
    cases hmin
    cases hwrite
    refine .inr ⟨trivial, ?_⟩
    simp only [GoawayFrame.write, dataLen, length_cons, length_append, bytes_length]
    omega
  | connectionClose f =>
    cases hmin
    exact .inr ⟨trivial, ConnectionCloseFrame.write_length (some.inj hwrite)⟩
  | addAddress f =>
    obtain ⟨ip, haddr, rfl⟩ := write_ok (some.inj hwrite)
    rw [minLength] at hmin
    simp only [dataLen, length_cons, length_append, bytes_length]
    rcases addrBytes_cases haddr with ⟨hfour, -, hlen⟩ | ⟨hsix, -, hlen⟩
    · rw [if_pos hfour] at hmin
      cases hmin
      exact .inr ⟨trivial, by omega⟩
    · rw [if_neg (by rw [hsix]; decide), if_pos hsix] at hmin
      cases hmin
      exact .inr ⟨trivial, by omega⟩
  | closePath f =>
    cases hmin
    exact .inr ⟨trivial, ClosePathFrame.write_length hwrite⟩
  | paths f =>
    cases hmin
    refine .inl ⟨f, rfl, PathsFrame.write_length (some.inj hwrite), ?_⟩
    simp only [UInt8.toNat_add, UInt8.toNat_mul]
    change (((1 + 1) % 256 + 1) % 256 + 3 * f.numPaths.toNat % 256) % 256 = _
    omega

end Frame

/-- **The announced length is exact** for all frames that can be written but PATHS frames of 85
paths and more. -/
theorem min_length_exact_iff (o : ByteOrder) (delay : AckFrame → Nat) (f : Frame OutFrame)
    (bs : List UInt8) (n : Nat) (hwrite : f.write o delay = some (.ok bs))
    (hmin : f.minLength OutFrame.minLength = .ok n) :
    bs.length = n + f.dataLen ↔ f.PathsFit := by
  rcases Frame.write_length hwrite hmin with ⟨p, rfl, hlen, hn⟩ | ⟨hfit, hlen⟩
  · have hle : p.numPaths ≤ 84 ↔ p.numPaths.toNat ≤ 84 := Iff.rfl
    have hlt := p.numPaths.toNat_lt
    have hdata : (Frame.paths p).dataLen = 0 := rfl
    rw [Frame.PathsFit, hle, hlen, hn, hdata]
    omega
  · exact iff_of_true hlen hfit

/-- A PATHS frame of 84 paths has the largest length that fits. -/
theorem min_length_exact_paths :
    ∃ bs, (Frame.paths ⟨255, 84, List.replicate 84 0, List.replicate 84 0⟩).write .bigEndian
        (fun _ => 0) = some (.ok bs) ∧ bs.length = 255 := by
  have hwrite : ∃ bs, (Frame.paths ⟨255, 84, List.replicate 84 0, List.replicate 84 0⟩).write
      .bigEndian (fun _ => 0) = some (.ok bs) := ⟨_, rfl⟩
  obtain ⟨bs, hwrite⟩ := hwrite
  exact ⟨bs, hwrite, (min_length_exact_iff _ _ _ _ 255 hwrite rfl).mpr
    (by decide : (84 : UInt8) ≤ 84)⟩

/-- From 85 paths on the announced length has wrapped: 258 bytes are written, 2 announced. -/
theorem min_length_paths_wraps :
    ∃ bs, (Frame.paths ⟨255, 85, List.replicate 85 0, List.replicate 85 0⟩).write .bigEndian
        (fun _ => 0) = some (.ok bs) ∧ bs.length = 258 ∧
      (Frame.paths ⟨255, 85, List.replicate 85 0, List.replicate 85 0⟩).minLength
        OutFrame.minLength = .ok 2 :=
  ⟨_, rfl, by decide +kernel, by decide⟩

end RlncStreaming.Quic
