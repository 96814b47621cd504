import RlncStreaming.Quic.Packer
import RlncStreaming.Quic.Unpacker

/-!
The public header of a packet (`internal/wire`: `public_header.go`; `internal/protocol`:
`packet_number.go`, `version.go`).

A header carries the low bytes of the packet number, as many as the packets that may be in
flight require. The receiver takes the number next to the one that it expects
(`inferPacketNumber_eq`). Every header that the packer builds comes back, with the packet
number (`header_recovered`), except that a version is written with three decimal digits and
that no packet number follows the largest one (`header_not_recovered`).
-/

namespace RlncStreaming.Quic

open Lib PublicHeader

/-! ### Versions -/

/-- `protocol.VersionUnknown`. -/
def versionUnknown : Int := -2

/-- `VersionNumberToTag`: `Q` and three decimal digits. -/
def versionNumberToTag (vn : Int) : Nat :=
  let v := (vn % 2 ^ 32).toNat
  0x51 + (v / 100 % 10 + 0x30) * 2 ^ 8 + (v / 10 % 10 + 0x30) * 2 ^ 16 + (v % 10 + 0x30) * 2 ^ 24

/-- `a - b` for two `uint32`. -/
def sub32 (a b : Nat) : Nat := if b ≤ a then a - b else 2 ^ 32 - (b - a)

/-- `VersionTagToNumber`. -/
def versionTagToNumber (v : Nat) : Int :=
  ((sub32 (v / 2 ^ 8 % 2 ^ 8) 0x30 * 100 + sub32 (v / 2 ^ 16 % 2 ^ 8) 0x30 * 10 +
    sub32 (v / 2 ^ 24 % 2 ^ 8) 0x30) % 2 ^ 32 : Nat)

theorem versionTagToNumber_digits {a b c : Nat} (ha : a < 10) (hb : b < 10) (hc : c < 10) :
    versionTagToNumber (0x51 + (a + 0x30) * 2 ^ 8 + (b + 0x30) * 2 ^ 16 + (c + 0x30) * 2 ^ 24) =
      ((a * 100 + b * 10 + c : Nat) : Int) := by
  have hsub : ∀ n, sub32 (n + 0x30) 0x30 = n := fun n => if_pos (Nat.le_add_left _ _)
  generalize htag : 0x51 + (a + 0x30) * 2 ^ 8 + (b + 0x30) * 2 ^ 16 + (c + 0x30) * 2 ^ 24 = tag
  have hhundreds : tag / 2 ^ 8 % 2 ^ 8 = a + 0x30 := by omega
  have htens : tag / 2 ^ 16 % 2 ^ 8 = b + 0x30 := by omega
  have hones : tag / 2 ^ 24 % 2 ^ 8 = c + 0x30 := by omega
  rw [versionTagToNumber, hhundreds, htens, hones, hsub, hsub, hsub, Nat.mod_eq_of_lt (by omega)]

/-- A version below 1000 is carried by its tag. -/
theorem versionTagToNumber_tag {vn : Int} (hlow : 0 ≤ vn) (hhigh : vn < 1000) :
    versionTagToNumber (versionNumberToTag vn) = vn ∧ versionNumberToTag vn < 2 ^ 32 := by
  obtain ⟨v, rfl⟩ := Int.eq_ofNat_of_zero_le hlow
  have hmod : ((v : Int) % 2 ^ 32).toNat = v := by omega
  simp only [versionNumberToTag, hmod]
  rw [versionTagToNumber_digits (Nat.mod_lt _ (by decide)) (Nat.mod_lt _ (by decide))
    (Nat.mod_lt _ (by decide))]
  omega

/-! ### Packet numbers -/

def delta (a b : Nat) : Nat := if a < b then b - a else a - b

def closestTo (target a b : Nat) : Nat := if delta target a < delta target b then a else b

/-- `InferPacketNumber`. The epoch is the last number with its low bytes cleared. -/
def inferPacketNumber (packetNumberLength : PacketNumberLen)
    (lastPacketNumber wirePacketNumber : Nat) : Nat :=
  let epochDelta := 2 ^ (8 * packetNumberLength.toNat)
  let epoch := lastPacketNumber - lastPacketNumber % epochDelta
  let prevEpochBegin := sub64 epoch epochDelta
  let nextEpochBegin := add64 epoch epochDelta
  closestTo (add64 lastPacketNumber 1) (add64 epoch wirePacketNumber)
    (closestTo (add64 lastPacketNumber 1) (add64 prevEpochBegin wirePacketNumber)
      (add64 nextEpochBegin wirePacketNumber))

theorem closestTo_left {target a b : Nat} (h : delta target a < delta target b) :
    closestTo target a b = a := if_pos h

theorem closestTo_right {target a b : Nat} (h : delta target b ≤ delta target a) :
    closestTo target a b = b := if_neg (Nat.not_lt.mpr h)

theorem delta_lt {H T c : Nat} (hlow : T < c + H) (hhigh : c < T + H) : delta T c < H := by
  rw [delta]
  split <;> omega

theorem le_delta {H T c : Nat} (h : c + H ≤ T ∨ T + H ≤ c) : H ≤ delta T c := by
  rw [delta]
  split <;> omega

theorem le_delta_closestTo {H T a b : Nat} (ha : H ≤ delta T a) (hb : H ≤ delta T b) :
    H ≤ delta T (closestTo T a b) := by
  rw [closestTo]
  split
  · exact ha
  · exact hb

/-- The candidates lie an epoch apart, in wrapping arithmetic too, so at most one of them is
less than half an epoch from the expected number. -/
theorem closest_candidate {D H e w p T : Nat} (hD : D = 2 * H) (hsmall : D ≤ 2 ^ 48)
    (hw : w < D) (hbottom : e = 0 ∨ D ≤ e) (htop : e + D = 2 ^ 64 ∨ e + 2 * D ≤ 2 ^ 64)
    (hT : e < T ∧ T ≤ e + D) (hp : p < 2 ^ 64) (hlate : T < p + H) (hearly : p < T + H)
    (hcases : p = e + w ∨ p + D = e + w ∨ p = e + w + D) :
    closestTo T (add64 e w) (closestTo T (add64 (sub64 e D) w) (add64 (add64 e D) w)) = p := by
  have hnear := delta_lt hlate hearly
  have hhere : add64 e w = e + w := add64_of_lt (by omega)
  -- Below the first epoch and above the last one the candidates wrap to the other end.
  have hprev : add64 (sub64 e D) w = e + w - D ∧ D ≤ e ∨
      add64 (sub64 e D) w = 2 ^ 64 - D + w ∧ e = 0 := by
    rcases hbottom with rfl | hle
    · right
      rw [sub64, if_neg (by omega), add64_of_lt (by omega)]
      omega
    · left
      rw [sub64_of_le hle, add64_of_lt (by omega)]
      omega
  have hnext : add64 (add64 e D) w = e + w + D ∧ e + 2 * D ≤ 2 ^ 64 ∨
      add64 (add64 e D) w = w ∧ e + D = 2 ^ 64 := by
    rcases htop with heq | hle
    · right
      have hzero : add64 e D = 0 := by rw [add64, heq, Nat.mod_self]
      rw [hzero, add64_of_lt (by omega)]
      omega
    · left
      rw [add64_of_lt (by omega : e + D < 2 ^ 64), add64_of_lt (by omega)]
      omega
  generalize add64 (sub64 e D) w = prev at hprev
  generalize add64 (add64 e D) w = next at hnext
  rw [hhere]
  rcases hcases with rfl | hp | rfl
  · exact closestTo_left (Nat.lt_of_lt_of_le hnear
      (le_delta_closestTo (le_delta (by omega)) (le_delta (by omega))))
  · obtain rfl : prev = p := by omega
    have hfar : H ≤ delta T next := le_delta (by omega)
    rw [closestTo_left (Nat.lt_of_lt_of_le hnear hfar)]
    exact closestTo_right (Nat.le_trans (Nat.le_of_lt hnear) (le_delta (by omega)))
  · obtain rfl : next = e + w + D := by omega
    have hfar : H ≤ delta T prev := le_delta (by omega)
    rw [closestTo_right (Nat.le_trans (Nat.le_of_lt hnear) hfar)]
    exact closestTo_right (Nat.le_trans (Nat.le_of_lt hnear) (le_delta (by omega)))

/-- A number less than half an epoch from the expected one is inferred from its low bytes. -/
theorem inferPacketNumber_eq (len : PacketNumberLen) {last p : Nat} (hlast : last + 1 < 2 ^ 64)
    (hp : p < 2 ^ 64) (hlate : last + 1 < p + 2 ^ (8 * len.toNat - 1))
    (hearly : p < last + 1 + 2 ^ (8 * len.toNat - 1)) :
    inferPacketNumber len last (p % 256 ^ len.toNat) = p := by
  rw [inferPacketNumber, add64_of_lt hlast]
  cases len <;>
    · simp only [PacketNumberLen.toNat] at hlate hearly ⊢
      exact closest_candidate rfl (by decide) (by omega) (by omega) (by omega) (by omega) hp hlate
        hearly (by omega)

/-! ### Headers on the wire -/

/-- `wire.PublicHeader` with all fields that are written or read. -/
structure WireHeader where
  connectionID : Nat
  pathID : UInt8
  versionFlag : Bool
  resetFlag : Bool
  truncateConnectionID : Bool
  multipathFlag : Bool
  packetNumberLen : Option PacketNumberLen
  packetNumber : Nat
  versionNumber : Int
  supportedVersions : List Int
  diversificationNonce : List UInt8
deriving DecidableEq, Repr

/-- A header that the packer has built. -/
def PublicHeader.toWire (h : PublicHeader) : WireHeader where
  connectionID := h.connectionID
  pathID := h.pathID
  versionFlag := h.versionFlag
  resetFlag := false
  truncateConnectionID := h.truncateConnectionID
  multipathFlag := h.multipathFlag
  packetNumberLen := some h.packetNumberLen
  packetNumber := h.packetNumber
  versionNumber := h.versionNumber
  supportedVersions := []
  diversificationNonce := h.diversificationNonce

inductive HeaderError where
  | wire (e : WireError)
  /-- `ErrPacketWithUnknownVersion` -/
  | packetWithUnknownVersion
  /-- `errResetAndVersionFlagSet` -/
  | resetAndVersionFlagSet
  /-- `errReceivedTruncatedConnectionID` -/
  | receivedTruncatedConnectionID
  /-- `errInvalidConnectionID` -/
  | invalidConnectionID
  /-- `errGetLengthNotForVersionNegotiation` -/
  | getLengthNotForVersionNegotiation
  /-- `invalid diversification nonce length` -/
  | invalidDiversificationNonceLength
  /-- `PublicHeader: PacketNumberLen not set` -/
  | packetNumberLenNotSet
  /-- `qerr.InvalidVersionNegotiationPacket` -/
  | invalidVersionNegotiationPacket
deriving DecidableEq, Repr

/-- `hasPacketNumber`. -/
def hasPacketNumber (resetFlag versionFlag : Bool) (packetSentBy : Perspective) : Bool :=
  !resetFlag && !(versionFlag && decide (packetSentBy = .server))

/-- The two bits for the length of the packet number. -/
def numberLenBits : PacketNumberLen → UInt8
  | .len1 => 0x00
  | .len2 => 0x10
  | .len4 => 0x20
  | .len6 => 0x30

/-- The byte with the public flags. -/
def publicFlagByte (versionFlag resetFlag truncateConnectionID nonce multipathFlag : Bool)
    (len : Option PacketNumberLen) : UInt8 :=
  (if versionFlag then (0x01 : UInt8) else 0) ||| (if resetFlag then 0x02 else 0) |||
    (if truncateConnectionID then 0 else 0x08) ||| (if nonce then 0x04 else 0) |||
    (len.map numberLenBits).getD 0 ||| (if multipathFlag then 0x40 else 0)

namespace WireHeader

variable (h : WireHeader)

/-- The length of the packet number. -/
def numberLength (pers : Perspective) : Except HeaderError Nat :=
  if hasPacketNumber h.resetFlag h.versionFlag pers then
    match h.packetNumberLen with
    | none => .error (.wire .packetNumberLenNotSet)
    | some len => .ok len.toNat
  else .ok 0

/-- `GetLength`. -/
def getLength (pers : Perspective) : Except HeaderError Nat := do
  if h.versionFlag = true ∧ h.resetFlag = true then throw .resetAndVersionFlagSet
  if h.versionFlag = true ∧ pers = .server then throw .getLengthNotForVersionNegotiation
  let number ← h.numberLength pers
  return 1 + number + (if h.truncateConnectionID then 0 else 8) +
    (if h.versionFlag then 4 else 0) + h.diversificationNonce.length +
    if h.multipathFlag then 1 else 0

/-- The packet number in a header of a version. -/
def numberBytes (version : Int) (pers : Perspective) : Except HeaderError (List UInt8) :=
  if hasPacketNumber h.resetFlag h.versionFlag pers then
    match h.packetNumberLen with
    | none => .error .packetNumberLenNotSet
    | some len => .ok ((getByteOrder version.toNat).bytes len.toNat h.packetNumber)
  else .ok []

/-- `Write`. -/
def write (version : Int) (pers : Perspective) : Except HeaderError (List UInt8) := do
  if h.versionFlag = true ∧ h.resetFlag = true then throw .resetAndVersionFlagSet
  if 0 < h.diversificationNonce.length ∧ h.diversificationNonce.length ≠ 32 then
    throw .invalidDiversificationNonceLength
  let flags := publicFlagByte h.versionFlag h.resetFlag h.truncateConnectionID
    (decide (0 < h.diversificationNonce.length)) h.multipathFlag
    (if hasPacketNumber h.resetFlag h.versionFlag pers then h.packetNumberLen else none)
  let number ← h.numberBytes version pers
  return flags :: ((if h.truncateConnectionID then [] else leBytes 8 h.connectionID) ++
    ((if h.versionFlag = true ∧ pers = .client then leBytes 4 (versionNumberToTag h.versionNumber)
      else []) ++
    (h.diversificationNonce ++ ((if h.multipathFlag then [h.pathID] else []) ++ number))))

end WireHeader

/-! ### Parsing -/

/-- A read of the parser. -/
def headerRead {α : Type} (x : Except WireError α) : Except HeaderError α := x.mapError .wire

/-- The connection ID, which is always little-endian. -/
def readConnectionID (truncate : Bool) (bs : List UInt8) :
    Except HeaderError (Nat × List UInt8) := do
  if truncate then return (0, bs)
  let (connID, bs) ← headerRead (ByteOrder.littleEndian.readUintN 8 bs)
  if connID = 0 then throw .invalidConnectionID
  return (connID, bs)

def readNonce (present : Bool) (bs : List UInt8) : Except HeaderError (List UInt8 × List UInt8) :=
  if present then headerRead (readFull 32 bs) else .ok ([], bs)

/-- The versions of a version negotiation packet. -/
def readVersions : List UInt8 → List Int
  | a :: b :: c :: d :: bs => versionTagToNumber (leValue [a, b, c, d]) :: readVersions bs
  | _ => []

/-- The version that the client has sent, if it is there. -/
def readVersion (present : Bool) (bs : List UInt8) : Except HeaderError (Int × List UInt8) :=
  if present then
    (headerRead (ByteOrder.littleEndian.readUintN 4 bs)).map fun (tag, bs) =>
      (versionTagToNumber tag, bs)
  else .ok (0, bs)

/-- The length that two bits stand for. -/
def numberLenOf (flags : UInt8) : PacketNumberLen :=
  if flags &&& 0x30 = 0x30 then .len6
  else if flags &&& 0x30 = 0x20 then .len4
  else if flags &&& 0x30 = 0x10 then .len2
  else .len1

def readNumber (version : Int) (len : Option PacketNumberLen) (bs : List UInt8) :
    Except HeaderError (Nat × List UInt8) :=
  match len with
  | none => .ok (0, bs)
  | some len => headerRead ((getByteOrder version.toNat).readUintN len.toNat bs)

/-- `ParsePublicHeader`; the second result is what is left of the input. -/
def parsePublicHeader (packetSentBy : Perspective) (version : Int) (bs : List UInt8) :
    Except HeaderError (WireHeader × List UInt8) := do
  let (flags, bs) ← headerRead (readByte bs)
  let resetFlag := decide (0 < flags &&& 0x02)
  let versionFlag := decide (0 < flags &&& 0x01)
  if version = versionUnknown ∧ (versionFlag || resetFlag) = false then
    throw .packetWithUnknownVersion
  let truncateConnectionID := decide (flags &&& 0x08 = 0)
  if truncateConnectionID = true ∧ packetSentBy = .client then throw .receivedTruncatedConnectionID
  let packetNumberLen :=
    if hasPacketNumber resetFlag versionFlag packetSentBy then some (numberLenOf flags) else none
  let multipathFlag := decide (0 < flags &&& 0x40)
  let (connectionID, bs) ← readConnectionID truncateConnectionID bs
  let (diversificationNonce, bs) ← readNonce
    (decide (packetSentBy = .server) && decide (0 < flags &&& 0x04) && !versionFlag &&
      !resetFlag) bs
  if (!resetFlag && versionFlag) = true ∧ packetSentBy = .server then
    if bs.length % 4 ≠ 0 then throw .invalidVersionNegotiationPacket
    return ({ connectionID, pathID := 0, versionFlag, resetFlag, truncateConnectionID,
              multipathFlag, packetNumberLen, packetNumber := 0, versionNumber := 0,
              supportedVersions := readVersions bs, diversificationNonce }, [])
  let (versionNumber, bs) ← readVersion (!resetFlag && versionFlag) bs
  let version := if !resetFlag && versionFlag then versionNumber else version
  let (pathID, bs) ← headerRead (readByteIf multipathFlag bs)
  let (packetNumber, bs) ← readNumber version packetNumberLen bs
  return ({ connectionID, pathID, versionFlag, resetFlag, truncateConnectionID, multipathFlag,
            packetNumberLen, packetNumber, versionNumber, supportedVersions := [],
            diversificationNonce }, bs)

/-! ### Round trip -/

/-- What the receiver gets of a header that the packer has built. -/
def PublicHeader.received (h : PublicHeader) : WireHeader :=
  { h.toWire with
    connectionID := if h.truncateConnectionID then 0 else h.connectionID
    packetNumber := h.packetNumber % 256 ^ h.packetNumberLen.toNat }

variable {pers : Perspective}

/-- Without a version negotiation there is a packet number. -/
theorem hasPacketNumber_of {versionFlag : Bool} (h : ¬ (versionFlag = true ∧ pers = .server)) :
    hasPacketNumber false versionFlag pers = true := by
  cases versionFlag <;> simp_all [hasPacketNumber]

/-- The two models of `GetLength` agree. -/
theorem toWire_getLength {h : PublicHeader} {n : Nat} :
    h.toWire.getLength pers = .ok n ↔ h.getLength pers = .ok n := by
  simp only [WireHeader.getLength, guard_eq_ok, bind_eq_ok, pure_eq_ok]
  rw [getLength]
  by_cases hneg : h.versionFlag = true ∧ pers = .server
  · rw [if_pos hneg]
    exact ⟨fun hok => absurd hneg hok.2.1, fun hok => by cases hok⟩
  have hnumber : h.toWire.numberLength pers = .ok h.packetNumberLen.toNat :=
    if_pos (hasPacketNumber_of hneg)
  rw [if_neg hneg]
  constructor
  · rintro ⟨-, -, k, hk, rfl⟩
    rw [hnumber] at hk
    cases hk
    rfl
  · intro hok
    cases hok
    exact ⟨by simp [toWire], hneg, _, hnumber, rfl⟩

/-- Every flag is read back from the byte, whatever the others are. -/
theorem publicFlagByte_bits (versionFlag truncate nonce multipath : Bool) (len : PacketNumberLen) :
    let flags := publicFlagByte versionFlag false truncate nonce multipath (some len)
    decide (0 < flags &&& 0x02) = false ∧ decide (0 < flags &&& 0x01) = versionFlag ∧
      decide (flags &&& 0x08 = 0) = truncate ∧ decide (0 < flags &&& 0x04) = nonce ∧
      decide (0 < flags &&& 0x40) = multipath ∧ numberLenOf flags = len := by
  cases versionFlag <;> cases truncate <;> cases nonce <;> cases multipath <;> cases len <;> decide

theorem headerRead_ok {α : Type} {x : Except WireError α} {a : α} (h : x = .ok a) :
    headerRead x = .ok a := by
  rw [h]
  rfl

theorem readLittleEndian_append {k n : Nat} (h : n < 256 ^ k) (rest : List UInt8) :
    headerRead (ByteOrder.littleEndian.readUintN k (leBytes k n ++ rest)) = .ok (n, rest) :=
  headerRead_ok (ByteOrder.littleEndian.readUintN_bytes rest h)

theorem readConnectionID_append (truncate : Bool) {connID : Nat} (hpos : 0 < connID)
    (hlt : connID < 2 ^ 64) (rest : List UInt8) :
    readConnectionID truncate ((if truncate then [] else leBytes 8 connID) ++ rest) =
      .ok (if truncate then 0 else connID, rest) := by
  cases truncate with
  | true => rfl
  | false =>
    simp only [readConnectionID, Bool.false_eq_true, if_false, bind_eq_ok, guard_eq_ok, pure_eq_ok,
      Prod.exists]
    exact ⟨_, _, readLittleEndian_append hlt rest, Nat.ne_of_gt hpos, rfl⟩

theorem readNonce_append {nonce : List UInt8} (h : nonce.length = 0 ∨ nonce.length = 32)
    (rest : List UInt8) :
    readNonce (decide (0 < nonce.length)) (nonce ++ rest) = .ok (nonce, rest) := by
  rcases h with hlen | hlen
  · rw [List.eq_nil_of_length_eq_zero hlen]
    rfl
  · have hread := readFull_append nonce rest
    rw [hlen] at hread
    rw [readNonce, if_pos (by rw [hlen]; rfl), headerRead_ok hread]

theorem readVersion_append (versionFlag : Bool) {vn : Int}
    (h : versionFlag = true → 0 ≤ vn ∧ vn < 1000) (rest : List UInt8) :
    readVersion versionFlag
        ((if versionFlag then leBytes 4 (versionNumberToTag vn) else []) ++ rest) =
      .ok (if versionFlag then vn else 0, rest) := by
  cases versionFlag with
  | false => rfl
  | true =>
    obtain ⟨hlow, hhigh⟩ := h rfl
    obtain ⟨hvalue, htag⟩ := versionTagToNumber_tag hlow hhigh
    simp only [readVersion, if_true]
    rw [readLittleEndian_append htag rest, Except.map, hvalue]

theorem PublicHeader.write_eq {h : PublicHeader} {version : Int}
    (hflag : ¬ (h.versionFlag = true ∧ pers = .server))
    (hnonce : h.diversificationNonce.length = 0 ∨ h.diversificationNonce.length = 32) :
    h.toWire.write version pers = .ok
      (publicFlagByte h.versionFlag false h.truncateConnectionID
          (decide (0 < h.diversificationNonce.length)) h.multipathFlag (some h.packetNumberLen) ::
        ((if h.truncateConnectionID then [] else leBytes 8 h.connectionID) ++
        ((if h.versionFlag then leBytes 4 (versionNumberToTag h.versionNumber) else []) ++
        (h.diversificationNonce ++ ((if h.multipathFlag then [h.pathID] else []) ++
          (getByteOrder version.toNat).bytes h.packetNumberLen.toNat h.packetNumber))))) := by
  have hnumber := hasPacketNumber_of hflag
  have hclient : (h.versionFlag = true ∧ pers = .client) = (h.versionFlag = true) := by
    cases pers with
    | server => simpa using hflag
    | client => simp
  simp only [WireHeader.write, toWire, WireHeader.numberBytes, guard_eq_ok, bind_eq_ok,
    pure_eq_ok, hnumber, if_true, hclient]
  exact ⟨by simp, by omega, _, rfl, rfl⟩

/-- As many bytes are written as `GetLength` says. -/
theorem PublicHeader.write_length {h : PublicHeader} {version : Int} {bs : List UInt8}
    (hflag : ¬ (h.versionFlag = true ∧ pers = .server))
    (hwrite : h.toWire.write version pers = .ok bs) :
    h.getLength pers = .ok bs.length ∧
      (h.diversificationNonce.length = 0 ∨ h.diversificationNonce.length = 32) := by
  have hnonce : h.diversificationNonce.length = 0 ∨ h.diversificationNonce.length = 32 := by
    rw [WireHeader.write, guard_eq_ok, guard_eq_ok] at hwrite
    have hnonce : ¬ (0 < h.diversificationNonce.length ∧ h.diversificationNonce.length ≠ 32) :=
      hwrite.2.1
    omega
  refine ⟨?_, hnonce⟩
  have hlen : ∀ (c : Bool) (xs ys : List UInt8),
      (if c then xs else ys).length = if c then xs.length else ys.length := by
    intro c xs ys
    cases c <;> rfl
  cases hwrite.symm.trans (h.write_eq hflag hnonce)
  simp only [getLength, if_neg hflag, List.length_cons, List.length_append, hlen,
    leBytes_length, List.length_nil, ByteOrder.bytes_length, Nat.zero_add]
  congr 1
  omega

/-- Only clients write a version and only servers a nonce, so their order does not matter. -/
theorem readNonce_version {versionFlag : Bool} {nonce : List UInt8}
    (hserver : ¬ (versionFlag = true ∧ pers = .server)) (hclient : pers = .client → nonce = [])
    (hnonce : nonce.length = 0 ∨ nonce.length = 32) (tag rest : List UInt8) :
    readNonce (decide (pers = .server) && decide (0 < nonce.length) && !versionFlag && !false)
        ((if versionFlag then tag else []) ++ (nonce ++ rest)) =
      .ok (nonce, (if versionFlag then tag else []) ++ rest) := by
  cases pers with
  | client =>
    rw [hclient rfl]
    rfl
  | server =>
    have hflag : versionFlag = false := by simpa using hserver
    subst hflag
    simpa using readNonce_append hnonce rest

/-- **Headers of ordinary packets** are read back as written. If a header names the version,
the receiver need not know it. -/
theorem PublicHeader.parse_write {h : PublicHeader} {version : Int}
    (hid : 0 < h.connectionID ∧ h.connectionID < 2 ^ 64)
    (hserver : ¬ (h.versionFlag = true ∧ pers = .server))
    (hclient : pers = .client → h.truncateConnectionID = false ∧ h.diversificationNonce = [])
    (hnonce : h.diversificationNonce.length = 0 ∨ h.diversificationNonce.length = 32)
    (hpath : h.multipathFlag = false → h.pathID = 0)
    (hversion : if h.versionFlag then h.versionNumber = version ∧ 0 ≤ version ∧ version < 1000
      else h.versionNumber = 0 ∧ version ≠ versionUnknown) :
    ∃ bs, h.toWire.write version pers = .ok bs ∧ h.toWire.getLength pers = .ok bs.length ∧
      ∀ v rest, (h.versionFlag = false → v = version) →
        parsePublicHeader pers v (bs ++ rest) = .ok (h.received, rest) := by
  obtain ⟨bs, hbs⟩ : ∃ bs, h.toWire.write version pers = .ok bs := ⟨_, h.write_eq hserver hnonce⟩
  refine ⟨bs, hbs, toWire_getLength.mpr (h.write_length hserver hbs).1, ?_⟩
  cases hbs.symm.trans (h.write_eq hserver hnonce)
  · intro v rest hv
    obtain ⟨hreset, hflag, htruncate, hhas, hmultipath, hnumberLen⟩ :=
      publicFlagByte_bits h.versionFlag h.truncateConnectionID
        (decide (0 < h.diversificationNonce.length)) h.multipathFlag h.packetNumberLen
    simp only [List.cons_append, List.append_assoc]
    generalize publicFlagByte h.versionFlag false h.truncateConnectionID
      (decide (0 < h.diversificationNonce.length)) h.multipathFlag (some h.packetNumberLen) =
      flags at *
    rw [parsePublicHeader, bind_eq_ok]
    refine ⟨(flags, _), rfl, ?_⟩
    simp only [hreset, hflag, htruncate, hhas, hmultipath, hnumberLen, guard_eq_ok, bind_eq_ok,
      Prod.exists]
    have hnegotiation : ¬ ((!false && h.versionFlag) = true ∧ pers = .server) := by
      simpa using hserver
    refine ⟨?_, ?_, _, _, readConnectionID_append _ hid.1 hid.2 _, _, _,
      readNonce_version hserver (fun hpers => (hclient hpers).2) hnonce _ _, ?_⟩
    · rintro ⟨rfl, hnone⟩
      have hnone : h.versionFlag = false := by simpa using hnone
      rw [hnone] at hversion
      exact hversion.2 (hv hnone).symm
    · rintro ⟨htrue, hpers⟩
      rw [(hclient hpers).1] at htrue
      cases htrue
    rw [if_neg hnegotiation]
    simp only [bind_eq_ok, Prod.exists, pure_eq_ok, Bool.not_false, Bool.true_and]
    refine ⟨_, _, readVersion_append h.versionFlag ?_ _, _, _,
      headerRead_ok (readByteIf_append _ _ _), ?_⟩
    · intro htrue
      rw [htrue] at hversion
      exact hversion.1 ▸ hversion.2
    · -- Either the version has just been read, or the receiver knows it.
      obtain ⟨hnumber, hknown⟩ : (if h.versionFlag then h.versionNumber else 0) = h.versionNumber ∧
          (if h.versionFlag then h.versionNumber else v) = version := by
        cases hset : h.versionFlag with
        | true => simp_all
        | false => simp_all
      have hid' : (if h.multipathFlag then h.pathID else 0) = h.pathID := by
        cases hset : h.multipathFlag with
        | true => rfl
        | false => exact (hpath hset).symm
      simp only [hnumber, hknown, hid', hasPacketNumber_of hserver, if_true]
      exact ⟨_, _, headerRead_ok (ByteOrder.readUintN_bytes_mod _ _ _ _), rfl⟩

/-! ### The headers of the packer -/

theorem PacketPacker.getPublicHeader_versionFlag {φ : Type} (p : PacketPacker φ)
    (encLevel : EncryptionLevel) (pth : PackPath) :
    ¬ ((p.getPublicHeader encLevel pth).versionFlag = true ∧ p.perspective = .server) := by
  rintro ⟨hflag, hserver⟩
  simp [getPublicHeader, hserver] at hflag

/-- **Recovery.** The receiver gets every header that the packer builds, and the packet number
from its low bytes: what is in flight lies within half an epoch of the number that the
receiver expects. -/
theorem header_recovered {φ : Type} (p : PacketPacker φ) (encLevel : EncryptionLevel)
    (pth : PackPath) (hid : 0 < p.connectionID ∧ p.connectionID < 2 ^ 64)
    (hclient : p.perspective = .client → p.truncateConnectionID = false)
    (hnonce : p.diversificationNonce.length = 0 ∨ p.diversificationNonce.length = 32)
    (hversion : if (p.getPublicHeader encLevel pth).versionFlag
      then 0 ≤ p.version ∧ p.version < 1000 else p.version ≠ versionUnknown)
    (hlt : pth.packetNumberGenerator.peek < 2 ^ 64)
    (hle : pth.leastUnacked ≤ pth.packetNumberGenerator.peek)
    (hflight : pth.packetNumberGenerator.peek - pth.leastUnacked < 2 ^ 47) :
    let ph := p.getPublicHeader encLevel pth
    (∃ bs, ph.toWire.write p.version p.perspective = .ok bs ∧
        ph.toWire.getLength p.perspective = .ok bs.length ∧
        ∀ v rest, (ph.versionFlag = false → v = p.version) →
          parsePublicHeader p.perspective v (bs ++ rest) = .ok (ph.received, rest)) ∧
      ∀ r, r + 1 < 2 ^ 64 → pth.leastUnacked ≤ r + 1 →
        r + 1 < ph.packetNumber + 2 ^ (8 * ph.packetNumberLen.toNat - 1) →
        inferPacketNumber ph.packetNumberLen r ph.received.packetNumber = ph.packetNumber := by
  intro ph
  constructor
  · refine parse_write hid (p.getPublicHeader_versionFlag encLevel pth) ?_ ?_ ?_ ?_
    · intro hpers
      simp [ph, PacketPacker.getPublicHeader, hpers, hclient hpers]
    · simp only [ph, PacketPacker.getPublicHeader]
      split
      · exact hnonce
      · exact .inl rfl
    · intro hsingle
      exact if_neg (by simpa [ph, PacketPacker.getPublicHeader] using hsingle)
    have hnumber : ph.versionNumber = if ph.versionFlag then p.version else 0 := rfl
    rw [hnumber]
    split at hversion
    · next hflag =>
      rw [if_pos hflag, if_pos hflag]
      exact ⟨rfl, hversion⟩
    · next hflag =>
      rw [if_neg hflag, if_neg hflag]
      exact ⟨rfl, hversion⟩
  · intro r hr hleast hlate
    -- The length that is chosen covers the packets that may be in flight.
    have hwindow : ph.packetNumber - pth.leastUnacked < 2 ^ (8 * ph.packetNumberLen.toNat - 1) := by
      simp only [ph, PacketPacker.getPublicHeader, getPacketNumberLengthForPublicHeader,
        sub64_of_le hle]
      split
      · assumption
      split
      · assumption
      · exact hflight
    exact inferPacketNumber_eq ph.packetNumberLen hr hlt hlate (by omega)

/-- A packer with an idle stream framer. -/
def headerPacker (pers : Perspective) (version : Int) : PacketPacker Unit :=
  newPacketPacker 7 ⟨pers, none, none⟩ [] false (newStreamFramer ⟨fun _ => none, [], 0⟩ ()) pers
    version

/-- A client has sent 70000 packets of which the first 20 are acknowledged. The server has
missed the last 30000. -/
theorem header_recovered_late :
    let p := headerPacker .client versionMP
    let pth : PackPath := ⟨3, ⟨500, 70000, 0⟩, 21, true⟩
    let ph := p.getPublicHeader .forwardSecure pth
    (∃ bs, ph.toWire.write p.version p.perspective = .ok bs ∧
        ph.toWire.getLength p.perspective = .ok bs.length ∧
        ∀ v rest, (ph.versionFlag = false → v = p.version) →
          parsePublicHeader p.perspective v (bs ++ rest) = .ok (ph.received, rest)) ∧
      ph.packetNumberLen = .len4 ∧
      inferPacketNumber ph.packetNumberLen 40000 ph.received.packetNumber = 70000 := by
  obtain ⟨hheader, hnumber⟩ := header_recovered (headerPacker .client versionMP) .forwardSecure
    ⟨3, ⟨500, 70000, 0⟩, 21, true⟩ (by decide) (fun _ => rfl) (.inl rfl) (by decide) (by decide)
    (by decide) (by decide)
  exact ⟨hheader, rfl, hnumber 40000 (by decide) (by decide) (by decide)⟩

/-- A version with four digits arrives as another one, a packet that does not name its unknown
version is refused, and after the largest packet number the expected one is 0. -/
theorem header_not_recovered :
    (∃ bs h, ((headerPacker .client 1000).getPublicHeader .unencrypted
          ⟨0, newPacketNumberGenerator 500, 1, false⟩).toWire.write 1000 .client = .ok bs ∧
        parsePublicHeader .client 1000 bs = .ok (h, []) ∧ h.versionNumber = 0) ∧
      (∃ bs, ((headerPacker .server versionUnknown).getPublicHeader .forwardSecure
          ⟨0, newPacketNumberGenerator 500, 1, false⟩).toWire.write versionUnknown .server =
            .ok bs ∧
        parsePublicHeader .server versionUnknown bs = .error .packetWithUnknownVersion) ∧
      let ph := (headerPacker .client versionMP).getPublicHeader .forwardSecure
        ⟨0, ⟨500, 2 ^ 64 - 1, 0⟩, 2 ^ 64 - 1, false⟩
      2 ^ 64 - 1 + 1 < ph.packetNumber + 2 ^ (8 * ph.packetNumberLen.toNat - 1) ∧
        inferPacketNumber ph.packetNumberLen (2 ^ 64 - 1) ph.received.packetNumber = 65535 :=
  ⟨⟨_, _, rfl, rfl, rfl⟩, ⟨_, rfl, rfl⟩, by decide⟩

end RlncStreaming.Quic
