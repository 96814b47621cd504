import Mathlib.Algebra.Group.Nat.Defs
import Mathlib.Data.List.Basic
import Mathlib.Order.Bounds.Defs
import Mathlib.Order.Monotone.Basic

/-!
Numbers on the wire (`internal/utils`: `byteorder*.go`, `float16.go`).

Versions before 39 are little-endian, later ones big-endian. In both orders a number of
`k` bytes that was written is read back modulo `256 ^ k`, whatever follows it
(`readUintN_bytes`). The subtraction of 64-bit numbers wraps (`sub64`).
-/

namespace RlncStreaming.Quic

/-! ### Unsigned arithmetic -/

/-- `a - b` for two `uint64`. -/
def sub64 (a b : Nat) : Nat := if b ≤ a then a - b else 2 ^ 64 - (b - a)

/-- `a + b` for two `uint64`. -/
def add64 (a b : Nat) : Nat := (a + b) % 2 ^ 64

theorem sub64_of_le {a b : Nat} (h : b ≤ a) : sub64 a b = a - b := if_pos h

theorem add64_of_lt {a b : Nat} (h : a + b < 2 ^ 64) : add64 a b = a + b := Nat.mod_eq_of_lt h

/-! ### Byte orders -/

/-- The `k` low bytes of a number, in little-endian order. -/
def leBytes : Nat → Nat → List UInt8
  | 0, _ => []
  | k + 1, n => UInt8.ofNat n :: leBytes k (n / 256)

/-- The number that little-endian bytes stand for. -/
def leValue : List UInt8 → Nat
  | [] => 0
  | b :: bs => b.toNat + 256 * leValue bs

inductive ByteOrder where
  | littleEndian
  | bigEndian
deriving DecidableEq, Repr

/-- `GetByteOrder`. -/
def getByteOrder (version : Nat) : ByteOrder := if version < 39 then .littleEndian else .bigEndian

namespace ByteOrder

/-- What `WriteUint16`, `WriteUint32` and the other writers append, each with its number of
bytes. -/
def bytes (o : ByteOrder) (k n : Nat) : List UInt8 :=
  match o with
  | littleEndian => leBytes k n
  | bigEndian => (leBytes k n).reverse

def value (o : ByteOrder) (bs : List UInt8) : Nat :=
  match o with
  | littleEndian => leValue bs
  | bigEndian => leValue bs.reverse

end ByteOrder

/-! ### Readers -/

/-- The errors of the frame parsers and writers. -/
inductive WireError where
  | eof
  | invalidAckRanges
  | invalidFirstAckRange
  | inconsistentAckLargestAcked
  | inconsistentAckLowestAcked
  | inconsistentNumberOfRanges
  /-- `io.ErrUnexpectedEOF` -/
  | unexpectedEOF
  /-- `StreamFrame: attempting to write empty frame without FIN` -/
  | emptyFrameWithoutFin
  /-- `data len too large` -/
  | dataLenTooLarge
  /-- `data overflows maximum offset` -/
  | dataOverflowsMaximumOffset
  /-- `qerr.EmptyStreamFrameNoFin` -/
  | emptyStreamFrameNoFin
  | packetNumberNotSet
  | leastUnackedHigherThanPacketNumber
  | packetNumberLenNotSet
  /-- `invalid LeastUnackedDelta` -/
  | invalidLeastUnackedDelta
  /-- `ConnectionFrame: ReasonPhrase too long`, and `reason phrase too long` of the parsers -/
  | reasonPhraseTooLong
  | inconsistentAddrIPVersion
  | unknownIPVersion
  | pathsNumber
  | missingRTT
  | tooManyPaths
deriving DecidableEq, Repr

/-- `ReadByte`. -/
def readByte : List UInt8 → Except WireError (UInt8 × List UInt8)
  | [] => .error .eof
  | b :: bs => .ok (b, bs)

/-- `ReadUintN`. -/
def ByteOrder.readUintN (o : ByteOrder) (k : Nat) (bs : List UInt8) :
    Except WireError (Nat × List UInt8) :=
  if k ≤ bs.length then .ok (o.value (bs.take k), bs.drop k) else .error .eof

/-! ### 16-bit floats -/

/-- One step of the binary search for the exponent. -/
def shiftStep (m : Nat × Nat) (offset : Nat) : Nat × Nat :=
  if 2 ^ (11 + offset) ≤ m.2 then (m.1 + offset, m.2 / 2 ^ offset) else m

/-- The 16 bits that `writeUfloat16` writes. -/
def ufloat16 (value : Nat) : Nat :=
  if value < 2 ^ 12 then value
  else if (2 ^ 12 - 1) * 2 ^ 30 ≤ value then 2 ^ 16 - 1
  else
    let m := [16, 8, 4, 2, 1].foldl shiftStep (0, value)
    (m.2 + m.1 * 2 ^ 11) % 2 ^ 16

/-- The number that `readUfloat16` makes of 16 bits. -/
def ofUfloat16 (val : Nat) : Nat :=
  if val < 2 ^ 12 then val
  else
    let exponent := val / 2 ^ 11 - 1
    (val - exponent * 2 ^ 11) * 2 ^ exponent

/-- `ReadUfloat16`. -/
def ByteOrder.readUfloat16 (o : ByteOrder) (bs : List UInt8) :
    Except WireError (Nat × List UInt8) := do
  let (val, bs) ← o.readUintN 2 bs
  return (ofUfloat16 val, bs)

/-! ### Reading what was written -/

theorem leBytes_mod : ∀ {k n m : Nat}, leBytes k n = leBytes k m → n % 256 ^ k = m % 256 ^ k
  | 0, n, m, _ => by rw [Nat.pow_zero, Nat.mod_one, Nat.mod_one]
  | k + 1, n, m, h => by
    rw [leBytes, leBytes, List.cons.injEq] at h
    have hlow : n % 256 = m % 256 := by simpa using congrArg UInt8.toNat h.1
    have hhigh := leBytes_mod h.2
    rw [Nat.pow_succ', Nat.mod_mul, Nat.mod_mul, hlow, hhigh]

@[simp] theorem leBytes_length : ∀ k n : Nat, (leBytes k n).length = k
  | 0, _ => rfl
  | k + 1, n => by rw [leBytes, List.length_cons, leBytes_length k]

theorem leValue_leBytes : ∀ k n : Nat, leValue (leBytes k n) = n % 256 ^ k
  | 0, n => by rw [Nat.pow_zero, Nat.mod_one]; rfl
  | k + 1, n => by
    rw [leBytes, leValue, leValue_leBytes k, Nat.pow_succ', Nat.mod_mul, UInt8.toNat_ofNat']

namespace ByteOrder

variable (o : ByteOrder)

@[simp] theorem bytes_length (k n : Nat) : (o.bytes k n).length = k := by
  cases o <;> simp [bytes]

theorem value_bytes (k n : Nat) : o.value (o.bytes k n) = n % 256 ^ k := by
  cases o <;> simp [bytes, value, leValue_leBytes]

theorem readUintN_bytes_mod (k n : Nat) (rest : List UInt8) :
    o.readUintN k (o.bytes k n ++ rest) = .ok (n % 256 ^ k, rest) := by
  have hlen := o.bytes_length k n
  rw [readUintN, if_pos (by rw [List.length_append, hlen]; omega), List.take_left' hlen,
    List.drop_left' hlen, value_bytes]

theorem readUintN_bytes {k n : Nat} (rest : List UInt8) (h : n < 256 ^ k) :
    o.readUintN k (o.bytes k n ++ rest) = .ok (n, rest) := by
  rw [readUintN_bytes_mod, Nat.mod_eq_of_lt h]

theorem readUfloat16_bytes {n : Nat} (rest : List UInt8) (h : n < 2 ^ 16) :
    o.readUfloat16 (o.bytes 2 n ++ rest) = .ok (ofUfloat16 n, rest) := by
  rw [readUfloat16, o.readUintN_bytes rest h]
  rfl

end ByteOrder

theorem ufloat16_lt (value : Nat) : ufloat16 value < 2 ^ 16 := by
  rw [ufloat16]
  split
  · omega
  split
  · decide
  · exact Nat.mod_lt _ (by decide)

/-- One step of the search halves the bound on the shift that leaves 12 bits. -/
theorem shiftStep_shifted (a offset : Nat) {v k : Nat} (hlow : 2 ^ 11 ≤ v / 2 ^ k)
    (hhigh : v / 2 ^ k < 2 ^ 12) (hk : k < 2 * offset) :
    ∃ k' v', k' < offset ∧ k' ≤ k ∧ v' / 2 ^ k' = v / 2 ^ k ∧
      shiftStep (a, v) offset = (a + (k - k'), v') := by
  rcases Nat.lt_or_ge k offset with hlt | hge
  · refine ⟨k, v, hlt, Nat.le_refl k, rfl, ?_⟩
    have hsmall : v < 2 ^ (11 + offset) :=
      calc
        v < 2 ^ 12 * 2 ^ k := (Nat.div_lt_iff_lt_mul (Nat.two_pow_pos k)).mp hhigh
        _ = 2 ^ (12 + k) := (Nat.pow_add 2 12 k).symm
        _ ≤ 2 ^ (11 + offset) := Nat.pow_le_pow_right (by decide) (by omega)
    rw [shiftStep, if_neg (Nat.not_le.mpr hsmall), Nat.sub_self, Nat.add_zero]
  · refine ⟨k - offset, v / 2 ^ offset, by omega, Nat.sub_le k offset, ?_, ?_⟩
    · rw [Nat.div_div_eq_div_mul, ← Nat.pow_add, Nat.add_sub_cancel' hge]
    have hlarge : 2 ^ (11 + offset) ≤ v :=
      calc
        2 ^ (11 + offset) ≤ 2 ^ (11 + k) := Nat.pow_le_pow_right (by decide) (by omega)
        _ = 2 ^ 11 * 2 ^ k := Nat.pow_add 2 11 k
        _ ≤ v := (Nat.le_div_iff_mul_le (Nat.two_pow_pos k)).mp hlow
    rw [shiftStep, if_pos hlarge, Nat.sub_sub_self hge]

theorem shifts_eq {v k : Nat} (hlow : 2 ^ 11 ≤ v / 2 ^ k) (hhigh : v / 2 ^ k < 2 ^ 12)
    (hk : k < 32) : [16, 8, 4, 2, 1].foldl shiftStep (0, v) = (k, v / 2 ^ k) := by
  obtain ⟨k₁, v₁, hk₁, hle₁, hv₁, h₁⟩ := shiftStep_shifted 0 16 hlow hhigh hk
  rw [← hv₁] at hlow hhigh
  obtain ⟨k₂, v₂, hk₂, hle₂, hv₂, h₂⟩ := shiftStep_shifted (0 + (k - k₁)) 8 hlow hhigh hk₁
  rw [← hv₂] at hlow hhigh
  obtain ⟨k₃, v₃, hk₃, hle₃, hv₃, h₃⟩ :=
    shiftStep_shifted (0 + (k - k₁) + (k₁ - k₂)) 4 hlow hhigh hk₂
  rw [← hv₃] at hlow hhigh
  obtain ⟨k₄, v₄, hk₄, hle₄, hv₄, h₄⟩ :=
    shiftStep_shifted (0 + (k - k₁) + (k₁ - k₂) + (k₂ - k₃)) 2 hlow hhigh hk₃
  rw [← hv₄] at hlow hhigh
  obtain ⟨k₅, v₅, hk₅, hle₅, hv₅, h₅⟩ :=
    shiftStep_shifted (0 + (k - k₁) + (k₁ - k₂) + (k₂ - k₃) + (k₃ - k₄)) 1 hlow hhigh hk₄
  obtain rfl : k₅ = 0 := by omega
  rw [List.foldl_cons, h₁, List.foldl_cons, h₂, List.foldl_cons, h₃, List.foldl_cons, h₄,
    List.foldl_cons, h₅, List.foldl_nil, ← hv₁, ← hv₂, ← hv₃, ← hv₄, ← hv₅, Nat.pow_zero,
    Nat.div_one, Prod.mk.injEq]
  exact ⟨by omega, rfl⟩

/-- The hidden bit of a mantissa counts for the exponent, and so does the carry of a full one. -/
theorem ofUfloat16_code {m : Nat} (k : Nat) (hlow : 2 ^ 11 ≤ m) (hhigh : m ≤ 2 ^ 12) :
    ofUfloat16 (m + k * 2 ^ 11) = m * 2 ^ k := by
  rw [ofUfloat16]
  split
  · obtain rfl : k = 0 := by omega
    omega
  rcases Nat.lt_or_eq_of_le hhigh with hlt | rfl
  · have he : (m + k * 2 ^ 11) / 2 ^ 11 - 1 = k := by omega
    simp only [he, Nat.add_sub_cancel]
  have he : (2 ^ 12 + k * 2 ^ 11) / 2 ^ 11 - 1 = k + 1 := by omega
  have hm : 2 ^ 12 + k * 2 ^ 11 - (k + 1) * 2 ^ 11 = 2 ^ 11 := by omega
  simp only [he, hm]
  rw [Nat.pow_succ' (n := k), ← Nat.mul_assoc, ← Nat.pow_succ]

theorem ofUfloat16_strictMono : StrictMono ofUfloat16 := by
  refine strictMono_nat_of_lt_succ fun c => ?_
  rcases Nat.lt_or_ge c (2 ^ 11) with hsmall | hbig
  · rw [ofUfloat16, ofUfloat16, if_pos (by omega), if_pos (by omega)]
    exact Nat.lt_succ_self c
  obtain ⟨m, k, hlow, hhigh, rfl⟩ : ∃ m k, 2 ^ 11 ≤ m ∧ m < 2 ^ 12 ∧ c = m + k * 2 ^ 11 :=
    ⟨2 ^ 11 + c % 2 ^ 11, c / 2 ^ 11 - 1, by omega, by omega, by omega⟩
  rw [ofUfloat16_code k hlow hhigh.le, Nat.add_right_comm, ofUfloat16_code k (by omega) (by omega)]
  exact Nat.mul_lt_mul_of_pos_right (Nat.lt_succ_self m) (Nat.two_pow_pos k)

/-- A number lies between those of its code and of the next one. -/
theorem ufloat16_spec (value : Nat) :
    ofUfloat16 (ufloat16 value) ≤ value ∧
      (ufloat16 value + 1 < 2 ^ 16 → value < ofUfloat16 (ufloat16 value + 1)) := by
  rcases Nat.lt_or_ge value (2 ^ 12) with hsmall | hbig
  · have hself : ofUfloat16 value = value := if_pos hsmall
    rw [ufloat16, if_pos hsmall]
    refine ⟨hself.le, fun _ => ?_⟩
    calc
      value = ofUfloat16 value := hself.symm
      _ < ofUfloat16 (value + 1) := ofUfloat16_strictMono (Nat.lt_succ_self value)
  rcases Nat.lt_or_ge value ((2 ^ 12 - 1) * 2 ^ 30) with hlt | hmax
  · obtain ⟨k, hk⟩ : ∃ k, value.log2 = k + 11 :=
      ⟨value.log2 - 11, by have := (Nat.le_log2 (k := 12) (by omega)).mpr hbig; omega⟩
    have hpos := Nat.two_pow_pos k
    have hlow : 2 ^ 11 ≤ value / 2 ^ k := by
      rw [Nat.le_div_iff_mul_le hpos, ← Nat.pow_add, Nat.add_comm, ← hk]
      exact Nat.log2_self_le (by omega)
    have hhigh : value / 2 ^ k < 2 ^ 12 := by
      rw [Nat.div_lt_iff_lt_mul hpos, ← Nat.pow_add, show 12 + k = value.log2 + 1 by omega]
      exact Nat.lt_log2_self
    have hk30 : k ≤ 30 := by
      have hlog : value.log2 < 42 := (Nat.log2_lt (by omega)).mpr (by omega)
      omega
    have hcode : ufloat16 value = value / 2 ^ k + k * 2 ^ 11 := by
      rw [ufloat16, if_neg (by omega), if_neg (by omega), shifts_eq hlow hhigh (by omega)]
      exact Nat.mod_eq_of_lt (by omega)
    rw [hcode, ofUfloat16_code k hlow hhigh.le, Nat.add_right_comm,
      ofUfloat16_code k (by omega) hhigh]
    exact ⟨Nat.div_mul_le_self value _,
      fun _ => (Nat.div_lt_iff_lt_mul hpos).mp (Nat.lt_succ_self _)⟩
  · rw [ufloat16, if_neg (by omega), if_pos hmax]
    exact ⟨hmax, fun h => absurd h (by decide)⟩

/-- A number that was read is written back as the same 16 bits. -/
theorem ufloat16_ofUfloat16 {val : Nat} (h : val < 2 ^ 16) : ufloat16 (ofUfloat16 val) = val := by
  obtain ⟨hle, hnext⟩ := ufloat16_spec (ofUfloat16 val)
  have hcode := ofUfloat16_strictMono.le_iff_le.mp hle
  rcases Nat.lt_or_eq_of_le hcode with hlt | heq
  · exact absurd (ofUfloat16_strictMono.lt_iff_lt.mp (hnext (by omega))) (by omega)
  · exact heq

/-- The 16-bit float of a number is the best approximation from below. -/
theorem ufloat16_best_lower (o : ByteOrder) :
    (∀ (value : Nat) (rest : List UInt8), ∃ n,
      o.readUfloat16 (o.bytes 2 (ufloat16 value) ++ rest) = .ok (n, rest) ∧
      IsGreatest {x | (∃ val < 2 ^ 16, ofUfloat16 val = x) ∧ x ≤ value} n ∧
      (0x3FFC0000000 ≤ value → n = 0x3FFC0000000)) ∧
    StrictMono ofUfloat16 ∧ ∀ val < 2 ^ 16, ufloat16 (ofUfloat16 val) = val := by
  refine ⟨fun value rest => ⟨_, o.readUfloat16_bytes rest (ufloat16_lt value), ⟨⟨⟨_,
    ufloat16_lt value, rfl⟩, (ufloat16_spec value).1⟩, ?_⟩, fun hmax => ?_⟩,
    ofUfloat16_strictMono, fun val => ufloat16_ofUfloat16⟩
  · rintro _ ⟨⟨val, hval, rfl⟩, hle⟩
    refine ofUfloat16_strictMono.monotone ?_
    by_contra hlt
    have hnext := (ufloat16_spec value).2 (by omega)
    have hmono := ofUfloat16_strictMono.monotone (show ufloat16 value + 1 ≤ val by omega)
    omega
  · rw [ufloat16, if_neg (by omega), if_pos (by exact hmax)]
    rfl

end RlncStreaming.Quic
