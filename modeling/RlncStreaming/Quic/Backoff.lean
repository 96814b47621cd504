import Mathlib.Algebra.Order.Ring.Int
import RlncStreaming.Quic.SentPackets

/-!
The retransmission timeout (`ackhandler`: `computeRTOTimeout`; `congestion`:
`RetransmissionDelay`).

The timeout doubles with each alarm. The doubling is a shift of an `int64`, and the limit of a
minute is applied to its result. Up to the count at which the shifted timeout no longer fits the
delay never decreases; there the word is negative, and the delay falls from a minute to 200 ms
(`rto_backoff_iff`).
-/

namespace RlncStreaming.Quic

open UInt32

variable {σ : Type}

/-! ### Doubling in a word -/

theorem wrap64_of_lt {x : Int} (hnonneg : 0 ≤ x) (hlt : x < 2 ^ 63) : wrap64 x = x := by
  unfold wrap64
  apply Int.bmod_eq_of_le
  · omega
  · omega

theorem wrap64_neg {x : Int} (hle : 2 ^ 63 ≤ x) (hlt : x < 2 ^ 64) : wrap64 x < 0 := by
  have hmod : x % 2 ^ 64 = x := Int.emod_eq_of_lt (by omega) hlt
  unfold wrap64
  rw [Int.bmod_def, if_neg]
  · omega
  · omega

theorem mul_two_pow_succ (base : Int) (n : Nat) : base * 2 ^ (n + 1) = 2 * (base * 2 ^ n) := by
  rw [pow_succ, ← mul_assoc, mul_comm]

theorem mul_two_pow_le {base : Int} (hbase : 0 ≤ base) {i j : Nat} (hij : i ≤ j) :
    base * 2 ^ i ≤ base * 2 ^ j :=
  mul_le_mul_of_nonneg_left (pow_le_pow_right₀ (by decide) hij) hbase

/-- A number that does not fit after `n` doublings stops fitting at one of them. -/
theorem exists_overflow {base : Int} (hbase : base < 2 ^ 63) {n : Nat}
    (hn : 2 ^ 63 ≤ base * 2 ^ n) :
    ∃ k < n, base * 2 ^ k < 2 ^ 63 ∧ 2 ^ 63 ≤ base * 2 ^ (k + 1) := by
  induction n with
  | zero =>
    rw [pow_zero, Int.mul_one] at hn
    omega
  | succ n ih =>
    rcases Int.lt_or_le (base * 2 ^ n) (2 ^ 63) with hlt | hle
    · exact ⟨n, Nat.lt_succ_self n, hlt, hn⟩
    obtain ⟨k, hk, hbounds⟩ := ih hle
    exact ⟨k, Nat.lt_succ_of_lt hk, hbounds⟩

theorem mul_two_pow_lt_iff {base : Int} (hbase : 0 ≤ base) {k : Nat}
    (hfits : base * 2 ^ k < 2 ^ 63) (hexceeds : 2 ^ 63 ≤ base * 2 ^ (k + 1)) (n : Nat) :
    base * 2 ^ n < 2 ^ 63 ↔ n ≤ k := by
  constructor
  · intro hlt
    by_contra hnk
    have hle : base * 2 ^ (k + 1) ≤ base * 2 ^ n := mul_two_pow_le hbase (Nat.lt_of_not_le hnk)
    omega
  · intro hnk
    exact (mul_two_pow_le hbase hnk).trans_lt hfits

/-! ### The delay -/

/-- `RetransmissionDelay` of both congestion controls. -/
def retransmissionDelay (smoothedRTT meanDeviation : Int64) : Int64 :=
  if smoothedRTT = 0 then 0 else smoothedRTT + meanDeviation * 4

namespace SentPacketHandler

variable {h : SentPacketHandler σ} {r : Readings}

/-- The delay of the RTO alarm after so many alarms. -/
def rtoDelay (h : SentPacketHandler σ) (r : Readings) (rtoCount : UInt32) : Int :=
  max ({ h with rtoCount }.computeRTOTimeout r) (200 * millisecond)

/-- The alarm is set by this delay unless a loss time is set or a tail loss probe is due. -/
theorem updateLossDetectionAlarm_rto (hsent : h.packetHistory ≠ []) (hloss : h.lossTime = 0)
    (hprobed : r.smoothedRTT = 0 ∨ 2 ≤ h.tlpCount) :
    (h.updateLossDetectionAlarm r).alarm = h.lastSentTime + h.rtoDelay r h.rtoCount := by
  have hlen : h.packetHistory.length ≠ 0 := fun hzero => hsent (List.length_eq_zero_iff.mp hzero)
  have hprobe : ¬ (r.smoothedRTT ≠ 0 ∧ h.tlpCount < 2) := by
    rintro ⟨hrtt, hcount⟩
    rcases hprobed with hzero | htwo
    · exact hrtt hzero
    · exact UInt32.not_lt.mpr htwo hcount
  rw [updateLossDetectionAlarm, if_neg hlen, if_neg (not_not.mpr hloss), if_neg hprobe]
  rfl

/-- The timeout before the backoff. -/
def baseTimeout (r : Readings) : Int :=
  max (if r.retransmissionDelay = 0 then 500 * millisecond else r.retransmissionDelay)
    (200 * millisecond)

theorem baseTimeout_nonneg (r : Readings) : 0 ≤ baseTimeout r :=
  le_trans (by decide) (le_max_right _ _)

theorem rtoDelay_eq (n : UInt32) :
    h.rtoDelay r n =
      max (min (wrap64 (baseTimeout r * 2 ^ n.toNat)) (60000 * millisecond))
        (200 * millisecond) := rfl

theorem rtoDelay_bounds (n : UInt32) :
    200 * millisecond ≤ h.rtoDelay r n ∧ h.rtoDelay r n ≤ 60000 * millisecond := by
  rw [rtoDelay_eq]
  constructor
  · exact le_max_right _ _
  · exact max_le (min_le_right _ _) (by decide)

/-- The delay while the shifted timeout fits. -/
theorem rtoDelay_of_lt {n : UInt32} (hfits : baseTimeout r * 2 ^ n.toNat < 2 ^ 63) :
    h.rtoDelay r n = min (baseTimeout r * 2 ^ n.toNat) (60000 * millisecond) := by
  have hbase : 200 * millisecond ≤ baseTimeout r := le_max_right _ _
  have hpow : (1 : Int) ≤ 2 ^ n.toNat := one_le_pow₀ (by decide)
  have hmul : 200 * millisecond ≤ baseTimeout r * 2 ^ n.toNat :=
    hbase.trans (le_mul_of_one_le_right (by unfold millisecond at hbase; omega) hpow)
  rw [rtoDelay_eq, wrap64_of_lt (by unfold millisecond at hmul; omega) hfits, max_eq_left]
  exact le_min hmul (by decide)

/-- The delay never decreases up to a count just if the shifted timeout fits there. -/
theorem rtoDelay_mono_iff (hbase : baseTimeout r < 2 ^ 63) (count : UInt32) :
    (∀ n n' : UInt32, n ≤ n' → n' ≤ count → h.rtoDelay r n ≤ h.rtoDelay r n') ↔
      baseTimeout r * 2 ^ count.toNat < 2 ^ 63 := by
  constructor
  · intro hmono
    by_contra hover
    obtain ⟨k, hk, hfits, hexceeds⟩ := exists_overflow hbase (Int.not_lt.mp hover)
    have hcount := count.toNat_lt
    have hk' : (ofNat k).toNat = k := toNat_ofNat_of_lt' (hk.trans hcount)
    have hnext : (ofNat (k + 1)).toNat = k + 1 := toNat_ofNat_of_lt' (Nat.lt_of_le_of_lt hk hcount)
    -- one doubling below the overflow the delay is a minute, and at it 200 ms
    have hminute : h.rtoDelay r (ofNat k) = 60000 * millisecond := by
      rw [rtoDelay_of_lt (by rwa [hk']), hk', min_eq_right]
      rw [mul_two_pow_succ] at hexceeds
      unfold millisecond
      omega
    have hfallen : h.rtoDelay r (ofNat (k + 1)) = 200 * millisecond := by
      have hneg : wrap64 (baseTimeout r * 2 ^ (k + 1)) < 0 := by
        refine wrap64_neg hexceeds ?_
        rw [mul_two_pow_succ]
        omega
      rw [rtoDelay_eq, hnext, max_eq_right]
      exact (min_le_left _ _).trans (le_trans hneg.le (by decide))
    have hle := hmono (ofNat k) (ofNat (k + 1))
      (le_iff_toNat_le.mpr (by omega)) (le_iff_toNat_le.mpr (by omega))
    rw [hminute, hfallen] at hle
    exact absurd hle (by decide)
  · intro hfits n n' hle hle'
    have hpow := mul_two_pow_le (baseTimeout_nonneg r) (le_iff_toNat_le.mp hle)
    have hpow' := mul_two_pow_le (baseTimeout_nonneg r) (le_iff_toNat_le.mp hle')
    rw [rtoDelay_of_lt (by omega), rtoDelay_of_lt (by omega)]
    exact min_le_min_right _ hpow

/-- After so many alarms the timeout of this retransmission delay still fits an `int64`. -/
def BackoffFits (delay : Int) (count : Nat) : Prop :=
  if delay = 0 then count ≤ 34
  else if delay ≤ 200 * millisecond then count ≤ 35
  else delay * 2 ^ count < 2 ^ 63

theorem baseTimeout_fits_iff (count : Nat) :
    baseTimeout r * 2 ^ count < 2 ^ 63 ↔ BackoffFits r.retransmissionDelay count := by
  unfold BackoffFits baseTimeout
  split
  · rw [max_eq_left (by decide)]
    exact mul_two_pow_lt_iff (by decide) (by decide) (by decide) count
  split
  · next hshort =>
    rw [max_eq_right hshort]
    exact mul_two_pow_lt_iff (by decide) (by decide) (by decide) count
  · next hlong =>
    rw [max_eq_left (Int.le_of_lt (Int.not_le.mp hlong))]

end SentPacketHandler

open SentPacketHandler

/-- **When the retransmission timeout backs off.** The delay of the RTO alarm is always between 200
ms and a minute. It never decreases up to a number of alarms just if the timeout, doubled so many
times, fits an `int64`. -/
theorem rto_backoff_iff (h : SentPacketHandler σ) (r : Readings) (smoothedRTT meanDeviation : Int64)
    (hr : r.retransmissionDelay = (retransmissionDelay smoothedRTT meanDeviation).toInt)
    (count : UInt32) :
    (h.packetHistory ≠ [] → h.lossTime = 0 → r.smoothedRTT = 0 ∨ 2 ≤ h.tlpCount →
        (h.updateLossDetectionAlarm r).alarm = h.lastSentTime + h.rtoDelay r h.rtoCount) ∧
      (∀ n : UInt32, 200 * millisecond ≤ h.rtoDelay r n ∧ h.rtoDelay r n ≤ 60000 * millisecond) ∧
      ((∀ n n' : UInt32, n ≤ n' → n' ≤ count → h.rtoDelay r n ≤ h.rtoDelay r n') ↔
        BackoffFits (retransmissionDelay smoothedRTT meanDeviation).toInt count.toNat) := by
  have hbase : baseTimeout r < 2 ^ 63 := by
    have hword := (retransmissionDelay smoothedRTT meanDeviation).toInt_lt
    unfold baseTimeout
    rw [hr]
    split
    · decide
    · exact max_lt hword (by decide)
  refine ⟨updateLossDetectionAlarm_rto, rtoDelay_bounds, ?_⟩
  rw [rtoDelay_mono_iff hbase, baseTimeout_fits_iff, hr]

theorem rto_backoff_unmeasured :
    (newSentPacketHandler : SentPacketHandler OutFrame).rtoDelay unmeasured 6 ≤
      (newSentPacketHandler : SentPacketHandler OutFrame).rtoDelay unmeasured 34 := by
  have hfits : BackoffFits (retransmissionDelay 0 0).toInt (34 : UInt32).toNat := by
    unfold BackoffFits
    decide
  exact (rto_backoff_iff _ unmeasured 0 0 (by decide) 34).2.2.mpr hfits 6 34 (by decide) (by decide)

/-- After 34 alarms without an acknowledgement the next one is a minute away, after 35 alarms
200 ms. -/
theorem rto_backoff_falls :
    (newSentPacketHandler : SentPacketHandler OutFrame).rtoDelay unmeasured 34 =
        60000 * millisecond ∧
      (newSentPacketHandler : SentPacketHandler OutFrame).rtoDelay unmeasured 35 =
        200 * millisecond := by
  decide

end RlncStreaming.Quic
