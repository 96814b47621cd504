import Mathlib.Algebra.Order.Field.Rat
import Mathlib.Data.Fintype.Card
import Mathlib.Tactic.FieldSimp
import Mathlib.Tactic.Ring
import RlncStreaming.Lib.Maps

/-!
The coupled congestion control OLIA (`olia.go`, `olia_sender.go`): the shares `epsilon`.

The senders of a connection are in one map. `getEpsilon` looks for the paths that transfer
the most between two losses, and moves window from the senders with the largest window to
such paths whose window is smaller. Sizes are counted with 8 bits and compared with
wrapping 64-bit products. Whatever the comparisons say, what some senders get is what the
others give (`getEpsilon_balanced`).
-/

namespace RlncStreaming.Quic

open Lib List UInt8

/-- `utils.MaxPacketNumber` and `utils.MaxByteCount`. -/
def maxPacketNumber (a b : UInt64) : UInt64 := if b < a then a else b

/-- `utils.MinPacketNumber`. -/
def minPacketNumber (a b : UInt64) : UInt64 := if a < b then a else b

theorem le_maxPacketNumber (a b : UInt64) : a ≤ maxPacketNumber a b ∧ b ≤ maxPacketNumber a b := by
  rw [maxPacketNumber]
  split
  · next h => exact ⟨UInt64.le_refl a, UInt64.le_of_lt h⟩
  · next h => exact ⟨UInt64.not_lt.mp h, UInt64.le_refl b⟩

theorem maxPacketNumber_eq (a b : UInt64) : maxPacketNumber a b = a ∨ maxPacketNumber a b = b := by
  rw [maxPacketNumber]
  split
  · exact .inl rfl
  · exact .inr rfl

/-! ### One sender -/

/-- `Olia`. -/
structure Olia where
  loss1 : UInt64
  loss2 : UInt64
  loss3 : UInt64
  epsilonNum : Int64
  epsilonDen : UInt32
  sndCwndCnt : Int64
deriving DecidableEq

def newOlia (ackedBytes : UInt64) : Olia := ⟨ackedBytes, ackedBytes, ackedBytes, 0, 1, 0⟩

namespace Olia

/-- `Reset`. -/
def reset : Olia := ⟨0, 0, 0, 0, 1, 0⟩

/-- `SmoothedBytesBetweenLosses`. -/
def smoothedBytesBetweenLosses (o : Olia) : UInt64 :=
  maxPacketNumber (o.loss3 - o.loss2) (o.loss2 - o.loss1)

/-- `UpdateAckedSinceLastLoss`. -/
def updateAckedSinceLastLoss (o : Olia) (ackedBytes : UInt64) : Olia :=
  { o with loss3 := o.loss3 + ackedBytes }

/-- `OnPacketLost`. -/
def onPacketLost (o : Olia) : Olia := { o with loss1 := o.loss2, loss2 := o.loss3 }

end Olia

/-- `HybridSlowStart`. -/
structure HybridSlowStart where
  endPacketNumber : UInt64
  lastSentPacketNumber : UInt64
  started : Bool
  currentMinRTT : Int64
  rttSampleCount : UInt32
  hystartFound : Bool
deriving DecidableEq

/-- `PrrSender`. -/
structure PrrSender where
  bytesSentSinceLoss : UInt64
  bytesDeliveredSinceLoss : UInt64
  ackCountSinceLoss : UInt64
  bytesInFlightBeforeLoss : UInt64
deriving DecidableEq

/-- `OliaSender`, with the fields of its `rttStats` that it reads and those of its `stats`. -/
structure OliaSender where
  hybridSlowStart : HybridSlowStart
  prr : PrrSender
  smoothedRTT : Int64
  latestRTT : Int64
  minRTT : Int64
  slowstartPacketsLost : UInt64
  slowstartBytesLost : UInt64
  olia : Olia
  largestSentPacketNumber : UInt64
  largestAckedPacketNumber : UInt64
  largestSentAtLastCutback : UInt64
  congestionWindow : UInt64
  slowstartThreshold : UInt64
  lastCutbackExitedSlowstart : Bool
  slowStartLargeReduction : Bool
  minCongestionWindow : UInt64
  maxTCPCongestionWindow : UInt64
  numConnections : Int64
  congestionWindowCount : UInt64
  initialCongestionWindow : UInt64
  initialMaxCongestionWindow : UInt64
deriving DecidableEq

/-- `NewOliaSender`. A new `RTTStats` has no samples; `defaultMinimumCongestionWindow` and
`defaultNumConnections` are 2. -/
def newOliaSender (initialCongestionWindow initialMaxCongestionWindow : UInt64) : OliaSender where
  hybridSlowStart := ⟨0, 0, false, 0, 0, false⟩
  prr := ⟨0, 0, 0, 0⟩
  smoothedRTT := 0
  latestRTT := 0
  minRTT := 0
  slowstartPacketsLost := 0
  slowstartBytesLost := 0
  olia := newOlia 0
  largestSentPacketNumber := 0
  largestAckedPacketNumber := 0
  largestSentAtLastCutback := 0
  congestionWindow := initialCongestionWindow
  slowstartThreshold := initialMaxCongestionWindow
  lastCutbackExitedSlowstart := false
  slowStartLargeReduction := false
  minCongestionWindow := 2
  maxTCPCongestionWindow := initialMaxCongestionWindow
  numConnections := 2
  congestionWindowCount := 0
  initialCongestionWindow := initialCongestionWindow
  initialMaxCongestionWindow := initialMaxCongestionWindow

/-- The map `oliaSenders` that the senders of a connection share. -/
abbrev OliaSenders := UInt8 → Option OliaSender

/-! ### The shares -/

namespace OliaSender

section

variable (s : OliaSender)

/-- The square of the RTT, as it is compared. -/
def tmpRTT : Int64 := s.smoothedRTT * s.smoothedRTT

def tmpBytes : UInt64 := s.olia.smoothedBytesBetweenLosses

/-- The path transfers at least as much as the best one so far, with `bestBytes` and
`bestRTT`. -/
def isBest (best : Int64 × UInt64) : Bool :=
  decide (best.2.toInt64 * s.tmpRTT ≤ s.tmpBytes.toInt64 * best.1)

def setEpsilon (num : Int64) (den : UInt32) : OliaSender :=
  { s with olia := { s.olia with epsilonNum := num, epsilonDen := den } }

/-- `epsilonNum / epsilonDen`. -/
def epsilon : ℚ := (s.olia.epsilonNum.toInt : ℚ) / (s.olia.epsilonDen.toNat : ℚ)

end

/-- The body of the last loop of `getEpsilon`; `n` is the number of senders. -/
def share (n : Nat) (maxCwnd : UInt64) (best : Int64 × UInt64) (M BNotM : UInt8) (s : OliaSender) :
    OliaSender :=
  if BNotM = 0 then s.setEpsilon 0 1
  else if s.congestionWindow < maxCwnd ∧ s.isBest best then
    s.setEpsilon 1 (UInt32.ofNat n * BNotM.toUInt32)
  else if s.congestionWindow = maxCwnd then s.setEpsilon (-1) (UInt32.ofNat n * M.toUInt32)
  else s.setEpsilon 0 1

end OliaSender

/-- `getMaxCwnd`. -/
def getMaxCwnd (os : List OliaSender) : UInt64 :=
  os.foldl (fun bestCwnd s => maxPacketNumber bestCwnd s.congestionWindow) 0

/-- The first loop of `getEpsilon`: `bestRTT` and `bestBytes`. -/
def getBest (os : List OliaSender) : Int64 × UInt64 :=
  os.foldl (fun best s => if s.isBest best then (s.tmpRTT, s.tmpBytes) else best) (0, 0)

/-- The second loop of `getEpsilon`: the sizes `M` and `BNotM`. -/
def getSizes (maxCwnd : UInt64) (best : Int64 × UInt64) (os : List OliaSender) : UInt8 × UInt8 :=
  os.foldl (fun sizes s =>
    if s.congestionWindow = maxCwnd then (sizes.1 + 1, sizes.2)
    else if s.isBest best then (sizes.1, sizes.2 + 1)
    else sizes) (0, 0)

/-- The orders in which `getEpsilon` iterates over the map: in `getMaxCwnd` and in its own
three loops. -/
structure EpsilonOrder where
  maxCwnd : List UInt8
  best : List UInt8
  sizes : List UInt8
  shares : List UInt8
deriving DecidableEq

/-- The orders are orders of the map. -/
structure EpsilonOrder.Of (order : EpsilonOrder) (senders : OliaSenders) : Prop where
  maxCwnd : Lists senders order.maxCwnd
  best : Lists senders order.best
  sizes : Lists senders order.sizes
  shares : Lists senders order.shares

/-- `getEpsilon`. -/
def getEpsilon (senders : OliaSenders) (order : EpsilonOrder) : OliaSenders :=
  let maxCwnd := getMaxCwnd (values senders order.maxCwnd)
  let best := getBest (values senders order.best)
  let (M, BNotM) := getSizes maxCwnd best (values senders order.sizes)
  order.shares.foldl (fun senders id =>
    modify senders id (OliaSender.share order.shares.length maxCwnd best M BNotM)) senders

/-! ### The sets `M` and `BNotM` -/

/-- The fold of `getMaxCwnd` gives an upper bound that is one of the values met. -/
theorem foldl_maxPacketNumber (os : List OliaSender) (init : UInt64) :
    let result := os.foldl (fun best s => maxPacketNumber best s.congestionWindow) init
    init ≤ result ∧ (∀ s ∈ os, s.congestionWindow ≤ result) ∧
      (result = init ∨ ∃ s ∈ os, s.congestionWindow = result) := by
  induction os generalizing init with
  | nil => exact ⟨UInt64.le_refl init, fun _ h => absurd h not_mem_nil, .inl rfl⟩
  | cons s os ih =>
    obtain ⟨hinit, hrest, hmet⟩ := ih (maxPacketNumber init s.congestionWindow)
    obtain ⟨hleft, hright⟩ := le_maxPacketNumber init s.congestionWindow
    refine ⟨UInt64.le_trans hleft hinit, fun s' hs' => ?_, ?_⟩
    · rcases mem_cons.mp hs' with rfl | hmem
      · exact UInt64.le_trans hright hinit
      · exact hrest s' hmem
    · rcases hmet with heq | ⟨s', hs', heq⟩
      · rw [foldl_cons, heq]
        exact (maxPacketNumber_eq init s.congestionWindow).imp id
          fun hmax => ⟨s, mem_cons_self, hmax.symm⟩
      · exact .inr ⟨s', mem_cons_of_mem s hs', heq⟩

theorem le_getMaxCwnd {os : List OliaSender} {s : OliaSender} (hs : s ∈ os) :
    s.congestionWindow ≤ getMaxCwnd os := (foldl_maxPacketNumber os 0).2.1 s hs

/-- Some sender has the largest window. -/
theorem exists_getMaxCwnd {os : List OliaSender} (hos : os ≠ []) :
    ∃ s ∈ os, s.congestionWindow = getMaxCwnd os := by
  rcases (foldl_maxPacketNumber os 0).2.2 with hzero | hmet
  · -- All windows are 0.
    obtain ⟨s, hs⟩ := exists_mem_of_ne_nil os hos
    refine ⟨s, hs, UInt64.le_antisymm (le_getMaxCwnd hs) ?_⟩
    rw [getMaxCwnd, hzero]
    exact UInt64.zero_le
  · exact hmet

/-- The sender has the largest window. -/
def OliaSender.inM (maxCwnd : UInt64) (s : OliaSender) : Bool := s.congestionWindow == maxCwnd

/-- The sender has a best path, but not the largest window. -/
def OliaSender.inBNotM (maxCwnd : UInt64) (best : Int64 × UInt64) (s : OliaSender) : Bool :=
  s.congestionWindow != maxCwnd && s.isBest best

/-- The sizes are counted with 8 bits. -/
theorem getSizes_eq (maxCwnd : UInt64) (best : Int64 × UInt64) (os : List OliaSender) :
    getSizes maxCwnd best os =
      (ofNat (os.countP (·.inM maxCwnd)), ofNat (os.countP (·.inBNotM maxCwnd best))) := by
  have hfold : ∀ (os : List OliaSender) (sizes : UInt8 × UInt8),
      os.foldl (fun sizes s =>
        if s.congestionWindow = maxCwnd then (sizes.1 + 1, sizes.2)
        else if s.isBest best then (sizes.1, sizes.2 + 1)
        else sizes) sizes =
      (sizes.1 + ofNat (os.countP (·.inM maxCwnd)),
        sizes.2 + ofNat (os.countP (·.inBNotM maxCwnd best))) := by
    intro os
    induction os with
    | nil => simp
    | cons s os ih =>
      intro sizes
      rw [foldl_cons, ih, countP_cons, countP_cons]
      by_cases hmax : s.congestionWindow = maxCwnd
      · simp [OliaSender.inM, OliaSender.inBNotM, hmax, ofNat_add, UInt8.add_assoc,
          UInt8.add_comm 1]
      by_cases hbest : s.isBest best = true
      · simp [OliaSender.inM, OliaSender.inBNotM, hmax, hbest, ofNat_add,
          UInt8.add_assoc, UInt8.add_comm 1]
      · simp [OliaSender.inM, OliaSender.inBNotM, hmax, hbest]
  rw [getSizes, hfold]
  simp

/-! ### What a call gives to each sender -/

/-- The two sets are disjoint. -/
theorem countP_inM_add_countP_inBNotM_le (maxCwnd : UInt64) (best : Int64 × UInt64)
    (os : List OliaSender) :
    os.countP (·.inM maxCwnd) + os.countP (·.inBNotM maxCwnd best) ≤ os.length := by
  rw [length_eq_countP_add_countP (·.inM maxCwnd)]
  refine Nat.add_le_add_left (countP_mono_left fun s _ hs => ?_) _
  simp only [OliaSender.inBNotM, Bool.and_eq_true, bne_iff_ne] at hs
  simpa [OliaSender.inM] using hs.1

/-- The sizes of the sets in a call of `getEpsilon`, for the values `os` of the map. -/
structure Sizes (os : List OliaSender) (maxCwnd : UInt64) (best : Int64 × UInt64) (m b : Nat) :
    Prop where
  upper : ∀ s ∈ os, s.congestionWindow ≤ maxCwnd
  countM : os.countP (·.inM maxCwnd) = m
  countB : os.countP (·.inBNotM maxCwnd best) = b
  pos : os ≠ [] → 0 < m
  small : os.length ≤ 256

theorem Sizes.add_le {os : List OliaSender} {maxCwnd : UInt64} {best : Int64 × UInt64} {m b : Nat}
    (h : Sizes os maxCwnd best m b) : m + b ≤ os.length := by
  rw [← h.countM, ← h.countB]
  exact countP_inM_add_countP_inBNotM_le maxCwnd best os

/-- The sets of the call, for the values of any iteration. -/
theorem EpsilonOrder.Of.sizes_of {order : EpsilonOrder} {senders : OliaSenders}
    (h : order.Of senders) {ids : List UInt8} (hids : Lists senders ids) :
    let maxCwnd := getMaxCwnd (values senders order.maxCwnd)
    let best := getBest (values senders order.best)
    Sizes (values senders ids) maxCwnd best
      ((values senders order.sizes).countP (·.inM maxCwnd))
      ((values senders order.sizes).countP (·.inBNotM maxCwnd best)) where
  upper s hs := le_getMaxCwnd ((hids.values_perm h.maxCwnd).mem_iff.mp hs)
  countM := (hids.values_perm h.sizes).countP_eq _
  countB := (hids.values_perm h.sizes).countP_eq _
  pos hne := by
    have hmax : values senders order.maxCwnd ≠ [] := by
      intro hnil
      exact hne ((hids.values_perm h.maxCwnd).trans (.of_eq hnil)).eq_nil
    obtain ⟨s, hs, heq⟩ := exists_getMaxCwnd hmax
    refine countP_pos_iff.mpr ⟨s, (h.maxCwnd.values_perm h.sizes).mem_iff.mp hs, ?_⟩
    rw [OliaSender.inM, heq, beq_self_eq_true]
  small := by
    rw [hids.length_values]
    have hfin : (ids.map toFin).Nodup := hids.nodup.map fun _ _ heq => UInt8.toFin_inj.mp heq
    simpa using hfin.length_le_card

/-- A product of two sizes fits into 32 bits. -/
theorem toNat_denominator {n k : Nat} (hn : n ≤ 256) (hk : k < 256) :
    (UInt32.ofNat n * (ofNat k).toUInt32).toNat = n * k := by
  have hmul : n * k ≤ 256 * 255 := Nat.mul_le_mul hn (by omega)
  rw [UInt32.toNat_mul, toNat_toUInt32, toNat_ofNat', UInt32.toNat_ofNat',
    Nat.mod_eq_of_lt (by omega : n < 2 ^ 32), Nat.mod_eq_of_lt (by omega : k < 2 ^ 8),
    Nat.mod_eq_of_lt (by omega)]

/-- What `getEpsilon` may give to a sender: nothing; something, if its window is not the
largest; or something negative, if its window is the largest and another one is smaller. -/
inductive Share (senders : OliaSenders) (s : OliaSender) : Int64 → Prop
  | none : Share senders s 0
  | gain (id' : UInt8) (s' : OliaSender) (hs' : senders id' = some s')
      (hlt : s.congestionWindow < s'.congestionWindow) : Share senders s 1
  | loss (hmax : ∀ id' s', senders id' = some s' → s'.congestionWindow ≤ s.congestionWindow)
      (id' : UInt8) (s' : OliaSender) (hs' : senders id' = some s')
      (hlt : s'.congestionWindow < s.congestionWindow) : Share senders s (-1)

section Call

variable {senders : OliaSenders} {ids : List UInt8} {maxCwnd : UInt64} {best : Int64 × UInt64}
  {m b : Nat}

section

variable (h : Sizes (values senders ids) maxCwnd best m b) (hids : Lists senders ids)

include h hids

/-- A sender of the set `BNotM` has a smaller window than some sender of the set `M`. -/
theorem Sizes.exists_lt (hb : 0 < b) :
    ∃ id' s', senders id' = some s' ∧ s'.congestionWindow < maxCwnd := by
  rw [← h.countB] at hb
  obtain ⟨s', hs', hmem⟩ := countP_pos_iff.mp hb
  simp only [OliaSender.inBNotM, Bool.and_eq_true, bne_iff_ne] at hmem
  obtain ⟨id', hid'⟩ := hids.mem_values_iff.mp hs'
  exact ⟨id', s', hid', UInt64.lt_of_le_of_ne (h.upper s' hs') hmem.1⟩

theorem Sizes.exists_max (hm : 0 < m) :
    ∃ id' s', senders id' = some s' ∧ s'.congestionWindow = maxCwnd := by
  rw [← h.countM] at hm
  obtain ⟨s', hs', hmem⟩ := countP_pos_iff.mp hm
  obtain ⟨id', hid'⟩ := hids.mem_values_iff.mp hs'
  exact ⟨id', s', hid', by simpa [OliaSender.inM] using hmem⟩

/-- The last loop of `getEpsilon` for one sender. -/
theorem Sizes.share_spec {id : UInt8} {s : OliaSender} (hs : senders id = some s) :
    ∃ num den, s.share ids.length maxCwnd best (ofNat m) (ofNat b) =
        s.setEpsilon num den ∧ 0 < den.toNat ∧ Share senders s num ∧
      (num.toInt : ℚ) / (den.toNat : ℚ) = if b = 0 then 0
        else if s.inBNotM maxCwnd best then 1 / ((ids.length : ℚ) * b)
        else if s.inM maxCwnd then -1 / ((ids.length : ℚ) * m) else 0 := by
  have hmem : s ∈ values senders ids := hids.mem_values_iff.mpr ⟨id, hs⟩
  have hne : values senders ids ≠ [] := ne_nil_of_mem hmem
  have hm := h.pos hne
  have hsum := h.add_le
  have hsmall := h.small
  have hle := h.upper s hmem
  rw [hids.length_values] at hsum hsmall
  have hzero : ofNat b = 0 ↔ b = 0 := by
    rw [← UInt8.toNat_inj, toNat_ofNat', UInt8.toNat_zero]
    omega
  rw [OliaSender.share]
  by_cases hb : b = 0
  · rw [if_pos (hzero.mpr hb), if_pos hb]
    exact ⟨0, 1, rfl, by decide, .none, by simp⟩
  rw [if_neg (mt hzero.mp hb), if_neg hb]
  have hdenB := toNat_denominator (k := b) hsmall (by omega)
  have hdenM := toNat_denominator (k := m) hsmall (by omega)
  by_cases hmax : s.congestionWindow = maxCwnd
  · -- The sender is in `M`.
    have hnlt : ¬ s.congestionWindow < maxCwnd := by rw [hmax]; exact UInt64.lt_irrefl _
    rw [if_neg fun hand => hnlt hand.1, if_pos hmax,
      if_neg (by simp [OliaSender.inBNotM, hmax]), if_pos (by simp [OliaSender.inM, hmax])]
    obtain ⟨id', s', hid', hlt⟩ := h.exists_lt hids (Nat.pos_of_ne_zero hb)
    refine ⟨-1, _, rfl, ?_, .loss (fun id₁ s₁ hs₁ => ?_) id' s' hid' (hmax ▸ hlt), ?_⟩
    · rw [hdenM]
      exact Nat.mul_pos (by omega) hm
    · rw [hmax]
      exact h.upper s₁ (hids.mem_values_iff.mpr ⟨id₁, hs₁⟩)
    · rw [hdenM]
      simp
  · have hlt := UInt64.lt_of_le_of_ne hle hmax
    by_cases hbest : s.isBest best = true
    · -- The sender is in `BNotM`.
      rw [if_pos ⟨hlt, hbest⟩, if_pos (by simp [OliaSender.inBNotM, hmax, hbest])]
      obtain ⟨id', s', hid', heq⟩ := h.exists_max hids hm
      refine ⟨1, _, rfl, ?_, .gain id' s' hid' (heq ▸ hlt), ?_⟩
      · rw [hdenB]
        exact Nat.mul_pos (by omega) (by omega)
      · rw [hdenB]
        simp
    · rw [if_neg fun hand => hbest hand.2, if_neg hmax,
        if_neg (by simp [OliaSender.inBNotM, hbest]), if_neg (by simp [OliaSender.inM, hmax])]
      exact ⟨0, 1, rfl, by decide, .none, by simp⟩

end

end Call

/-! ### The balance -/

/-- The sum over two disjoint classes of elements. -/
theorem sum_map_classes {α : Type} {p q : α → Bool} (hdisjoint : ∀ a, p a = true → q a = false)
    (x y : ℚ) (l : List α) :
    (l.map fun a => if p a then x else if q a then y else 0).sum =
      l.countP p * x + l.countP q * y := by
  induction l with
  | nil => simp
  | cons a l ih =>
    rw [map_cons, sum_cons, ih, countP_cons, countP_cons]
    cases hp : p a with
    | true =>
      rw [hdisjoint a hp]
      simp
      ring
    | false =>
      cases hq : q a with
      | true =>
        simp
        ring
      | false => simp

variable {senders : OliaSenders} {order : EpsilonOrder}

section

variable (h : order.Of senders)

include h

/-- A call of `getEpsilon` gives every sender its share. -/
theorem getEpsilon_apply (id : UInt8) : let maxCwnd := getMaxCwnd (values senders order.maxCwnd)
    let best := getBest (values senders order.best)
    getEpsilon senders order id = (senders id).map
      (OliaSender.share order.shares.length maxCwnd best
        (ofNat ((values senders order.sizes).countP (·.inM maxCwnd)))
        (ofNat ((values senders order.sizes).countP (·.inBNotM maxCwnd best)))) := by
  simp only [getEpsilon, getSizes_eq]
  rw [h.shares.foldl_modify]

/-- The shares, with the sizes of the two sets. -/
theorem getEpsilon_eq {ids : List UInt8} (hids : Lists senders ids) :
    ∃ maxCwnd best m b, Sizes (values senders ids) maxCwnd best m b ∧
      ∀ id, getEpsilon senders order id = (senders id).map
        (OliaSender.share ids.length maxCwnd best (ofNat m) (ofNat b)) := by
  refine ⟨_, _, _, _, h.sizes_of hids, fun id => ?_⟩
  rw [← (h.shares.perm hids).length_eq]
  exact getEpsilon_apply h id

theorem getEpsilon_isSome (id : UInt8) :
    (getEpsilon senders order id).isSome = (senders id).isSome := by
  obtain ⟨_, _, _, _, -, heq⟩ := getEpsilon_eq h h.shares
  rw [heq, Option.isSome_map]

/-- What a call of `getEpsilon` does to one sender. -/
theorem getEpsilon_spec {id : UInt8} {s : OliaSender} (hs : senders id = some s) :
    ∃ num den, getEpsilon senders order id = some (s.setEpsilon num den) ∧ 0 < den.toNat ∧
      Share senders s num := by
  obtain ⟨_, _, _, _, hsizes, heq⟩ := getEpsilon_eq h h.shares
  obtain ⟨num, den, hshare, hpos, hnum, -⟩ := hsizes.share_spec h.shares hs
  exact ⟨num, den, by rw [heq, hs, Option.map_some, hshare], hpos, hnum⟩

end

/-- Window is moved between the senders, from those with the largest one to others. -/
structure Balanced (senders : OliaSenders) : Prop where
  sum : ∀ ids, Lists senders ids → ((values senders ids).map OliaSender.epsilon).sum = 0
  den_pos : ∀ id s, senders id = some s → 0 < s.olia.epsilonDen
  negative : ∀ id s, senders id = some s → s.olia.epsilonNum < 0 →
    ∀ id' s', senders id' = some s' → s'.congestionWindow ≤ s.congestionWindow
  positive : ∀ id s, senders id = some s → 0 < s.olia.epsilonNum →
    ∃ id' s', senders id' = some s' ∧ s.congestionWindow < s'.congestionWindow

/-- The shares add up to zero. -/
theorem getEpsilon_sum (h : order.Of senders) {ids : List UInt8} (hids : Lists senders ids) :
    ((values (getEpsilon senders order) ids).map OliaSender.epsilon).sum = 0 := by
  obtain ⟨maxCwnd, best, m, b, hsizes, heq⟩ := getEpsilon_eq h hids
  have hvalues : (values (getEpsilon senders order) ids).map OliaSender.epsilon =
      (values senders ids).map fun s => if b = 0 then 0
        else if s.inBNotM maxCwnd best then 1 / ((ids.length : ℚ) * b)
        else if s.inM maxCwnd then -1 / ((ids.length : ℚ) * m) else 0 := by
    rw [values, filterMap_congr fun id _ => heq id, ← map_filterMap, map_map]
    refine map_congr_left fun s hs => ?_
    obtain ⟨id, hid⟩ := hids.mem_values_iff.mp hs
    obtain ⟨num, den, hshare, -, -, hratio⟩ := hsizes.share_spec hids hid
    rw [Function.comp_apply, hshare]
    exact hratio
  rw [hvalues]
  by_cases hb : b = 0
  · simp [hb]
  simp only [if_neg hb]
  have hdisjoint : ∀ s : OliaSender, s.inBNotM maxCwnd best = true → s.inM maxCwnd = false := by
    intro s hs
    simp only [OliaSender.inBNotM, Bool.and_eq_true, bne_iff_ne] at hs
    simpa [OliaSender.inM] using hs.1
  have hsum := hsizes.add_le
  have hne : values senders ids ≠ [] := ne_nil_of_length_pos (by omega)
  have hm : (m : ℚ) ≠ 0 := Nat.cast_ne_zero.mpr (Nat.pos_iff_ne_zero.mp (hsizes.pos hne))
  have hb' : (b : ℚ) ≠ 0 := Nat.cast_ne_zero.mpr hb
  have hn : (ids.length : ℚ) ≠ 0 := by
    rw [hids.length_values] at hsum
    exact Nat.cast_ne_zero.mpr (by omega)
  rw [sum_map_classes hdisjoint, hsizes.countB, hsizes.countM]
  field_simp
  ring

/-- After `getEpsilon` the shares are balanced, for every map of senders with any windows,
loss counters and RTTs, and in whatever order its loops go over the map. -/
theorem getEpsilon_balanced (senders : OliaSenders) (order : EpsilonOrder)
    (h : order.Of senders) : Balanced (getEpsilon senders order) := by
  have hback : ∀ id s', getEpsilon senders order id = some s' →
      ∃ s num den, senders id = some s ∧ s' = s.setEpsilon num den ∧ 0 < den.toNat ∧
        Share senders s num := by
    intro id s' hs'
    have hsome := getEpsilon_isSome h id
    rw [hs'] at hsome
    obtain ⟨s, hs⟩ := Option.isSome_iff_exists.mp hsome.symm
    obtain ⟨num, den, heq, hpos, hshare⟩ := getEpsilon_spec h hs
    rw [hs'] at heq
    exact ⟨s, num, den, hs, Option.some.inj heq, hpos, hshare⟩
  constructor
  · intro ids hids
    exact getEpsilon_sum h (hids.of_isSome fun id => (getEpsilon_isSome h id).symm)
  · intro id s' hs'
    obtain ⟨s, num, den, -, rfl, hpos, -⟩ := hback id s' hs'
    exact UInt32.lt_iff_toNat_lt.mpr hpos
  · intro id s' hs' hneg id₁ s₁ hs₁
    obtain ⟨s, num, den, -, rfl, -, hshare⟩ := hback id s' hs'
    obtain ⟨s₂, num₂, den₂, hs₂, rfl, -, -⟩ := hback id₁ s₁ hs₁
    cases hshare with
    | none => exact absurd hneg (by decide : ¬ (0 : Int64) < 0)
    | gain => exact absurd hneg (by decide : ¬ (1 : Int64) < 0)
    | loss hmax => exact hmax id₁ s₂ hs₂
  · intro id s' hs' hpos
    obtain ⟨s, num, den, -, rfl, -, hshare⟩ := hback id s' hs'
    cases hshare with
    | none => exact absurd hpos (by decide : ¬ (0 : Int64) < 0)
    | gain id₁ s₁ hs₁ hlt =>
      obtain ⟨num₁, den₁, heq, -, -⟩ := getEpsilon_spec h hs₁
      exact ⟨id₁, _, heq, hlt⟩
    | loss => exact absurd hpos (by decide : ¬ (0 : Int64) < -1)

/-- The path 1 with a large window and the path 3 that transfers more. -/
def twoSenders : OliaSenders := fun id => List.lookup id
  [(1, { newOliaSender 32 2500 with congestionWindow := 40, smoothedRTT := 30 }),
    (3, { newOliaSender 32 2500 with smoothedRTT := 20, olia := { newOlia 0 with loss3 := 5000 } })]

/-- The first path gives a half of what it may to the second one. -/
theorem getEpsilon_balanced_two :
    (getEpsilon twoSenders ⟨[1, 3], [3, 1], [1, 3], [3, 1]⟩ 1).map (fun s =>
      (s.olia.epsilonNum, s.olia.epsilonDen)) = some (-1, 2) ∧
    Balanced (getEpsilon twoSenders ⟨[1, 3], [3, 1], [1, 3], [3, 1]⟩) := by
  have hlists : Lists twoSenders [1, 3] := lists_lookup _ (by decide)
  have hlists' : Lists twoSenders [3, 1] := hlists.of_perm (by decide)
  exact ⟨by decide +kernel, getEpsilon_balanced twoSenders _ ⟨hlists, hlists', hlists, hlists'⟩⟩

end RlncStreaming.Quic
