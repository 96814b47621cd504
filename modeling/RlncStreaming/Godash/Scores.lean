import Mathlib.Algebra.Order.BigOperators.Group.Finset
import RlncStreaming.Godash.History

/-!
The accumulators of the quality of experience.

Every entry of the log has the accumulators after its segment. `streamLoop` computes them from the
entry of the segment before. Those about rates are right (`RatesRight`). A stall is logged as a
number below zero: it is never counted, and its length is added to that of the segment before
only. So the accumulators are right just as long as nothing stalls (`accumulators_faithful_iff`).
-/

namespace RlncStreaming.Godash

open Lib Finset Seen

/-! ### Rates -/

/-- The accumulators about rates are right after `k` segments with the rates `b`. -/
structure RatesRight (b : Nat → Int) (k : Nat) (q : QoE) : Prop where
  sumSegRate : q.sumSegRate = ∑ i ∈ Finset.Icc 1 k, b i
  numSwitches : q.numSwitches = ((Finset.Icc 2 k).filter fun i => b i ≠ b (i - 1)).card
  sumRateChange : q.sumRateChange = ∑ i ∈ Finset.Icc 2 k, ((b i - b (i - 1)).natAbs : Int)

theorem RatesRight.congr {b b' : Nat → Int} {k : Nat} {q : QoE} (h : RatesRight b k q)
    (hb : ∀ i, 1 ≤ i → i ≤ k → b' i = b i) : RatesRight b' k q := by
  have hpair : ∀ i ∈ Finset.Icc 2 k, b' i = b i ∧ b' (i - 1) = b (i - 1) := by
    intro i hi
    obtain ⟨hlo, hhi⟩ := mem_Icc.mp hi
    exact ⟨hb i (by omega) hhi, hb (i - 1) (by omega) (by omega)⟩
  refine ⟨h.sumSegRate.trans ?_, h.numSwitches.trans ?_, h.sumRateChange.trans ?_⟩
  · apply sum_congr rfl
    intro i hi
    obtain ⟨hlo, hhi⟩ := mem_Icc.mp hi
    exact (hb i hlo hhi).symm
  · have hfilter : (Finset.Icc 2 k).filter (fun i => b i ≠ b (i - 1)) =
        (Finset.Icc 2 k).filter fun i => b' i ≠ b' (i - 1) := by
      apply filter_congr
      intro i hi
      rw [(hpair i hi).1, (hpair i hi).2]
    rw [hfilter]
  · apply sum_congr rfl
    intro i hi
    rw [(hpair i hi).1, (hpair i hi).2]

/-- A segment after the first one. -/
theorem RatesRight.step {b : Nat → Int} {k : Nat} {previous : Entry}
    (h : RatesRight b k previous.qoe) (hk : 1 ≤ k) (hprevious : previous.bandwidth = b k)
    (qoe : QoE) (stallTime : Int) :
    RatesRight b (k + 1) (accumulate qoe previous (k + 1 : Nat) (b (k + 1)) stallTime) := by
  rw [accumulate, if_pos (by omega), hprevious, h.sumSegRate, h.numSwitches, h.sumRateChange]
  refine ⟨?_, ?_, ?_⟩
  · rw [sum_Icc_succ_top (by omega)]
  · rw [card_filter, card_filter, sum_Icc_succ_top (by omega), Nat.add_sub_cancel]
    dsimp only
    split
    · next hsame => rw [if_neg (fun hne => hne hsame), Nat.add_zero]
    · rw [Nat.cast_add, Nat.cast_one]
  · rw [sum_Icc_succ_top (by omega), Nat.add_sub_cancel]

/-! ### The log -/

variable {env : Environment} {w : World} {s : StreamStruct}

/-- What the log has for segment `k`. -/
structure Logged (p : Playback) (k : Nat) : Prop where
  rates : RatesRight (fun i => (p.entry 0 i).bandwidth) k (p.entry 0 k).qoe
  /-- No stall is above zero. -/
  numStalls : (p.entry 0 k).qoe.numStalls = 0
  /-- The stalls before the last two are forgotten. -/
  totalStallDur : (p.entry 0 k).qoe.totalStallDur =
    (p.entry 0 k).stallTime + if 1 < k then (p.entry 0 (k - 1 : Nat)).stallTime else 0

/-- The state of a player that computes the accumulators. -/
structure Accounted (w : World) (s : StreamStruct) : Prop where
  noted : Noted w s
  on : w.getQoEBool = true
  unchanged : w.play.seen = [] → w.play.qoe.sumRateChange = 0
  entries : ∀ k : Nat, 1 ≤ k → k ≤ w.play.seen.length → Logged w.play k

theorem Logged.congr {p p' : Playback} {k : Nat} (h : Logged p k)
    (hentry : ∀ i : Nat, i ≤ k → p'.entry 0 i = p.entry 0 i) : Logged p' k := by
  refine ⟨?_, ?_, ?_⟩
  · rw [hentry k (Nat.le_refl k)]
    apply h.rates.congr
    intro i _ hi
    rw [hentry i hi]
  · rw [hentry k (Nat.le_refl k)]
    exact h.numStalls
  · rw [hentry k (Nat.le_refl k), hentry (k - 1) (Nat.sub_le k 1)]
    exact h.totalStallDur

/-- The accumulators about stalls. -/
theorem accumulate_stalls {stallTime : Int} (hnot : ¬ stallTime > 0) (qoe : QoE) (previous : Entry)
    (segmentNumber bandwidth : Int) :
    (accumulate qoe previous segmentNumber bandwidth stallTime).numStalls =
        (if 1 < segmentNumber then previous.qoe.numStalls else 0) ∧
      (accumulate qoe previous segmentNumber bandwidth stallTime).totalStallDur =
        stallTime + if 1 < segmentNumber then previous.stallTime else 0 := by
  rw [accumulate]
  by_cases hlater : 1 < segmentNumber
  · rw [if_pos hlater, if_pos hlater, if_pos hlater]
    exact ⟨if_neg hnot, Int.add_comm _ _⟩
  · rw [if_neg hlater, if_neg hlater, if_neg hlater]
    exact ⟨if_neg hnot, (Int.add_zero _).symm⟩

section Segment

variable {t : World × StreamStruct} {hlsReplaced : Bool}

variable (h : Accounted w s) (hseg : segment env 0 hlsReplaced w s = .ok t)

include h hseg

/-- The entry of a new segment. -/
theorem Accounted.logged : Logged t.1.play (w.play.seen.length + 1) := by
  have hprog := segment_progressed hseg
  obtain ⟨e, hentry, -, hstall, hqoe⟩ := segment_entry hseg
  have hnot : ¬ e.stallTime > 0 := by
    rw [hstall, hprog.stallTime, newStallTime_eq h.noted.unstalled]
    have := (seenNext env w s).waited_nonneg
    omega
  have hnumber : s.segmentNumber = (w.play.seen.length + 1 : Nat) := h.noted.number
  have hbefore : ((w.play.seen.length + 1 : Nat) : Int) - 1 = (w.play.seen.length : Nat) := by omega
  have hqoe := hqoe h.on
  rw [h.noted.log, hnumber] at hentry hqoe
  rw [hbefore] at hqoe
  obtain ⟨hnumStalls, htotal⟩ := accumulate_stalls hnot w.play.qoe
    (w.play.entry 0 w.play.seen.length) (w.play.seen.length + 1 : Nat) e.bandwidth
  rw [← hqoe] at hnumStalls htotal
  have hlater : 1 < ((w.play.seen.length + 1 : Nat) : Int) ↔ 1 < w.play.seen.length + 1 := by omega
  refine ⟨?_, ?_, ?_⟩
  · have hrate : e.bandwidth = (t.1.play.entry 0 (w.play.seen.length + 1 : Nat)).bandwidth := by
      rw [hentry]
    rw [hentry, hqoe, hrate]
    rcases Nat.eq_zero_or_pos w.play.seen.length with hfirst | hpos
    · have hnil : w.play.seen = [] := List.length_eq_zero_iff.mp hfirst
      rw [hfirst, accumulate, if_neg (by decide)]
      refine ⟨?_, rfl, h.unchanged hnil⟩
      rw [Nat.zero_add, Finset.Icc_self, sum_singleton]
    have hrates : RatesRight (fun i => (t.1.play.entry 0 i).bandwidth) w.play.seen.length
        (w.play.entry 0 w.play.seen.length).qoe := by
      apply (h.entries _ hpos (Nat.le_refl _)).rates.congr
      intro i _ hi
      rw [h.noted.entry_of_le hseg hi]
    refine hrates.step hpos ?_ _ _
    rw [h.noted.entry_of_le hseg (Nat.le_refl _)]
  · rw [hentry, hnumStalls]
    split
    · exact (h.entries _ (by omega) (Nat.le_refl _)).numStalls
    · rfl
  · rw [hentry, htotal, Nat.add_sub_cancel, h.noted.entry_of_le hseg (Nat.le_refl _)]
    simp only [hlater]

theorem Accounted.segment : Accounted t.1 t.2 := by
  have hprog := segment_progressed hseg
  refine ⟨h.noted.segment hseg, ?_, ?_, ?_⟩
  · obtain ⟨play, hw⟩ := hprog.world
    rw [hw]
    exact h.on
  · rw [hprog.seen]
    intro hnil
    exact absurd hnil (List.append_ne_nil_of_right_ne_nil _ (List.cons_ne_nil _ _))
  intro k hlo hhi
  rw [hprog.length] at hhi
  rcases Nat.lt_or_eq_of_le hhi with hold | rfl
  · have hold := Nat.le_of_lt_succ hold
    apply (h.entries k hlo hold).congr
    intro i hi
    exact h.noted.entry_of_le hseg (Nat.le_trans hi hold)
  · exact h.logged hseg

end Segment

theorem keeps_accounted : Keeps env Accounted := by
  apply keeps_of_segment
  · intro w s mimeType sel logs consults streamDuration bandwithList oldMPDIndex nextSegmentNumber h
    exact ⟨h.noted.frame _ _ _ _ _ _ _ _, h.on, h.unchanged, h.entries⟩
  · intro w s t h hseg
    exact h.segment hseg

theorem Started.accounted {c : Config} (hon : c.getQoEBool = true) (h : Started c w s) :
    Accounted w s := by
  have hnoted := h.noted
  obtain ⟨_, _, _, _, _, _, _, -, rfl, rfl⟩ := h
  refine ⟨hnoted, hon, fun _ => rfl, ?_⟩
  intro k hlo hhi
  exact absurd (Nat.le_trans hlo hhi) (Nat.not_succ_le_zero 0)

/-! ### Every run -/

/-- The entry of segment `k` has the accumulators of the segments up to it. -/
structure Faithful (p : Playback) (k : Nat) : Prop where
  sumSegRate : (p.entry 0 k).qoe.sumSegRate = ∑ i ∈ Finset.Icc 1 k, (p.entry 0 i).bandwidth
  numSwitches : (p.entry 0 k).qoe.numSwitches = ((Finset.Icc 2 k).filter fun i : Nat =>
    (p.entry 0 i).bandwidth ≠ (p.entry 0 (i - 1 : Nat)).bandwidth).card
  sumRateChange : (p.entry 0 k).qoe.sumRateChange = ∑ i ∈ Finset.Icc 2 k,
    (((p.entry 0 i).bandwidth - (p.entry 0 (i - 1 : Nat)).bandwidth).natAbs : Int)
  numStalls : (p.entry 0 k).qoe.numStalls =
    ((Finset.Icc 1 k).filter fun i => valueAt waited p.seen i ≠ 0).card
  totalStallDur : (p.entry 0 k).qoe.totalStallDur = ∑ i ∈ Finset.Icc 1 k, valueAt waited p.seen i

/-- The entries of the log are faithful just if nothing has stalled. -/
theorem Accounted.faithful_iff (h : Accounted w s) {k : Nat} (hlo : 1 ≤ k)
    (hhi : k ≤ w.play.seen.length) :
    Faithful w.play k ↔ ∀ i, 1 ≤ i → i ≤ k → valueAt waited w.play.seen i = 0 := by
  have hk := h.entries k hlo hhi
  have hnonneg := valueAt_nonneg waited_nonneg w.play.seen
  constructor
  · intro hfaithful i hi hik
    -- what is logged is not above zero
    have hbefore : (if 1 < k then (w.play.entry 0 (k - 1 : Nat)).stallTime else 0) ≤ 0 := by
      split
      · rw [(h.noted.logged (k - 1) (by omega) (by omega)).1]
        exact Int.neg_nonpos_of_nonneg (hnonneg (k - 1))
      · exact Int.le_refl 0
    have hsum := hfaithful.totalStallDur
    rw [hk.totalStallDur, (h.noted.logged k hlo hhi).1] at hsum
    have hzero : ∑ i ∈ Finset.Icc 1 k, valueAt waited w.play.seen i = 0 := by
      have hlast := hnonneg k
      have hge := sum_nonneg fun i (_ : i ∈ Finset.Icc 1 k) => hnonneg i
      omega
    exact (sum_eq_zero_iff_of_nonneg fun i _ => hnonneg i).mp hzero i
      (mem_Icc.mpr ⟨hi, hik⟩)
  · intro hnone
    have hzero : ∀ i ∈ Finset.Icc 1 k, valueAt waited w.play.seen i = 0 := by
      intro i hi
      obtain ⟨hi, hik⟩ := mem_Icc.mp hi
      exact hnone i hi hik
    refine ⟨hk.rates.sumSegRate, hk.rates.numSwitches, hk.rates.sumRateChange, ?_, ?_⟩
    · have hempty : ((Finset.Icc 1 k).filter fun i =>
          valueAt waited w.play.seen i ≠ 0) = ∅ := by
        apply filter_eq_empty_iff.mpr
        intro i hi hne
        exact hne (hzero i hi)
      rw [hk.numStalls, hempty]
      rfl
    · rw [hk.totalStallDur, (h.noted.logged k hlo hhi).1, hnone k hlo (Nat.le_refl k),
        sum_eq_zero hzero]
      split
      · rw [(h.noted.logged (k - 1) (by omega) (by omega)).1, hnone (k - 1) (by omega) (by omega)]
        rfl
      · rfl

/-- In every run with one adaptation set and with the accumulators on, the entry of a segment is
faithful just if no segment up to it has stalled. -/
theorem accumulators_faithful_iff {c : Config} (hon : c.getQoEBool = true) {w₀ : World}
    {s₀ : StreamStruct} (hstart : stream c = .ok (w₀, [s₀])) {fuel : Nat} {q : Outcome}
    (hrun : Run env (streamLoop env fuel) (.next w₀ [s₀]) q) {k : Nat} (hlo : 1 ≤ k)
    (hhi : k ≤ q.world.play.seen.length) :
    Faithful q.world.play k ↔ ∀ i, 1 ≤ i → i ≤ k → valueAt waited q.world.play.seen i = 0 := by
  obtain ⟨⟨s, haccounted⟩, -⟩ :=
    hrun.one_set keeps_accounted hstart ((stream_one hstart).accounted hon)
  exact haccounted.faithful_iff hlo hhi

/-- Downloads of five seconds for segments of two: three segments stall for seven seconds. The log
has six of them, below zero, and no stall. -/
theorem stalls_forgotten :
    (after (steady 5000) (wholeClip false) 5).map (fun q =>
        ([1, 2, 3, 4, 5].map (valueAt waited q.world.play.seen),
          (q.world.play.entry 0 5).qoe.totalStallDur, (q.world.play.entry 0 5).qoe.numStalls)) =
      .ok ([0, 0, 1000, 3000, 3000], -6000, 0) := by
  decide +kernel

theorem accumulators_faithful_steady :
    ∃ q, after (steady 1000) (wholeClip false) 3 = .ok q ∧ q.world.play.seen.length = 3 ∧
      Faithful q.world.play 3 := by
  have hreach : ∃ w₀ s₀ q, stream (wholeClip false) = .ok (w₀, [s₀]) ∧
      calls (steady 1000) (streamLoop (steady 1000) 1) (.next w₀ [s₀]) 3 = .ok q ∧
      q.world.play.seen.length = 3 ∧ ∀ i < 4, valueAt waited q.world.play.seen i = 0 :=
    ⟨_, _, _, rfl, rfl, rfl, by decide⟩
  obtain ⟨w₀, s₀, q, hstart, hcalls, hseen, hwaited⟩ := hreach
  refine ⟨q, by rw [after, hstart]; exact hcalls, hseen, ?_⟩
  apply (accumulators_faithful_iff rfl hstart (run_calls hcalls) (by decide)
    (Nat.le_of_eq hseen.symm)).mpr
  intro i _ hhi
  exact hwaited i (Nat.lt_succ_of_le hhi)

end RlncStreaming.Godash
