import Mathlib.Algebra.Order.BigOperators.Group.Finset
import RlncStreaming.Godash.History

/-!
The buffer and the clock.

The buffer should be the media time that was downloaded less the media time that was played. The
player measures the time from the arrival of one segment to that of the next one. If a segment
overfills the buffer, it sleeps after the arrival and takes what is too much from the buffer. This
time is then also in the next measurement, and taken from the buffer again. A fraction of a
millisecond is dropped from each measurement.

`Trail` says how the segments of a run follow each other, and the law for the buffer is a theorem
about trails (`Trail.law`): it is off by the time slept before the last segment, less the fractions.
-/

namespace RlncStreaming.Godash

open Lib Seen List

/-! ### Trails -/

/-- The fraction of a millisecond that is dropped from the time since the segment before. -/
def Seen.fraction (x : Seen) : Int := if x.playing then x.gap.tmod nanos else 0

/-- Segments of a run in which playing begins after `n` of them. -/
inductive Trail (n : Nat) : List Seen → Prop
  | nil : Trail n []
  | snoc {seen : List Seen} {x : Seen} : Trail n seen →
      x.playing = decide (n ≤ seen.length) →
      x.buffer = valueAt Seen.level seen seen.length →
      (1 ≤ seen.length → x.gap = x.arrived - valueAt Seen.arrived seen seen.length) →
      x.ready = x.arrived + x.excess * nanos →
      Trail n (seen ++ [x])

/-- The sum of the values for all segments. -/
def sumSeen (f : Seen → Int) (seen : List Seen) : Int :=
  ∑ i ∈ Finset.Icc 1 seen.length, valueAt f seen i

theorem sumSeen_append (f : Seen → Int) (seen : List Seen) (x : Seen) :
    sumSeen f (seen ++ [x]) = sumSeen f seen + f x := by
  rw [sumSeen, length_append, length_singleton,
    Finset.sum_Icc_succ_top (Nat.succ_le_succ (Nat.zero_le _)), valueAt_last]
  refine congrArg (· + f x) (Finset.sum_congr rfl ?_)
  intro i hi
  obtain ⟨hlo, hhi⟩ := Finset.mem_Icc.mp hi
  exact valueAt_append hlo hhi x

/-- What there is before playing begins. -/
theorem Seen.idle {x : Seen} (h : x.playing = false) :
    x.played = 0 ∧ x.fraction = 0 ∧ x.waited = 0 := by
  rw [played, fraction, waited, h]
  exact ⟨rfl, rfl, rfl⟩

/-- The time since the segment before. -/
theorem Seen.gap_eq {x : Seen} (h : x.playing = true) : x.gap = nanos * x.played + x.fraction := by
  rw [played, fraction, h, if_pos rfl, if_pos rfl]
  exact (Int.mul_tdiv_add_tmod x.gap nanos).symm

section Laws

variable {n : Nat} {seen : List Seen}

section

variable (h : Trail n seen)

include h

theorem Trail.idle {i : Nat} (hlo : 1 ≤ i) (hhi : i ≤ n) :
    valueAt played seen i = 0 ∧ valueAt fraction seen i = 0 ∧ valueAt waited seen i = 0 := by
  induction h with
  | nil => exact ⟨rfl, rfl, rfl⟩
  | @snoc seen x _ hplaying _ _ _ ih =>
    rcases Nat.lt_trichotomy i (seen.length + 1) with hold | rfl | hnew
    · have hold := Nat.le_of_lt_succ hold
      rw [valueAt_append hlo hold, valueAt_append hlo hold, valueAt_append hlo hold]
      exact ih
    · rw [valueAt_last, valueAt_last, valueAt_last]
      apply Seen.idle
      rw [hplaying]
      exact decide_eq_false (Nat.not_le_of_lt hhi)
    have hnone : (seen ++ [x])[i - 1]? = none := by
      apply getElem?_eq_none
      rw [length_append, length_singleton]
      omega
    rw [valueAt, valueAt, valueAt, hnone]
    exact ⟨rfl, rfl, rfl⟩

/-- Nothing is played while the buffer is filled for the first time. -/
theorem Trail.sum_idle (hle : seen.length ≤ n) :
    sumSeen played seen = 0 ∧ sumSeen fraction seen = 0 := by
  constructor
  · apply Finset.sum_eq_zero
    intro i hi
    obtain ⟨hlo, hhi⟩ := Finset.mem_Icc.mp hi
    exact (h.idle hlo (Nat.le_trans hhi hle)).1
  · apply Finset.sum_eq_zero
    intro i hi
    obtain ⟨hlo, hhi⟩ := Finset.mem_Icc.mp hi
    exact (h.idle hlo (Nat.le_trans hhi hle)).2.1

/-- The buffer after the last segment. -/
theorem Trail.level :
    valueAt level seen seen.length = sumSeen duration seen - sumSeen excess seen -
      sumSeen played seen + sumSeen waited seen := by
  induction h with
  | nil => rfl
  | @snoc seen x _ _ hbuffer _ _ ih =>
    rw [length_append, length_singleton, valueAt_last, sumSeen_append, sumSeen_append,
      sumSeen_append, sumSeen_append, Seen.level, Seen.left_eq, hbuffer, ih]
    omega

/-- The time since playing began. -/
theorem Trail.arrived (hn : 1 ≤ n) (hle : n ≤ seen.length) :
    valueAt arrived seen seen.length - valueAt arrived seen n =
      nanos * sumSeen played seen + sumSeen fraction seen := by
  induction h with
  | nil => exact absurd (Nat.le_trans hn hle) (Nat.not_succ_le_zero 0)
  | @snoc seen x htrail hplaying hbuffer hgap hready ih =>
    rw [length_append, length_singleton] at hle ⊢
    rcases Nat.lt_or_eq_of_le hle with hold | rfl
    · -- the segment arrives while the player plays
      have hold := Nat.le_of_lt_succ hold
      have hbefore := ih hold
      have hgap := hgap (Nat.le_trans hn hold)
      rw [gap_eq (by rw [hplaying]; exact decide_eq_true hold)] at hgap
      rw [valueAt_last, valueAt_append hn hold, sumSeen_append, sumSeen_append, Int.mul_add]
      omega
    · -- with this segment playing begins
      have hsnoc : Trail (seen.length + 1) (seen ++ [x]) := .snoc htrail hplaying
        hbuffer hgap hready
      obtain ⟨hplayed, hfraction⟩ := hsnoc.sum_idle (by
        rw [length_append, length_singleton])
      rw [hplayed, hfraction, Int.sub_self]
      rfl

theorem Trail.ready (hpos : 1 ≤ seen.length) :
    valueAt ready seen seen.length =
      valueAt Seen.arrived seen seen.length + valueAt Seen.excess seen seen.length * nanos := by
  cases h with
  | nil => exact absurd hpos (Nat.not_succ_le_zero 0)
  | snoc _ _ _ _ hready =>
    rw [length_append, length_singleton, valueAt_last, valueAt_last, valueAt_last]
    exact hready

/-- Nothing stalls before playing begins. -/
theorem Trail.waited :
    ∑ i ∈ Finset.Icc (n + 1) seen.length, valueAt waited seen i = sumSeen waited seen := by
  apply Finset.sum_subset
  · exact Finset.Icc_subset_Icc_left (Nat.succ_le_succ (Nat.zero_le n))
  intro i hi hbefore
  obtain ⟨hlo, hhi⟩ := Finset.mem_Icc.mp hi
  have hle : i ≤ n := by
    by_contra hlater
    exact hbefore (Finset.mem_Icc.mpr ⟨Nat.succ_le_of_lt (Nat.not_le.mp hlater), hhi⟩)
  exact (h.idle hlo hle).2.2

end

/-- The time slept before the last segment. -/
def sleptBefore (seen : List Seen) : Int :=
  ∑ i ∈ Finset.Icc 1 (seen.length - 1), valueAt Seen.excess seen i

theorem sumSeen_excess (hpos : 1 ≤ seen.length) :
    sumSeen excess seen = sleptBefore seen + valueAt excess seen seen.length := by
  obtain ⟨k, hk⟩ := Nat.exists_eq_add_of_le hpos
  rw [sumSeen, sleptBefore, hk, Nat.add_comm 1 k,
    Finset.sum_Icc_succ_top (Nat.succ_le_succ (Nat.zero_le k)), Nat.add_sub_cancel]

/-- Law of the buffer, in nanoseconds. -/
theorem Trail.law (h : Trail n seen) (hn : 1 ≤ n) (hle : n ≤ seen.length) :
    nanos * (sumSeen Seen.duration seen - valueAt Seen.level seen seen.length +
        sumSeen Seen.waited seen) -
      (valueAt Seen.ready seen seen.length - valueAt Seen.arrived seen n) =
    nanos * sleptBefore seen - sumSeen fraction seen := by
  have hpos := Nat.le_trans hn hle
  have hlevel := h.level
  have harrived := h.arrived hn hle
  have hready := h.ready hpos
  have hexcess := sumSeen_excess hpos
  unfold nanos at *
  omega

end Laws

/-! ### Runs are trails -/

variable {env : Environment} {w : World} {s : StreamStruct} {n : Nat}

/-- Every download takes a whole number of milliseconds. -/
def WholeMilliseconds (env : Environment) : Prop := ∀ j, nanos ∣ (env.input j).elapsed

/-- The segments so far are a trail, and the player's variables are those of its end. -/
structure Clocked (env : Environment) (n : Nat) (w : World) (s : StreamStruct) : Prop where
  noted : Noted w s
  initBuffer : s.initBuffer = n
  counter : w.play.waitToPlayCounter = w.play.seen.length
  buffer : s.bufferLevel = valueAt Seen.level w.play.seen w.play.seen.length
  arrived : 1 ≤ w.play.seen.length →
    s.nextRunTime = valueAt Seen.arrived w.play.seen w.play.seen.length
  clock : 1 ≤ w.play.seen.length →
    w.play.clock = s.nextRunTime + valueAt Seen.excess w.play.seen w.play.seen.length * nanos
  trail : Trail n w.play.seen
  whole : WholeMilliseconds env → ∀ i, valueAt Seen.fraction w.play.seen i = 0

/-- The player is playing just if enough segments are there. -/
theorem Clocked.playing (h : Clocked env n w s) :
    (seenNext env w s).playing = decide (n ≤ w.play.seen.length) := by
  unfold seenNext
  dsimp only
  rw [h.initBuffer, h.counter]
  exact decide_eq_decide.mpr Int.ofNat_le

/-- With whole milliseconds no fraction is dropped. -/
theorem Clocked.fraction (h : Clocked env n w s) (hn : 1 ≤ n) (hwhole : WholeMilliseconds env) :
    (seenNext env w s).fraction = 0 := by
  unfold Seen.fraction
  split
  · next hplaying =>
    rw [h.playing] at hplaying
    have hsome := Nat.le_trans hn (of_decide_eq_true hplaying)
    apply Int.tmod_eq_zero_of_dvd
    have hgap : (seenNext env w s).gap = arrival env w s - w.play.clock +
        valueAt excess w.play.seen w.play.seen.length * nanos := by
      have hclock := h.clock hsome
      unfold seenNext
      dsimp only
      omega
    rw [hgap]
    refine Int.dvd_add ?_ (Int.dvd_mul_left _ _)
    -- the segment arrives at once, or when its download is done
    unfold arrival Playback.download
    split
    · rw [Int.sub_self]
      exact Int.dvd_zero nanos
    · dsimp only
      rw [Int.add_comm, Int.add_sub_cancel]
      exact hwhole w.play.downloads
  · rfl

theorem Clocked.segment (h : Clocked env n w s) (hn : 1 ≤ n) {hlsReplaced : Bool}
    {t : World × StreamStruct} (hseg : segment env 0 hlsReplaced w s = .ok t) :
    Clocked env n t.1 t.2 := by
  have hprog := segment_progressed hseg
  obtain ⟨arrivalTime, repRate, hrecord⟩ := hprog.record
  have hlast : ∀ f, valueAt f t.1.play.seen t.1.play.seen.length = f (seenNext env w s) := by
    intro f
    rw [hprog.length, hprog.seen, valueAt_last]
  have hnext : t.2.nextRunTime = arrival env w s := by
    rw [hrecord]
  refine ⟨h.noted.segment hseg, ?_, ?_, ?_, fun _ => ?_, fun _ => ?_, ?_, ?_⟩
  · rw [hrecord]
    exact h.initBuffer
  · rw [hprog.counter, hprog.length, h.counter, Int.natCast_succ]
  · rw [hlast, hprog.bufferLevel]
  · rw [hlast, hnext]
    rfl
  · rw [hlast, hnext, hprog.clock, ← sleepTime_eq]
    rfl
  · rw [hprog.seen]
    refine .snoc h.trail h.playing h.buffer ?_ ?_
    · intro hsome
      rw [← h.arrived hsome]
      rfl
    · rw [← sleepTime_eq]
      rfl
  · intro hwhole i
    rw [hprog.seen]
    by_cases hold : i - 1 < w.play.seen.length
    · rw [valueAt, getElem?_append_left hold]
      exact h.whole hwhole i
    rw [valueAt, getElem?_append_right (Nat.not_lt.mp hold)]
    cases i - 1 - w.play.seen.length with
    | zero => exact h.fraction hn hwhole
    | succ j => rfl

theorem keeps_clocked (hn : 1 ≤ n) : Keeps env (Clocked env n) := by
  apply keeps_of_segment
  · intro w s mimeType sel logs consults streamDuration bandwithList oldMPDIndex nextSegmentNumber h
    exact { h with noted := h.noted.frame _ _ _ _ _ _ _ _ }
  · intro w s t h hseg
    exact h.segment hn hseg

theorem Started.clocked {c : Config} (hinit : c.initBuffer = n) (h : Started c w s) :
    Clocked env n w s := by
  have hnoted := h.noted
  obtain ⟨_, _, _, _, _, _, _, -, rfl, rfl⟩ := h
  have hnone : ∀ {P : Prop}, 1 ≤ 0 → P := fun hsome => absurd hsome (Nat.not_succ_le_zero 0)
  exact ⟨hnoted, hinit, rfl, rfl, hnone, hnone, .nil, fun _ _ => rfl⟩

/-! ### Every run -/

/-- After the last segment the logged buffer level is the media time downloaded, less the time since
playing began with segment `n`, plus the stalls logged since. In nanoseconds. -/
def Balanced (n : Nat) (p : Playback) : Prop :=
  nanos * (p.entry 0 p.seen.length).bufferLevel =
    nanos * sumSeen Seen.duration p.seen -
      (valueAt Seen.ready p.seen p.seen.length - valueAt Seen.arrived p.seen n -
        nanos * ∑ i ∈ Finset.Icc (n + 1) p.seen.length, ((p.entry 0 i).stallTime.natAbs : Int))

instance (n : Nat) (p : Playback) : Decidable (Balanced n p) := inferInstanceAs (Decidable (_ = _))

theorem Clocked.balanced_iff (h : Clocked env n w s) (hn : 1 ≤ n) (hle : n ≤ w.play.seen.length) :
    Balanced n w.play ↔ nanos * sleptBefore w.play.seen = sumSeen Seen.fraction w.play.seen := by
  have hlaw := h.trail.law hn hle
  have hstalls : ∑ i ∈ Finset.Icc (n + 1) w.play.seen.length,
      ((w.play.entry 0 i).stallTime.natAbs : Int) = sumSeen waited w.play.seen := by
    rw [← h.trail.waited]
    apply Finset.sum_congr rfl
    intro i hi
    obtain ⟨hlo, hhi⟩ := Finset.mem_Icc.mp hi
    have hlogged := (h.noted.logged i (Nat.le_trans (Nat.succ_le_succ (Nat.zero_le n)) hlo) hhi).1
    have hnonneg := valueAt_nonneg waited_nonneg w.play.seen i
    omega
  unfold Balanced
  rw [hstalls, (h.noted.logged _ (Nat.le_trans hn hle) (Nat.le_refl _)).2]
  unfold nanos at *
  omega

/-- In every run with one adaptation set, after every segment from the `initBuffer`-th on: the
buffer level matches the clock just if the time slept before that segment is the sum of the
fractions of a millisecond that were dropped. If all downloads take whole milliseconds, it does
just if no segment before it overfilled the buffer. -/
theorem buffer_level_matches_iff {c : Config} (hinit : 1 ≤ c.initBuffer) {w₀ : World}
    {s₀ : StreamStruct} (hstart : stream c = .ok (w₀, [s₀])) {fuel : Nat} {q : Outcome}
    (hrun : Run env (streamLoop env fuel) (.next w₀ [s₀]) q)
    (hplaying : c.initBuffer ≤ q.world.play.seen.length) :
    (Balanced c.initBuffer.toNat q.world.play ↔
        nanos * sleptBefore q.world.play.seen = sumSeen Seen.fraction q.world.play.seen) ∧
      (WholeMilliseconds env →
        (Balanced c.initBuffer.toNat q.world.play ↔
          ∀ i, 1 ≤ i → i < q.world.play.seen.length →
            valueAt Seen.excess q.world.play.seen i = 0)) := by
  have hn : 1 ≤ c.initBuffer.toNat := by omega
  have hnat : c.initBuffer = c.initBuffer.toNat := by omega
  obtain ⟨⟨s, hclocked⟩, -⟩ :=
    hrun.one_set (keeps_clocked hn) hstart ((stream_one hstart).clocked hnat)
  have hiff := hclocked.balanced_iff hn (by omega)
  refine ⟨hiff, fun hwhole => ?_⟩
  have hfraction : sumSeen Seen.fraction q.world.play.seen = 0 :=
    Finset.sum_eq_zero fun i _ => hclocked.whole hwhole i
  have hnonneg : ∀ i ∈ Finset.Icc 1 (q.world.play.seen.length - 1),
      0 ≤ valueAt Seen.excess q.world.play.seen i :=
    fun i _ => valueAt_nonneg Seen.excess_nonneg _ i
  rw [hiff, hfraction, Int.mul_eq_zero, or_iff_right (by decide)]
  refine (Finset.sum_eq_zero_iff_of_nonneg hnonneg).trans ?_
  constructor
  · intro hzero i hlo hhi
    exact hzero i (Finset.mem_Icc.mpr ⟨hlo, Nat.le_sub_one_of_lt hhi⟩)
  · intro hzero i hi
    obtain ⟨hlo, hhi⟩ := Finset.mem_Icc.mp hi
    exact hzero i hlo (by omega)

/-- A buffer of three seconds, and downloads of half a second: the second segment overfills the
buffer by a second. After the third one there are three seconds in the buffer, with six seconds
downloaded and two seconds since playing began. -/
theorem slept_counted_twice :
    (after (steady 500) { wholeClip false with maxBuffer := 3 } 3).map (fun q =>
        (q.world.play.seen.map excess, (q.world.play.entry 0 3).bufferLevel,
          sumSeen duration q.world.play.seen,
          valueAt ready q.world.play.seen 3 - valueAt arrived q.world.play.seen 2,
          decide (Balanced 2 q.world.play))) =
      .ok ([0, 1000, 500], 3000, 6000, 2000 * nanos, false) := by
  decide +kernel

theorem buffer_level_matches_steady :
    ∃ q, after (steady 1000) (wholeClip false) 3 = .ok q ∧ q.world.play.seen.length = 3 ∧
      Balanced 2 q.world.play := by
  have hreach : ∃ w₀ s₀ q, stream (wholeClip false) = .ok (w₀, [s₀]) ∧
      calls (steady 1000) (streamLoop (steady 1000) 1) (.next w₀ [s₀]) 3 = .ok q ∧
      q.world.play.seen.length = 3 ∧ ∀ i < 3, valueAt excess q.world.play.seen i = 0 :=
    ⟨_, _, _, rfl, rfl, rfl, by decide⟩
  obtain ⟨w₀, s₀, q, hstart, hcalls, hseen, hexcess⟩ := hreach
  refine ⟨q, by rw [after, hstart]; exact hcalls, hseen, ?_⟩
  have hplaying : (wholeClip false).initBuffer ≤ q.world.play.seen.length := by
    rw [hseen]
    decide
  have hmatches := (buffer_level_matches_iff (by decide) hstart (run_calls hcalls) hplaying).2
    fun _ => ⟨1000, rfl⟩
  apply hmatches.mpr
  rw [hseen]
  intro i _ hhi
  exact hexcess i hhi

end RlncStreaming.Godash
