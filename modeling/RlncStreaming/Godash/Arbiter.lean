import RlncStreaming.Godash.Algorithms
import RlncStreaming.Godash.SegmentSizes

/-!
Arbiter (`algorithms/arbiterPlus.go`).

Arbiter selects a rate by its target rate, limits the step from the rate in use, and then goes
down until the next segments are small enough. Their sizes are in the table, which has no rows for
the representations that the height limit excludes. The selection knows nothing of the limit, so
the look-ahead can start above the table (`arbiter_above_table`). It stays inside just if the
lowest index that the step leaves is in the table, or no segment follows
(`arbiter_in_range_iff`).
-/

namespace RlncStreaming.Godash

open Lib List

def maximumSwitch : Int := 2

def predictiveEstimationWindow : Int := 5

/-- The target rate, by what it is compared with. -/
structure TargetRate where
  /-- The whole number that selects a bandwidth. -/
  thr : Int
  /-- It is below the share of the bandwidth at an index that a step up has to reach. -/
  below : Int → Bool
  /-- It is at least the average rate of segments with this many bits together. -/
  reaches : Int → Bool

/-- The step from the rate in use. -/
def switchingControl (targetRate : TargetRate) (lastRate targetIndex : Int) : Int :=
  if lastRate - targetIndex = 1 ∧ targetRate.below targetIndex then targetIndex + 1
  else if lastRate - targetIndex > maximumSwitch then max (lastRate - maximumSwitch) 0
  else targetIndex

def smartConvHelperFromFile (segHeadValues : Dictionary) (videoWindow : Int) (estRate : TargetRate)
    (qRate segmentNumber : Int) : Go Bool := do
  let totSegSize ← (upTo 0 (videoWindow - 1)).foldlM (fun totSegSize i => do
    let size ← index (segHeadValues qRate) (segmentNumber + i)
    pure (totSegSize + size * 8)) 0
  pure (estRate.reaches totSegSize)

def calculateSelectedIndexArbiter (segHeadValues : Dictionary) (targetRate : TargetRate)
    (lastDuration lastIndex lastRate mpdDuration segmentNumber lowestMPDrepRateIndex : Int)
    (bandwithList : List Int) : Go Int := do
  let targetIndex := switchingControl targetRate lastRate
    (selectRepRateWithThroughtput targetRate.thr bandwithList lowestMPDrepRateIndex)
  let videoChunks ← quot mpdDuration lastDuration
  let videoWindow := min (videoChunks - lastIndex) predictiveEstimationWindow
  let found ← (upTo targetIndex (lowestMPDrepRateIndex - 1)).findM? fun qRate =>
    smartConvHelperFromFile segHeadValues videoWindow targetRate qRate (segmentNumber - 1)
  pure (found.getD (max targetIndex lowestMPDrepRateIndex))

/-! ### Reading the table -/

variable {d : Dictionary} {w k q : Int} {targetRate : TargetRate}

theorem smartConvHelperFromFile_ok (hk : 0 ≤ k) (h : 0 < w → k + w ≤ (d q).length) :
    ∃ b, smartConvHelperFromFile d w targetRate q k = .ok b := by
  refine ⟨_, bind_eq_ok.mpr ⟨_, foldlM_eq_ok.mpr ⟨fun i hi => ?_, rfl⟩, rfl⟩⟩
  have := mem_upTo.mp hi
  have := h (by omega)
  obtain ⟨x, hx⟩ := index_ok_iff.mpr (show 0 ≤ k + i ∧ k + i < (d q).length by omega)
  rw [hx]
  rfl

theorem smartConvHelperFromFile_nil (hw : 0 < w) (h : d q = []) (b : Bool) :
    smartConvHelperFromFile d w targetRate q k ≠ .ok b := by
  intro hb
  obtain ⟨tot, htot, -⟩ := bind_eq_ok.mp hb
  have hzero := (foldlM_eq_ok.mp htot).1 0 (mem_upTo.mpr ⟨Int.le_refl 0, by omega⟩)
  rw [h, index_nil] at hzero
  cases hzero

/-! ### The first index -/

/-- The step leaves no index below this one. -/
theorem le_switchingControl {targetIndex : Int} (h : 0 ≤ targetIndex) (lastRate : Int) :
    max (lastRate - maximumSwitch) 0 ≤ switchingControl targetRate lastRate targetIndex := by
  unfold switchingControl
  unfold maximumSwitch
  split
  · omega
  split
  · exact Int.le_refl _
  · omega

/-- A high target rate selects the first bandwidth, and then the step is as large as it can be. -/
theorem exists_switchingControl_eq {bandwithList : List Int} (h : 2 ≤ bandwithList.length)
    (lastRate lowest : Int) : ∃ targetRate, switchingControl targetRate lastRate
      (selectRepRateWithThroughtput targetRate.thr bandwithList lowest) =
        max (lastRate - maximumSwitch) 0 := by
  obtain _ | ⟨b, _ | ⟨b', bs⟩⟩ := bandwithList
  · cases h
  · exact absurd h (by simp)
  have hselect : selectRepRateWithThroughtput (b + 1) (b :: b' :: bs) lowest = 0 := by
    rw [selectRepRateWithThroughtput, selectFrom, if_pos (Int.lt_succ b)]
    rfl
  refine ⟨⟨b + 1, fun _ => false, fun _ => true⟩, ?_⟩
  simp only [hselect, switchingControl, Bool.false_eq_true, and_false, if_false, maximumSwitch]
  split <;> omega

section LookAhead

variable {server : Server} {mpdList : List MPD} {mpdListIndex currentMPDRepAdaptSet maxHeight
  streamDuration : Int} {isByteRangeMPD : Bool} {maxBuffer : Int} {headerURL : List Char}
  {files files' : Files} {d₀ : Dictionary} {v : MPDValues} {segmentDuration maxSegments : Int}

/-- **When the look-ahead stays inside the table**, whatever the target rate is. -/
theorem arbiter_in_range_iff
    (h : getSegmentHeaders server mpdList mpdListIndex currentMPDRepAdaptSet maxHeight 1
      streamDuration isByteRangeMPD maxBuffer headerURL true files = .ok (d₀, files'))
    (hload : getNSegmentHeadersFromFile mpdList mpdListIndex currentMPDRepAdaptSet maxHeight 1
      streamDuration isByteRangeMPD maxBuffer headerURL files' = .ok d)
    (hbounds : tableBounds mpdList mpdListIndex currentMPDRepAdaptSet maxHeight streamDuration
      maxBuffer isByteRangeMPD = .ok (v, segmentDuration, maxSegments))
    {segmentNumber : Int} (hfirst : 1 ≤ segmentNumber) (hlast : segmentNumber ≤ maxSegments)
    (lastRate : Int) :
    (∀ targetRate, ∃ i, calculateSelectedIndexArbiter d targetRate (millis segmentDuration)
        segmentNumber lastRate v.maxStreamDuration segmentNumber v.lowestMPDrepRateIndex
        v.bandwithList = .ok i) ↔
      segmentNumber = maxSegments ∨
        v.highestMPDrepRateIndex ≤ max (lastRate - maximumSwitch) 0 := by
  obtain ⟨_, _, _, current, _, text, hbounds', -, -, -, -, hwritten⟩ := getSegmentHeaders_eq_ok h
  cases hbounds.symm.trans hbounds'
  cases (getNSegmentHeadersFromFile_getSegmentHeaders h).symm.trans hload
  obtain ⟨hvalues, -, hsegments⟩ := tableBounds_eq_ok hbounds
  obtain ⟨_, set, -, -, -, -, hlowest, hlist, hhigh, hle⟩ := getMPDValues_eq_ok hvalues
  have hduration : millis segmentDuration ≠ 0 := by
    intro hzero
    rw [hzero, Int.tdiv_zero] at hsegments
    omega
  have hchunks := quot_eq_ok.mpr ⟨hduration, hsegments⟩
  have hrow := hwritten.sizes_of
  have hlength : (v.bandwithList.length : Int) = v.lowestMPDrepRateIndex + 1 := by
    rw [hlist, hlowest, getMaxListIndex, getRepresentationBandwidth, length_map]
    omega
  constructor
  · intro hall
    by_contra hneither
    obtain ⟨hmore, habove⟩ := not_or.mp hneither
    have htwo : 2 ≤ v.bandwithList.length := by omega
    obtain ⟨targetRate, htarget⟩ := exists_switchingControl_eq htwo lastRate v.lowestMPDrepRateIndex
    obtain ⟨i, hi⟩ := hall targetRate
    have hloop : max (lastRate - maximumSwitch) 0 ≤ v.lowestMPDrepRateIndex - 1 := by omega
    obtain ⟨qs, hqs⟩ := upTo_cons hloop
    obtain ⟨chunks, hquot, hi⟩ := bind_eq_ok.mp hi
    cases hchunks.symm.trans hquot
    rw [htarget, hqs] at hi
    obtain ⟨_, hfound, -⟩ := bind_eq_ok.mp hi
    obtain ⟨b, hb, -⟩ := bind_eq_ok.mp hfound
    refine smartConvHelperFromFile_nil ?_ ?_ b hb
    · unfold predictiveEstimationWindow
      omega
    · rw [hrow, if_neg fun hmem => habove (mem_upTo.mp hmem).1]
  · intro hcond targetRate
    have hlow : InList v.bandwithList v.lowestMPDrepRateIndex := ⟨by omega, by omega⟩
    obtain ⟨hselect, -⟩ := inList_select hlow targetRate.thr
    refine ⟨_, bind_eq_ok.mpr ⟨_, hchunks, bind_eq_ok.mpr
      ⟨_, (findM?_ok fun q hq => ?_).choose_spec, rfl⟩⟩⟩
    obtain ⟨hlo, hhi⟩ := mem_upTo.mp hq
    have hstart := Int.le_trans (le_switchingControl hselect lastRate) hlo
    refine smartConvHelperFromFile_ok (by omega) fun hpos => ?_
    have hrep : v.highestMPDrepRateIndex ≤ q := by omega
    rw [hrow, if_pos (mem_upTo.mpr ⟨hrep, by omega⟩), length_map, length_upTo]
    omega

end LookAhead

/-- The table of `twoHeights` under a height limit. -/
def twoHeightsTable (maxHeight : Int) : Go (Dictionary × Files) :=
  getSegmentHeaders (fun _ _ => some "1000".toList) [twoHeights] 0 0 maxHeight 1 4000 false 30
    "clip.mpd".toList true fun _ => none

theorem arbiter_in_range_no_limit : ∃ d₀ files', twoHeightsTable 1080 = .ok (d₀, files') ∧
    ∃ i, calculateSelectedIndexArbiter d₀ ⟨300000, fun _ => false, fun _ => true⟩ 2000 1 1 4000 1 1
      [200000, 100000] = .ok i := by
  obtain ⟨⟨d₀, files'⟩, hrun⟩ : ∃ r, twoHeightsTable 1080 = .ok r := ⟨_, rfl⟩
  have hload := getNSegmentHeadersFromFile_getSegmentHeaders hrun
  exact ⟨d₀, files', hrun,
    (arbiter_in_range_iff hrun hload rfl (by decide) (by decide) 1).mpr (.inr (by decide)) _⟩

/-- Under the limit 360 only the second row is there, and a high rate asks for the first one. -/
theorem arbiter_above_table : ∃ d₀ files' d, twoHeightsTable 360 = .ok (d₀, files') ∧
    getNSegmentHeadersFromFile [twoHeights] 0 0 360 1 4000 false 30 "clip.mpd".toList files' =
      .ok d ∧
    calculateSelectedIndexArbiter d ⟨300000, fun _ => false, fun _ => true⟩ 2000 1 1 4000 1 1
      [200000, 100000] = .error .outOfRange :=
  ⟨_, _, _, rfl, rfl, rfl⟩

end RlncStreaming.Godash
