import RlncStreaming.Godash.NextSegment
import RlncStreaming.Lib.Loops

/-!
The height limit.

`getMPDValues` looks for the representation with the largest bandwidth under the height limit, and
`streamLoop` keeps the rate at or after its index. If there is none, the index is minus one and
`getMPDValues` looks up a bandwidth there (`getMPDValues_inRange_iff`). If all MPDs list the same
rates, the index of a request is always one of the list (`Within.requested`). But what comes after
the index of the limit is under the limit only if the heights are sorted with the bandwidths.
-/

namespace RlncStreaming.Godash

open Lib List

/-! ### The values of an MPD -/

section Values

variable {mpd : List MPD} {mpdListIndex maxHeight streamDuration maxBuffer
  currentMPDRepAdaptSet : Int} {isByteRangeMPD : Bool}

/-- What `getMPDValues` reads before it looks for the rates. -/
def readSet (mpd : List MPD) (mpdListIndex streamDuration currentMPDRepAdaptSet : Int)
    (isByteRangeMPD : Bool) : Go AdaptationSet := do
  let current ← index mpd mpdListIndex
  let set ← current.adaptationSet currentMPDRepAdaptSet
  let details ← segmentDetails mpd mpdListIndex currentMPDRepAdaptSet isByteRangeMPD
  let _ ← maxStreamDuration current mpdListIndex streamDuration details.1 details.2
  pure set

/-- The bandwidth at the index of the limit is there just if the limit allows a representation. -/
theorem index_height_ok_iff (set : AdaptationSet) (maxHeight : Int) :
    (∃ b, index (getRepresentationBandwidth set) (getMPDheightIndex set maxHeight) = .ok b) ↔
      ∃ r ∈ set.representation, Eligible maxHeight r := by
  have hlt := (getMPDheightIndex_lt set maxHeight).2
  unfold getMaxListIndex at hlt
  rw [index_ok_iff, ← getMPDheightIndex_nonneg_iff, getRepresentationBandwidth, List.length_map]
  omega

/-- `getMPDValues` stays in range just if it can read the MPD, and if then the height limit allows a
representation. -/
theorem getMPDValues_inRange_iff :
    getMPDValues mpd mpdListIndex maxHeight streamDuration maxBuffer currentMPDRepAdaptSet
        isByteRangeMPD ≠ .error .outOfRange ↔
      readSet mpd mpdListIndex streamDuration currentMPDRepAdaptSet isByteRangeMPD ≠
          .error .outOfRange ∧
        ∀ set, readSet mpd mpdListIndex streamDuration currentMPDRepAdaptSet isByteRangeMPD =
          .ok set → ∃ r ∈ set.representation, Eligible maxHeight r := by
  unfold getMPDValues readSet
  dsimp only [bind, Except.bind]
  -- What stops the reading stops `getMPDValues` in the same way.
  cases index mpd mpdListIndex with
  | error e => simp
  | ok current =>
  dsimp only
  cases current.adaptationSet currentMPDRepAdaptSet with
  | error e => simp
  | ok set =>
  dsimp only
  cases segmentDetails mpd mpdListIndex currentMPDRepAdaptSet isByteRangeMPD with
  | error e => simp
  | ok details =>
  dsimp only
  cases maxStreamDuration current mpdListIndex streamDuration details.1 details.2 with
  | error e => simp
  | ok length =>
  dsimp only
  simp only [pure, Except.pure, ne_eq, reduceCtorEq, not_false_eq_true, true_and, Except.ok.injEq,
    forall_eq']
  rw [← index_height_ok_iff]
  cases hfirst : index (getRepresentationBandwidth set) (getMPDheightIndex set maxHeight) with
  | error e => simp [index_eq_error hfirst]
  | ok b =>
    obtain ⟨r, hr, -⟩ := (index_height_ok_iff set maxHeight).mp ⟨b, hfirst⟩
    have hpos := List.length_pos_of_mem hr
    obtain ⟨b', hb'⟩ :
        ∃ b', index (getRepresentationBandwidth set) (getMaxListIndex set) = .ok b' := by
      rw [index_ok_iff, getRepresentationBandwidth, List.length_map, getMaxListIndex]
      omega
    rw [hb']
    dsimp only
    refine ⟨fun _ => ⟨b, rfl⟩, fun _ => ?_⟩
    split
    · nofun
    · nofun

/-- The fields that `getMPDValues` needs: those of the current MPD and a segment duration in every
MPD. -/
structure Readable (mpd : List MPD) (mpdListIndex streamDuration currentMPDRepAdaptSet : Int)
    (isByteRangeMPD : Bool) (current : MPD) (set : AdaptationSet) : Prop where
  listed : index mpd mpdListIndex = .ok current
  adaptationSet : current.adaptationSet currentMPDRepAdaptSet = .ok set
  mediaPresentationDuration :
    ∃ n, splitMPDSegmentDuration current.mediaPresentationDuration = .ok n
  maxSegmentDuration :
    streamDuration = 0 → ∃ n, splitMPDSegmentDuration current.maxSegmentDuration = .ok n
  segmentDuration : ∀ m ∈ mpd, ∃ d, (if isByteRangeMPD then byteRangeDuration currentMPDRepAdaptSet
    else templateDuration) m = .ok d ∧ (m = current → d ≠ 0)

theorem Readable.readSet_eq {current : MPD} {set : AdaptationSet} (h : Readable mpd mpdListIndex
      streamDuration currentMPDRepAdaptSet isByteRangeMPD current set) :
    readSet mpd mpdListIndex streamDuration currentMPDRepAdaptSet isByteRangeMPD = .ok set := by
  obtain ⟨durations, hdurations, hall⟩ := mapM_spec mpd h.segmentDuration
  obtain ⟨hnonneg, hget⟩ := index_eq_ok.mp h.listed
  obtain ⟨hlt, hcurrent⟩ := List.getElem?_eq_some_iff.mp hget
  have hlt' := hall.length_eq ▸ hlt
  have hne : durations[mpdListIndex.toNat] ≠ 0 := hall.get hlt hlt' hcurrent
  have hd : index durations mpdListIndex = .ok durations[mpdListIndex.toNat] :=
    index_eq_ok.mpr ⟨hnonneg, getElem?_eq_getElem hlt'⟩
  obtain ⟨n, hn⟩ := h.mediaPresentationDuration
  have hdetails : segmentDetails mpd mpdListIndex currentMPDRepAdaptSet isByteRangeMPD =
      .ok (n.tdiv durations[mpdListIndex.toNat], durations) := by
    cases isByteRangeMPD with
    | _ => exact bind_eq_ok.mpr ⟨current, h.listed, bind_eq_ok.mpr ⟨n, hn, bind_eq_ok.mpr
        ⟨durations, hdurations, bind_eq_ok.mpr ⟨_, hd, bind_eq_ok.mpr
          ⟨_, quot_eq_ok.mpr ⟨hne, rfl⟩, rfl⟩⟩⟩⟩⟩
  have hlength : ∃ l, maxStreamDuration current mpdListIndex streamDuration
      (n.tdiv durations[mpdListIndex.toNat]) durations = .ok l := by
    unfold maxStreamDuration
    split
    · exact ⟨_, rfl⟩
    · next hzero =>
      obtain ⟨m, hm⟩ := h.maxSegmentDuration (not_not.mp hzero)
      exact ⟨_, bind_eq_ok.mpr ⟨m, hm, bind_eq_ok.mpr ⟨_, hd, rfl⟩⟩⟩
  obtain ⟨l, hl⟩ := hlength
  exact bind_eq_ok.mpr ⟨current, h.listed, bind_eq_ok.mpr ⟨set, h.adaptationSet, bind_eq_ok.mpr
    ⟨_, hdetails, bind_eq_ok.mpr ⟨l, hl, rfl⟩⟩⟩⟩

end Values

/-! ### Requests -/

section

variable (w : World) (s : StreamStruct) (mimeTypeIndex : Nat)

/-- The adaptation set that a request is for. -/
def usedSet : Go AdaptationSet := do
  let mpd ← index s.mpdList w.sel.mpdListIndex
  let set ← index w.sel.mimeTypes mimeTypeIndex
  mpd.adaptationSet set

/-- The representation that a request is for. -/
def requested : Go Representation := do
  let set ← usedSet w s mimeTypeIndex
  index set.representation s.repRate

end

/-- From the index of the limit on, no representation is above the limit. -/
def SortedByHeight (set : AdaptationSet) (maxHeight : Int) : Prop :=
  ∀ j r, getMPDheightIndex set maxHeight ≤ j → index set.representation j = .ok r →
    r.height ≤ maxHeight

/-- The adaptation sets list the same heights and bandwidths. -/
def SameRates (set' set : AdaptationSet) : Prop :=
  Forall₂ (fun r' r : Representation => r'.height = r.height ∧ r'.bandWidth = r.bandWidth)
    set'.representation set.representation

section

variable {set set' : AdaptationSet} {maxHeight : Int}

theorem heightLoop_same {rs rs' : List Representation} {j : Int} {found : Int × Int}
    (h : Forall₂ (fun r' r => r'.height = r.height ∧ r'.bandWidth = r.bandWidth) rs' rs) :
    heightLoop maxHeight j rs' found = heightLoop maxHeight j rs found := by
  induction h generalizing j found with
  | nil => rfl
  | cons hr _ ih =>
    simp only [heightLoop, improves, hr.1, hr.2]
    exact ih

theorem SameRates.getMPDheightIndex_eq (h : SameRates set' set) :
    getMPDheightIndex set' maxHeight = getMPDheightIndex set maxHeight := by
  rw [getMPDheightIndex, getMPDheightIndex, heightLoop_same h]

theorem SameRates.sorted (h : SameRates set' set) (hsorted : SortedByHeight set maxHeight) :
    SortedByHeight set' maxHeight := by
  intro j r hj hr
  rw [h.getMPDheightIndex_eq] at hj
  obtain ⟨hnonneg, hget⟩ := index_eq_ok.mp hr
  obtain ⟨hlt, rfl⟩ := List.getElem?_eq_some_iff.mp hget
  have hlt' : j.toNat < set.representation.length := h.length_eq ▸ hlt
  exact (h.get hlt hlt').1.trans_le
    (hsorted j _ hj (index_eq_ok.mpr ⟨hnonneg, getElem?_eq_getElem hlt'⟩))

end

/-- The adaptation sets that are in use at the start or after a change of the MPD. -/
def Usable (c : Config) (w : World) (i : Int) : Prop :=
  i ∈ w.sel.mimeTypes ∨ c.mpdList.length ≠ 1 ∧ ∃ k, selected w c.codec k = .ok i

/-- Every MPD has the adaptation sets that may be in use, and they list the same heights and
bandwidths. -/
def Alike (c : Config) (w : World) (set : AdaptationSet) : Prop :=
  ∀ mpd ∈ c.mpdList, ∀ i, Usable c w i → ∃ set', mpd.adaptationSet i = .ok set' ∧ SameRates set' set

variable {env : Environment} {w w₀ : World} {s : StreamStruct} {structs : List StreamStruct}
  {c : Config} {set : AdaptationSet}

theorem Alike.values (halike : Alike c w set) {mpdListIndex streamDuration maxBuffer k : Int}
    {b : Bool} {v : MPDValues} (hk : Usable c w k)
    (hv : getMPDValues c.mpdList mpdListIndex c.maxHeight streamDuration maxBuffer k b = .ok v) :
    (∃ mpd, index c.mpdList mpdListIndex = .ok mpd) ∧
      v.segmentDurationArray.length = c.mpdList.length ∧
      v.highestMPDrepRateIndex = getMPDheightIndex set c.maxHeight ∧ 0 ≤ v.highestMPDrepRateIndex ∧
      v.bandwithList.length = set.representation.length ∧
      0 ≤ v.lowestMPDrepRateIndex ∧ v.lowestMPDrepRateIndex < set.representation.length := by
  obtain ⟨current, set', hlen, hcurrent, hset', hhighest, hlowest, hband, hnonneg, hle⟩ :=
    getMPDValues_eq_ok hv
  obtain ⟨set'', hset'', hsame⟩ := halike current (index_mem hcurrent) k hk
  cases hset'.symm.trans hset''
  refine ⟨⟨current, hcurrent⟩, hlen, hhighest.trans hsame.getMPDheightIndex_eq, hnonneg, ?_,
    Int.le_trans hnonneg hle, ?_⟩
  · rw [hband, getRepresentationBandwidth, length_map, hsame.length_eq]
  · rw [hlowest, getMaxListIndex, hsame.length_eq]
    omega

/-- The index of the limit is that of the adaptation set. -/
structure Limits (c : Config) (set : AdaptationSet) (sel : Selection) : Prop where
  highest : sel.highestMPDrepRateIndex = getMPDheightIndex set c.maxHeight
  nonneg : 0 ≤ sel.highestMPDrepRateIndex
  lowest : 0 ≤ sel.lowestMPDrepRateIndex ∧ sel.lowestMPDrepRateIndex < set.representation.length
  current : ∃ mpd, index c.mpdList sel.mpdListIndex = .ok mpd
  single : c.mpdList.length = 1 → sel.segmentDurationArray.length = 1 ∧ sel.mpdListIndex = 0

/-- The rate is one of the list. -/
structure Ranged (c : Config) (set : AdaptationSet) (s : StreamStruct) : Prop where
  mpdList : s.mpdList = c.mpdList
  maxHeight : s.maxHeight = c.maxHeight
  codec : s.codec = c.codec
  bandwithList : s.bandwithList.length = set.representation.length
  repRate : 0 ≤ s.repRate ∧ s.repRate < set.representation.length
  single : c.mpdList.length = 1 → s.oldMPDIndex = 0

/-- What the run keeps. -/
structure Within (c : Config) (w₀ : World) (set : AdaptationSet) (w : World)
    (structs : List StreamStruct) : Prop where
  usable : ∀ i ∈ w.sel.mimeTypes, Usable c w₀ i
  selects : ∀ k, selected w c.codec k = selected w₀ c.codec k
  records : ∀ s ∈ structs, Limits c set w.sel ∧ Ranged c set s

theorem within_start (halike : Alike c w set) (hstart : stream c = .ok (w, structs)) :
    Within c w set w structs := by
  obtain ⟨codecList, codecIndexList, audioContent, entries, hfold⟩ := stream_eq_ok hstart
  let P : World × List StreamStruct → Prop := fun acc =>
    (∀ i ∈ acc.1.sel.mimeTypes, Usable c w i) →
      acc.1.sel.mpdListIndex = 0 ∧ ∀ s ∈ acc.2, Limits c set acc.1.sel ∧ Ranged c set s
  have hkeep : ∀ acc entry acc', P acc → addSet c audioContent acc entry = .ok acc' → P acc' := by
    intro acc entry acc' hacc hadd
    rcases addSet_eq_ok hadd with rfl | ⟨v, d, b, hadded, rfl⟩
    · exact hacc
    intro hused
    obtain ⟨hfirst, hold⟩ := hacc fun i hi => hused i (mem_append_left _ hi)
    obtain ⟨hcurrent, hlen, hhighest, hnonneg, hband, hrange⟩ :=
      halike.values (hused _ (mem_append_right _ mem_cons_self)) hadded.values
    have hlimits : Limits c set (addedWorld c acc.1 v entry.2 d).sel :=
      ⟨hhighest, hnonneg, hrange, by rwa [← hfirst] at hcurrent,
        fun hone => ⟨hlen.trans hone, hfirst⟩⟩
    refine ⟨hfirst, fun s hs => ⟨hlimits, ?_⟩⟩
    rcases mem_append.mp hs with hs | hs
    · exact (hold s hs).2
    · rw [mem_singleton.mp hs]
      exact ⟨rfl, rfl, rfl, hband, hrange, fun _ => rfl⟩
  have hzero : P (World.start c codecList codecIndexList, []) := fun _ =>
    ⟨rfl, fun _ hs => absurd hs not_mem_nil⟩
  exact ⟨fun i hi => .inl hi, fun _ => rfl, (foldlM_keeps hkeep hzero hfold fun i hi => .inl hi).2⟩

/-- After a change of the MPD the limits are read from a set that is alike. -/
theorem Within.prepared (h : Within c w₀ set w structs) (halike : Alike c w₀ set)
    (hs : s ∈ structs) {r : World × StreamStruct} (hprep : Prepared w s r) :
    Within c w₀ set r.1 [r.2] := by
  obtain ⟨mimeType, sel, streamDuration, bandwithList, rfl, hsel⟩ := hprep.plain
  obtain ⟨hlimits, hs⟩ := h.records s hs
  by_cases hsame : s.oldMPDIndex = w.sel.mpdListIndex
  · obtain ⟨rfl, rfl, rfl⟩ := hsel.same hsame
    refine ⟨h.usable, h.selects, fun s' hs' => ⟨hlimits, ?_⟩⟩
    rwa [mem_singleton.mp hs']
  obtain ⟨i, k, k', d, v, hk, hk', hv, rfl, rfl⟩ := hsel.changed hsame
  have hmany : c.mpdList.length ≠ 1 := fun hone =>
    hsame ((hs.single hone).trans (hlimits.single hone).2.symm)
  rw [hs.mpdList, hs.maxHeight] at hv
  obtain ⟨hcurrent, -, hhighest, hnonneg, hband, hrange⟩ :=
    halike.values (h.usable k (index_mem hk)) hv
  refine ⟨fun x hx => ?_, h.selects, fun s' hs' =>
    ⟨⟨hhighest, hnonneg, hrange, hcurrent, fun hone => absurd hone hmany⟩, ?_⟩⟩
  · rcases mem_or_eq_of_mem_set hx with hx | rfl
    · exact h.usable x hx
    · exact .inr ⟨hmany, s.oldMPDIndex, by rw [← h.selects, ← hs.codec, hk']⟩
  · rw [mem_singleton.mp hs']
    exact { hs with bandwithList := hband }

/-- The player looks up the rate of the next segment, so it is in the list. -/
theorem Ranged.segment (h : Ranged c set s) {i : Nat} {hlsReplaced : Bool}
    {t : World × StreamStruct}
    (hseg : segment env i hlsReplaced w s = .ok t) : Ranged c set t.2 := by
  obtain ⟨arrivalTime, repRate, hrecord⟩ := (segment_progressed hseg).record
  have hrange := index_ok_iff.mp (segment_eq_ok hseg).2.next
  have hlist : (receive env w (clampRepRate w s)).2.bandwithList = s.bandwithList := rfl
  rw [hlist, h.bandwithList, hrecord] at hrange
  rw [hrecord]
  exact { h with repRate := hrange }

theorem keepsAll_within (halike : Alike c w₀ set) : KeepsAll env (Within c w₀ set) where
  body {w structs i s r _ t} h hs hprep hseg := by
    have hprepared := h.prepared halike (index_mem hs) hprep
    obtain ⟨hlimits, hr⟩ := hprepared.records _ mem_cons_self
    have hsel := segment_sel hseg
    refine ⟨hsel ▸ hprepared.usable, fun k => ?_, fun s' hs' => ⟨by rwa [hsel], ?_⟩⟩
    · rw [← hprepared.selects, selected, selected, codecOf, codecOf, hsel]
    rcases mem_or_eq_of_mem_set hs' with hs' | rfl
    · exact (h.records s' hs').2
    · exact hr.segment hseg
  next {w structs i r} h hnext := by
    obtain ⟨s, answer, hs, hanswer, rfl⟩ := nextSegment_eq_ok hnext
    obtain ⟨hlimits, hs⟩ := h.records s (index_mem hs)
    refine ⟨h.usable, h.selects, fun s' hs' => ⟨hlimits, ?_⟩⟩
    rcases mem_or_eq_of_mem_set hs' with hs' | rfl
    · exact (h.records s' hs').2
    refine { hs with single := fun hone => ?_ }
    obtain ⟨d, hd⟩ := length_eq_one_iff.mp (hlimits.single hone).1
    rw [hd] at hanswer
    exact getNextSegmentDuration_one hanswer

/-- The representation that is asked for is there, and not before the one of the limit. -/
theorem Within.requested (h : Within c w₀ set w [s]) (halike : Alike c w₀ set) {i : Nat}
    (hi : i < w.sel.mimeTypes.length) :
    ∃ r, requested w (clampRepRate w s) i = .ok r ∧
      (SortedByHeight set c.maxHeight → r.height ≤ c.maxHeight) := by
  obtain ⟨⟨hhighest, hnonneg, -, ⟨mpd, hmpd⟩, -⟩, hs⟩ := h.records s mem_cons_self
  obtain ⟨k, hk⟩ := index_ok_iff.mpr ⟨Int.natCast_nonneg i, Int.ofNat_lt.mpr hi⟩
  obtain ⟨set', hset', hsame⟩ := halike mpd (index_mem hmpd) k (h.usable k (index_mem hk))
  have hle := (getMPDheightIndex_lt set' c.maxHeight).2
  rw [← hsame.getMPDheightIndex_eq] at hhighest
  obtain ⟨hlo, hhi⟩ := hs.repRate
  rw [← hsame.length_eq] at hhi
  have hclamp : getMPDheightIndex set' c.maxHeight ≤ (clampRepRate w s).repRate ∧
      (clampRepRate w s).repRate < set'.representation.length := by
    dsimp only [clampRepRate]
    unfold getMaxListIndex at hle
    split <;> omega
  obtain ⟨r, hr⟩ := index_ok_iff.mpr ⟨by omega, hclamp.2⟩
  refine ⟨r, bind_eq_ok.mpr ⟨set', bind_eq_ok.mpr ⟨mpd, ?_, bind_eq_ok.mpr ⟨k, hk, hset'⟩⟩, hr⟩,
    fun hsorted => hsame.sorted hsorted _ r hclamp.1 hr⟩
  rw [← hmpd, ← hs.mpdList]
  rfl

/-- One adaptation set of one MPD is like itself. -/
theorem Started.alike (hone : c.mpdList.length = 1) (h : Started c w s) :
    ∃ set, usedSet w s 0 = .ok set ∧ Alike c w set := by
  obtain ⟨codecList, codecIndexList, v, i, d, byteRange, audioContent, hadded, rfl, rfl⟩ := h
  obtain ⟨current, set, -, hcurrent, hset, -⟩ := getMPDValues_eq_ok hadded.values
  refine ⟨set, bind_eq_ok.mpr ⟨current, hcurrent, bind_eq_ok.mpr ⟨i, rfl, hset⟩⟩, ?_⟩
  rintro mpd hmpd k (hk | ⟨hmany, -⟩)
  · obtain ⟨only, honly⟩ := length_eq_one_iff.mp hone
    rw [honly] at hcurrent hmpd
    cases hcurrent
    cases mem_singleton.mp hmpd
    cases mem_singleton.mp hk
    exact ⟨set, hset, forall₂_same.mpr fun _ _ => ⟨rfl, rfl⟩⟩
  · exact absurd hone hmany

/-- `getMPDValues` stays in range just if it can read the MPD and the height limit allows a
representation of the adaptation set. In every run over MPDs and adaptation sets with the same
rates, every request is for a representation that is there, and it is under the limit if from the
index of the limit on all of them are. One adaptation set of one MPD is such a case. -/
theorem height_limit_respected (mpd : List MPD) (mpdListIndex maxHeight streamDuration maxBuffer
    currentMPDRepAdaptSet : Int) (isByteRangeMPD : Bool) :
    (getMPDValues mpd mpdListIndex maxHeight streamDuration maxBuffer currentMPDRepAdaptSet
          isByteRangeMPD ≠ .error .outOfRange ↔
        readSet mpd mpdListIndex streamDuration currentMPDRepAdaptSet isByteRangeMPD ≠
            .error .outOfRange ∧
          ∀ set, readSet mpd mpdListIndex streamDuration currentMPDRepAdaptSet isByteRangeMPD =
            .ok set → ∃ r ∈ set.representation, Eligible maxHeight r) ∧
    (∀ current set, Readable mpd mpdListIndex streamDuration currentMPDRepAdaptSet isByteRangeMPD
        current set →
      (getMPDValues mpd mpdListIndex maxHeight streamDuration maxBuffer currentMPDRepAdaptSet
          isByteRangeMPD ≠ .error .outOfRange ↔ ∃ r ∈ set.representation, Eligible maxHeight r)) ∧
    (∀ c env fuel w₀ structs₀ w structs hlsReplaced i w₁ structs₁ s r set, Alike c w₀ set →
      stream c = .ok (w₀, structs₀) →
      Run env (streamLoop env fuel) (.next w₀ structs₀) (.next w structs) →
      Midway env (streamLoop env fuel) hlsReplaced w structs i w₁ structs₁ →
      index structs₁ i = .ok s → prepare (streamLoop env fuel) w₁ s i = .ok r →
        ∃ rep, requested r.1 (clampRepRate r.1 r.2) i = .ok rep ∧
          (SortedByHeight set c.maxHeight → rep.height ≤ c.maxHeight)) ∧
    ∀ c env fuel w₀ s₀ w s r, c.mpdList.length = 1 →
      stream c = .ok (w₀, [s₀]) → Run env (streamLoop env fuel) (.next w₀ [s₀]) (.next w [s]) →
      prepare (streamLoop env fuel) w s 0 = .ok r →
        ∃ rep, requested r.1 (clampRepRate r.1 r.2) 0 = .ok rep ∧
          ((∀ set, usedSet w₀ s₀ 0 = .ok set → SortedByHeight set c.maxHeight) →
            rep.height ≤ c.maxHeight) := by
  refine ⟨getMPDValues_inRange_iff, ?_, (and_iff_left_of_imp ?_).mpr ?_⟩
  · intro current set hread
    rw [getMPDValues_inRange_iff, hread.readSet_eq]
    simp
  · intro hruns c env fuel w₀ s₀ w s r hone hstart hrun hprep
    obtain ⟨set, hused, halike⟩ := (stream_one hstart).alike hone
    obtain ⟨rep, hrep, hheight⟩ := hruns c env fuel w₀ [s₀] w [s] false 0 w [s] s r set halike
      hstart hrun .start rfl hprep
    exact ⟨rep, hrep, fun hsorted => hheight (hsorted set hused)⟩
  · intro c env fuel w₀ structs₀ w structs hlsReplaced i w₁ structs₁ s r set halike hstart hrun hmid
      hs hprep
    have hkeeps : KeepsAll env (Within c w₀ set) := keepsAll_within halike
    obtain ⟨hordered, hwithin⟩ :=
      hkeeps.midway (hrun.all_sets hkeeps hstart (within_start halike hstart) _ _ rfl) hmid
    have hprep := prepare_of_ready (hordered.ready hs) hprep
    exact (hwithin.prepared halike (index_mem hs) hprep).requested halike
      (hprep.mimeTypes ▸ hordered.lt hs)

/-- The clip with heights that are not sorted, and a limit of 720. -/
def mixedHeights : Config :=
  { wholeClip false with
    mpdList := [clip [videoOf 720 3000000, videoOf 1080 2000000, videoOf 480 1000000]]
    maxHeight := 720 }

/-- The player measures so many bits per second. -/
def measuring (thr : Int) : Environment :=
  { steady 1000 with
    input := fun _ => ⟨1000000000, 1000, { (default : Measured) with thr := thr }⟩ }

/-- At 2.5 Mbit/s the second segment is asked for with a height of 1080. And a limit of 100 stops
`getMPDValues`. -/
theorem height_limit_passed :
    (∃ w s r rep, after (measuring 2500000) mixedHeights 1 = .ok (.next w [s]) ∧
      prepare (streamLoop (measuring 2500000) 1) w s 0 = .ok r ∧
      requested r.1 (clampRepRate r.1 r.2) 0 = .ok rep ∧ rep.height = 1080) ∧
    getMPDValues mixedHeights.mpdList 0 100 12000 30 0 false = .error .outOfRange :=
  ⟨⟨_, _, _, _, rfl, rfl, rfl, rfl⟩, rfl⟩

/-- The clip with sorted heights, the first of which is above the limit of 720. -/
def sortedHeights : Config :=
  { mixedHeights with
    mpdList := [clip [videoOf 1080 3000000, videoOf 720 2000000, videoOf 480 1000000]] }

/-- At 5 Mbit/s the rate of 1080 is chosen, and the clamp keeps to the limit. -/
theorem height_limit_respected_clamped :
    getMPDValues sortedHeights.mpdList 0 720 12000 30 0 false ≠ .error .outOfRange ∧
    ∃ w s r rep, after (measuring 5000000) sortedHeights 1 = .ok (.next w [s]) ∧
      prepare (streamLoop (measuring 5000000) 1) w s 0 = .ok r ∧ r.2.repRate = 0 ∧
      requested r.1 (clampRepRate r.1 r.2) 0 = .ok rep ∧ rep.height ≤ 720 := by
  obtain ⟨-, hvalues, -, hrequests⟩ := height_limit_respected sortedHeights.mpdList 0 720
    12000 30 0 false
  constructor
  · refine (hvalues _ _ ⟨rfl, rfl, ⟨_, rfl⟩, nofun, ?_⟩).mpr
      ⟨videoOf 480 1000000, by simp, by decide, by decide⟩
    exact fun m hm => ⟨2, by cases mem_singleton.mp hm; rfl, fun _ => by decide⟩
  have hreach : ∃ w₀ s₀ w s r, stream sortedHeights = .ok (w₀, [s₀]) ∧
      usedSet w₀ s₀ 0 =
        .ok ⟨[videoOf 1080 3000000, videoOf 720 2000000, videoOf 480 1000000], [default]⟩ ∧
      calls (measuring 5000000) (streamLoop (measuring 5000000) 1) (.next w₀ [s₀]) 1 =
        .ok (.next w [s]) ∧
      prepare (streamLoop (measuring 5000000) 1) w s 0 = .ok r ∧ r.2.repRate = 0 :=
    ⟨_, _, _, _, _, rfl, rfl, rfl, rfl, rfl⟩
  obtain ⟨w₀, s₀, w, s, r, hstart, hused, hcalls, hprep, hrate⟩ := hreach
  obtain ⟨rep, hrep, hheight⟩ := hrequests sortedHeights (measuring 5000000) 1 w₀ s₀ w s r
    rfl hstart (run_calls hcalls) hprep
  refine ⟨w, s, r, rep, by rw [after, hstart]; exact hcalls, hprep, hrate, hrep, hheight ?_⟩
  intro set hset j r' hlimit hr'
  cases hused.symm.trans hset
  have hone : (1 : Int) ≤ j := hlimit
  have hthree : j < (3 : Int) := (index_ok_iff.mp ⟨r', hr'⟩).2
  obtain rfl | rfl : j = 1 ∨ j = 2 := by omega
  · cases hr'
    decide
  · cases hr'
    decide

end RlncStreaming.Godash
