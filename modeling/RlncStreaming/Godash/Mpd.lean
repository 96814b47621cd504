import RlncStreaming.Lib.Checked
import RlncStreaming.Lib.Text

/-!
The MPD of a clip (`http/mpdParsing.go`).

An MPD lists the representations of each adaptation set. `getMPDValues` reads from it what the
player needs: how long the clip is, how long the segments are, the bandwidths, and the indexes
between which the player may choose. Texts are lists of characters and `int` is `Int`.

`getMPDheightIndex` looks for the largest bandwidth among the representations that are not too
high. It finds one just if some of them has a positive bandwidth (`getMPDheightIndex_nonneg_iff`).
A duration has to have a fraction, or its seconds are lost, and minutes replace its hours
(`splitMPDSegmentDuration_iso`).
-/

namespace RlncStreaming.Godash

open Lib

inductive MimeType
  /-- `video/mp4` -/
  | video
  /-- `audio/mp4` -/
  | audio
  | other
  deriving DecidableEq, Repr, Inhabited

/-- The names under which `GetCodec` knows the codecs. -/
inductive Codec
  | h264
  | h265
  | vp9
  | av1
  /-- `audio/mp4` -/
  | audio
  | unknown
  deriving DecidableEq, Repr, Inhabited

structure SegmentTemplate where
  media : List Char
  timescale : Int
  duration : Int
  deriving Inhabited

structure SegmentList where
  timescale : Int
  duration : Int
  /-- The media ranges. -/
  segmentURL : List (List Char)
  deriving Inhabited

structure Representation where
  mimeType : MimeType
  codecs : Codec
  width : Int
  height : Int
  bandWidth : Int
  baseURL : List Char
  segmentTemplate : SegmentTemplate
  segmentList : SegmentList
  deriving Inhabited

structure AdaptationSet where
  representation : List Representation
  segmentTemplate : List SegmentTemplate

structure MPD where
  mediaPresentationDuration : List Char
  maxSegmentDuration : List Char
  profiles : List Char
  /-- The adaptation sets of each period. -/
  periods : List (List AdaptationSet)

/-- `mpd.Periods[0].AdaptationSet[i]`. -/
def MPD.adaptationSet (mpd : MPD) (i : Int) : Go AdaptationSet := do
  let period ← index mpd.periods 0
  index period i

/-! ### Durations -/

/-- The seconds of the hours, and the text after them. A text without hours keeps its `PT`. -/
def splitHours (mpdSegDuration : List Char) : Go (Int × List Char) :=
  let streamDurationHMS := replaceAll ['P', 'T'] [] mpdSegDuration
  if 'H' ∈ streamDurationHMS then do
    let hs := streamDurationHMS.splitOn 'H'
    let streamDurationH ← index hs 0
    let i3 ← orExit (atoi streamDurationH)
    let streamDuration ← index hs 1
    pure (if i3 > 0 then i3 * 60 * 60 else 0, streamDuration)
  else pure (0, replaceAll ['P', 'T', '0', 'H'] [] mpdSegDuration)

/-- Seconds. Minutes replace the hours. -/
def splitMPDSegmentDuration (mpdSegDuration : List Char) : Go Int := do
  let (totalTimeinSeconds, streamDuration) ← splitHours mpdSegDuration
  let s := streamDuration.splitOn 'M'
  let minutes ← index s 0
  let i1 ← orExit (atoi minutes)
  let seconds ← index s 1
  let whole ← index (seconds.splitOn '.') 0
  -- here the error is only printed; products and sums of 64 bits are cut off once
  pure (((if i1 > 0 then i1 * 60 else totalTimeinSeconds) + atoiValue whole).bmod (2 ^ 64))

/-- The segment duration of one byte-range MPD. -/
def byteRangeDuration (currentMPDRepAdaptSet : Int) (mpd : MPD) : Go Int := do
  let set ← mpd.adaptationSet currentMPDRepAdaptSet
  let first ← index set.representation 0
  quot first.segmentList.duration first.segmentList.timescale

def getByteRangeSegmentDetails (mpd : List MPD) (mpdListIndex currentMPDRepAdaptSet : Int) :
    Go (Int × List Int) := do
  let current ← index mpd mpdListIndex
  let streamDuration ← splitMPDSegmentDuration current.mediaPresentationDuration
  let segmentDurations ← mpd.mapM (byteRangeDuration currentMPDRepAdaptSet)
  let segmentDuration ← index segmentDurations mpdListIndex
  let maxSegments ← quot streamDuration segmentDuration
  pure (maxSegments, segmentDurations)

/-- A value of the first representation, or that of the template of the set if it is zero. -/
def templateValue (set : AdaptationSet) (value : SegmentTemplate → Int) (r : Representation) :
    Go Int :=
  if value r.segmentTemplate = 0 then do
    let template ← index set.segmentTemplate 0
    pure (value template)
  else pure (value r.segmentTemplate)

/-- The segment duration of one MPD. -/
def templateDuration (mpd : MPD) : Go Int := do
  let set ← mpd.adaptationSet 0
  let first ← index set.representation 0
  let duration ← templateValue set SegmentTemplate.duration first
  let timeScale ← templateValue set SegmentTemplate.timescale first
  quot duration (if timeScale = 0 then 1 else timeScale)

def getSegmentDetails (mpd : List MPD) (mpdListIndex : Int) : Go (Int × List Int) := do
  let current ← index mpd mpdListIndex
  let streamDuration ← splitMPDSegmentDuration current.mediaPresentationDuration
  let segmentDurations ← mpd.mapM templateDuration
  let segmentDuration ← index segmentDurations mpdListIndex
  let maxSegments ← quot streamDuration segmentDuration
  pure (maxSegments, segmentDurations)

/-! ### Durations that are read -/

/-- `{s}S`, or with a fraction `{s}.{f}S`. -/
def isoSeconds (s : Nat) (f : Option {digits : List Char // digits.all Char.isDigit}) : List Char :=
  Nat.toDigits 10 s ++
    match f with
    | none => ['S']
    | some f => '.' :: (f.1 ++ ['S'])

/-- `PT{h}H{m}M{s}S`, or with a fraction `PT{h}H{m}M{s}.{f}S`. -/
def isoDuration (h m s : Nat) (f : Option {digits : List Char // digits.all Char.isDigit}) :
    List Char :=
  'P' :: 'T' :: (Nat.toDigits 10 h ++ 'H' :: (Nat.toDigits 10 m ++ 'M' :: isoSeconds s f))

theorem not_mem_toDigits {c : Char} (hc : c.isDigit = false) (n : Nat) : c ∉ Nat.toDigits 10 n := by
  intro hmem
  rw [Nat.isDigit_of_mem_toDigits (by omega) (by omega) hmem] at hc
  cases hc

section Durations

variable (h m s : Nat) (f : Option {digits : List Char // digits.all Char.isDigit})

theorem not_mem_isoSeconds {c : Char} (hc : c.isDigit = false) (hdot : c ≠ '.') (hend : c ≠ 'S') :
    c ∉ isoSeconds s f := by
  unfold isoSeconds
  cases f with
  | none => simp [not_mem_toDigits hc, hend]
  | some f =>
    have hf : c ∉ f.1 := fun hmem => by
      have := List.all_eq_true.mp f.2 c hmem
      rw [hc] at this
      cases this
    simp [not_mem_toDigits hc, hdot, hend, hf]

/-- Only a fraction separates the seconds from their unit. -/
theorem atoiValue_isoSeconds : ∃ whole, index ((isoSeconds s f).splitOn '.') 0 = .ok whole ∧
    atoiValue whole = if f.isSome then min (s : Int) (2 ^ 63 - 1) else 0 := by
  unfold isoSeconds
  cases f with
  | none =>
    rw [List.splitOn_eq_singleton (by simp [not_mem_toDigits])]
    exact ⟨_, rfl, atoiValue_toDigits_append s rfl⟩
  | some f =>
    rw [List.splitOn_append_cons_self_of_not_mem (not_mem_toDigits rfl s)]
    refine ⟨_, rfl, ?_⟩
    simp only [atoiValue, readInt_toDigits, Option.isSome_some, if_true]
    omega

theorem splitHours_iso :
    splitHours (isoDuration h m s f) = if h < 2 ^ 63 then
      .ok (h * 60 * 60, Nat.toDigits 10 m ++ 'M' :: isoSeconds s f) else .error .exit := by
  have hrest {c : Char} (hc : c.isDigit = false) (h : c ∉ ['M', '.', 'S']) :
      c ∉ Nat.toDigits 10 m ++ 'M' :: isoSeconds s f := by
    simp only [List.mem_cons, List.not_mem_nil, or_false, not_or] at h
    simp [not_mem_toDigits hc, not_mem_isoSeconds s f hc h.2.1 h.2.2, h.1]
  have hreplace : replaceAll ['P', 'T'] [] (isoDuration h m s f) =
      Nat.toDigits 10 h ++ 'H' :: (Nat.toDigits 10 m ++ 'M' :: isoSeconds s f) := by
    refine (replaceAll_append (List.cons_ne_nil _ _) [] _).trans
      (replaceAll_of_absent (fun hin => ?_) [])
    rcases List.mem_append.mp (hin.subset List.mem_cons_self) with hmem | hmem
    · exact not_mem_toDigits rfl h hmem
    · exact hrest rfl (by decide) (List.mem_of_ne_of_mem (by decide) hmem)
  unfold splitHours
  simp only [hreplace]
  rw [if_pos (by simp), List.splitOn_append_cons_self_of_not_mem (not_mem_toDigits rfl h),
    List.splitOn_eq_singleton (hrest rfl (by decide))]
  change ((orExit (atoi (Nat.toDigits 10 h))).bind fun i3 =>
    .ok (if i3 > 0 then i3 * 60 * 60 else 0, _)) = _
  rw [atoi_toDigits]
  split
  · refine congrArg Except.ok (Prod.ext ?_ rfl)
    show (if (h : Int) > 0 then (h : Int) * 60 * 60 else 0) = h * 60 * 60
    split <;> omega
  · rfl

theorem splitMPDSegmentDuration_iso :
    splitMPDSegmentDuration (isoDuration h m s f) =
      if h < 2 ^ 63 ∧ m < 2 ^ 63 then
        .ok (((if (m : Int) > 0 then (m : Int) * 60 else h * 60 * 60) +
          if f.isSome then min (s : Int) (2 ^ 63 - 1) else 0).bmod (2 ^ 64))
      else .error .exit := by
  obtain ⟨whole, hwhole, hvalue⟩ := atoiValue_isoSeconds s f
  rw [splitMPDSegmentDuration, splitHours_iso]
  by_cases hh : h < 2 ^ 63
  · simp only [hh, if_true, true_and]
    change (index (List.splitOn 'M' _) 0 >>= _) = _
    rw [List.splitOn_append_cons_self_of_not_mem (not_mem_toDigits rfl m),
      List.splitOn_eq_singleton (not_mem_isoSeconds s f rfl (by decide) (by decide))]
    change ((orExit (atoi (Nat.toDigits 10 m))).bind fun i1 =>
      (index ((isoSeconds s f).splitOn '.') 0).bind fun whole => .ok (Int.bmod (_ + _) _)) = _
    rw [atoi_toDigits, hwhole]
    split
    · exact congrArg Except.ok (by rw [hvalue])
    · rfl
  · rw [if_neg hh, if_neg fun h => hh h.1]
    rfl

/-- Which durations are read as the number of their seconds. -/
theorem duration_read_iff :
    (splitMPDSegmentDuration (isoDuration h m s f) = .ok (3600 * h + 60 * m + s : Nat) ∧
      ∀ mpd i current durations segmentDuration, index mpd i = .ok current →
        current.mediaPresentationDuration = isoDuration h m s f →
        mpd.mapM templateDuration = .ok durations →
        index durations i = .ok segmentDuration → segmentDuration ≠ 0 →
        getSegmentDetails mpd i =
          .ok (Int.tdiv (3600 * h + 60 * m + s : Nat) segmentDuration, durations)) ↔
      3600 * h + 60 * m + s < 2 ^ 63 ∧ (h = 0 ∨ m = 0) ∧ (f.isSome ∨ s = 0) := by
  have hvalue := splitMPDSegmentDuration_iso h m s f
  generalize hx : ((if (m : Int) > 0 then (m : Int) * 60 else h * 60 * 60) +
    if f.isSome then min (s : Int) (2 ^ 63 - 1) else 0) = x at hvalue
  -- Without an overflow the sum of what is read is not cut off.
  have hfit (hsmall : 3600 * h + 60 * m + s < 2 ^ 63) : x.bmod (2 ^ 64) = x := by
    apply Int.bmod_eq_of_le <;> split at hx <;> split at hx <;> omega
  constructor
  · rintro ⟨hread, -⟩
    rw [hvalue] at hread
    split at hread
    · have hread := Except.ok.inj hread
      have hlt := Int.bmod_lt (x := x) (m := 2 ^ 64) (by decide)
      have hsmall : 3600 * h + 60 * m + s < 2 ^ 63 := by omega
      rw [hfit hsmall] at hread
      refine ⟨hsmall, ?_, ?_⟩
      · split at hx <;> split at hx <;> omega
      refine or_iff_not_imp_left.mpr fun hnone => ?_
      rw [if_neg hnone] at hx
      split at hx <;> omega
    · cases hread
  · rintro ⟨hsmall, hone, hfraction⟩
    have hread : splitMPDSegmentDuration (isoDuration h m s f) =
        .ok (3600 * h + 60 * m + s : Nat) := by
      rw [hvalue, if_pos (by omega), hfit hsmall]
      refine congrArg Except.ok ?_
      rcases hfraction with hfraction | rfl
      · rw [if_pos hfraction] at hx
        split at hx <;> omega
      · split at hx <;> split at hx <;> omega
    refine ⟨hread, fun mpd i current durations d hcurrent hduration hmap hindex hne => ?_⟩
    simp only [getSegmentDetails, bind_eq_ok, pure_eq_ok]
    exact ⟨current, hcurrent, _, hduration ▸ hread, durations, hmap, d, hindex, _,
      quot_eq_ok.mpr ⟨hne, rfl⟩, rfl⟩

end Durations

/-- The minutes of `PT1H1M30.0S` replace its hour. -/
theorem hours_lost : splitMPDSegmentDuration (isoDuration 1 1 30 (some ⟨['0'], rfl⟩)) = .ok 90 ∧
    (90 : Int) ≠ 3600 * 1 + 60 * 1 + 30 := by
  rw [splitMPDSegmentDuration_iso]
  exact ⟨rfl, by decide⟩

/-! ### Representations -/

/-- A representation that the height limit allows, with more than the bandwidth found so far. -/
def improves (maxHeight : Int) (found : Int × Int) (r : Representation) : Prop :=
  r.height ≤ maxHeight ∧ r.bandWidth > found.1

instance (maxHeight : Int) (found : Int × Int) (r : Representation) :
    Decidable (improves maxHeight found r) := inferInstanceAs (Decidable (_ ∧ _))

/-- The loop of `GetMPDheightIndex` from index `j` on: the bitrate, and the index plus one. -/
def heightLoop (maxHeight : Int) : Int → List Representation → Int × Int → Int × Int
  | _, [], found => found
  | j, r :: rs, found =>
    heightLoop maxHeight (j + 1) rs
      (if improves maxHeight found r then (r.bandWidth, j + 1) else found)

def getMPDheightIndex (set : AdaptationSet) (maxHeight : Int) : Int :=
  (heightLoop maxHeight 0 set.representation (0, 0)).2 - 1

def getMaxListIndex (set : AdaptationSet) : Int := set.representation.length - 1

def getRepresentationBandwidth (set : AdaptationSet) : List Int :=
  set.representation.map Representation.bandWidth

/-- Seconds in milliseconds. The product is cut off to 64 bits. -/
def millis (seconds : Int) : Int := (seconds * 1000).bmod (2 ^ 64)

structure MPDValues where
  maxStreamDuration : Int
  maxBufferLevel : Int
  /-- The index with the highest rate, as the height limit allows it. -/
  highestMPDrepRateIndex : Int
  lowestMPDrepRateIndex : Int
  segmentDurationArray : List Int
  bandwithList : List Int

/-- The number of segments, and the segment duration of each MPD. -/
def segmentDetails (mpd : List MPD) (mpdListIndex currentMPDRepAdaptSet : Int)
    (isByteRangeMPD : Bool) : Go (Int × List Int) :=
  if isByteRangeMPD then getByteRangeSegmentDetails mpd mpdListIndex currentMPDRepAdaptSet
  else getSegmentDetails mpd mpdListIndex

/-- The duration that was asked for, or that of the clip. -/
def maxStreamDuration (current : MPD) (mpdListIndex streamDuration maxSegments : Int)
    (segmentDurationArray : List Int) : Go Int :=
  if streamDuration ≠ 0 then pure streamDuration
  else do
    let lastSegmentDuration ← splitMPDSegmentDuration current.maxSegmentDuration
    let segmentDuration ← index segmentDurationArray mpdListIndex
    pure (segmentDuration * (maxSegments - 1) + lastSegmentDuration)

/-- The order of the rates is checked at the two ends only. -/
def getMPDValues (mpd : List MPD) (mpdListIndex maxHeight streamDuration maxBuffer
    currentMPDRepAdaptSet : Int) (isByteRangeMPD : Bool) : Go MPDValues := do
  let current ← index mpd mpdListIndex
  let set ← current.adaptationSet currentMPDRepAdaptSet
  let details ← segmentDetails mpd mpdListIndex currentMPDRepAdaptSet isByteRangeMPD
  let length ← maxStreamDuration current mpdListIndex streamDuration details.1 details.2
  let highest ← index (getRepresentationBandwidth set) (getMPDheightIndex set maxHeight)
  let lowest ← index (getRepresentationBandwidth set) (getMaxListIndex set)
  if highest ≥ lowest then
    pure {
      maxStreamDuration := length
      maxBufferLevel := maxBuffer
      highestMPDrepRateIndex := getMPDheightIndex set maxHeight
      lowestMPDrepRateIndex := getMaxListIndex set
      segmentDurationArray := details.2
      bandwithList := getRepresentationBandwidth set }
  else .error .exit

/-! ### Requests -/

/-- The template of a video is that of the representation, any other that of the set. -/
def mediaTemplate (set : AdaptationSet) (r : Representation) : Go (List Char) :=
  if r.mimeType = .video then pure r.segmentTemplate.media
  else do
    let template ← index set.segmentTemplate 0
    pure template.media

/-- The name of a segment. -/
def getNextSegment (mpd : MPD) (segNumber segQUALITY currentMPDRepAdaptSet : Int) :
    Go (List Char) := do
  let set ← mpd.adaptationSet currentMPDRepAdaptSet
  let r ← index set.representation segQUALITY
  let repRateBaseURL ← mediaTemplate set r
  pure (replaceAll ['$', 'N', 'u', 'm', 'b', 'e', 'r', '$'] (itoa segNumber) repRateBaseURL)

/-- `path.Base`. -/
def pathBase (path : List Char) : List Char :=
  if path = [] then ['.']
  else
    let last := (path.rdropWhile (· = '/')).rtakeWhile (· ≠ '/')
    if last = [] then ['/'] else last

/-- `JoinURL`. -/
def joinURL (baseURL append : List Char) : List Char :=
  if ['h', 't', 't', 'p'] <:+: append then append
  else replaceAll (pathBase baseURL) append baseURL

/-- The two ends of a media range. -/
def splitByteRange (byteRange : List Char) : Go (Int × Int) := do
  let s := byteRange.splitOn '-'
  let first ← index s 0
  let startRange ← orExit (atoi first)
  let second ← index s 1
  let endRange ← orExit (atoi second)
  pure (startRange, endRange)

/-- The location and the byte range of a segment. -/
def getNextByteRangeURL (mpd : MPD) (segNumber segQUALITY currentMPDRepAdaptSet : Int) :
    Go (List Char × Int × Int) := do
  let set ← mpd.adaptationSet currentMPDRepAdaptSet
  let r ← index set.representation segQUALITY
  let mediaRange ← index r.segmentList.segmentURL (segNumber - 1)
  let (startRange, endRange) ← splitByteRange mediaRange
  pure (r.baseURL, startRange, endRange)

/-! ### The height limit -/

/-- The representation may be the first choice under the height limit. -/
def Eligible (maxHeight : Int) (r : Representation) : Prop :=
  r.height ≤ maxHeight ∧ 0 < r.bandWidth

/-- What the loop has found among the representations that it has passed. -/
structure Found (maxHeight : Int) (past : List Representation) (found : Int × Int) : Prop where
  bitrate : 0 ≤ found.1
  /-- It has found the best of them, or nothing. -/
  hit : found.2 ≠ 0 → 0 < found.2 ∧ ∃ r, past[(found.2 - 1).toNat]? = some r ∧ Eligible maxHeight r
  miss : found.2 = 0 → found.1 = 0
  best : ∀ r ∈ past, r.height ≤ maxHeight → r.bandWidth ≤ found.1

section

variable {maxHeight : Int} {past : List Representation} {found : Int × Int}
  (h : Found maxHeight past found)

include h

theorem Found.push (r : Representation) :
    Found maxHeight (past ++ [r])
      (if improves maxHeight found r then (r.bandWidth, (past.length : Int) + 1) else found) := by
  have hbit := h.bitrate
  split
  · next himp =>
    obtain ⟨hheight, hmore⟩ := himp
    refine ⟨by omega, fun _ => ⟨by omega, r, ?_, hheight, by omega⟩, fun hzero => by omega, ?_⟩
    · rw [show ((past.length : Int) + 1 - 1).toNat = past.length by omega,
        List.getElem?_concat_length]
    intro r' hr' hheight'
    rcases List.mem_append.mp hr' with hr' | hr'
    · have := h.best r' hr' hheight'
      omega
    · obtain rfl := List.mem_singleton.mp hr'
      exact Int.le_refl r'.bandWidth
  · next himp =>
    refine ⟨hbit, ?_, h.miss, ?_⟩
    · intro hne
      obtain ⟨hpos, r', hget, hr'⟩ := h.hit hne
      exact ⟨hpos, r', by rw [List.getElem?_append_left (List.getElem?_eq_some_iff.mp hget).1,
        hget], hr'⟩
    intro r' hr' hheight'
    rcases List.mem_append.mp hr' with hr' | hr'
    · exact h.best r' hr' hheight'
    rw [List.mem_singleton.mp hr'] at hheight' ⊢
    unfold improves at himp
    omega

theorem found_heightLoop (rs : List Representation) :
    Found maxHeight (past ++ rs) (heightLoop maxHeight past.length rs found) := by
  induction rs generalizing past found with
  | nil =>
    rw [List.append_nil]
    exact h
  | cons r rs ih =>
    have hnext := ih (h.push r)
    rw [List.append_assoc, List.singleton_append, List.length_append,
      List.length_singleton] at hnext
    exact hnext

end

theorem found_start (maxHeight : Int) : Found maxHeight [] (0, 0) :=
  ⟨Int.le_refl 0, fun h => absurd rfl h, fun _ => rfl, fun _ hr => absurd hr List.not_mem_nil⟩

section

variable (set : AdaptationSet) (maxHeight : Int)

/-- What `getMPDheightIndex` has found. -/
theorem found_getMPDheightIndex :
    Found maxHeight set.representation (heightLoop maxHeight 0 set.representation (0, 0)) :=
  found_heightLoop (found_start maxHeight) set.representation

/-- There is an index just if there is a representation to choose. -/
theorem getMPDheightIndex_nonneg_iff :
    0 ≤ getMPDheightIndex set maxHeight ↔ ∃ r ∈ set.representation, Eligible maxHeight r := by
  have hfound := found_getMPDheightIndex set maxHeight
  unfold getMPDheightIndex
  constructor
  · intro hnonneg
    obtain ⟨-, r, hget, hr⟩ := hfound.hit (by omega)
    exact ⟨r, List.mem_of_getElem? hget, hr⟩
  rintro ⟨r, hr, hheight, hband⟩
  have hbest := hfound.best r hr hheight
  by_cases hzero : (heightLoop maxHeight 0 set.representation (0, 0)).2 = 0
  · have hmiss := hfound.miss hzero
    omega
  · have hpos := (hfound.hit hzero).1
    omega

/-- The index is minus one, or that of a representation under the height limit. -/
theorem getMPDheightIndex_lt : -1 ≤ getMPDheightIndex set maxHeight ∧
      getMPDheightIndex set maxHeight ≤ getMaxListIndex set := by
  have hfound := found_getMPDheightIndex set maxHeight
  unfold getMPDheightIndex getMaxListIndex
  by_cases hzero : (heightLoop maxHeight 0 set.representation (0, 0)).2 = 0
  · omega
  obtain ⟨hpos, r, hget, -⟩ := hfound.hit hzero
  have hlt := (List.getElem?_eq_some_iff.mp hget).1
  omega

end

/-! ### What the values are -/

/-- The segment durations are read from each MPD, in whatever way. -/
theorem length_details {mpd : List MPD} {mpdListIndex : Int} {duration : MPD → Go Int}
    {details : Int × List Int}
    (h : (do
      let current ← index mpd mpdListIndex
      let streamDuration ← splitMPDSegmentDuration current.mediaPresentationDuration
      let segmentDurations ← mpd.mapM duration
      let segmentDuration ← index segmentDurations mpdListIndex
      let maxSegments ← quot streamDuration segmentDuration
      pure (maxSegments, segmentDurations)) = .ok details) : details.2.length = mpd.length := by
  obtain ⟨_, -, h⟩ := bind_eq_ok.mp h
  obtain ⟨_, -, h⟩ := bind_eq_ok.mp h
  obtain ⟨durations, hdurations, h⟩ := bind_eq_ok.mp h
  obtain ⟨_, -, h⟩ := bind_eq_ok.mp h
  obtain ⟨_, -, h⟩ := bind_eq_ok.mp h
  cases pure_eq_ok.mp h
  exact length_of_mapM hdurations

/-- What `getMPDValues` returns. -/
theorem getMPDValues_eq_ok {mpd : List MPD} {mpdListIndex maxHeight streamDuration maxBuffer
    currentMPDRepAdaptSet : Int} {isByteRangeMPD : Bool} {v : MPDValues}
    (h : getMPDValues mpd mpdListIndex maxHeight streamDuration maxBuffer currentMPDRepAdaptSet
      isByteRangeMPD = .ok v) :
    ∃ current set, v.segmentDurationArray.length = mpd.length ∧
      index mpd mpdListIndex = .ok current ∧
      current.adaptationSet currentMPDRepAdaptSet = .ok set ∧
      v.highestMPDrepRateIndex = getMPDheightIndex set maxHeight ∧
      v.lowestMPDrepRateIndex = getMaxListIndex set ∧
      v.bandwithList = getRepresentationBandwidth set ∧
      0 ≤ v.highestMPDrepRateIndex ∧ v.highestMPDrepRateIndex ≤ v.lowestMPDrepRateIndex := by
  unfold getMPDValues at h
  obtain ⟨current, hcurrent, h⟩ := bind_eq_ok.mp h
  obtain ⟨set, hset, h⟩ := bind_eq_ok.mp h
  obtain ⟨details, hdetails, h⟩ := bind_eq_ok.mp h
  obtain ⟨maxStreamDuration, -, h⟩ := bind_eq_ok.mp h
  obtain ⟨highest, hhighest, h⟩ := bind_eq_ok.mp h
  obtain ⟨lowest, -, h⟩ := bind_eq_ok.mp h
  have hlength : details.2.length = mpd.length := by
    unfold segmentDetails at hdetails
    split at hdetails
    · exact length_details hdetails
    · exact length_details hdetails
  split at h
  · cases h
    exact ⟨current, set, hlength, hcurrent, hset, rfl, rfl, rfl, (index_eq_ok.mp hhighest).1,
      (getMPDheightIndex_lt set maxHeight).2⟩
  · cases h

/-! ### Siblings of the MPD -/

theorem pathBase_append {base : List Char} (h : base ≠ []) (hslash : '/' ∉ base)
    (parent : List Char) : pathBase (parent ++ '/' :: base) = base := by
  have hlast : (parent ++ '/' :: base).rdropWhile (· = '/') = parent ++ '/' :: base := by
    rw [List.rdropWhile_eq_self_iff]
    intro hne hslash'
    simp only [List.getLast_append_of_ne_nil _ (List.cons_ne_nil '/' base),
      List.getLast_cons h, decide_eq_true_eq] at hslash'
    exact hslash (hslash' ▸ List.getLast_mem h)
  have htake : (parent ++ '/' :: base).rtakeWhile (· ≠ '/') = base := by
    have hall : ∀ c ∈ base.reverse, decide (c ≠ '/') = true := by
      intro c hc
      refine decide_eq_true ?_
      rintro rfl
      exact hslash (List.mem_reverse.mp hc)
    rw [List.rtakeWhile, List.reverse_append, List.reverse_cons, List.append_assoc,
      List.takeWhile_append_of_pos hall]
    simp
  rw [pathBase, if_neg (by simp)]
  simp only [hlast, htake, if_neg h]

/-- Which names take the place of the last element of a URL, and of nothing else. -/
theorem joinURL_sibling_iff {parent base name : List Char} (h : base ≠ []) (hslash : '/' ∉ base)
    (hname : ¬ ['h', 't', 't', 'p'] <:+: name) :
    joinURL (parent ++ '/' :: base) name = parent ++ '/' :: name ↔
      name = base ∨ ¬ base <:+: parent := by
  rw [joinURL, if_neg hname, pathBase_append h hslash, replaceAll_append_cons h hslash]
  have hbase : replaceAll base name base = name := by
    have := replaceAll_append h name []
    rwa [List.append_nil, show replaceAll base name [] = [] from rfl, List.append_nil] at this
  rw [hbase, List.append_cancel_right_eq, replaceAll_eq_self_iff h]

theorem joinURL_sibling_segment : joinURL ['a', '/', 'm'] ['s'] = ['a', '/', 's'] :=
  (@joinURL_sibling_iff ['a'] ['m'] ['s'] (by decide) (by decide) (by decide)).mpr (by decide)

/-- The name of the MPD also occurs in the directory. -/
theorem joinURL_replaces_twice :
    joinURL ['m', 'y', '/', 'm'] ['s'] = ['s', 'y', '/', 's'] ∧
      ['s', 'y', '/', 's'] ≠ ['m', 'y', '/', 's'] := by
  decide

end RlncStreaming.Godash
