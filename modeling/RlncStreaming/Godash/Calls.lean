import RlncStreaming.Godash.Player

/-!
What one call of `streamLoop` does.

Each stage of a call has a lemma that says what it leaves behind when it succeeds. For a player
with one adaptation set they add up to `Call`: the stream is over, or a segment is downloaded and
the stream is over, or the chooser is asked.
-/

namespace RlncStreaming.Godash

open Lib Playback

/-! ### Logs -/

theorem Playback.entry_setEntry_self (p : Playback) (log : Nat) (key : Int) (e : Entry) :
    (p.setEntry log key e).entry log key = e := by
  rw [entry, setEntry]
  dsimp only
  rw [if_pos ⟨rfl, rfl⟩]
  rfl

theorem Playback.entry_setEntry_of_ne (p : Playback) (log : Nat) {key key' : Int}
    (h : key' ≠ key) (e : Entry) : (p.setEntry log key e).entry log key' = p.entry log key' := by
  rw [entry, setEntry]
  dsimp only
  rw [if_neg fun hkey => h hkey.2]
  rfl

/-! ### Stages -/

/-- The adaptation set that a change to the MPD at the index selects. -/
def selected (w : World) (codec : Codec) (mpdListIndex : Int) : Go Int := do
  let codecIndex ← codecOf w codec mpdListIndex
  let indexes ← index w.sel.codecIndexList mpdListIndex
  index indexes codecIndex

/-- What a change of the MPD does. -/
structure Reselected (w : World) (s : StreamStruct) (sel : Selection) (streamDuration : Int)
    (bandwithList : List Int) : Prop where
  mpdListIndex : sel.mpdListIndex = s.oldMPDIndex
  mimeTypes : sel.mimeTypes.length = w.sel.mimeTypes.length
  same : s.oldMPDIndex = w.sel.mpdListIndex →
    sel = w.sel ∧ streamDuration = s.streamDuration ∧ bandwithList = s.bandwithList
  changed : s.oldMPDIndex ≠ w.sel.mpdListIndex → ∃ (i : Nat) (set set' segmentDuration : Int),
    ∃ v : MPDValues, index w.sel.mimeTypes i = .ok set ∧
      selected w s.codec s.oldMPDIndex = .ok set' ∧
      getMPDValues s.mpdList s.oldMPDIndex s.maxHeight s.streamDuration s.maxBuffer set
        s.isByteRangeMPD = .ok v ∧ bandwithList = v.bandwithList ∧
      sel = { w.sel.read v segmentDuration with
        mpdListIndex := s.oldMPDIndex
        mimeTypes := w.sel.mimeTypes.set i set' }

variable {s : StreamStruct} {w : World}

theorem changeMPD_eq_ok {i : Nat} {r : World × StreamStruct} (h : changeMPD w s i = .ok r) :
    ∃ sel streamDuration bandwithList,
      r = ({ w with sel := sel },
        { s with streamDuration := streamDuration, bandwithList := bandwithList }) ∧
      Reselected w s sel streamDuration bandwithList := by
  unfold changeMPD at h
  split at h
  · next hsame =>
    cases h
    exact ⟨w.sel, s.streamDuration, s.bandwithList, rfl, hsame.symm, rfl, fun _ => ⟨rfl, rfl, rfl⟩,
      fun hchanged => absurd hsame hchanged⟩
  rename_i hchanged
  obtain ⟨set, hset, h⟩ := bind_eq_ok.mp h
  obtain ⟨v, hv, h⟩ := bind_eq_ok.mp h
  obtain ⟨segmentDuration, -, h⟩ := bind_eq_ok.mp h
  obtain ⟨codecIndex, hcodec, h⟩ := bind_eq_ok.mp h
  obtain ⟨indexes, hindexes, h⟩ := bind_eq_ok.mp h
  obtain ⟨set', hset', h⟩ := bind_eq_ok.mp h
  obtain ⟨mpd, -, h⟩ := bind_eq_ok.mp h
  obtain ⟨profile, -, h⟩ := bind_eq_ok.mp h
  cases pure_eq_ok.mp h
  have hselected : selected w s.codec s.oldMPDIndex = .ok set' :=
    bind_eq_ok.mpr ⟨codecIndex, hcodec, bind_eq_ok.mpr ⟨indexes, hindexes, hset'⟩⟩
  exact ⟨_, _, _, rfl, rfl, List.length_set, fun hsame => absurd hsame hchanged,
    fun _ => ⟨i, set, set', segmentDuration, v, hset, hselected, hv, rfl, rfl⟩⟩

section

variable (w : World) (s : StreamStruct)

/-- The accumulators after a segment. -/
def newQoE (bandwidth : Int) : QoE :=
  if w.getQoEBool then
    accumulate w.play.qoe (w.play.entry s.mapSegmentLogPrintout (s.segmentNumber - 1))
      s.segmentNumber bandwidth w.play.stallTime
  else w.play.qoe

def scored (bandwidth : Int) : World :=
  { w with play := { w.play with qoe := newQoE w s bandwidth } }

/-- The entry of the segment is put into its log. -/
def logged (information : Entry) : World :=
  { w with play := w.play.setEntry s.mapSegmentLogPrintout s.segmentNumber information }

end

/-- What a segment leaves behind, from what `receive` left. -/
structure Downloaded (w : World) (s : StreamStruct) (m : Measured) (hlsReplaced : Bool)
    (w' : World) (s' : StreamStruct) : Prop where
  world : ∃ bandwidth actRate adaptIndex, index s.bandwithList s.repRate = .ok bandwidth ∧
    w' = logged (scored w s bandwidth) s
      (printInformation (scored w s bandwidth) s hlsReplaced bandwidth actRate adaptIndex)
  duration : millis w.sel.segmentDuration ≠ 0
  next : ∃ bandwidth, index s.bandwithList s'.repRate = .ok bandwidth
  struct : s' = { s with
    repRate := nextRepRate s.adapt m s.repRate s.bandwithList w.sel.highestMPDrepRateIndex
      w.sel.lowestMPDrepRateIndex
    segmentNumber := s.segmentNumber + 1 }

variable {hlsReplaced : Bool}

/-- The entry of the segment. -/
theorem Downloaded.entry {w' : World} {s' : StreamStruct} {m : Measured}
    (h : Downloaded w s m hlsReplaced w' s') :
    ∃ bandwidth actRate adaptIndex, index s.bandwithList s.repRate = .ok bandwidth ∧
      w'.play.entry s.mapSegmentLogPrintout s.segmentNumber =
        printInformation (scored w s bandwidth) s hlsReplaced bandwidth actRate adaptIndex := by
  obtain ⟨bandwidth, actRate, adaptIndex, hband, rfl⟩ := h.world
  exact ⟨bandwidth, actRate, adaptIndex, hband, entry_setEntry_self _ _ _ _⟩

theorem score_eq_ok {w' : World} (h : score w s = .ok w') :
    (w.getQoEBool = true → ∃ bandwidth, index s.bandwithList s.repRate = .ok bandwidth) ∧
      ∀ bandwidth, index s.bandwithList s.repRate = .ok bandwidth → w' = scored w s bandwidth := by
  unfold score at h
  split at h
  · next hon =>
    obtain ⟨bandwidth, hband, h⟩ := bind_eq_ok.mp h
    refine ⟨fun _ => ⟨bandwidth, hband⟩, fun b hb => ?_⟩
    cases hband.symm.trans hb
    rw [← pure_eq_ok.mp h, scored, newQoE, if_pos hon]
  · next hoff =>
    refine ⟨fun hon => absurd hon hoff, fun b _ => ?_⟩
    rw [← pure_eq_ok.mp h, scored, newQoE, if_neg hoff]

variable {env : Environment}

theorem segment_eq_ok {i : Nat} {r : World × StreamStruct}
    (h : segment env i hlsReplaced w s = .ok r) :
    request w (clampRepRate w s) i = .ok () ∧
      Downloaded (receive env w (clampRepRate w s)).1 (receive env w (clampRepRate w s)).2
        (env.input w.play.downloads).measured hlsReplaced r.1 r.2 := by
  obtain ⟨⟨⟩, hrequest, h⟩ := bind_eq_ok.mp h
  obtain ⟨w₁, hscore, h⟩ := bind_eq_ok.mp h
  obtain ⟨w₂, hlog, h⟩ := bind_eq_ok.mp h
  obtain ⟨⟨⟩, -, h⟩ := bind_eq_ok.mp h
  obtain ⟨s₁, hchoose, h⟩ := bind_eq_ok.mp h
  cases pure_eq_ok.mp h
  obtain ⟨bandwidth, hband, hlog⟩ := bind_eq_ok.mp hlog
  obtain ⟨actRate, hrate, hlog⟩ := bind_eq_ok.mp hlog
  obtain ⟨adaptIndex, -, hlog⟩ := bind_eq_ok.mp hlog
  cases pure_eq_ok.mp hlog
  cases (score_eq_ok hscore).2 bandwidth hband
  obtain ⟨rate, hnext, hchoose⟩ := bind_eq_ok.mp hchoose
  cases pure_eq_ok.mp hchoose
  exact ⟨hrequest, ⟨bandwidth, actRate, adaptIndex, hband, rfl⟩, (quot_eq_ok.mp hrate).1,
    ⟨rate, hnext⟩, rfl⟩

section

variable (env : Environment) (w : World) (s : StreamStruct)

/-- When the segment arrives. -/
def arrival : Int :=
  (w.play.download s.adapt (env.input w.play.downloads)).clock

/-- What happens with the segment. -/
def seenNext : Seen where
  buffer := s.bufferLevel
  playing := decide (s.initBuffer ≤ w.play.waitToPlayCounter)
  gap := arrival env w s - s.nextRunTime
  arrived := arrival env w s
  ready := arrival env w s + sleepTime w s (arrival env w s) * nanos
  duration := millis w.sel.segmentDuration
  limit := millis s.maxBuffer

end

/-- What a segment changes apart from the log, the rate and the accumulators. -/
structure Progressed (env : Environment) (w : World) (s : StreamStruct) (t : World × StreamStruct) :
    Prop where
  world : ∃ play, t.1 = { w with play := play }
  seen : t.1.play.seen = w.play.seen ++ [seenNext env w s]
  clock : t.1.play.clock = (seenNext env w s).ready
  counter : t.1.play.waitToPlayCounter = w.play.waitToPlayCounter + 1
  stallTime : t.1.play.stallTime = newStallTime w s (arrival env w s)
  record : ∃ arrivalTime repRate, t.2 = { s with
    segmentNumber := s.segmentNumber + 1
    nextRunTime := arrival env w s
    bufferLevel := filledBuffer w s (arrival env w s) - sleepTime w s (arrival env w s)
    segmentDurationTotal := s.segmentDurationTotal + millis w.sel.segmentDuration
    arrivalTime := arrivalTime
    repRate := repRate }
  duration : millis w.sel.segmentDuration ≠ 0

theorem Playback.download_eq (p : Playback) (adapt : Adapt) (input : Input) :
    ∃ clock downloads segSize, p.download adapt input =
      { p with clock := clock, downloads := downloads, segSize := segSize } := by
  unfold download
  split
  · exact ⟨p.clock, p.downloads, p.segSize, rfl⟩
  · exact ⟨_, _, _, rfl⟩

section

variable {i : Nat} {t : World × StreamStruct} (h : segment env i hlsReplaced w s = .ok t)

include h

theorem segment_progressed : Progressed env w s t := by
  obtain ⟨-, hdown⟩ := segment_eq_ok h
  obtain ⟨_, _, _, -, hw⟩ := hdown.world
  obtain ⟨clock, downloads, segSize, hdownload⟩ :=
    w.play.download_eq s.adapt (env.input w.play.downloads)
  have hseen : (w.play.download s.adapt (env.input w.play.downloads)).seen = w.play.seen := by
    rw [hdownload]
  have hcounter : (w.play.download s.adapt (env.input w.play.downloads)).waitToPlayCounter =
      w.play.waitToPlayCounter := by
    rw [hdownload]
  constructor
  · exact ⟨_, hw⟩
  · rw [hw, ← hseen]
    rfl
  · rw [hw]
    rfl
  · rw [hw, ← hcounter]
    rfl
  · rw [hw]
    rfl
  · exact ⟨_, _, hdown.struct⟩
  · exact hdown.duration

/-- The entry of the segment, as far as the player reads entries again. -/
theorem segment_entry :
    ∃ e, t.1.play.entry s.mapSegmentLogPrintout s.segmentNumber = e ∧
      e.bufferLevel = t.2.bufferLevel ∧ e.stallTime = t.1.play.stallTime ∧
      (w.getQoEBool = true → e.qoe = accumulate w.play.qoe
        (w.play.entry s.mapSegmentLogPrintout (s.segmentNumber - 1)) s.segmentNumber e.bandwidth
        e.stallTime) := by
  obtain ⟨-, hdown⟩ := segment_eq_ok h
  obtain ⟨_, _, _, -, hw⟩ := hdown.world
  obtain ⟨bandwidth, actRate, adaptIndex, -, hentry⟩ := hdown.entry
  obtain ⟨clock, downloads, segSize, hdownload⟩ :=
    w.play.download_eq s.adapt (env.input w.play.downloads)
  refine ⟨_, hentry, ?_, ?_, ?_⟩
  · rw [hdown.struct]
    rfl
  · rw [hw]
    rfl
  intro hon
  have hon' : (receive env w (clampRepRate w s)).1.getQoEBool = true := hon
  dsimp only [printInformation, scored]
  rw [newQoE, if_pos hon']
  have hlogs : (w.play.download s.adapt (env.input w.play.downloads)).logs = w.play.logs := by
    rw [hdownload]
  have hqoe : (w.play.download s.adapt (env.input w.play.downloads)).qoe = w.play.qoe := by
    rw [hdownload]
  rw [← hqoe, entry, entry, ← hlogs]
  rfl

/-- The other entries stay. -/
theorem segment_entry_of_ne {key : Int} (hkey : key ≠ s.segmentNumber) :
    t.1.play.entry s.mapSegmentLogPrintout key = w.play.entry s.mapSegmentLogPrintout key := by
  obtain ⟨-, hdown⟩ := segment_eq_ok h
  obtain ⟨clock, downloads, segSize, hdownload⟩ :=
    w.play.download_eq s.adapt (env.input w.play.downloads)
  have hlogs : (w.play.download s.adapt (env.input w.play.downloads)).logs = w.play.logs := by
    rw [hdownload]
  obtain ⟨bandwidth, actRate, adaptIndex, -, hworld⟩ := hdown.world
  rw [hworld]
  refine (entry_setEntry_of_ne _ _ hkey _).trans ?_
  rw [entry, entry, ← hlogs]
  rfl

end

/-- What the chooser's answer changes. -/
theorem nextSegment_eq_ok {structs : List StreamStruct} {i : Nat}
    {r : Bool × World × List StreamStruct} (h : nextSegment env w structs i = .ok r) :
    ∃ s answer, index structs i = .ok s ∧
      getNextSegmentDuration w.sel.segmentDurationArray (millis w.sel.segmentDuration)
        w.segmentDurationTotal s.streamDuration (env.random w.consults.length) = .ok answer ∧
      r = (answer.1, consulted w s answer,
        structs.set i { s with oldMPDIndex := answer.2.1, nextSegmentNumber := answer.2.2 }) := by
  obtain ⟨s, hs, h⟩ := bind_eq_ok.mp h
  obtain ⟨_, -, h⟩ := bind_eq_ok.mp h
  obtain ⟨answer, hanswer, h⟩ := bind_eq_ok.mp h
  exact ⟨s, answer, hs, hanswer, (pure_eq_ok.mp h).symm⟩

theorem segment_sel {i : Nat} {r : World × StreamStruct}
    (h : segment env i hlsReplaced w s = .ok r) : r.1.sel = w.sel := by
  obtain ⟨play, hw⟩ := (segment_progressed h).world
  rw [hw]

theorem collectLogs_eq_ok {w' : World} {structs : List StreamStruct}
    (h : collectLogs w structs = .ok w') :
    ∃ logs, w' = { w with mapSegmentLogPrintouts := w.mapSegmentLogPrintouts ++ logs } := by
  obtain ⟨logs, -, h⟩ := bind_eq_ok.mp h
  exact ⟨logs, (pure_eq_ok.mp h).symm⟩

/-! ### Calls with one adaptation set -/

/-- A call from the check whether another segment fits, with one adaptation set. -/
inductive Call (env : Environment) (w : World) (s : StreamStruct) : Outcome → Prop
  | ended {logs : List Nat} : atEnd w s = true →
      Call env w s (.returned s.segmentNumber { w with
        mapSegmentLogPrintouts := w.mapSegmentLogPrintouts ++ logs })
  | last {t : World × StreamStruct} {logs : List Nat} : atEnd w s = false →
      segment env 0 s.hlsUsed w s = .ok t → atEnd t.1 t.2 = true →
      Call env w s (.returned t.2.segmentNumber { t.1 with
        mapSegmentLogPrintouts := t.1.mapSegmentLogPrintouts ++ logs })
  | stopped {t : World × StreamStruct} {w' : World} {s' : StreamStruct} : atEnd w s = false →
      segment env 0 s.hlsUsed w s = .ok t → atEnd t.1 t.2 = false →
      nextSegment env t.1 [t.2] 0 = .ok (true, w', [s']) →
      Call env w s (.returned w'.segmentNumber w')
  | next {t : World × StreamStruct} {w' : World} {s' : StreamStruct} : atEnd w s = false →
      segment env 0 s.hlsUsed w s = .ok t → atEnd t.1 t.2 = false →
      nextSegment env t.1 [t.2] 0 = .ok (false, w', [s']) → Call env w s (.next w' [s'])

/-- The body with one adaptation set. -/
theorem body_one {f : Loop} {q : Outcome}
    (hkeep : ∀ r, prepare f w s 0 = .ok r → r.1.sel.mimeTypes.length = 1 ∧ r.2.hlsUsed = s.hlsUsed)
    (h : body env f s.hlsUsed 0 w [s] = .ok q) :
    ∃ r, prepare f w s 0 = .ok r ∧
      ((atEnd r.1 r.2 = true ∧ ∃ logs, q = .returned r.2.segmentNumber { r.1 with
          mapSegmentLogPrintouts := r.1.mapSegmentLogPrintouts ++ logs }) ∨
        (atEnd r.1 r.2 = false ∧ ∃ t, segment env 0 r.2.hlsUsed r.1 r.2 = .ok t ∧
          ((atEnd t.1 t.2 = true ∧ ∃ logs, q = .returned t.2.segmentNumber { t.1 with
              mapSegmentLogPrintouts := t.1.mapSegmentLogPrintouts ++ logs }) ∨
            (atEnd t.1 t.2 = false ∧ q = .next t.1 [t.2])))) := by
  obtain ⟨s', hs', h⟩ := bind_eq_ok.mp h
  cases hs'
  obtain ⟨r, hprep, h⟩ := bind_eq_ok.mp h
  obtain ⟨hone, hused⟩ := hkeep r hprep
  have hlast : ∀ w' : World, w'.sel.mimeTypes.length = 1 → isLast w' 0 = true := by
    intro w' hw'
    rw [isLast, hw']
    rfl
  refine ⟨r, hprep, ?_⟩
  rw [hlast r.1 hone, Bool.and_true] at h
  split at h
  · next hend =>
    obtain ⟨w', hlogs, h⟩ := bind_eq_ok.mp h
    obtain ⟨logs, rfl⟩ := collectLogs_eq_ok hlogs
    exact .inl ⟨hend, logs, (pure_eq_ok.mp h).symm⟩
  rename_i hgo
  obtain ⟨t, hseg, h⟩ := bind_eq_ok.mp h
  refine .inr ⟨eq_false_of_ne_true hgo, t, by rw [hused]; exact hseg, ?_⟩
  rw [hlast t.1 (by rw [segment_sel hseg]; exact hone), Bool.and_true] at h
  split at h
  · next hend =>
    obtain ⟨w', hlogs, h⟩ := bind_eq_ok.mp h
    obtain ⟨logs, rfl⟩ := collectLogs_eq_ok hlogs
    exact .inl ⟨hend, logs, (pure_eq_ok.mp h).symm⟩
  · next hgo' => exact .inr ⟨eq_false_of_ne_true hgo', (pure_eq_ok.mp h).symm⟩

/-- A call with one adaptation set. -/
theorem round_one {f : Loop} {q : Outcome} (hone : w.sel.mimeTypes.length = 1)
    (hkeep : ∀ r, prepare f w s 0 = .ok r → r.1.sel.mimeTypes.length = 1 ∧ r.2.hlsUsed = s.hlsUsed)
    (h : round env f w [s] = .ok q) :
    ∃ r, prepare f w s 0 = .ok r ∧ Call env r.1 r.2 q := by
  obtain ⟨first, hfirst, h⟩ := bind_eq_ok.mp h
  cases hfirst
  obtain ⟨o, hsets, h⟩ := bind_eq_ok.mp h
  rw [hone] at hsets
  obtain ⟨o', hbody, hsets⟩ := bind_eq_ok.mp hsets
  obtain ⟨r, hprep, hcases⟩ := body_one hkeep hbody
  refine ⟨r, hprep, ?_⟩
  rcases hcases with ⟨hend, logs, rfl⟩ | ⟨hgo, t, hseg, ⟨hend, logs, rfl⟩ | ⟨hgo', rfl⟩⟩
  · cases hsets
    cases h
    exact .ended hend
  · cases hsets
    cases h
    exact .last hgo hseg hend
  cases hsets
  obtain ⟨r', hnexts, h⟩ := bind_eq_ok.mp h
  rw [segment_sel hseg, (hkeep r hprep).1] at hnexts
  obtain ⟨n, hnext, hnexts⟩ := bind_eq_ok.mp hnexts
  cases hnexts
  obtain ⟨_, answer, ⟨⟩, -, rfl⟩ := nextSegment_eq_ok hnext
  cases hstop : answer.1 with
  | true =>
    rw [hstop] at hnext h
    cases h
    exact .stopped hgo hseg hgo' hnext
  | false =>
    rw [hstop] at hnext h
    cases h
    exact .next hgo hseg hgo' hnext

/-! ### The first call -/

section Start

variable {c : Config}

/-- The values for an adaptation set are those that the MPD gives. -/
structure Added (c : Config) (v : MPDValues) (set : Nat) (segmentDuration : Int)
    (isByteRangeMPD : Bool) : Prop where
  values : getMPDValues c.mpdList 0 c.maxHeight c.streamDuration c.maxBuffer set isByteRangeMPD =
    .ok v
  duration : index v.segmentDurationArray 0 = .ok segmentDuration

theorem addSet_eq_ok {audioContent : Bool} {acc acc' : World × List StreamStruct}
    {entry : Int × Nat} (h : addSet c audioContent acc entry = .ok acc') :
    acc' = acc ∨ ∃ v segmentDuration isByteRangeMPD,
      Added c v entry.2 segmentDuration isByteRangeMPD ∧
      acc' = (addedWorld c acc.1 v entry.2 segmentDuration,
        acc.2 ++ [firstStruct c (addedWorld c acc.1 v entry.2 segmentDuration) v isByteRangeMPD
          audioContent acc.2.length]) := by
  unfold addSet at h
  split at h
  · exact .inl (pure_eq_ok.mp h).symm
  obtain ⟨mpd, -, h⟩ := bind_eq_ok.mp h
  obtain ⟨byteRange, -, h⟩ := bind_eq_ok.mp h
  obtain ⟨v, hv, h⟩ := bind_eq_ok.mp h
  obtain ⟨profile, -, h⟩ := bind_eq_ok.mp h
  obtain ⟨codecs, -, h⟩ := bind_eq_ok.mp h
  obtain ⟨codec, -, h⟩ := bind_eq_ok.mp h
  obtain ⟨⟨⟩, -, h⟩ := bind_eq_ok.mp h
  obtain ⟨set, -, h⟩ := bind_eq_ok.mp h
  obtain ⟨⟨⟩, -, h⟩ := bind_eq_ok.mp h
  obtain ⟨segmentDuration, hduration, h⟩ := bind_eq_ok.mp h
  exact .inr ⟨v, segmentDuration, byteRange, ⟨hv, hduration⟩, (pure_eq_ok.mp h).symm⟩

theorem stream_eq_ok {r : World × List StreamStruct} (h : stream c = .ok r) :
    ∃ codecList codecIndexList audioContent, ∃ entries : List (Int × Nat),
      entries.foldlM (addSet c audioContent) (World.start c codecList codecIndexList, []) =
        .ok r := by
  obtain ⟨⟨codecList, codecIndexList, audioContent⟩, -, h⟩ := bind_eq_ok.mp h
  obtain ⟨codecs, -, h⟩ := bind_eq_ok.mp h
  obtain ⟨only, -, h⟩ := bind_eq_ok.mp h
  split at h
  · obtain ⟨indexes, -, h⟩ := bind_eq_ok.mp h
    exact ⟨codecList, codecIndexList, audioContent, indexes.zipIdx, h⟩
  · cases h

/-- There is a record for each adaptation set. -/
theorem stream_length {structs : List StreamStruct} (h : stream c = .ok (w, structs)) :
    structs.length = w.sel.mimeTypes.length := by
  obtain ⟨codecList, codecIndexList, audioContent, entries, hfold⟩ := stream_eq_ok h
  have hkeep : ∀ acc entry acc', acc.2.length = acc.1.sel.mimeTypes.length →
      addSet c audioContent acc entry = .ok acc' →
      acc'.2.length = acc'.1.sel.mimeTypes.length := by
    intro acc entry acc' hacc hadd
    rcases addSet_eq_ok hadd with rfl | ⟨v, segmentDuration, byteRange, -, rfl⟩
    · exact hacc
    dsimp only [addedWorld]
    rw [List.length_append, List.length_append, hacc, List.length_singleton, List.length_singleton]
  exact foldlM_keeps (P := fun acc => acc.2.length = acc.1.sel.mimeTypes.length) hkeep rfl hfold

/-- The state before the first call, with one adaptation set. -/
def Started (c : Config) (w : World) (s : StreamStruct) : Prop :=
  ∃ codecList codecIndexList v set segmentDuration isByteRangeMPD audioContent,
    Added c v set segmentDuration isByteRangeMPD ∧
    w = addedWorld c (World.start c codecList codecIndexList) v set segmentDuration ∧
    s = firstStruct c w v isByteRangeMPD audioContent 0

theorem stream_one (h : stream c = .ok (w, [s])) : Started c w s := by
  obtain ⟨codecList, codecIndexList, audioContent, entries, hfold⟩ := stream_eq_ok h
  -- nothing added yet, one set added, or more
  let P : World × List StreamStruct → Prop := fun acc =>
    acc = (World.start c codecList codecIndexList, []) ∨
      (∃ s, acc.2 = [s] ∧ Started c acc.1 s) ∨ 2 ≤ acc.2.length
  have hkeep : ∀ acc entry acc', P acc → addSet c audioContent acc entry = .ok acc' → P acc' := by
    intro acc entry acc' hacc hadd
    rcases addSet_eq_ok hadd with rfl | ⟨v, segmentDuration, byteRange, hadded, rfl⟩
    · exact hacc
    rcases hacc with rfl | ⟨s, hs, -⟩ | hmany
    · exact .inr (.inl ⟨_, rfl, codecList, codecIndexList, v, entry.2, segmentDuration, byteRange,
        audioContent, hadded, rfl, rfl⟩)
    · refine .inr (.inr ?_)
      dsimp only
      rw [hs]
      exact Nat.le_refl 2
    · refine .inr (.inr ?_)
      rw [List.length_append]
      exact Nat.le_add_right_of_le hmany
  rcases foldlM_keeps hkeep (.inl rfl) hfold with hnone | ⟨s', hs', hstarted⟩ | hmany
  · cases hnone
  · cases hs'
    exact hstarted
  · exact absurd hmany (Nat.not_succ_le_self 1)

end Start

end RlncStreaming.Godash
