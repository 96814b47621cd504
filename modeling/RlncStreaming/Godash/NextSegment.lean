import RlncStreaming.Godash.Replacement

/-!
The choice of the next segment.

After a segment `streamLoop` asks `getNextSegmentDuration` where to go on, and passes the package
variable `segmentDurationTotal`. The media time that was downloaded is in a local variable of the
same name. The package variable stays at zero, so the answer is always about the first segment:
with one MPD the choice follows playback just as long as the chooser is not asked
(`next_segment_follows_iff`).
-/

namespace RlncStreaming.Godash

open Lib List

variable {env : Environment} {w w₀ : World} {s s₀ : StreamStruct}

/-! ### One MPD -/

/-- With one MPD it is chosen, also if the player is to stop. -/
theorem getNextSegmentDuration_one {d last total streamDuration : Int} {random : Nat}
    {answer : Bool × Int × Int}
    (h : getNextSegmentDuration [d] last total streamDuration random = .ok answer) :
    answer.2.1 = 0 := by
  obtain ⟨usable, husable, h⟩ := bind_eq_ok.mp h
  obtain ⟨_, -, husable⟩ := bind_eq_ok.mp husable
  obtain ⟨_, -, husable⟩ := bind_eq_ok.mp husable
  obtain ⟨number, -, husable⟩ := bind_eq_ok.mp husable
  obtain ⟨rest, hrest, husable⟩ := bind_eq_ok.mp husable
  cases hrest
  have hindex : ∀ u ∈ usable, u.1 = 0 := by
    intro u hu
    split at husable
    · cases husable
      rw [mem_singleton.mp hu]
    · cases husable
      exact absurd hu not_mem_nil
  split at h
  · next mpdIndex nextSegmentNumber hget =>
    cases h
    exact hindex _ (mem_of_getElem? hget)
  · cases h
    rfl

/-- The selection is still that of the start. -/
structure Settled (w₀ : World) (s₀ : StreamStruct) (w : World) (s : StreamStruct) : Prop where
  sel : w.sel = w₀.sel
  current : s.oldMPDIndex = w₀.sel.mpdListIndex
  streamDuration : s.streamDuration = s₀.streamDuration
  packageTotal : w.segmentDurationTotal = w₀.segmentDurationTotal

/-- Nothing is read again. -/
theorem Settled.prepared (h : Settled w₀ s₀ w s) {r : World × StreamStruct}
    (hprep : Prepared w s r) : ∃ mimeType, r = ({ w with mimeType := mimeType }, s) := by
  obtain ⟨mimeType, sel, streamDuration, bandwithList, rfl, hsel⟩ := hprep.plain
  have hcurrent : s.oldMPDIndex = w.sel.mpdListIndex := by
    rw [h.sel]
    exact h.current
  obtain ⟨rfl, rfl, rfl⟩ := hsel.same hcurrent
  exact ⟨mimeType, rfl⟩

theorem Settled.segment (h : Settled w₀ s₀ w s) {i : Nat} {hlsReplaced : Bool}
    {t : World × StreamStruct} (hseg : segment env i hlsReplaced w s = .ok t) :
    Settled w₀ s₀ t.1 t.2 := by
  have hprog := segment_progressed hseg
  obtain ⟨play, hw⟩ := hprog.world
  obtain ⟨arrivalTime, repRate, hrecord⟩ := hprog.record
  rw [hw, hrecord]
  exact { h with }

/-- The first MPD is in use, and it is the only one. -/
structure Single (w : World) : Prop where
  durations : w.sel.segmentDurationArray.length = 1
  current : w.sel.mpdListIndex = 0

theorem Settled.next (hsingle : Single w₀) (h : Settled w₀ s₀ w s) {stop : Bool} {w' : World}
    {s' : StreamStruct} (hnext : nextSegment env w [s] 0 = .ok (stop, w', [s'])) :
    Settled w₀ s₀ w' s' := by
  obtain ⟨_, answer, ⟨⟩, hanswer, hr⟩ := nextSegment_eq_ok hnext
  cases hr
  have hdurations := hsingle.durations
  rw [← h.sel] at hdurations
  obtain ⟨d, hd⟩ := length_eq_one_iff.mp hdurations
  rw [hd] at hanswer
  exact { h with current := (getNextSegmentDuration_one hanswer).trans hsingle.current.symm }

theorem keeps_settled (hsingle : Single w₀) : Keeps env (Settled w₀ s₀) where
  prepared h hprep := by
    obtain ⟨mimeType, rfl⟩ := h.prepared hprep
    exact { h with }
  segment h _ hseg := h.segment hseg
  next h _ hnext := h.next hsingle hnext
  logs _ h := { h with }

theorem Started.single {c : Config} (hone : c.mpdList.length = 1) (h : Started c w s) :
    Single w := by
  obtain ⟨codecList, codecIndexList, v, set, segmentDuration, byteRange, audioContent, hadded, rfl,
    rfl⟩ := h
  obtain ⟨-, -, hdurations, -⟩ := getMPDValues_eq_ok hadded.values
  exact ⟨hdurations.trans hone, rfl⟩

theorem Started.settled {c : Config} (h : Started c w s) : Settled w s w s := by
  obtain ⟨codecList, codecIndexList, v, set, segmentDuration, byteRange, audioContent, -, rfl,
    rfl⟩ := h
  exact ⟨rfl, rfl, rfl, rfl⟩

/-! ### What the chooser is asked -/

/-- The chooser was asked about the media time downloaded, it answered with the segment that starts
there, and to stop just if that one does not fit. Segments last `d` milliseconds. -/
structure Follows (d : Int) (c : Consult) : Prop where
  total : c.totalSegmentDuration = c.downloaded
  number : c.stopApp = false → (c.nextSegmentNumber - 1) * d = c.downloaded
  stop : c.stopApp = true ↔ c.streamDuration < c.downloaded + d

/-- The choice follows playback, and so do the segment numbers in the log. -/
structure ChoiceFollows (d : Int) (w : World) : Prop where
  consults : ∀ c ∈ w.consults, Follows d c
  logged : ∀ k : Int, 1 < k → k ≤ w.play.seen.length → (w.play.entry 0 k).segmentIndex = k

/-- When the chooser was asked, with segments of `d` milliseconds and a stream of `D`. -/
structure Asked (d D : Int) (w : World) : Prop where
  wrong : ∀ c ∈ w.consults, c.totalSegmentDuration ≠ c.downloaded
  never : w.consults = [] ↔ w.play.seen = [] ∨ D < 2 * d
  few : w.consults = [] → w.play.seen.length ≤ 1

/-- Between two calls it was asked after every segment. -/
structure AskedBetween (d D : Int) (w : World) (s : StreamStruct) : Prop where
  asked : Asked d D w
  total : s.segmentDurationTotal = w.play.seen.length * d
  first : w.consults = [] → w.play.seen = []

section Calls

variable {d D : Int} {t : World × StreamStruct}

/-- A segment asks nothing. -/
theorem Progressed.consults (h : Progressed env w s t) : t.1.consults = w.consults := by
  obtain ⟨play, hw⟩ := h.world
  rw [hw]

section

variable (h : AskedBetween d D w s) (hprog : Progressed env w s t)
  (hd : millis w.sel.segmentDuration = d)

include h hprog hd

theorem AskedBetween.last (hend : D < t.2.segmentDurationTotal + d) : Asked d D t.1 := by
  obtain ⟨arrivalTime, repRate, hrecord⟩ := hprog.record
  have htotal := h.total
  rw [hrecord] at hend
  dsimp only at hend
  refine ⟨?_, ?_, ?_⟩
  · rw [hprog.consults]
    exact h.asked.wrong
  · rw [hprog.consults, hprog.seen]
    constructor
    · intro hnone
      rw [h.first hnone] at htotal
      refine .inr ?_
      rw [htotal, hd] at hend
      simp only [length_nil] at hend
      omega
    · rintro (hseen | hshort)
      · exact absurd hseen (append_ne_nil_of_right_ne_nil _ (cons_ne_nil _ _))
      · exact h.asked.never.mpr (.inr hshort)
  · rw [hprog.consults, hprog.seen]
    intro hnone
    rw [h.first hnone]
    exact Nat.le_refl 1

/-- The chooser is asked about the start of the stream, when there is media. -/
theorem AskedBetween.next (hgo : t.2.segmentDurationTotal + d ≤ D)
    (hzero : t.1.segmentDurationTotal = 0) {stop : Bool} {w' : World} {s' : StreamStruct}
    (hnext : nextSegment env t.1 [t.2] 0 = .ok (stop, w', [s'])) : AskedBetween d D w' s' := by
  have hcount : t.1.play.seen.length = w.play.seen.length + 1 := by
    rw [hprog.seen, length_append, length_singleton]
  have htotal : t.2.segmentDurationTotal = t.1.play.seen.length * d := by
    obtain ⟨arrivalTime, repRate, hrecord⟩ := hprog.record
    rw [hrecord, hcount, Int.natCast_succ, Int.add_mul, Int.one_mul, ← h.total, ← hd]
  have hmedia : t.2.segmentDurationTotal ≠ 0 := by
    rw [htotal, hcount]
    apply Int.mul_ne_zero
    · exact Int.natCast_ne_zero.mpr (Nat.succ_ne_zero _)
    rw [← hd]
    exact hprog.duration
  have hlong : ¬ D < 2 * d := by
    intro hshort
    have hnone := h.first (h.asked.never.mpr (.inr hshort))
    rw [htotal, hcount, hnone, length_nil] at hgo
    omega
  have hsome : t.1.play.seen ≠ [] := ne_nil_of_length_eq_add_one hcount
  have hwrong := h.asked.wrong
  rw [← hprog.consults] at hwrong
  obtain ⟨t₁, t₂⟩ := t
  obtain ⟨_, answer, ⟨⟩, -, hr⟩ := nextSegment_eq_ok hnext
  cases hr
  have hasked : ∀ c : Consult, t₁.consults ++ [c] ≠ [] := fun c =>
    append_ne_nil_of_right_ne_nil _ (cons_ne_nil c [])
  refine ⟨⟨?_, ?_, fun hnil => absurd hnil (hasked _)⟩, htotal, fun hnil => absurd hnil (hasked _)⟩
  · intro c hc
    rcases mem_append.mp hc with hc | hc
    · exact hwrong c hc
    rw [mem_singleton.mp hc]
    dsimp only at hzero hmedia ⊢
    rw [hzero]
    exact hmedia.symm
  · refine ⟨fun hnil => absurd hnil (hasked _), ?_⟩
    rintro (hnil | hshort)
    · exact absurd hnil hsome
    · exact absurd hshort hlong

end

theorem AskedBetween.call (h : AskedBetween d D w s) (hd : millis w.sel.segmentDuration = d)
    (hD : s.streamDuration = D) (hzero : w.segmentDurationTotal = 0) {q : Outcome}
    (hcall : Call env w s q) :
    Asked d D q.world ∧ ∀ w' s', q = .next w' [s'] → AskedBetween d D w' s' := by
  -- the check for the end after a segment
  have hat : ∀ t, segment env 0 s.hlsUsed w s = .ok t → t.1.segmentDurationTotal = 0 ∧
      (atEnd t.1 t.2 = true ↔ D < t.2.segmentDurationTotal + d) := by
    intro t hseg
    have hprog := segment_progressed hseg
    obtain ⟨play, hw⟩ := hprog.world
    obtain ⟨arrivalTime, repRate, hrecord⟩ := hprog.record
    have hstream : t.2.streamDuration = D := by
      rw [hrecord]
      exact hD
    refine ⟨by rw [hw]; exact hzero, ?_⟩
    rw [atEnd, segment_sel hseg, hd, hstream, decide_eq_true_iff]
  have hgo : ∀ t, segment env 0 s.hlsUsed w s = .ok t → atEnd t.1 t.2 = false →
      t.2.segmentDurationTotal + d ≤ D := by
    intro t hseg hgo
    apply Int.not_lt.mp
    rw [← (hat t hseg).2, hgo]
    exact Bool.false_ne_true
  cases hcall with
  | ended _ =>
    refine ⟨⟨h.asked.wrong, h.asked.never, h.asked.few⟩, fun w' s' hq => ?_⟩
    cases hq
  | last _ hseg hend =>
    have hlast := h.last (segment_progressed hseg) hd ((hat _ hseg).2.mp hend)
    refine ⟨⟨hlast.wrong, hlast.never, hlast.few⟩, fun w' s' hq => ?_⟩
    cases hq
  | stopped _ hseg hgo' hnext =>
    refine ⟨(h.next (segment_progressed hseg) hd (hgo _ hseg hgo') (hat _ hseg).1 hnext).asked,
      fun w' s' hq => ?_⟩
    cases hq
  | next _ hseg hgo' hnext =>
    have hbetween := h.next (segment_progressed hseg) hd (hgo _ hseg hgo') (hat _ hseg).1 hnext
    refine ⟨hbetween.asked, fun w' s' hq => ?_⟩
    cases hq
    exact hbetween

end Calls

/-! ### Every run -/

section

variable {c : Config} (hone : c.mpdList.length = 1) (hstart : stream c = .ok (w₀, [s₀]))
  {fuel : Nat} {q : Outcome} (hrun : Run env (streamLoop env fuel) (.next w₀ [s₀]) q)

include hone hstart hrun

/-- When the chooser is asked in a run with one MPD and one adaptation set. -/
theorem Run.asked :
    Asked (millis w₀.sel.segmentDuration) s₀.streamDuration q.world ∧
      ∀ w s, q = .next w [s] →
        AskedBetween (millis w₀.sel.segmentDuration) s₀.streamDuration w s := by
  have hstarted := stream_one hstart
  have hzero : w₀.segmentDurationTotal = 0 ∧ w₀.consults = [] ∧ w₀.play.seen = [] ∧
      s₀.segmentDurationTotal = 0 := by
    obtain ⟨_, _, _, _, _, _, _, -, rfl, rfl⟩ := hstarted
    exact ⟨rfl, rfl, rfl, rfl⟩
  obtain ⟨hvariable, hconsults, hseen, htotal⟩ := hzero
  induction hrun with
  | start =>
    have hasked : Asked (millis w₀.sel.segmentDuration) s₀.streamDuration w₀ := by
      refine ⟨?_, ⟨fun _ => .inl hseen, fun _ => hconsults⟩, fun _ => ?_⟩
      · rw [hconsults]
        exact fun c hc => absurd hc not_mem_nil
      · rw [hseen]
        exact Nat.zero_le 1
    refine ⟨hasked, fun w s hq => ?_⟩
    cases hq
    refine ⟨hasked, ?_, fun _ => hseen⟩
    rw [htotal, hseen, length_nil, Int.natCast_zero, Int.zero_mul]
  | @call w structs q hbefore hround ih =>
    have hsingle := hstarted.single hone
    obtain ⟨s, rfl, hlinked, hsettled⟩ :=
      (hbefore.one_set (keeps_settled hsingle) hstart hstarted.settled).2 _ _ rfl
    obtain ⟨r, hprep, hcall⟩ := hlinked.call hround
    obtain ⟨mimeType, rfl⟩ := hsettled.prepared hprep
    have hbetween := ih.2 _ _ rfl
    have hbetween' : AskedBetween (millis w₀.sel.segmentDuration) s₀.streamDuration
        { w with mimeType := mimeType } s :=
      ⟨⟨hbetween.asked.wrong, hbetween.asked.never, hbetween.asked.few⟩, hbetween.total,
        hbetween.first⟩
    exact hbetween'.call (by rw [hsettled.sel]) hsettled.streamDuration
      (hsettled.packageTotal.trans hvariable) hcall

/-- In every run with one MPD and one adaptation set, the choice of the next segment follows
playback just if no segment was downloaded, or if two segments do not fit into the stream. -/
theorem next_segment_follows_iff :
    ChoiceFollows (millis w₀.sel.segmentDuration) q.world ↔
      q.world.play.seen = [] ∨ s₀.streamDuration < 2 * millis w₀.sel.segmentDuration := by
  have hasked := (hrun.asked hone hstart).1
  rw [← hasked.never]
  constructor
  · intro hfollows
    apply eq_nil_iff_forall_not_mem.mpr
    intro c hc
    exact hasked.wrong c hc (hfollows.consults c hc).total
  intro hnone
  refine ⟨?_, ?_⟩
  · rw [hnone]
    exact fun c hc => absurd hc not_mem_nil
  · intro k hk hle
    have hfew := hasked.few hnone
    omega

end

/-- After two of six segments the chooser has been asked about the start of the stream twice, and
the second segment is logged as the first one. -/
theorem next_segment_first_again :
    ∃ q, after (steady 1000) (wholeClip false) 2 = .ok q ∧
      (q.world.consults.map fun c => (c.totalSegmentDuration, c.downloaded, c.nextSegmentNumber)) =
        [(0, 2000, 1), (0, 4000, 1)] ∧
      (q.world.play.entry 0 2).segmentIndex = 1 :=
  ⟨_, rfl, rfl, rfl⟩

theorem next_segment_follows_single :
    ∃ q, after (steady 1000) { wholeClip false with streamDuration := 3000 } 1 = .ok q ∧
      q.world.play.seen.length = 1 ∧ ChoiceFollows 2000 q.world := by
  have hreach : ∃ w₀ s₀ q, stream { wholeClip false with streamDuration := 3000 } = .ok (w₀, [s₀]) ∧
      calls (steady 1000) (streamLoop (steady 1000) 1) (.next w₀ [s₀]) 1 = .ok q ∧
      q.world.play.seen.length = 1 ∧ w₀.sel.segmentDuration = 2 ∧ s₀.streamDuration = 3000 :=
    ⟨_, _, _, rfl, rfl, rfl, rfl, rfl⟩
  obtain ⟨w₀, s₀, q, hstart, hcalls, hseen, hduration, hstream⟩ := hreach
  refine ⟨q, by rw [after, hstart]; exact hcalls, hseen, ?_⟩
  have hiff := next_segment_follows_iff rfl hstart (run_calls hcalls)
  rw [hduration, hstream] at hiff
  exact hiff.mpr (.inr (by decide))

end RlncStreaming.Godash
