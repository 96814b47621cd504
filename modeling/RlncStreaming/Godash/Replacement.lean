import RlncStreaming.Godash.Calls

/-!
The replacement of a chunk.

`getHlsSegment` calls `streamLoop` with a record of its own for the chunk. The record has no
bandwidth list, and there is only one of them. With one adaptation set the MPD of the chunk is
still in use, so the list is not read again, and the rate of the chunk is looked up in an empty
list. With more adaptation sets the call cannot end at the first one, and there is no record for
the second. So no chunk is ever replaced (`streamLoop_hls`).

It follows that the calls of a player with one adaptation set are those without a replacement
(`Run.one_set`).
-/

namespace RlncStreaming.Godash

open Lib

variable {env : Environment} {f : Loop} {w : World} {s : StreamStruct} {i : Nat}

/-! ### The call for a chunk -/

/-- Without a replacement only the selection changes before the check for the end. -/
structure Prepared (w : World) (s : StreamStruct) (r : World × StreamStruct) : Prop where
  plain : ∃ mimeType sel streamDuration bandwithList,
    r = ({ w with mimeType := mimeType, sel := sel },
      { s with streamDuration := streamDuration, bandwithList := bandwithList }) ∧
    Reselected w s sel streamDuration bandwithList

theorem prepare_of_not_replaces (h : prepare f w s i = .ok r)
    (hnot : ∀ mimeType, loadMimeType w s i = .ok mimeType →
      replaces { w with mimeType := mimeType } s = false) : Prepared w s r := by
  obtain ⟨mimeType, hmime, h⟩ := bind_eq_ok.mp h
  obtain ⟨⟨⟩, -, h⟩ := bind_eq_ok.mp h
  obtain ⟨r', hreplace, h⟩ := bind_eq_ok.mp h
  rw [replaceIfDue, hnot mimeType hmime] at hreplace
  cases hreplace
  obtain ⟨sel, streamDuration, bandwithList, rfl, hsel⟩ := changeMPD_eq_ok h
  exact ⟨mimeType, sel, streamDuration, bandwithList, rfl, hsel.1, hsel.2, hsel.3, hsel.4⟩

theorem replaces_iff : replaces w s = true ↔
    s.hlsBool = true ∧ s.hls = true ∧ s.segmentNumber = 6 ∧ w.mimeType = .video := by
  simp only [replaces, Bool.and_eq_true, decide_eq_true_eq]
  constructor
  · rintro ⟨⟨⟨⟨hbool, -⟩, hvideo⟩, hon⟩, hsix⟩
    exact ⟨hbool, hon, hsix, hvideo⟩
  · rintro ⟨hbool, hon, hsix, hvideo⟩
    exact ⟨⟨⟨⟨hbool, by omega⟩, hvideo⟩, hon⟩, hsix⟩

theorem replaces_of_hlsBool (hoff : s.hlsBool = false) : replaces w s = false := by
  rw [replaces, hoff]
  rfl

variable {r : World × StreamStruct}

theorem prepare_of_hlsBool (hoff : s.hlsBool = false) (h : prepare f w s i = .ok r) :
    Prepared w s r :=
  prepare_of_not_replaces h fun _ _ => replaces_of_hlsBool hoff

/-- A rate is always looked up in the bandwidth list. -/
theorem segment_of_no_bandwidths {hlsReplaced : Bool} (hnil : s.bandwithList = [])
    (h : segment env i hlsReplaced w s = .ok r) : False := by
  obtain ⟨-, hdown⟩ := segment_eq_ok h
  obtain ⟨bandwidth, -, -, hband, -⟩ := hdown.world
  have hlist : (receive env w (clampRepRate w s)).2.bandwithList = [] := hnil
  rw [hlist, index_nil] at hband
  cases hband

variable {q : Outcome}

/-- One adaptation set: the MPD of the record is in use, and a segment fits. -/
theorem round_hls_one (hone : w.sel.mimeTypes.length = 1) (hoff : s.hlsBool = false)
    (hmpd : s.oldMPDIndex = w.sel.mpdListIndex) (hfits : atEnd w s = false)
    (hnil : s.bandwithList = []) (h : round env f w [s] = .ok q) : False := by
  have hsame : ∀ r, prepare f w s 0 = .ok r →
      ∃ mimeType, r = ({ w with mimeType := mimeType }, s) := by
    intro r hprep
    obtain ⟨mimeType, sel, streamDuration, bandwithList, rfl, hsel⟩ :=
      (prepare_of_hlsBool hoff hprep).plain
    obtain ⟨rfl, rfl, rfl⟩ := hsel.same hmpd
    exact ⟨mimeType, rfl⟩
  have hkeep : ∀ r, prepare f w s 0 = .ok r →
      r.1.sel.mimeTypes.length = 1 ∧ r.2.hlsUsed = s.hlsUsed := by
    intro r hprep
    obtain ⟨mimeType, rfl⟩ := hsame r hprep
    exact ⟨hone, rfl⟩
  obtain ⟨r, hprep, hcall⟩ := round_one hone hkeep h
  obtain ⟨mimeType, rfl⟩ := hsame r hprep
  cases hcall with
  | ended hend =>
    have hfits' : atEnd { w with mimeType := mimeType } s = false := hfits
    rw [hfits'] at hend
    cases hend
  | last _ hseg _ => exact segment_of_no_bandwidths hnil hseg
  | stopped _ hseg _ _ => exact segment_of_no_bandwidths hnil hseg
  | next _ hseg _ _ => exact segment_of_no_bandwidths hnil hseg

theorem Prepared.mimeTypes (h : Prepared w s r) :
    r.1.sel.mimeTypes.length = w.sel.mimeTypes.length := by
  obtain ⟨mimeType, sel, streamDuration, bandwithList, rfl, hsel⟩ := h.plain
  exact hsel.mimeTypes

/-- Only the last adaptation set ends a call. -/
theorem body_of_prepared {structs : List StreamStruct} {hlsReplaced : Bool}
    (hprep : ∀ s r, index structs i = .ok s → prepare f w s i = .ok r → Prepared w s r)
    (h : body env f hlsReplaced i w structs = .ok q) :
    (isLast w i = true ∧ ∃ n w', q = .returned n w') ∨
      ∃ s r t, index structs i = .ok s ∧ Prepared w s r ∧
        segment env i hlsReplaced r.1 r.2 = .ok t ∧ q = .next t.1 (structs.set i t.2) := by
  obtain ⟨s, hs, h⟩ := bind_eq_ok.mp h
  obtain ⟨r, hr, h⟩ := bind_eq_ok.mp h
  have hprep := hprep s r hs hr
  have hlast : ∀ w' : World, w'.sel = r.1.sel → isLast w' i = isLast w i := by
    intro w' hw'
    rw [isLast, isLast, hw', hprep.mimeTypes]
  split at h
  · next hend =>
    rw [hlast _ rfl, Bool.and_eq_true] at hend
    obtain ⟨w', -, h⟩ := bind_eq_ok.mp h
    exact .inl ⟨hend.2, _, w', (pure_eq_ok.mp h).symm⟩
  obtain ⟨t, hseg, h⟩ := bind_eq_ok.mp h
  split at h
  · next hend =>
    rw [hlast _ (segment_sel hseg), Bool.and_eq_true] at hend
    obtain ⟨w', -, h⟩ := bind_eq_ok.mp h
    exact .inl ⟨hend.2, _, w', (pure_eq_ok.mp h).symm⟩
  · exact .inr ⟨s, r, t, hs, hprep, hseg, (pure_eq_ok.mp h).symm⟩

/-- More adaptation sets: the first one does not end the call, and there is no second record. -/
theorem round_hls_many (hmany : 2 ≤ w.sel.mimeTypes.length) (hoff : s.hlsBool = false)
    (h : round env f w [s] = .ok q) : False := by
  obtain ⟨first, hfirst, h⟩ := bind_eq_ok.mp h
  cases hfirst
  obtain ⟨o, hsets, -⟩ := bind_eq_ok.mp h
  obtain ⟨n, hn⟩ : ∃ n, w.sel.mimeTypes.length = n + 1 + 1 := ⟨w.sel.mimeTypes.length - 2, by omega⟩
  rw [hn, List.range_succ_eq_map, List.range_succ_eq_map] at hsets
  obtain ⟨o', hbody, hsets⟩ := bind_eq_ok.mp hsets
  have hprep : ∀ s' r, index [s] ((0 : Nat) : Int) = .ok s' → prepare f w s' 0 = .ok r →
      Prepared w s' r := by
    intro s' r hs' hr
    cases hs'
    exact prepare_of_hlsBool hoff hr
  rcases body_of_prepared hprep hbody with ⟨hlast, -⟩ | ⟨_, _, t, -, -, -, rfl⟩
  · have hone := of_decide_eq_true hlast
    omega
  · obtain ⟨o'', hbody', -⟩ := bind_eq_ok.mp hsets
    obtain ⟨s'', hs'', -⟩ := bind_eq_ok.mp hbody'
    cases hs''

/-! ### The log is up to date -/

/-- The state of a player with one adaptation set between two calls: its log is the only one, and
the last entry is about the MPD in use. -/
structure Linked (w : World) (s : StreamStruct) : Prop where
  one : w.sel.mimeTypes.length = 1
  unused : s.hlsUsed = false
  logs : ∀ log ∈ w.mapSegmentLogPrintouts, log = s.mapSegmentLogPrintout
  last : 1 < s.segmentNumber →
    (w.play.entry s.mapSegmentLogPrintout (s.segmentNumber - 1)).mpdIndex = w.sel.mpdListIndex ∧
    (w.play.entry s.mapSegmentLogPrintout (s.segmentNumber - 1)).segmentDuration =
      w.sel.segmentDuration

/-- There is one adaptation set and its log is up to date, or there are more. -/
def Ready (w : World) (s : StreamStruct) : Prop := Linked w s ∨ 2 ≤ w.sel.mimeTypes.length

/-- The call for the fifth chunk does not return. -/
theorem streamLoop_hls (hready : Ready w s) (hsix : s.segmentNumber = 6) {hs : StreamStruct}
    (hcall : hlsCall w s i 5 = .ok hs) (fuel : Nat) {r : Int × World}
    (h : streamLoop env fuel w [hs] = .ok r) : False := by
  obtain ⟨log, hlog, hcall⟩ := bind_eq_ok.mp hcall
  obtain ⟨mpd, -, hcall⟩ := bind_eq_ok.mp hcall
  obtain ⟨isByteRangeMPD, -, hcall⟩ := bind_eq_ok.mp hcall
  obtain rfl := pure_eq_ok.mp hcall
  cases fuel with
  | zero => cases h
  | succ fuel =>
    obtain ⟨q, hround, -⟩ := bind_eq_ok.mp h
    rcases hready with hlinked | hmany
    · obtain rfl := hlinked.logs log (index_mem hlog)
      obtain ⟨hmpd, hduration⟩ := hlinked.last (by omega)
      have hchunk : s.segmentNumber - 1 = 5 := by
        rw [hsix]
        rfl
      rw [hchunk] at hmpd hduration
      refine round_hls_one hlinked.one rfl hmpd ?_ rfl hround
      rw [atEnd]
      apply decide_eq_false
      dsimp only [hlsStruct]
      rw [hduration]
      omega
    · exact round_hls_many hmany rfl hround

theorem Ready.mimeType (h : Ready w s) (mimeType : MimeType) :
    Ready { w with mimeType := mimeType } s := by
  rcases h with hlinked | hmany
  · exact .inl { hlinked with }
  · exact .inr hmany

/-- So no chunk is replaced, and a call prepares a segment without it. -/
theorem prepare_of_ready (hready : Ready w s) {fuel : Nat}
    (h : prepare (streamLoop env fuel) w s i = .ok r) : Prepared w s r := by
  refine prepare_of_not_replaces h fun mimeType hmime => ?_
  by_contra hreplaces
  rw [Bool.not_eq_false] at hreplaces
  obtain ⟨mimeType', hmime', h⟩ := bind_eq_ok.mp h
  cases hmime.symm.trans hmime'
  obtain ⟨⟨⟩, -, h⟩ := bind_eq_ok.mp h
  obtain ⟨r', hreplace, -⟩ := bind_eq_ok.mp h
  rw [replaceIfDue, hreplaces, if_pos rfl] at hreplace
  obtain ⟨hs, hcall, hreplace⟩ := bind_eq_ok.mp hreplace
  obtain ⟨⟨n, w'⟩, hloop, -⟩ := bind_eq_ok.mp hreplace
  exact streamLoop_hls (hready.mimeType mimeType) (replaces_iff.mp hreplaces).2.2.1 hcall fuel hloop

/-! ### Calls of a player with one adaptation set -/

/-- A call from a state whose log is up to date. -/
theorem Linked.call (hlinked : Linked w s) {fuel : Nat}
    (h : round env (streamLoop env fuel) w [s] = .ok q) :
    ∃ r, Prepared w s r ∧ Call env r.1 r.2 q := by
  have hkeep : ∀ r, prepare (streamLoop env fuel) w s 0 = .ok r →
      r.1.sel.mimeTypes.length = 1 ∧ r.2.hlsUsed = s.hlsUsed := by
    intro r hprep
    obtain ⟨mimeType, sel, streamDuration, bandwithList, rfl, hsel⟩ :=
      (prepare_of_ready (.inl hlinked) hprep).plain
    exact ⟨hsel.mimeTypes.trans hlinked.one, rfl⟩
  obtain ⟨r, hprep, hcall⟩ := round_one hlinked.one hkeep h
  exact ⟨r, prepare_of_ready (.inl hlinked) hprep, hcall⟩

/-- A segment is logged, and its entry is about the MPD in use. -/
theorem Linked.segment (hlinked : Linked w s) (hprep : Prepared w s r) {hlsReplaced : Bool}
    {t : World × StreamStruct} (hseg : segment env 0 hlsReplaced r.1 r.2 = .ok t) :
    Linked t.1 t.2 := by
  obtain ⟨mimeType, sel, streamDuration, bandwithList, rfl, hsel⟩ := hprep.plain
  obtain ⟨-, hdown⟩ := segment_eq_ok hseg
  obtain ⟨_, _, _, -, hentry⟩ := hdown.entry
  obtain ⟨_, _, _, -, hw⟩ := hdown.world
  have hs := hdown.struct
  refine ⟨?_, ?_, ?_, ?_⟩
  · rw [hw]
    exact hsel.mimeTypes.trans hlinked.one
  · rw [hs]
    exact hlinked.unused
  · rw [hw, hs]
    exact hlinked.logs
  · intro _
    rw [hs]
    dsimp only
    rw [Int.add_sub_cancel, hentry, hw]
    exact ⟨rfl, rfl⟩

theorem Linked.next (hlinked : Linked w s) {stop : Bool} {w' : World} {s' : StreamStruct}
    (hnext : nextSegment env w [s] 0 = .ok (stop, w', [s'])) : Linked w' s' := by
  obtain ⟨_, answer, ⟨⟩, -, hr⟩ := nextSegment_eq_ok hnext
  cases hr
  refine ⟨hlinked.one, hlinked.unused, fun log hlog => ?_, hlinked.last⟩
  rcases List.mem_append.mp hlog with hlog | hlog
  · exact hlinked.logs log hlog
  · exact List.mem_singleton.mp hlog

theorem Started.linked {c : Config} (h : Started c w s) : Linked w s := by
  obtain ⟨_, _, _, _, _, _, _, -, rfl, rfl⟩ := h
  refine ⟨rfl, rfl, ?_, ?_⟩
  · intro log hlog
    exact absurd hlog List.not_mem_nil
  · intro hnumber
    exact absurd hnumber (Int.lt_irrefl 1)

/-- An invariant of a player with one adaptation set: every stage of a call keeps it. -/
structure Keeps (env : Environment) (I : World → StreamStruct → Prop) : Prop where
  prepared : ∀ {w s r}, I w s → Prepared w s r → I r.1 r.2
  segment : ∀ {w s t}, I w s → atEnd w s = false → segment env 0 s.hlsUsed w s = .ok t → I t.1 t.2
  next : ∀ {w s stop w' s'}, I w s → atEnd w s = false →
    nextSegment env w [s] 0 = .ok (stop, w', [s']) → I w' s'
  logs : ∀ {w s} logs, I w s → I { w with mapSegmentLogPrintouts := logs } s

variable {I : World → StreamStruct → Prop}

/-- An invariant about what neither the choice of the MPD nor the chooser changes. -/
theorem keeps_of_segment
    (hframe : ∀ {w s} mimeType sel logs consults streamDuration bandwithList oldMPDIndex
      nextSegmentNumber, I w s →
      I { w with
          mimeType := mimeType, sel := sel, mapSegmentLogPrintouts := logs, consults := consults }
        { s with
          streamDuration := streamDuration
          bandwithList := bandwithList
          oldMPDIndex := oldMPDIndex
          nextSegmentNumber := nextSegmentNumber })
    (hseg : ∀ {w s t}, I w s → segment env 0 s.hlsUsed w s = .ok t → I t.1 t.2) : Keeps env I where
  prepared {w s r} h hprep := by
    obtain ⟨mimeType, sel, streamDuration, bandwithList, rfl, -⟩ := hprep.plain
    exact hframe mimeType sel w.mapSegmentLogPrintouts w.consults streamDuration bandwithList
      s.oldMPDIndex s.nextSegmentNumber h
  segment h _ h' := hseg h h'
  next {w s stop w' s'} h _ hnext := by
    obtain ⟨_, answer, ⟨⟩, -, hr⟩ := nextSegment_eq_ok hnext
    cases hr
    exact hframe w.mimeType w.sel _ _ s.streamDuration s.bandwithList _ _ h
  logs {w s} logs h := hframe w.mimeType w.sel logs w.consults s.streamDuration s.bandwithList
    s.oldMPDIndex s.nextSegmentNumber h

theorem Keeps.call (hkeeps : Keeps env I) (hI : I w s) (h : Call env w s q) :
    ∃ s', I q.world s' := by
  cases h with
  | ended hend => exact ⟨s, hkeeps.logs _ hI⟩
  | last hgo hseg hend => exact ⟨_, hkeeps.logs _ (hkeeps.segment hI hgo hseg)⟩
  | stopped hgo hseg hgo' hnext => exact ⟨_, hkeeps.next (hkeeps.segment hI hgo hseg) hgo' hnext⟩
  | next hgo hseg hgo' hnext => exact ⟨_, hkeeps.next (hkeeps.segment hI hgo hseg) hgo' hnext⟩

/-- Between two calls there is one record, the log is up to date, and the invariant holds. -/
theorem Keeps.between (hkeeps : Keeps env I) (hlinked : Linked w s) (hI : I w s) {fuel : Nat}
    {w' : World} {structs : List StreamStruct}
    (h : round env (streamLoop env fuel) w [s] = .ok (.next w' structs)) :
    ∃ s', structs = [s'] ∧ Linked w' s' ∧ I w' s' := by
  obtain ⟨r, hprep, hcall⟩ := hlinked.call h
  cases hcall with
  | next hgo hseg hgo' hnext =>
    exact ⟨_, rfl, (hlinked.segment hprep hseg).next hnext,
      hkeeps.next (hkeeps.segment (hkeeps.prepared hI hprep) hgo hseg) hgo' hnext⟩

/-- Invariant rule for a player with one adaptation set. -/
theorem Run.one_set (hkeeps : Keeps env I) {c : Config} (hstart : stream c = .ok (w, [s]))
    (hI : I w s) {fuel : Nat} (hrun : Run env (streamLoop env fuel) (.next w [s]) q) :
    (∃ s', I q.world s') ∧
      ∀ w' structs, q = .next w' structs → ∃ s', structs = [s'] ∧ Linked w' s' ∧ I w' s' := by
  induction hrun with
  | start =>
    refine ⟨⟨s, hI⟩, fun w' structs hq => ?_⟩
    cases hq
    exact ⟨s, rfl, (stream_one hstart).linked, hI⟩
  | call _ hround ih =>
    obtain ⟨s', rfl, hlinked, hI'⟩ := ih.2 _ _ rfl
    obtain ⟨r, hprep, hcall⟩ := hlinked.call hround
    refine ⟨hkeeps.call (hkeeps.prepared hI' hprep) hcall, fun w' structs hq => ?_⟩
    cases hq
    exact hkeeps.between hlinked hI' hround

/-! ### Any number of adaptation sets -/

section Sets

variable {fuel : Nat} {structs structs' : List StreamStruct} {w' : World}

/-- There is a record for each adaptation set, and with one of them the log is up to date. -/
structure Ordered (w : World) (structs : List StreamStruct) : Prop where
  length : structs.length = w.sel.mimeTypes.length
  single : w.sel.mimeTypes.length = 1 → ∃ s, structs = [s] ∧ Linked w s

theorem ordered_start {c : Config} (hstart : stream c = .ok (w, structs)) : Ordered w structs := by
  refine ⟨stream_length hstart, fun hone => ?_⟩
  obtain ⟨s, rfl⟩ := List.length_eq_one_iff.mp ((stream_length hstart).trans hone)
  exact ⟨s, rfl, (stream_one hstart).linked⟩

namespace Ordered

variable (hordered : Ordered w structs)

include hordered

theorem lt (hs : index structs i = .ok s) : i < w.sel.mimeTypes.length := by
  have hlt := (index_ok_iff.mp ⟨s, hs⟩).2
  rw [hordered.length] at hlt
  exact Int.ofNat_lt.mp hlt

theorem one (hone : w.sel.mimeTypes.length = 1) (hs : index structs i = .ok s) :
    i = 0 ∧ structs = [s] ∧ Linked w s := by
  have hlt := hordered.lt hs
  obtain rfl : i = 0 := by omega
  obtain ⟨s', rfl, hlinked⟩ := hordered.single hone
  cases hs
  exact ⟨rfl, rfl, hlinked⟩

/-- The record with which the body works is ready for a replacement. -/
theorem ready (hs : index structs i = .ok s) : Ready w s := by
  rcases Nat.lt_or_eq_of_le (Nat.succ_le_of_lt (Nat.zero_lt_of_lt (hordered.lt hs)))
    with hmany | hone
  · exact .inr hmany
  · exact .inl (hordered.one hone.symm hs).2.2

theorem body {hlsReplaced : Bool} {t : World × StreamStruct} (hs : index structs i = .ok s)
    (hprep : Prepared w s r) (hseg : segment env i hlsReplaced r.1 r.2 = .ok t) :
    Ordered t.1 (structs.set i t.2) := by
  have hlen : t.1.sel.mimeTypes.length = w.sel.mimeTypes.length := by
    rw [segment_sel hseg, hprep.mimeTypes]
  refine ⟨List.length_set.trans (hordered.length.trans hlen.symm), fun hone => ?_⟩
  obtain ⟨rfl, rfl, hlinked⟩ := hordered.one (hlen.symm.trans hone) hs
  exact ⟨t.2, rfl, hlinked.segment hprep hseg⟩

theorem next {r : Bool × World × List StreamStruct} (hnext : nextSegment env w structs i = .ok r) :
    Ordered r.2.1 r.2.2 := by
  obtain ⟨s, answer, hs, -, rfl⟩ := nextSegment_eq_ok hnext
  refine ⟨List.length_set.trans hordered.length, fun hone => ?_⟩
  obtain ⟨rfl, rfl, hlinked⟩ := hordered.one hone hs
  exact ⟨_, rfl, hlinked.next hnext⟩

end Ordered

/-- Within a call: the adaptation sets before the `i`-th one are done. -/
inductive Midway (env : Environment) (f : Loop) (hlsReplaced : Bool) (w : World)
    (structs : List StreamStruct) : Nat → World → List StreamStruct → Prop
  | start : Midway env f hlsReplaced w structs 0 w structs
  | set {i : Nat} {w₁ w₂ : World} {structs₁ structs₂ : List StreamStruct} :
      Midway env f hlsReplaced w structs i w₁ structs₁ →
      body env f hlsReplaced i w₁ structs₁ = .ok (.next w₂ structs₂) →
      Midway env f hlsReplaced w structs (i + 1) w₂ structs₂

/-- The loop over the adaptation sets goes from one to the next. -/
theorem midway_sets {f : Loop} {hlsReplaced : Bool} {n : Nat} {w₁ : World}
    {structs₁ : List StreamStruct} (hmid : Midway env f hlsReplaced w structs i w₁ structs₁)
    (h : sets env f hlsReplaced (List.range' i n) w₁ structs₁ = .ok (.next w' structs')) :
    Midway env f hlsReplaced w structs (i + n) w' structs' := by
  induction n generalizing i w₁ structs₁ with
  | zero =>
    cases h
    exact hmid
  | succ n ih =>
    obtain ⟨o, hbody, h⟩ := bind_eq_ok.mp h
    cases o with
    | returned n w₂ => cases h
    | next w₂ structs₂ =>
      rw [← Nat.succ_add_eq_add_succ]
      exact ih (.set hmid hbody) h

/-- An invariant of a player with any number of adaptation sets: every stage of a call keeps it. -/
structure KeepsAll (env : Environment) (J : World → List StreamStruct → Prop) : Prop where
  body : ∀ {w structs i s r hlsReplaced t}, J w structs → index structs ((i : Nat) : Int) = .ok s →
    Prepared w s r → Godash.segment env i hlsReplaced r.1 r.2 = .ok t → J t.1 (structs.set i t.2)
  next : ∀ {w structs i r}, J w structs → nextSegment env w structs i = .ok r → J r.2.1 r.2.2

section

variable {J : World → List StreamStruct → Prop} (hkeeps : KeepsAll env J)
  (h : Ordered w structs ∧ J w structs)

include hkeeps h

theorem KeepsAll.midway {hlsReplaced : Bool}
    (hmid : Midway env (streamLoop env fuel) hlsReplaced w structs i w' structs') :
    Ordered w' structs' ∧ J w' structs' := by
  induction hmid with
  | start => exact h
  | set _ hbody ih =>
    rcases body_of_prepared (fun s r hs hr => prepare_of_ready (ih.1.ready hs) hr) hbody with
      ⟨-, n, w₁, hq⟩ | ⟨s, r, t, hs, hprep, hseg, hq⟩
    · cases hq
    · cases hq
      exact ⟨ih.1.body hs hprep hseg, hkeeps.body ih.2 hs hprep hseg⟩

theorem KeepsAll.nextSegments {is : List Nat} {stop : Bool} {r : Bool × World × List StreamStruct}
    (hnext : nextSegments env is stop w structs = .ok r) : Ordered r.2.1 r.2.2 ∧ J r.2.1 r.2.2 := by
  induction is generalizing stop w structs with
  | nil =>
    cases hnext
    exact h
  | cons i is ih =>
    obtain ⟨r', hfirst, hrest⟩ := bind_eq_ok.mp hnext
    exact ih ⟨h.1.next hfirst, hkeeps.next h.2 hfirst⟩ hrest

theorem KeepsAll.round
    (hround : round env (streamLoop env fuel) w structs = .ok (.next w' structs')) :
    Ordered w' structs' ∧ J w' structs' := by
  obtain ⟨first, -, hround⟩ := bind_eq_ok.mp hround
  obtain ⟨o, hsets, hround⟩ := bind_eq_ok.mp hround
  cases o with
  | returned n w₁ => cases hround
  | next w₁ structs₁ =>
    rw [List.range_eq_range'] at hsets
    obtain ⟨r, hnexts, hround⟩ := bind_eq_ok.mp hround
    have hnext := hkeeps.nextSegments (hkeeps.midway h (midway_sets .start hsets)) hnexts
    split at hround
    · cases hround
    cases hround
    exact hnext

end

/-- Invariant rule for a player with any number of adaptation sets. -/
theorem Run.all_sets {J : World → List StreamStruct → Prop} (hkeeps : KeepsAll env J) {c : Config}
    (hstart : stream c = .ok (w, structs)) (hJ : J w structs)
    (hrun : Run env (streamLoop env fuel) (.next w structs) q) :
    ∀ w' structs', q = .next w' structs' → Ordered w' structs' ∧ J w' structs' := by
  induction hrun with
  | start =>
    intro w' structs' hq
    cases hq
    exact ⟨ordered_start hstart, hJ⟩
  | call _ hround ih =>
    intro w' structs' hq
    cases hq
    exact hkeeps.round (ih _ _ rfl) hround

/-- The chunk is replaced as it should be: the call for it returns, it has downloaded one segment,
and it has changed no entry but that of the chunk. -/
def ChunkReplaced (env : Environment) (fuel : Nat) (w : World) (s : StreamStruct)
    (i : Nat) : Prop :=
  ∃ hs n w', hlsCall w s i 5 = .ok hs ∧ streamLoop env fuel w [hs] = .ok (n, w') ∧
    w'.play.downloads = w.play.downloads + 1 ∧
    ∀ log key, ¬ (log = hs.mapSegmentLogPrintout ∧ key = 5) →
      w'.play.logs log key = w.play.logs log key

/-- In every run, at every adaptation set and for every MIME type that is read there, chunk
replacement is safe just where no chunk is replaced. -/
theorem chunk_replacement_safe_iff {c : Config} {w₀ : World} {structs₀ : List StreamStruct}
    (hstart : stream c = .ok (w₀, structs₀))
    (hrun : Run env (streamLoop env fuel) (.next w₀ structs₀) (.next w structs))
    {hlsReplaced : Bool} {w₁ : World} {structs₁ : List StreamStruct}
    (hmid : Midway env (streamLoop env fuel) hlsReplaced w structs i w₁ structs₁)
    (hs : index structs₁ i = .ok s) (mimeType : MimeType) :
    (replaces { w₁ with mimeType := mimeType } s = true →
        ∃ n, ChunkReplaced env n { w₁ with mimeType := mimeType } s i) ↔
      ¬ (s.hlsBool = true ∧ s.hls = true ∧ s.segmentNumber = 6 ∧ mimeType = .video) := by
  have hkeeps : KeepsAll env fun _ _ => True := ⟨fun _ _ _ _ => trivial, fun _ _ => trivial⟩
  have hready := (hkeeps.midway (hrun.all_sets hkeeps hstart trivial _ _ rfl) hmid).1.ready hs
  constructor
  · intro hsafe hdue
    obtain ⟨n, _, _, _, hcall, hloop, _⟩ := hsafe (replaces_iff.mpr hdue)
    exact streamLoop_hls (hready.mimeType mimeType) hdue.2.2.1 hcall n hloop
  · intro hnot hreplaces
    exact absurd (replaces_iff.mp hreplaces) hnot

end Sets

/-! ### A clip -/

/-- So many calls, or fewer if one returns. -/
def calls (env : Environment) (f : Loop) (q : Outcome) : Nat → Go Outcome
  | 0 => pure q
  | n + 1 => do
    match ← calls env f q n with
    | .next w structs => round env f w structs
    | .returned n w => pure (.returned n w)

theorem run_calls {q' : Outcome} {n : Nat} (h : calls env f q n = .ok q') : Run env f q q' := by
  induction n generalizing q' with
  | zero =>
    cases h
    exact .start
  | succ n ih =>
    obtain ⟨q₁, hcalls, h⟩ := bind_eq_ok.mp h
    cases q₁ with
    | next w structs => exact .call (ih hcalls) h
    | returned n w =>
      cases h
      exact ih hcalls

/-- A clip of twelve seconds, with segments of two seconds. -/
def clip (representation : List Representation) : MPD where
  mediaPresentationDuration := "PT0H0M12.0S".toList
  maxSegmentDuration := "PT0H0M2.0S".toList
  profiles := "urn:mpeg:dash:profile:isoff-live:2011".toList
  periods := [[{ representation := representation, segmentTemplate := [default] }]]

def videoOf (height bandWidth : Int) : Representation where
  mimeType := .video
  codecs := .h264
  width := 0
  height := height
  bandWidth := bandWidth
  baseURL := []
  segmentTemplate := ⟨"seg$Number$.m4s".toList, 1, 2⟩
  segmentList := default

/-- The whole clip, with one representation. -/
def wholeClip (hls : Bool) : Config where
  mpdList := [clip [videoOf 720 1000000]]
  codec := .h264
  maxHeight := 2160
  streamDuration := 12000
  maxBuffer := 30
  initBuffer := 2
  adapt := .conventional
  hls := hls
  hlsBool := hls
  getQoEBool := true
  headerTime := fun _ => 0

/-- Every download takes so many milliseconds. -/
def steady (ms : Nat) : Environment where
  input := fun _ => ⟨ms * 1000000, 1000, default⟩
  random := fun _ => 0

/-- The state after so many segments. -/
def after (env : Environment) (c : Config) (n : Nat) : Go Outcome := do
  let r ← stream c
  calls env (streamLoop env 1) (.next r.1 r.2) n

/-- The fifth segment of the clip is due for replacement, and the call for it reads past the end of
the bandwidth list. Without chunk replacement the clip is streamed. -/
theorem replacement_out_of_range :
    (∃ w s, after (steady 1000) (wholeClip true) 5 = .ok (.next w [s]) ∧
      loadMimeType w s 0 = .ok .video ∧ replaces { w with mimeType := .video } s = true ∧
      (do
        let hs ← hlsCall w s 0 5
        streamLoop (steady 1000) 1 w [hs]) = .error .outOfRange) ∧
    (do
      let r ← stream (wholeClip true)
      let t ← streamLoop (steady 1000) 10 r.1 r.2
      pure t.1) = .error .outOfRange ∧
    (do
      let r ← stream (wholeClip false)
      let t ← streamLoop (steady 1000) 10 r.1 r.2
      pure t.1) = .ok 7 := by
  refine ⟨⟨_, _, rfl, rfl, rfl, rfl⟩, rfl, rfl⟩

theorem chunk_replacement_safe_fifth :
    ∃ w s, after (steady 1000) (wholeClip true) 4 = .ok (.next w [s]) ∧ s.segmentNumber = 5 ∧
      (replaces { w with mimeType := .video } s = true →
        ∃ n, ChunkReplaced (steady 1000) n { w with mimeType := .video } s 0) := by
  have hreach : ∃ w s, after (steady 1000) (wholeClip true) 4 = .ok (.next w [s]) ∧
      s.segmentNumber = 5 ∧ w.sel.mimeTypes.length = 1 := ⟨_, _, rfl, rfl, rfl⟩
  obtain ⟨w, s, hafter, hfifth, hone⟩ := hreach
  obtain ⟨⟨w₀, structs₀⟩, hstart, hcalls⟩ := bind_eq_ok.mp hafter
  have hmid : Midway (steady 1000) (streamLoop (steady 1000) 1) false w [s] 0 w [s] := .start
  refine ⟨w, s, hafter, hfifth, ?_⟩
  apply (chunk_replacement_safe_iff hstart (run_calls hcalls) hmid rfl .video).mpr
  rintro ⟨-, -, hsix, -⟩
  omega

end RlncStreaming.Godash
