import Mathlib.Algebra.BigOperators.Intervals
import Mathlib.Algebra.Order.Ring.Int
import RlncStreaming.Godash.Replacement

/-!
The log and what happened.

`Seen` has the buffer before a segment and the time since the segment before, from which follow
how long playback stood still, how far the segment overfills the buffer, and what the buffer is
afterwards. `Noted` says that the log has these numbers. It holds in every run with one
adaptation set.
-/

namespace RlncStreaming.Godash

open Lib

/-! ### What follows for a segment -/

section

variable (x : Seen)

/-- The time since the segment before as the player has it, if it is playing. -/
def Seen.played : Int := if x.playing then x.gap.tdiv nanos else 0

/-- How long playback stood still before the segment arrived, in milliseconds. -/
def Seen.waited : Int := if x.playing then max (x.gap.tdiv nanos - x.buffer) 0 else 0

/-- What was left of the buffer when the segment arrived. -/
def Seen.left : Int :=
  if x.playing then max (x.buffer - x.gap.tdiv nanos) 0 else x.buffer

/-- How far the segment overfills the buffer. -/
def Seen.excess : Int := max (x.left + x.duration - x.limit) 0

/-- The buffer after the segment, without what is too much. -/
def Seen.level : Int := x.left + x.duration - x.excess

theorem Seen.waited_nonneg : 0 ≤ x.waited := by
  unfold waited
  split
  · exact Int.le_max_right _ _
  · exact Int.le_refl 0

theorem Seen.excess_nonneg : 0 ≤ x.excess := Int.le_max_right _ _

/-- The buffer drains by the time that is played and not waited. -/
theorem Seen.left_eq : x.left = x.buffer - x.played + x.waited := by
  unfold left played waited
  split <;> omega

end

/-! ### Sequences -/

/-- The value for the segment with this number. -/
def valueAt (f : Seen → Int) (seen : List Seen) (i : Nat) : Int := (seen[i - 1]?).elim 0 f

section Values

variable {f : Seen → Int} {seen : List Seen}

theorem valueAt_nonneg (hf : ∀ x, 0 ≤ f x) (seen : List Seen) (i : Nat) : 0 ≤ valueAt f seen i := by
  unfold valueAt
  cases seen[i - 1]? with
  | none => exact Int.le_refl 0
  | some x => exact hf x

theorem valueAt_append {i : Nat} (hlo : 1 ≤ i) (hhi : i ≤ seen.length) (x : Seen) :
    valueAt f (seen ++ [x]) i = valueAt f seen i := by
  rw [valueAt, valueAt, List.getElem?_append_left (by omega)]

theorem valueAt_last (x : Seen) : valueAt f (seen ++ [x]) (seen.length + 1) = f x := by
  rw [valueAt, Nat.add_sub_cancel, List.getElem?_concat_length]
  rfl

end Values

/-! ### The player has these numbers -/

section Segment

variable {env : Environment} {w : World} {s : StreamStruct}

/-- A stall is below zero. -/
theorem newStallTime_eq
    (hunstalled : w.play.waitToPlayCounter < s.initBuffer → w.play.stallTime = 0) :
    newStallTime w s (arrival env w s) = -(seenNext env w s).waited := by
  unfold newStallTime Seen.waited seenNext thisRunTimeVal
  dsimp only
  split
  · next hplaying =>
    rw [if_pos (decide_eq_true hplaying)]
    split <;> omega
  · next hwaiting =>
    rw [if_neg (fun h => hwaiting (of_decide_eq_true h)), hunstalled (Int.not_le.mp hwaiting)]
    rfl

theorem filledBuffer_eq :
    filledBuffer w s (arrival env w s) = (seenNext env w s).left + (seenNext env w s).duration := by
  unfold filledBuffer Seen.left seenNext thisRunTimeVal
  dsimp only
  by_cases hplaying : s.initBuffer ≤ w.play.waitToPlayCounter
  · rw [if_pos hplaying, if_pos (decide_eq_true hplaying)]
  · rw [if_neg hplaying, if_neg (fun h => hplaying (of_decide_eq_true h))]

theorem sleepTime_eq : sleepTime w s (arrival env w s) = (seenNext env w s).excess := by
  have hlimit : (seenNext env w s).limit = millis s.maxBuffer := rfl
  unfold sleepTime Seen.excess
  rw [filledBuffer_eq, hlimit]
  split <;> omega

/-- What the log has, and the variables that the next segment needs for it. -/
structure Noted (w : World) (s : StreamStruct) : Prop where
  log : s.mapSegmentLogPrintout = 0
  number : s.segmentNumber = w.play.seen.length + 1
  unstalled : w.play.waitToPlayCounter < s.initBuffer → w.play.stallTime = 0
  logged : ∀ k : Nat, 1 ≤ k → k ≤ w.play.seen.length →
    (w.play.entry 0 k).stallTime = -valueAt Seen.waited w.play.seen k ∧
      (w.play.entry 0 k).bufferLevel = valueAt Seen.level w.play.seen k

variable {t : World × StreamStruct} {hlsReplaced : Bool}

theorem Progressed.length (h : Progressed env w s t) :
    t.1.play.seen.length = w.play.seen.length + 1 := by
  rw [h.seen, List.length_append, List.length_singleton]

theorem Progressed.bufferLevel (h : Progressed env w s t) :
    t.2.bufferLevel = (seenNext env w s).level := by
  obtain ⟨arrivalTime, repRate, hrecord⟩ := h.record
  rw [hrecord, Seen.level, ← sleepTime_eq, ← filledBuffer_eq]

/-- The entries of the segments before stay. -/
theorem Noted.entry_of_le (h : Noted w s) (hseg : segment env 0 hlsReplaced w s = .ok t) {i : Nat}
    (hi : i ≤ w.play.seen.length) : t.1.play.entry 0 i = w.play.entry 0 i := by
  have hnumber := h.number
  rw [← h.log]
  exact segment_entry_of_ne hseg (by omega)

theorem Noted.segment (h : Noted w s) (hseg : segment env 0 hlsReplaced w s = .ok t) :
    Noted t.1 t.2 := by
  have hprog := segment_progressed hseg
  obtain ⟨arrivalTime, repRate, hrecord⟩ := hprog.record
  obtain ⟨e, hentry, hlevel, hstall, -⟩ := segment_entry hseg
  rw [h.log, h.number] at hentry
  have hentry : t.1.play.entry 0 (w.play.seen.length + 1 : Nat) = e := hentry
  refine ⟨?_, ?_, ?_, ?_⟩
  · rw [hrecord]
    exact h.log
  · rw [hrecord, hprog.length, Int.natCast_succ]
    exact congrArg (· + 1) h.number
  · rw [hrecord, hprog.counter, hprog.stallTime]
    dsimp only
    intro hwaiting
    have hbefore : ¬ s.initBuffer ≤ w.play.waitToPlayCounter := by omega
    rw [newStallTime, if_neg hbefore]
    exact h.unstalled (Int.not_le.mp hbefore)
  · intro k hlo hhi
    rw [hprog.length] at hhi
    rw [hprog.seen]
    rcases Nat.lt_or_eq_of_le hhi with hold | rfl
    · have hold := Nat.le_of_lt_succ hold
      rw [h.entry_of_le hseg hold, valueAt_append hlo hold, valueAt_append hlo hold]
      exact h.logged k hlo hold
    · rw [hentry, valueAt_last, valueAt_last, hstall, hprog.stallTime, newStallTime_eq h.unstalled,
        hlevel, hprog.bufferLevel]
      exact ⟨rfl, rfl⟩

theorem Noted.frame (h : Noted w s) (mimeType : MimeType) (sel : Selection) (logs : List Nat)
    (consults : List Consult) (streamDuration : Int) (bandwithList : List Int)
    (oldMPDIndex nextSegmentNumber : Int) :
    Noted { w with
        mimeType := mimeType, sel := sel, mapSegmentLogPrintouts := logs, consults := consults }
      { s with
        streamDuration := streamDuration
        bandwithList := bandwithList
        oldMPDIndex := oldMPDIndex
        nextSegmentNumber := nextSegmentNumber } :=
  { h with }

theorem Started.noted {c : Config} (h : Started c w s) : Noted w s := by
  obtain ⟨_, _, _, _, _, _, _, -, rfl, rfl⟩ := h
  exact ⟨rfl, rfl, fun _ => rfl, fun k hlo hhi =>
    absurd (Nat.le_trans hlo hhi) (Nat.not_succ_le_zero 0)⟩

end Segment

end RlncStreaming.Godash
