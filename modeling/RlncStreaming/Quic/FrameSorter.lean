import Mathlib.Algebra.Group.Nat.Defs
import RlncStreaming.Lib.Gaps
import RlncStreaming.Lib.Runs

/-!
The frame sorter of a stream (`stream_frame_sorter.go`): `Push`, `Head` and `Pop`.

The sorter keeps the frames that wait to be read, by their offset, and the list of the
bytes that are still missing. The gap list is exact: a push removes exactly the bytes of
the frame from it (`Accepted.inGaps_iff`). From the read position and from the end of each gap the
queued frames form a chain up to the next gap (`Chains`); frames that a later frame
covers may stay in the queue, outside of the chains.

A push keeps the invariant (`push_spec`) unless it leaves too many gaps, or cuts a frame
with the FIN bit at its end: `Push` leaves the bit on such a frame (`Harmless`).
-/

namespace RlncStreaming.Quic

open Lib List Function

/-! ### Frames -/

/-- `wire.StreamFrame`, as far as the receiver of a stream reads it. -/
structure StreamFrame where
  offset : Nat
  data : List UInt8
  finBit : Bool
deriving DecidableEq, Repr

namespace StreamFrame

variable (f : StreamFrame)

def dataLen : Nat := f.data.length

/-- The offset behind the last byte. -/
def stop : Nat := f.offset + f.dataLen

/-- The frame without its first `n` bytes. -/
def dropHead (n : Nat) : StreamFrame :=
  { f with offset := f.offset + n, data := f.data.drop n }

/-- The frame without its last `n` bytes. The FIN bit stays. -/
def dropTail (n : Nat) : StreamFrame :=
  { f with data := f.data.take (f.dataLen - n) }

end StreamFrame

/-! ### The sorter -/

abbrev ByteInterval := Lib.Interval

/-- `protocol.MaxByteCount`. -/
def maxByteCount : Nat := 2 ^ 64 - 1

/-- `protocol.MaxStreamFrameSorterGaps`. -/
def maxStreamFrameSorterGaps : Nat := 2500

inductive SorterError where
  /-- `errTooManyGapsInReceivedStreamData` -/
  | tooManyGaps
  /-- `errDuplicateStreamData` -/
  | duplicate
  /-- `errEmptyStreamData` -/
  | empty
  /-- `StreamFrameSorter BUG: no gap found` -/
  | noGapFound
  /-- `StreamFrameSorter BUG: no end gap found` -/
  | noEndGapFound
deriving DecidableEq, Repr

/-- The map of queued frames. -/
abbrev FrameMap := Nat → Option StreamFrame

structure StreamFrameSorter where
  queuedFrames : FrameMap
  readPosition : Nat
  gaps : List ByteInterval

def newStreamFrameSorter : StreamFrameSorter := ⟨fun _ => none, 0, [⟨0, maxByteCount⟩]⟩

/-- The first loop of `Push`: the gap that the frame meets, with the gaps before it and
behind it. -/
def findGap (start stop : Nat) (before : List ByteInterval) :
    List ByteInterval → Except SorterError (List ByteInterval × ByteInterval × List ByteInterval)
  | [] => .error .noGapFound
  | gap :: after =>
    if stop ≤ gap.start then .error .duplicate
    else if start ≤ gap.stop then .ok (before, gap, after)
    else findGap start stop (before ++ [gap]) after

/-- The result of the second loop of `Push`. -/
structure EndGap where
  found : Bool
  endGap : ByteInterval
  /-- `endGap` is the gap that the loop started with. -/
  isGap : Bool
  /-- `endGap` was taken out of the list. -/
  removed : Bool
  after : List ByteInterval
  queuedFrames : FrameMap

/-- The second loop of `Push`: the last gap that starts before the end of the frame. Gaps
on the way are removed, and so is the first queued frame behind each of them. -/
def seekEndGap (stop : Nat) (endGap : ByteInterval) (isGap : Bool) (queuedFrames : FrameMap) :
    List ByteInterval → EndGap
  | [] => ⟨decide (stop < endGap.stop), endGap, isGap, false, [], queuedFrames⟩
  | nextEndGap :: after =>
    if endGap.stop ≤ stop then
      if stop ≤ nextEndGap.start then
        ⟨true, endGap, isGap, !isGap, nextEndGap :: after, queuedFrames⟩
      else
        seekEndGap stop nextEndGap false (update queuedFrames endGap.stop none) after
    else ⟨true, endGap, isGap, false, nextEndGap :: after, queuedFrames⟩

/-- `endGap` as a list element of its own. -/
def EndGap.element (e : EndGap) : List ByteInterval :=
  if e.isGap || e.removed then [] else [e.endGap]

/-- What `Push` makes of the two gaps that the frame from `start` to `stop` meets. -/
def spliceGaps (start stop : Nat) (gap : ByteInterval) (e : EndGap) : List ByteInterval :=
  if start = gap.start then
    (if gap.stop ≤ stop then [] else if e.isGap then [⟨stop, gap.stop⟩] else [gap]) ++
      e.element.map fun g => if stop < g.stop then ⟨stop, g.stop⟩ else g
  else if stop = e.endGap.stop then ⟨gap.start, start⟩ :: e.element
  else if e.isGap then [⟨gap.start, start⟩, ⟨stop, gap.stop⟩]
  else ⟨gap.start, start⟩ :: e.element.map fun g => ⟨stop, g.stop⟩

namespace StreamFrameSorter

variable (s : StreamFrameSorter)

/-- `Push` after the comparison with the frame that is queued at the same offset. -/
def insert (frame : StreamFrame) : StreamFrameSorter × Option SorterError :=
  match findGap frame.offset frame.stop [] s.gaps with
  | .error e => (s, some e)
  | .ok (before, gap, after) =>
    let frame := frame.dropHead (gap.start - frame.offset)
    let e := seekEndGap frame.stop gap true s.queuedFrames after
    if e.found then
      let frame := frame.dropTail (frame.stop - e.endGap.stop)
      let gaps := before ++ spliceGaps frame.offset frame.stop gap e ++ e.after
      if maxStreamFrameSorterGaps < gaps.length then
        ({ s with queuedFrames := e.queuedFrames, gaps }, some .tooManyGaps)
      else
        ({ s with queuedFrames := update e.queuedFrames frame.offset (some frame), gaps }, none)
    else
      ({ s with queuedFrames := e.queuedFrames, gaps := before ++ gap :: e.element ++ e.after },
        some .noEndGapFound)

/-- `Push`: the sorter after the call, which may have changed also if there is an error. -/
def push (frame : StreamFrame) : StreamFrameSorter × Option SorterError :=
  if frame.dataLen = 0 then
    if frame.finBit then
      ({ s with queuedFrames := update s.queuedFrames frame.offset (some frame) }, none)
    else (s, some .empty)
  else
    match s.queuedFrames frame.offset with
    | some oldFrame =>
      if frame.dataLen ≤ oldFrame.dataLen then (s, some .duplicate)
      else s.insert (frame.dropHead oldFrame.dataLen)
    | none => s.insert frame

def head : Option StreamFrame := s.queuedFrames s.readPosition

/-- `Pop`: the sorter after the call. The frame that it returns is `head`. -/
def pop : StreamFrameSorter :=
  match s.head with
  | some frame =>
    { s with
      readPosition := s.readPosition + frame.dataLen
      queuedFrames := update s.queuedFrames frame.offset none }
  | none => s

end StreamFrameSorter

/-! ### Frames of a byte string -/

/-- `f` is a frame of the stream that carries `D`: it has the bytes of its offsets, and the
FIN bit exactly if it reaches the end. -/
structure Genuine (D : List UInt8) (f : StreamFrame) : Prop where
  bound : f.stop ≤ D.length
  data : f.data = (D.drop f.offset).take f.dataLen
  fin : f.finBit = true ↔ f.stop = D.length
  empty : f.dataLen = 0 → f.finBit = true

instance (D : List UInt8) (f : StreamFrame) : Decidable (Genuine D f) :=
  decidable_of_iff (f.stop ≤ D.length ∧ f.data = (D.drop f.offset).take f.dataLen ∧
      (f.finBit = true ↔ f.stop = D.length) ∧ (f.dataLen = 0 → f.finBit = true))
    ⟨fun ⟨bound, data, fin, empty⟩ => ⟨bound, data, fin, empty⟩, fun h => ⟨h.1, h.2, h.3, h.4⟩⟩

section Frames

variable {D : List UInt8} {f : StreamFrame} {n : Nat}

@[simp] theorem dropHead_offset : (f.dropHead n).offset = f.offset + n := rfl

@[simp] theorem dropHead_finBit : (f.dropHead n).finBit = f.finBit := rfl

@[simp] theorem dropHead_dataLen : (f.dropHead n).dataLen = f.dataLen - n := length_drop

theorem dropHead_stop (h : n ≤ f.dataLen) : (f.dropHead n).stop = f.stop := by
  simp only [StreamFrame.stop, dropHead_offset, dropHead_dataLen]
  omega

@[simp] theorem dropTail_offset : (f.dropTail n).offset = f.offset := rfl

@[simp] theorem dropTail_finBit : (f.dropTail n).finBit = f.finBit := rfl

@[simp] theorem dropTail_dataLen : (f.dropTail n).dataLen = f.dataLen - n := by
  rw [StreamFrame.dataLen, StreamFrame.dropTail, length_take, ← StreamFrame.dataLen]
  omega

@[simp] theorem dropTail_zero : f.dropTail 0 = f := by
  rw [StreamFrame.dropTail, Nat.sub_zero, StreamFrame.dataLen, take_length]

theorem dropTail_stop (h : n ≤ f.dataLen) : (f.dropTail n).stop = f.stop - n := by
  simp only [StreamFrame.stop, dropTail_offset, dropTail_dataLen]
  omega

theorem Genuine.dropHead (h : Genuine D f) (hn : n < f.dataLen) : Genuine D (f.dropHead n) where
  bound := by
    rw [dropHead_stop (Nat.le_of_lt hn)]
    exact h.bound
  data := by
    rw [dropHead_dataLen, dropHead_offset, StreamFrame.dropHead, h.data, drop_take, drop_drop]
  fin := by
    rw [dropHead_stop (Nat.le_of_lt hn)]
    exact h.fin
  empty := by
    rw [dropHead_dataLen]
    omega

/-- A frame that is shortened at its end is a frame of the stream if it had no FIN bit. -/
theorem Genuine.dropTail (h : Genuine D f) (hn : n < f.dataLen) (hfin : 0 < n → f.finBit = false) :
    Genuine D (f.dropTail n) := by
  rcases Nat.eq_zero_or_pos n with rfl | hpos
  · rw [dropTail_zero]
    exact h
  have hopen := hfin hpos
  have hne : f.stop ≠ D.length := fun heq => by simp [h.fin.mpr heq] at hopen
  have hstop := dropTail_stop (f := f) (Nat.le_of_lt hn)
  have hbound := h.bound
  have hle : f.dataLen ≤ f.stop := Nat.le_add_left ..
  constructor
  · omega
  · rw [dropTail_dataLen, dropTail_offset, StreamFrame.dropTail, h.data, take_take,
      Nat.min_eq_left (Nat.sub_le ..)]
  · rw [dropTail_finBit, hopen]
    simp only [Bool.false_eq_true, false_iff]
    omega
  · rw [dropTail_dataLen]
    omega

end Frames

/-! ### Chains of queued frames -/

/-- Starting at `p`, the queued frames lead without a break to `e`. -/
inductive Chain (q : FrameMap) : Nat → Nat → Prop where
  | refl (p : Nat) : Chain q p p
  | step {p e : Nat} {f : StreamFrame} : q p = some f → 0 < f.dataLen →
      Chain q (p + f.dataLen) e → Chain q p e

/-- From `p`, and from the end of each gap, a chain leads to the next gap. -/
def Chains (q : FrameMap) : Nat → List ByteInterval → Prop
  | _, [] => True
  | p, g :: gs => Chain q p g.start ∧ Chains q g.stop gs

/-- The end of the last gap, or `p`. -/
def lastStop (p : Nat) : List ByteInterval → Nat
  | [] => p
  | g :: gs => lastStop g.stop gs

section Chains

variable {q q' : FrameMap} {p e m : Nat} {gs before after : List ByteInterval}

/-- A queued frame was put there by the last update or queued before. -/
theorem update_eq_some {x y : Nat} {v : Option StreamFrame} {f : StreamFrame}
    (h : update q y v x = some f) : x = y ∧ v = some f ∨ q x = some f := by
  by_cases hx : x = y
  · rw [hx, update_self] at h
    exact .inl ⟨hx, h⟩
  · rw [update_of_ne hx] at h
    exact .inr h

section

variable (h : Chain q p e)

include h

theorem Chain.le : p ≤ e := by
  induction h with
  | refl p => exact Nat.le_refl p
  | step _ _ _ ih => omega

theorem Chain.trans (h' : Chain q e m) : Chain q p m := by
  induction h with
  | refl p => exact h'
  | step hf hpos _ ih => exact .step hf hpos (ih h')

theorem Chain.congr (heq : ∀ x, p ≤ x → x < e → q' x = q x) : Chain q' p e := by
  induction h with
  | refl p => exact .refl p
  | step hf hpos hrest ih =>
    have hle := hrest.le
    refine .step ((heq _ (Nat.le_refl _) (by omega)).trans hf) hpos (ih fun x hx hxe => ?_)
    exact heq x (by omega) hxe

/-- Chains use the non-empty frames only. -/
theorem Chain.mono (hsub : ∀ x f, q x = some f → 0 < f.dataLen → q' x = some f) : Chain q' p e := by
  induction h with
  | refl p => exact .refl p
  | step hf hpos _ ih => exact .step (hsub _ _ hf hpos) hpos ih

/-- The first frame of a chain. -/
theorem Chain.head (hlt : p < e) :
    ∃ f, q p = some f ∧ 0 < f.dataLen ∧ Chain q (p + f.dataLen) e := by
  cases h with
  | refl p => omega
  | step hf hpos hrest => exact ⟨_, hf, hpos, hrest⟩

end

theorem chains_append :
    Chains q p (before ++ after) ↔ Chains q p before ∧ Chains q (lastStop p before) after := by
  induction before generalizing p with
  | nil => simp [Chains, lastStop]
  | cons g before ih => simp only [cons_append, Chains, lastStop, ih, and_assoc]

theorem Chains.extend (h : Chain q p e) (hgs : Chains q e gs) : Chains q p gs := by
  cases gs with
  | nil => exact trivial
  | cons g gs => exact ⟨h.trans hgs.1, hgs.2⟩

theorem Chains.mono (h : Chains q p gs)
    (hsub : ∀ x f, q x = some f → 0 < f.dataLen → q' x = some f) : Chains q' p gs := by
  induction gs generalizing p with
  | nil => exact trivial
  | cons g gs ih => exact ⟨h.1.mono hsub, ih h.2⟩

/-- Chains before a position do not depend on the frames from there on. -/
theorem Chains.congr_lt (h : Chains q p gs) (hgs : ∀ g ∈ gs, g.start ≤ m)
    (heq : ∀ x < m, q' x = q x) : Chains q' p gs := by
  induction gs generalizing p with
  | nil => exact trivial
  | cons g gs ih =>
    have hg := hgs g mem_cons_self
    refine ⟨h.1.congr fun x _ hx => heq x (by omega), ih h.2 fun g' hg' => ?_⟩
    exact hgs g' (mem_cons_of_mem _ hg')

/-- Chains from a position on do not depend on the frames before it. -/
theorem Chains.congr_ge (h : Chains q p gs) (hgs : ∀ g ∈ gs, g.start < g.stop)
    (heq : ∀ x, p ≤ x → q' x = q x) : Chains q' p gs := by
  induction gs generalizing p with
  | nil => exact trivial
  | cons g gs ih =>
    have hle := h.1.le
    have hg := hgs g mem_cons_self
    refine ⟨h.1.congr fun x hx _ => heq x hx, ih h.2 (fun g' hg' => ?_) fun x hx => ?_⟩
    · exact hgs g' (mem_cons_of_mem _ hg')
    · exact heq x (by omega)

/-- A frame is queued at the end of every gap but the last one. -/
theorem Chains.frame_at_stop {lo : Nat} (h : Chains q p gs) (hgs : Ordered lo gs (maxByteCount + 1))
    {g : ByteInterval} (hg : g ∈ gs) (hstop : g.stop < maxByteCount) :
    ∃ f, q g.stop = some f ∧ 0 < f.dataLen := by
  induction gs generalizing p lo with
  | nil => exact absurd hg (by simp)
  | cons g' gs ih =>
    rcases mem_cons.mp hg with rfl | hmem
    · obtain ⟨-, -, hrest⟩ := hgs
      cases gs with
      | nil =>
        have hend : g.stop + 1 = maxByteCount + 1 := hrest
        omega
      | cons g'' gs =>
        have hlt : g.stop < g''.start := hrest.1
        obtain ⟨f, hf, hpos, -⟩ := h.2.1.head hlt
        exact ⟨f, hf, hpos⟩
    · exact ih h.2 hgs.2.2 hmem

end Chains

/-! ### The two loops -/

variable {rest before : List ByteInterval} {gap : ByteInterval}

section Loops

variable {start stop lo : Nat}

/-- The first loop, on ordered gaps and a frame that ends below the maximum: no gap meets
the frame, or `gap` is the first one that does or that ends where the frame starts. -/
theorem findGap_spec (hlt : start < stop) (hmax : stop < maxByteCount) :
    ∀ (gs before : List ByteInterval) {lo : Nat}, Ordered lo gs (maxByteCount + 1) →
      (∀ g ∈ before, g.stop < start) → (gs = [] → lo ≤ start) →
      (findGap start stop before gs = .error .duplicate ∧
        ∀ i, start ≤ i → i < stop → ¬ InGaps (before ++ gs) i) ∨
      ∃ before' gap after, findGap start stop before gs = .ok (before', gap, after) ∧
        before ++ gs = before' ++ gap :: after ∧ (∀ g ∈ before', g.stop < start) ∧
        gap.start < stop ∧ start ≤ gap.stop := by
  intro gs
  induction gs with
  | nil =>
    intro before lo hgs _ hlo
    have hend : lo = maxByteCount + 1 := hgs
    have := hlo rfl
    omega
  | cons gap gs ih =>
    intro before lo hgs hbefore hlo
    obtain ⟨hstart, hstop, hrest⟩ := hgs
    rw [findGap]
    by_cases hdup : stop ≤ gap.start
    · refine .inl ⟨if_pos hdup, fun i hlo hhi => ?_⟩
      rintro ⟨g, hg, hgi⟩
      rcases mem_append.mp hg with hmem | hmem
      · have := hbefore g hmem
        omega
      rcases mem_cons.mp hmem with rfl | hmem
      · omega
      have := hrest.mem hmem
      omega
    · rw [if_neg hdup]
      by_cases hmeet : start ≤ gap.stop
      · rw [if_pos hmeet]
        exact .inr ⟨before, gap, gs, rfl, rfl, hbefore, by omega, hmeet⟩
      rw [if_neg hmeet]
      have happend : before ++ gap :: gs = before ++ [gap] ++ gs := by simp
      rw [happend]
      refine ih (before ++ [gap]) hrest (fun g hg => ?_) fun _ => by omega
      rcases mem_append.mp hg with hmem | hmem
      · exact hbefore g hmem
      rw [mem_singleton.mp hmem]
      omega

/-- What the second loop finds, starting at `gap` with the gaps `rest` behind it. -/
structure EndGapSpec (stop : Nat) (gap : ByteInterval) (isGap : Bool) (rest : List ByteInterval)
    (q : FrameMap) (e : EndGap) : Prop where
  found : e.found = true
  start_lt : e.endGap.start < stop
  start_lt_stop : e.endGap.start < e.endGap.stop
  start_le : gap.start ≤ e.endGap.start
  stop_le : gap.stop ≤ e.endGap.stop
  isGap : e.isGap = true → isGap = true ∧ e.endGap = gap
  removed : e.removed = true ↔ e.isGap = false ∧ e.endGap.stop ≤ stop
  /-- The gaps that are left are those without the bytes of the frame. -/
  remove_eq : ∀ a < gap.stop, a < stop → removeRange a stop (gap :: rest) =
    (if gap.start < a then [⟨gap.start, a⟩] else []) ++
      ((if stop < e.endGap.stop then [⟨stop, e.endGap.stop⟩] else []) ++ e.after)
  received : ∀ i, e.endGap.stop ≤ i → i < stop → ¬ InGaps (gap :: rest) i
  after : ∀ g ∈ e.after, g ∈ rest
  chains : ∀ q', Chains q' gap.stop rest → Chains q' e.endGap.stop e.after
  queue_eq : ∀ x, x < gap.stop ∨ e.endGap.start ≤ x → e.queuedFrames x = q x
  queue_sub : ∀ x f, e.queuedFrames x = some f → q x = some f

/-- The loop stops at the gap `gap`, and the gaps behind it start after the frame. -/
theorem EndGapSpec.here {isGap removed : Bool} {q : FrameMap} (hgap : gap.start < stop)
    (hlt : gap.start < gap.stop) (hrest : ∀ g ∈ rest, g.start < g.stop ∧ stop ≤ g.start)
    (hremoved : removed = true ↔ isGap = false ∧ gap.stop ≤ stop) :
    EndGapSpec stop gap isGap rest q ⟨true, gap, isGap, removed, rest, q⟩ where
  found := rfl
  start_lt := hgap
  start_lt_stop := hlt
  start_le := Nat.le_refl _
  stop_le := Nat.le_refl _
  isGap h := ⟨h, rfl⟩
  removed := hremoved
  remove_eq a ha hastop := by
    rw [removeRange_cons,
      removeRange_eq_self hastop fun g hg => ⟨(hrest g hg).1, .inr (hrest g hg).2⟩,
      Lib.Interval.without_eq ha hgap, append_assoc]
  received i hlo hhi := by
    rw [inGaps_cons]
    rintro (⟨-, hi⟩ | ⟨g, hg, hgi, -⟩)
    · simp only at hlo
      omega
    · have := (hrest g hg).2
      omega
  after g hg := hg
  chains q' h := h
  queue_eq x _ := rfl
  queue_sub x f h := h

theorem seekEndGap_spec (hmax : stop < maxByteCount) :
    ∀ (rest : List ByteInterval) (gap : ByteInterval) (isGap : Bool) (q : FrameMap) {lo : Nat},
      Ordered lo (gap :: rest) (maxByteCount + 1) → gap.start < stop →
      EndGapSpec stop gap isGap rest q (seekEndGap stop gap isGap q rest) := by
  intro rest
  induction rest with
  | nil =>
    intro gap isGap q lo hgs hgap
    obtain ⟨-, hlt, hend⟩ := hgs
    have hstop : gap.stop + 1 = maxByteCount + 1 := hend
    have hfound : decide (stop < gap.stop) = true := decide_eq_true (by omega)
    rw [seekEndGap, hfound]
    exact .here hgap hlt (by simp) (by simp; omega)
  | cons next after ih =>
    intro gap isGap q lo hgs hgap
    obtain ⟨hlo, hlt, hrest⟩ := hgs
    have hafter : ∀ g ∈ next :: after, g.start < g.stop ∧ next.start ≤ g.start := by
      intro g hg
      rcases mem_cons.mp hg with rfl | hmem
      · exact ⟨hrest.2.1, Nat.le_refl _⟩
      have := hrest.2.2.mem hmem
      have := hrest.2.1
      omega
    have hnext : gap.stop < next.start := hrest.1
    rw [seekEndGap]
    by_cases hpast : gap.stop ≤ stop
    · rw [if_pos hpast]
      by_cases hlast : stop ≤ next.start
      · rw [if_pos hlast]
        refine .here hgap hlt (fun g hg => ?_) (by simp [hpast])
        exact ⟨(hafter g hg).1, Nat.le_trans hlast (hafter g hg).2⟩
      · -- The frame reaches into the next gap.
        rw [if_neg hlast]
        have h := ih next false (update q gap.stop none) hrest (by omega)
        have hstart := h.start_le
        have hstop := h.stop_le
        have hlt' := hrest.2.1
        constructor
        · exact h.found
        · exact h.start_lt
        · exact h.start_lt_stop
        · omega
        · omega
        · intro hgap
          exact absurd (h.isGap hgap).1 (by simp)
        · exact h.removed
        · intro a ha hastop
          rw [removeRange_cons, h.remove_eq a (by omega) hastop, Lib.Interval.without_eq ha hgap,
            if_neg (show ¬ stop < gap.stop by omega), if_neg (show ¬ next.start < a by omega),
            append_nil, nil_append]
        · intro i hi hhi
          rw [inGaps_cons]
          rintro (⟨-, hin⟩ | hin)
          · omega
          · exact h.received i hi hhi hin
        · exact fun g hg => mem_cons_of_mem _ (h.after g hg)
        · exact fun q' hq' => h.chains q' hq'.2
        · intro x hx
          rw [h.queue_eq x (by omega), update_of_ne (by omega)]
        intro x f hf
        rcases update_eq_some (h.queue_sub x f hf) with ⟨-, hnone⟩ | hold
        · cases hnone
        · exact hold
    · rw [if_neg hpast]
      refine .here hgap hlt (fun g hg => ?_) (by simp [hpast])
      have := hafter g hg
      omega

theorem seekEndGap_isGap {q : FrameMap} (h : stop < gap.stop) :
    (seekEndGap stop gap true q rest).isGap = true := by
  cases rest with
  | nil => rfl
  | cons next after => rw [seekEndGap, if_neg (by omega)]

/-- What is left of the gaps from `gap` to the end gap. -/
theorem spliceGaps_eq {q : FrameMap} {e : EndGap} (h : EndGapSpec stop gap true rest q e)
    (hnext : e.isGap = false → gap.stop ≤ stop) (hlo : gap.start ≤ start) (hgap : start < gap.stop)
    (hlt : start < stop) :
    spliceGaps start (min stop e.endGap.stop) gap e =
      (if gap.start < start then [⟨gap.start, start⟩] else []) ++
        if stop < e.endGap.stop then [⟨stop, e.endGap.stop⟩] else [] := by
  have hstop := h.stop_le
  rcases Nat.lt_or_ge stop e.endGap.stop with hin | hout
  · -- The frame ends inside of the end gap.
    have hremoved : e.removed = false := by
      rw [← Bool.not_eq_true, h.removed]
      omega
    rw [Nat.min_eq_left (Nat.le_of_lt hin), if_pos hin, spliceGaps]
    cases hisGap : e.isGap with
    | true =>
      have heq := (h.isGap hisGap).2
      rw [heq] at hin
      rcases Nat.eq_or_lt_of_le hlo with rfl | hlt'
      · simp [EndGap.element, hisGap, heq, hin]
      · simp [hlt', heq, Nat.ne_of_gt hlt', Nat.ne_of_lt hin]
    | false =>
      have hle := hnext hisGap
      rcases Nat.eq_or_lt_of_le hlo with rfl | hlt'
      · simp [EndGap.element, hisGap, hremoved, hin, hle]
      · simp [EndGap.element, hisGap, hremoved, hlt', Nat.ne_of_gt hlt', Nat.ne_of_lt hin]
  · -- It ends at the end gap, or behind it in what was received.
    have helement : e.element = [] := by
      rw [EndGap.element]
      cases hisGap : e.isGap with
      | true => rfl
      | false => rw [h.removed.mpr ⟨hisGap, hout⟩]; rfl
    rw [Nat.min_eq_right hout, if_neg (Nat.not_lt.mpr hout), append_nil, spliceGaps, helement]
    rcases Nat.eq_or_lt_of_le hlo with rfl | hlt'
    · simp [hstop]
    · simp [hlt', Nat.ne_of_gt hlt']

variable (start) in
/-- The gap list after a frame from `start` to `stop` was taken in. -/
theorem splice_removeRange {q : FrameMap} {e : EndGap} (h : EndGapSpec stop gap true rest q e)
    (hnext : e.isGap = false → gap.stop ≤ stop)
    (hbefore : ∀ g ∈ before, g.start < g.stop ∧ g.stop ≤ start) (hlo : gap.start ≤ start)
    (hgap : start < gap.stop) (hlt : start < stop) :
    before ++ spliceGaps start (min stop e.endGap.stop) gap e ++ e.after =
      removeRange start stop (before ++ gap :: rest) := by
  rw [removeRange_append, h.remove_eq start hgap hlt, spliceGaps_eq h hnext hlo hgap hlt,
    removeRange_eq_self hlt fun g hg => ⟨(hbefore g hg).1, .inl (hbefore g hg).2⟩]
  simp only [append_assoc]

variable (start) in
/-- The chains after the frame `f` from `start` to `stop`, cut at the end gap, was queued. -/
theorem splice_chains {q : FrameMap} {e : EndGap} {f : StreamFrame} {p lo : Nat}
    (h : EndGapSpec stop gap true rest q e)
    (hgs : Ordered lo (before ++ gap :: rest) (maxByteCount + 1))
    (hchains : Chains q p (before ++ gap :: rest)) (hlo : gap.start ≤ start)
    (hgap : start < gap.stop) (hpos : 0 < f.dataLen)
    (hf : start + f.dataLen = min stop e.endGap.stop) :
    Chains (update e.queuedFrames start (some f)) p
      (before ++ ((if gap.start < start then [⟨gap.start, start⟩] else []) ++
        ((if stop < e.endGap.stop then [⟨stop, e.endGap.stop⟩] else []) ++ e.after))) := by
  obtain ⟨mid, hgsBefore, hgsRest⟩ := Ordered.append.mp hgs
  obtain ⟨hbefore, hchain, hrest⟩ := chains_append.mp hchains
  have hstop := h.stop_le
  -- The queue is as before up to the gap and from the end of the end gap on.
  have hlow : ∀ x < gap.start, update e.queuedFrames start (some f) x = q x := by
    intro x hx
    rw [update_of_ne (by omega), h.queue_eq x (.inl (by omega))]
  have hhigh : ∀ x, e.endGap.stop ≤ x → update e.queuedFrames start (some f) x = q x := by
    intro x hx
    have := h.start_lt_stop
    rw [update_of_ne (by omega), h.queue_eq x (.inr (by omega))]
  have hafter : Chains (update e.queuedFrames start (some f)) e.endGap.stop e.after :=
    (h.chains q hrest).congr_ge (fun g hg => (hgsRest.2.2.mem (h.after g hg)).2.1) hhigh
  have hnew : Chain (update e.queuedFrames start (some f)) start (min stop e.endGap.stop) := by
    refine .step (update_self ..) hpos ?_
    rw [hf]
    exact .refl _
  have htail : Chains (update e.queuedFrames start (some f)) start
      ((if stop < e.endGap.stop then [⟨stop, e.endGap.stop⟩] else []) ++ e.after) := by
    rcases Nat.lt_or_ge stop e.endGap.stop with hin | hout
    · rw [if_pos hin]
      rw [Nat.min_eq_left (Nat.le_of_lt hin)] at hnew
      exact ⟨hnew, hafter⟩
    · rw [if_neg (Nat.not_lt.mpr hout)]
      rw [Nat.min_eq_right hout] at hnew
      exact .extend hnew hafter
  have hfirst := hchain.congr fun x _ hx => hlow x hx
  refine chains_append.mpr ⟨hbefore.congr_lt (fun g hg => ?_) hlow, ?_⟩
  · have := hgsBefore.mem hg
    have := hgsRest.1
    omega
  · rcases Nat.eq_or_lt_of_le hlo with rfl | hlt
    · rw [if_neg (Nat.lt_irrefl _)]
      exact .extend hfirst htail
    · rw [if_pos hlt]
      exact ⟨hfirst, htail⟩

end Loops

/-! ### The invariant -/

namespace StreamFrameSorter

/-- What the gaps are about: the missing bytes and the frames that wait, whatever they carry. -/
structure Tracks (s : StreamFrameSorter) : Prop where
  ordered : Ordered 0 s.gaps (maxByteCount + 1)
  chains : Chains s.queuedFrames s.readPosition s.gaps
  key : ∀ x f, s.queuedFrames x = some f → f.offset = x
  received : ∀ x f, s.queuedFrames x = some f → ∀ i, f.offset ≤ i → i < f.stop → ¬ InGaps s.gaps i

/-- The sorter holds frames of the stream that carries `D`. -/
structure Inv (D : List UInt8) (s : StreamFrameSorter) : Prop extends Tracks s where
  genuine : ∀ x f, s.queuedFrames x = some f → Genuine D f

/-- `f'` is what is queued of `f`: it starts at a missing byte, and at its end only bytes that were
received are cut off. -/
def CutOf (gaps : List ByteInterval) (f f' : StreamFrame) : Prop :=
  ∃ a b, f' = (f.dropHead a).dropTail b ∧ a + b < f.dataLen ∧ InGaps gaps (f.offset + a) ∧
    (0 < b → ¬ InGaps gaps (f.stop - 1))

/-- `s'` is `s` without the bytes of the frame `f` in its gaps. -/
structure Absorbed (s : StreamFrameSorter) (f : StreamFrame) (s' : StreamFrameSorter) : Prop where
  inGaps_iff : ∀ i, InGaps s'.gaps i ↔ InGaps s.gaps i ∧ ¬ (f.offset ≤ i ∧ i < f.stop)
  readPosition : s'.readPosition = s.readPosition
  /-- A frame that is being read stays where it is. -/
  head : ∀ f', s.head = some f' → 0 < f'.dataLen → s'.head = some f'

/-- `s'` is `s` after the bytes of the frame `f` were taken in. -/
structure Taken (s : StreamFrameSorter) (f : StreamFrame) (s' : StreamFrameSorter) : Prop
    extends Absorbed s f s' where
  tracks : s'.Tracks
  frames : ∀ x f', s'.queuedFrames x = some f' → s.queuedFrames x = some f' ∨ CutOf s.gaps f f'

/-- `s'` is `s` after the frame `f` was taken in. -/
structure Accepted (D : List UInt8) (s : StreamFrameSorter) (f : StreamFrame)
    (s' : StreamFrameSorter) : Prop extends Absorbed s f s' where
  inv : s'.Inv D

/-- The frame does not hit the two weak spots of `Push`: if it carries the FIN bit, then
the last byte of the stream is missing or nothing of the frame is, so that it is not cut
at its end; and the gaps that remain without the bytes of the frame are not too many. -/
structure Harmless (D : List UInt8) (s : StreamFrameSorter) (f : StreamFrame) : Prop where
  fin : f.finBit = true → 0 < f.dataLen → InGaps s.gaps (D.length - 1) ∨
    ∀ i, f.offset ≤ i → i < f.stop → ¬ InGaps s.gaps i
  gaps : 0 < f.dataLen → (removeRange f.offset f.stop s.gaps).length ≤ maxStreamFrameSorterGaps

variable {D : List UInt8} {s : StreamFrameSorter} {f : StreamFrame}

theorem inv_new (D : List UInt8) : newStreamFrameSorter.Inv D where
  ordered := ⟨Nat.le_refl 0, by decide, rfl⟩
  chains := ⟨.refl 0, trivial⟩
  key _ _ h := by cases h
  genuine _ _ h := by cases h
  received _ _ h := by cases h

theorem CutOf.genuine {gaps : List ByteInterval} {f' : StreamFrame} (h : CutOf gaps f f')
    (hf : Genuine D f) (hfin : f.finBit = true → InGaps gaps (D.length - 1) ∨
      ∀ i, f.offset ≤ i → i < f.stop → ¬ InGaps gaps i) : Genuine D f' := by
  obtain ⟨a, b, rfl, hab, hmissing, hend⟩ := h
  refine (hf.dropHead (by omega)).dropTail (by rw [dropHead_dataLen]; omega) fun hb => ?_
  rw [dropHead_finBit, ← Bool.not_eq_true]
  intro hbit
  rcases hfin hbit with hin | hnone
  · rw [← hf.fin.mp hbit] at hin
    exact hend hb hin
  · exact hnone _ (Nat.le_add_right ..) (Nat.add_lt_add_left (by omega) _) hmissing

theorem Tracks.gaps_ne_nil (h : s.Tracks) : s.gaps ≠ [] := by
  intro hnil
  have hord := h.ordered
  rw [hnil] at hord
  exact absurd hord (by simp [Ordered])

/-- A frame of which no byte is missing. -/
theorem Tracks.taken_duplicate (h : s.Tracks)
    (hdup : ∀ i, f.offset ≤ i → i < f.stop → ¬ InGaps s.gaps i) : Taken s f s where
  tracks := h
  inGaps_iff i := ⟨fun hi => ⟨hi, fun hin => hdup i hin.1 hin.2 hi⟩, fun hi => hi.1⟩
  readPosition := rfl
  head _ hf _ := hf
  frames _ _ hf := .inl hf

/-- The read position is not behind the first gap. -/
theorem Tracks.readPosition_le (h : s.Tracks) {i : Nat} (hi : InGaps s.gaps i) :
    s.readPosition ≤ i := by
  have hord := h.ordered
  have hchains := h.chains
  cases hgs : s.gaps with
  | nil => exact absurd hgs h.gaps_ne_nil
  | cons g gs =>
    rw [hgs] at hord hchains hi
    have hle := hchains.1.le
    rcases inGaps_cons.mp hi with hin | hin
    · omega
    have := hord.2.2.bounds hin
    have := hord.2.1
    omega

/-- The frame as it is queued when it meets the gap `gap`, with `stop` the end of the end
gap. -/
def cutTo (f : StreamFrame) (gap : ByteInterval) (stop : Nat) : StreamFrame :=
  (f.dropHead (gap.start - f.offset)).dropTail (f.stop - stop)

section Cut

variable {gap : ByteInterval} {stop : Nat}

theorem cutTo_offset : (cutTo f gap stop).offset = max f.offset gap.start := by
  rw [cutTo, dropTail_offset, dropHead_offset]
  omega

/-- The frame that is queued ends with the frame or with the end gap. -/
theorem cutTo_stop (hgap : gap.start < f.stop) (hstart : f.offset < stop)
    (hstop : gap.start < stop) : (cutTo f gap stop).stop = min f.stop stop := by
  have hdef : f.stop = f.offset + f.dataLen := rfl
  have hle : gap.start - f.offset ≤ f.dataLen := by omega
  rw [cutTo, dropTail_stop (by rw [dropHead_dataLen]; omega), dropHead_stop hle]
  omega

end Cut

/-- The bytes of the frame before the gap that it meets were received. -/
theorem Tracks.gap_start_le (h : s.Tracks) (hsplit : s.gaps = before ++ gap :: rest)
    (hbefore : ∀ g ∈ before, g.stop < f.offset) {i : Nat} (hi : InGaps s.gaps i)
    (hlo : f.offset ≤ i) : gap.start ≤ i := by
  have hord := h.ordered
  rw [hsplit] at hord hi
  obtain ⟨mid, -, hordRest⟩ := Ordered.append.mp hord
  rcases inGaps_append.mp hi with ⟨g, hg, -, hlt⟩ | hi
  · have := hbefore g hg
    omega
  rcases inGaps_cons.mp hi with hin | hin
  · exact hin.1
  have := hordRest.2.2.bounds hin
  have := hordRest.2.1
  omega

/-- `Push` of a frame that meets the gap `gap`. -/
theorem insert_eq {e : EndGap} (hok : findGap f.offset f.stop [] s.gaps = .ok (before, gap, rest))
    (hsplit : s.gaps = before ++ gap :: rest)
    (hbefore : ∀ g ∈ before, g.start < g.stop ∧ g.stop ≤ f.offset) (hgap : gap.start < f.stop)
    (hgapLt : gap.start < gap.stop) (hinside : f.offset < gap.stop) (hlt : f.offset < f.stop)
    (he : seekEndGap f.stop gap true s.queuedFrames rest = e)
    (hspec : EndGapSpec f.stop gap true rest s.queuedFrames e) :
    s.insert f =
      let gaps := removeRange (max f.offset gap.start) f.stop s.gaps
      if maxStreamFrameSorterGaps < gaps.length then
        ({ s with queuedFrames := e.queuedFrames, gaps }, some .tooManyGaps)
      else
        ({ s with
          queuedFrames := update e.queuedFrames (max f.offset gap.start)
            (some (cutTo f gap e.endGap.stop)), gaps }, none) := by
  have hdef : f.stop = f.offset + f.dataLen := rfl
  have hoffset : f.offset + (gap.start - f.offset) = max f.offset gap.start := by omega
  have hstop : (f.dropHead (gap.start - f.offset)).stop = f.stop := dropHead_stop (by omega)
  have hle := hspec.stop_le
  have hstop' : (cutTo f gap e.endGap.stop).stop = min f.stop e.endGap.stop :=
    cutTo_stop hgap (by omega) (by omega)
  have hnext : e.isGap = false → gap.stop ≤ f.stop := by
    intro hisGap
    by_contra hcon
    rw [← he, seekEndGap_isGap (by omega)] at hisGap
    cases hisGap
  have hgaps := splice_removeRange (max f.offset gap.start) hspec hnext
    (fun g hg => ⟨(hbefore g hg).1, by have := (hbefore g hg).2; omega⟩) (by omega) (by omega)
    (by omega)
  rw [← hsplit] at hgaps
  rw [← hgaps, ← hstop']
  simp only [insert, hok, hstop, he, hspec.found, if_true, dropTail_offset, dropHead_offset,
    hoffset]
  rfl

section

variable (h : s.Tracks) (hmax : f.stop < maxByteCount)

include h hmax

/-- A frame that meets a gap. -/
theorem insert_gap (hok : findGap f.offset f.stop [] s.gaps = .ok (before, gap, rest))
    (hsplit : s.gaps = before ++ gap :: rest) (hbefore : ∀ g ∈ before, g.stop < f.offset)
    (hgap : gap.start < f.stop) (hinside : f.offset < gap.stop) (hlt : f.offset < f.stop) :
    (s.insert f).2 = some .tooManyGaps ∧
        maxStreamFrameSorterGaps < (removeRange f.offset f.stop s.gaps).length ∨
      Taken s f (s.insert f).1 ∧ (s.insert f).2 = none := by
  have hdef : f.stop = f.offset + f.dataLen := rfl
  have hord := h.ordered
  have hchains := h.chains
  rw [hsplit] at hord hchains
  obtain ⟨mid, hordBefore, hordRest⟩ := Ordered.append.mp hord
  have hgapLt := hordRest.2.1
  have hspec := seekEndGap_spec hmax rest gap true s.queuedFrames hordRest hgap
  obtain ⟨e, he⟩ : ∃ e, seekEndGap f.stop gap true s.queuedFrames rest = e := ⟨_, rfl⟩
  rw [he] at hspec
  have hle := hspec.stop_le
  have hearly := fun i => h.gap_start_le (i := i) hsplit hbefore
  rw [removeRange_start (Nat.le_max_left f.offset gap.start) (fun g hg => (h.ordered.mem hg).2.1)
    fun i hlo hhi hi => by have := hearly i hi hlo; omega,
    insert_eq hok hsplit (fun g hg => ⟨(hordBefore.mem hg).2.1, Nat.le_of_lt (hbefore g hg)⟩)
      hgap hgapLt hinside hlt he hspec]
  by_cases hmany : maxStreamFrameSorterGaps <
      (removeRange (max f.offset gap.start) f.stop s.gaps).length
  · simp only [if_pos hmany]
    exact .inl ⟨trivial, hmany⟩
  simp only [if_neg hmany]
  refine .inr ⟨?_, trivial⟩
  obtain ⟨a, ha⟩ : ∃ a, max f.offset gap.start = a := ⟨_, rfl⟩
  rw [ha]
  have hoffset : (cutTo f gap e.endGap.stop).offset = a := cutTo_offset.trans ha
  have hlen : a + (cutTo f gap e.endGap.stop).dataLen = min f.stop e.endGap.stop := by
    rw [← hoffset]
    exact cutTo_stop hgap (by omega) (by omega)
  have hcut : CutOf s.gaps f (cutTo f gap e.endGap.stop) := by
    refine ⟨_, _, rfl, by omega, ⟨gap, by simp [hsplit], by omega, by omega⟩,
      fun hcutting hin => ?_⟩
    rw [hsplit, inGaps_append] at hin
    rcases hin with ⟨g, hg, -, hlt'⟩ | hin
    · have := hbefore g hg
      omega
    · exact hspec.received (f.stop - 1) (by omega) (by omega) hin
  have hgaps : ∀ i, InGaps (removeRange a f.stop s.gaps) i ↔
      InGaps s.gaps i ∧ ¬ (a ≤ i ∧ i < f.stop) := fun i => inGaps_removeRange (by omega)
  have hsub : ∀ i, InGaps (removeRange a f.stop s.gaps) i → InGaps s.gaps i :=
    fun i hi => ((hgaps i).mp hi).1
  refine ⟨⟨fun i => ?_, rfl, ?_⟩, ⟨?_, ?_, ?_, ?_⟩, ?_⟩
  · rw [hgaps]
    refine and_congr_right fun hi => not_congr ⟨fun hin => ⟨by omega, hin.2⟩,
      fun hin => ⟨?_, hin.2⟩⟩
    have := hearly i hi hin.1
    omega
  · intro f' hf' hpos
    have hmem : InGaps s.gaps gap.start := ⟨gap, by simp [hsplit], Nat.le_refl _, hgapLt⟩
    have hread := h.readPosition_le hmem
    have hkey := h.key _ _ hf'
    have hdef' : f'.stop = f'.offset + f'.dataLen := rfl
    -- The head frame covers the read position, which is not missing therefore.
    have hne : s.readPosition ≠ a := by
      intro heq
      refine h.received _ _ hf' s.readPosition (by omega) (by omega) ?_
      exact ⟨gap, by simp [hsplit], by omega, by omega⟩
    have hkeep : update e.queuedFrames a (some (cutTo f gap e.endGap.stop)) s.readPosition =
        s.queuedFrames s.readPosition := by
      rw [update_of_ne hne, hspec.queue_eq _ (.inl (by omega))]
    exact hkeep.trans hf'
  · exact h.ordered.removeRange h.gaps_ne_nil (by omega) (by omega)
  · have hnew := splice_chains (f := cutTo f gap e.endGap.stop) a hspec hord hchains
      (by omega) (by omega) (by omega) hlen
    rw [← hspec.remove_eq a (by omega) (by omega)] at hnew
    rw [hsplit, removeRange_append, removeRange_eq_self (by omega) fun g hg =>
      ⟨(hordBefore.mem hg).2.1, .inl (by have := hbefore g hg; omega)⟩]
    exact hnew
  · intro x f' hf'
    rcases update_eq_some hf' with ⟨rfl, ⟨⟩⟩ | hold
    · exact hoffset
    · exact h.key x f' (hspec.queue_sub x f' hold)
  · intro x f' hf' i hlo hhi hi
    rcases update_eq_some hf' with ⟨-, ⟨⟩⟩ | hold
    · rw [StreamFrame.stop, hoffset] at hhi
      exact ((hgaps i).mp hi).2 ⟨by omega, by omega⟩
    · exact h.received x f' (hspec.queue_sub x f' hold) i hlo hhi (hsub i hi)
  · intro x f' hf'
    rcases update_eq_some hf' with ⟨-, ⟨⟩⟩ | hold
    · exact .inr hcut
    · exact .inl (hspec.queue_sub x f' hold)

theorem insert_spec (hpos : 0 < f.dataLen) (hstart : ∀ g ∈ s.gaps, f.offset ≠ g.stop) :
    (s.insert f).2 = some .tooManyGaps ∧
        maxStreamFrameSorterGaps < (removeRange f.offset f.stop s.gaps).length ∨
      Taken s f (s.insert f).1 ∧ ((s.insert f).2 = none ∨ (s.insert f).2 = some .duplicate) := by
  have hdef : f.stop = f.offset + f.dataLen := rfl
  have hlt : f.offset < f.stop := by omega
  rcases findGap_spec hlt hmax s.gaps [] h.ordered (by simp) (fun _ => Nat.zero_le _) with
    ⟨hdup, hnone⟩ | ⟨before, gap, rest, hok, hsplit, hbefore, hgap, hmeet⟩
  · rw [insert, hdup]
    exact .inr ⟨h.taken_duplicate hnone, .inr rfl⟩
  rw [nil_append] at hsplit
  have hinside : f.offset < gap.stop := Nat.lt_of_le_of_ne hmeet (hstart gap (by simp [hsplit]))
  exact (insert_gap h hmax hok hsplit hbefore hgap hinside hlt).imp id fun ⟨htaken, herr⟩ =>
    ⟨htaken, .inl herr⟩

end

/-- An empty frame with the FIN bit is queued at the end of the stream. -/
theorem accepted_empty (h : s.Inv D) (hf : Genuine D f) (hempty : f.dataLen = 0) :
    Accepted D s f { s with queuedFrames := update s.queuedFrames f.offset (some f) } := by
  have hend := hf.fin.mp (hf.empty hempty)
  have hdef : f.stop = f.offset + f.dataLen := rfl
  have hkeep : ∀ x f', s.queuedFrames x = some f' → 0 < f'.dataLen →
      update s.queuedFrames f.offset (some f) x = some f' := by
    intro x f' hf' hpos
    have := (h.genuine x f' hf').bound
    have := h.key x f' hf'
    have hdef' : f'.stop = f'.offset + f'.dataLen := rfl
    rw [update_of_ne (by omega)]
    exact hf'
  refine ⟨⟨fun i => ⟨fun hi => ⟨hi, by omega⟩, fun hi => hi.1⟩, rfl, fun f' => hkeep _ f'⟩,
    ⟨h.ordered, h.chains.mono hkeep, ?_, ?_⟩, ?_⟩
  · intro x f' hf'
    rcases update_eq_some hf' with ⟨rfl, ⟨⟩⟩ | hold
    · rfl
    · exact h.key x f' hold
  · intro x f' hf' i hlo hhi
    rcases update_eq_some hf' with ⟨-, ⟨⟩⟩ | hold
    · omega
    · exact h.received x f' hold i hlo hhi
  · intro x f' hf'
    rcases update_eq_some hf' with ⟨-, ⟨⟩⟩ | hold
    · exact hf
    · exact h.genuine x f' hold

/-- Bytes that are not missing may be cut off the frame before it is taken in. -/
theorem Taken.of_dropHead {s' : StreamFrameSorter} {n : Nat} (h : Taken s (f.dropHead n) s')
    (hn : n ≤ f.dataLen)
    (hreceived : ∀ i, f.offset ≤ i → i < f.offset + n → ¬ InGaps s.gaps i) : Taken s f s' where
  __ := h
  inGaps_iff i := by
    rw [h.inGaps_iff, dropHead_stop hn, dropHead_offset]
    refine and_congr_right fun hi => not_congr ⟨fun hin => ⟨by omega, hin.2⟩, fun hin => ?_⟩
    refine ⟨?_, hin.2⟩
    by_contra hlow
    exact hreceived i hin.1 (by omega) hi
  frames x f' hf' := by
    refine (h.frames x f' hf').imp id ?_
    rintro ⟨a, b, rfl, hab, hmissing, hend⟩
    rw [dropHead_dataLen] at hab
    rw [dropHead_stop hn] at hend
    rw [dropHead_offset, Nat.add_assoc] at hmissing
    refine ⟨n + a, b, ?_, by omega, hmissing, hend⟩
    simp [StreamFrame.dropHead, Nat.add_assoc]

/-- A push of a frame with bytes takes exactly these out of the gaps, or leaves too many gaps. -/
theorem push_taken (h : s.Tracks) (hpos : 0 < f.dataLen) (hmax : f.stop < maxByteCount)
    (hold : ∀ old, s.queuedFrames f.offset = some old → 0 < old.dataLen) :
    (s.push f).2 = some .tooManyGaps ∧
        maxStreamFrameSorterGaps < (removeRange f.offset f.stop s.gaps).length ∨
      Taken s f (s.push f).1 ∧ ((s.push f).2 = none ∨ (s.push f).2 = some .duplicate) := by
  rw [push, if_neg (by omega)]
  cases hq : s.queuedFrames f.offset with
  | none =>
    -- A gap does not end here, as no frame is queued here.
    refine insert_spec h hmax hpos fun g hg heq => ?_
    have hdef : f.stop = f.offset + f.dataLen := rfl
    obtain ⟨f', hf', -⟩ := h.chains.frame_at_stop h.ordered hg (by omega)
    rw [← heq, hq] at hf'
    cases hf'
  | some old =>
    simp only
    have hkey := h.key _ _ hq
    have hreceived := h.received _ _ hq
    have hdefOld : old.stop = old.offset + old.dataLen := rfl
    have hdef : f.stop = f.offset + f.dataLen := rfl
    have hposOld := hold old hq
    split
    · exact .inr ⟨h.taken_duplicate fun i hlo hhi => hreceived i (by omega) (by omega), .inr rfl⟩
    have hle : old.dataLen ≤ f.dataLen := by omega
    have hmore : ∀ i, f.offset ≤ i → i < f.offset + old.dataLen → ¬ InGaps s.gaps i :=
      fun i hlo hhi => hreceived i (by omega) (by omega)
    rw [removeRange_start (Nat.le_add_right f.offset old.dataLen)
      (fun g hg => (h.ordered.mem hg).2.1) hmore, ← dropHead_stop hle]
    have hinsert := insert_spec h (f := f.dropHead old.dataLen) (by rwa [dropHead_stop hle])
      (by rw [dropHead_dataLen]; omega) (fun g hg heq => by
        -- Otherwise the last byte of the queued frame would be missing.
        have := (h.ordered.mem hg).2.1
        rw [dropHead_offset] at heq
        exact hmore (g.stop - 1) (by omega) (by omega) ⟨g, hg, by omega, by omega⟩)
    exact hinsert.imp id fun ⟨htaken, herr⟩ => ⟨htaken.of_dropHead hle hmore, herr⟩

/-- A push keeps the invariant and takes exactly the bytes of the frame out of the gaps. -/
theorem push_spec (h : s.Inv D) (hD : D.length < maxByteCount) (hf : Genuine D f)
    (hharmless : Harmless D s f) :
    Accepted D s f (s.push f).1 ∧ ((s.push f).2 = none ∨ (s.push f).2 = some .duplicate) := by
  have hdef : f.stop = f.offset + f.dataLen := rfl
  have hbound := hf.bound
  by_cases hempty : f.dataLen = 0
  · rw [push, if_pos hempty, if_pos (hf.empty hempty)]
    exact ⟨accepted_empty h hf hempty, .inl rfl⟩
  have hpos : 0 < f.dataLen := Nat.pos_of_ne_zero hempty
  have hgaps := hharmless.gaps hpos
  -- A queued frame is not empty where another one has bytes: it lies before the end.
  have hold : ∀ old, s.queuedFrames f.offset = some old → 0 < old.dataLen := by
    intro old hq
    by_contra hzero
    have hend := (h.genuine _ _ hq).fin.mp ((h.genuine _ _ hq).empty (by omega))
    have := h.key _ _ hq
    have hdefOld : old.stop = old.offset + old.dataLen := rfl
    omega
  rcases push_taken h.toTracks hpos (by omega) hold with ⟨-, hmany⟩ | ⟨htaken, herr⟩
  · omega
  refine ⟨⟨htaken.toAbsorbed, htaken.tracks, fun x f' hf' => ?_⟩, herr⟩
  rcases htaken.frames x f' hf' with hq | hcut
  · exact h.genuine x f' hq
  · exact hcut.genuine hf fun hbit => hharmless.fin hbit hpos

/-- Behind the head frame the chains are those of the queue without it. -/
theorem Tracks.chains_pop (h : s.Tracks) (hhead : s.head = some f) :
    Chains (update s.queuedFrames s.readPosition none) (s.readPosition + f.dataLen)
      s.gaps := by
  have hkey : f.offset = s.readPosition := h.key _ _ hhead
  have hdef : f.stop = f.offset + f.dataLen := rfl
  have hlater : ∀ x, s.readPosition < x →
      update s.queuedFrames s.readPosition none x = s.queuedFrames x :=
    fun x hx => update_of_ne (by omega) ..
  have hord := h.ordered
  have hchains := h.chains
  have hreceived := h.received _ _ hhead
  cases hgs : s.gaps with
  | nil => exact trivial
  | cons g gs =>
    rw [hgs] at hord hchains hreceived
    have hle := hchains.1.le
    have hg := hord.2.1
    refine ⟨?_, hchains.2.congr_ge (fun g' hg' => (hord.2.2.mem hg').2.1) fun x hx =>
      hlater x (by omega)⟩
    -- The head frame is the first one of its chain, if the chain has any.
    rcases Nat.eq_or_lt_of_le hle with heq | hlt
    · have hzero : f.dataLen = 0 := by
        by_contra hne
        exact hreceived s.readPosition (by omega) (by omega)
          (inGaps_cons.mpr (.inl ⟨by omega, by omega⟩))
      rw [hzero, Nat.add_zero, heq]
      exact .refl _
    · obtain ⟨f', hf', hpos, hrest⟩ := hchains.1.head hlt
      rw [head, hf'] at hhead
      cases hhead
      exact hrest.congr fun x hx _ => hlater x (by omega)

/-- `Pop` takes a frame out of the queue. -/
theorem Tracks.pop (h : s.Tracks) (hhead : s.head = some f) :
    s.pop.Tracks ∧ s.pop.gaps = s.gaps ∧ s.pop.readPosition = s.readPosition + f.dataLen ∧
      ∀ x f', s.pop.queuedFrames x = some f' → s.queuedFrames x = some f' := by
  have hpop : s.pop = { s with
      readPosition := s.readPosition + f.dataLen
      queuedFrames := update s.queuedFrames s.readPosition none } := by
    rw [StreamFrameSorter.pop, hhead, ← h.key _ _ hhead]
  have hqueue : ∀ x f', update s.queuedFrames s.readPosition none x = some f' →
      s.queuedFrames x = some f' := by
    intro x f' hf'
    rcases update_eq_some hf' with ⟨-, ⟨⟩⟩ | hold
    exact hold
  rw [hpop]
  exact ⟨⟨h.ordered, h.chains_pop hhead, fun x f' hf' => h.key x f' (hqueue x f' hf'),
    fun x f' hf' => h.received x f' (hqueue x f' hf')⟩, rfl, rfl, hqueue⟩

/-! ### Runs -/

inductive Call where
  | push (frame : StreamFrame)
  | pop

/-- The sorter after a call. -/
def call (s : StreamFrameSorter) : Call → StreamFrameSorter
  | .push frame => (s.push frame).1
  | .pop => s.pop

/-- A frame with bytes, all below the maximum, that does not leave too many gaps. -/
def Allowed (s : StreamFrameSorter) : Call → Prop
  | .push frame => 0 < frame.dataLen ∧ frame.stop < maxByteCount ∧
    (removeRange frame.offset frame.stop s.gaps).length ≤ maxStreamFrameSorterGaps
  | .pop => True

/-- The missing bytes are those that were not pushed. -/
structure Exact (calls : List Call) (s : StreamFrameSorter) : Prop where
  tracks : s.Tracks
  inGaps_iff : ∀ i, InGaps s.gaps i ↔ i < maxByteCount ∧
    ∀ frame, .push frame ∈ calls → ¬ (frame.offset ≤ i ∧ i < frame.stop)
  pos : ∀ x f, s.queuedFrames x = some f → 0 < f.dataLen

theorem exact_new : Exact [] newStreamFrameSorter where
  tracks := (inv_new []).toTracks
  inGaps_iff i := by simp [InGaps, newStreamFrameSorter]
  pos _ _ h := by cases h

/-- An allowed push finds its gaps. -/
theorem Exact.push_taken {calls : List Call} (h : Exact calls s) (hallowed : s.Allowed (.push f)) :
    Taken s f (s.push f).1 ∧ ((s.push f).2 = none ∨ (s.push f).2 = some .duplicate) :=
  (StreamFrameSorter.push_taken h.tracks hallowed.1 hallowed.2.1 fun old => h.pos _ old)
    |>.resolve_left fun hmany => Nat.not_lt.mpr hallowed.2.2 hmany.2

theorem Exact.step {calls : List Call} {c : Call} (h : Exact calls s) (hc : s.Allowed c) :
    Exact (calls ++ [c]) (s.call c) := by
  cases c with
  | push f =>
    obtain ⟨htaken, -⟩ := h.push_taken hc
    refine ⟨htaken.tracks, fun i => ?_, fun x f' hf' => ?_⟩
    · rw [call, htaken.inGaps_iff, h.inGaps_iff]
      simp only [mem_append, mem_singleton, Call.push.injEq, or_imp, forall_and,
        forall_eq, and_assoc]
    rcases htaken.frames x f' hf' with hold | ⟨a, b, rfl, hab, -⟩
    · exact h.pos x f' hold
    rw [dropTail_dataLen, dropHead_dataLen]
    omega
  | pop =>
    have hcalls : ∀ frame, .push frame ∈ calls ++ [Call.pop] ↔ .push frame ∈ calls := by simp
    simp only [call]
    cases hhead : s.head with
    | none =>
      rw [StreamFrameSorter.pop, hhead]
      exact ⟨h.tracks, by simpa only [hcalls] using h.inGaps_iff, h.pos⟩
    | some f =>
      obtain ⟨htracks, hgaps, -, hqueue⟩ := h.tracks.pop hhead
      refine ⟨htracks, ?_, fun x f' hf' => h.pos x f' (hqueue x f' hf')⟩
      simpa only [hgaps, hcalls] using h.inGaps_iff

/-- **The gap list is exact** in every run, and `Push` finds the gaps that it looks for. -/
theorem gaps_exact {calls : List Call} (h : AllFit call Allowed newStreamFrameSorter calls) :
    let s := run call newStreamFrameSorter calls
    (∀ g ∈ s.gaps, g.start < g.stop) ∧ s.gaps.Pairwise (fun g g' => g.stop ≤ g'.start) ∧
      (∀ i, InGaps s.gaps i ↔ i < maxByteCount ∧
        ∀ frame, .push frame ∈ calls → ¬ (frame.offset ≤ i ∧ i < frame.stop)) ∧
      ∀ frame, s.Allowed (.push frame) →
        (s.push frame).2 ≠ some .noGapFound ∧ (s.push frame).2 ≠ some .noEndGapFound := by
  have hexact := run_inv Allowed Exact (fun _ _ _ hinv hc => hinv.step hc) calls [] _ exact_new h
  refine ⟨fun g hg => (hexact.tracks.ordered.mem hg).2.1, hexact.tracks.ordered.pairwise,
    hexact.inGaps_iff, fun frame hframe => ?_⟩
  rcases (hexact.push_taken hframe).2 with herr | herr
  · simp [herr]
  · simp [herr]

theorem gaps_exact_one_frame :
    let calls := [Call.push ⟨1, [7], true⟩, .pop]
    ∀ i, InGaps (run call newStreamFrameSorter calls).gaps i ↔ i < maxByteCount ∧
      ∀ frame, .push frame ∈ calls → ¬ (frame.offset ≤ i ∧ i < frame.stop) := by
  have hfit : AllFit call Allowed newStreamFrameSorter [.push ⟨1, [7], true⟩, .pop] :=
    .cons ⟨by decide, by decide, by decide⟩ (.cons trivial .nil)
  exact (gaps_exact hfit).2.2.1

end StreamFrameSorter

end RlncStreaming.Quic
