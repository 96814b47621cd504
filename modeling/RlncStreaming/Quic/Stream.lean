import RlncStreaming.Quic.FrameSorter

/-!
The receiving half of a stream (`stream.go`): `AddStreamFrame` and `Read`.

`Read` copies from the head frame of the sorter until its buffer is full, and waits if
there is none and it has nothing to return. Frames are delivered by another goroutine, so
a call of `Read` is a sequence of steps, one for each turn of its loop, and deliveries may
come between any two of them (`Reception`).

In every run of genuine and harmless frames the bytes that `Read` returns are a prefix of
what the stream carries, `io.EOF` comes after its last byte, and once everything was
delivered reading on returns all of it (`reassembly`). A frame with the FIN bit that is
cut at its end breaks this (`reassembly_cut_short`).
-/

namespace RlncStreaming.Quic

open Lib List StreamFrameSorter

/-! ### The stream -/

inductive ReadError where
  /-- `io.EOF` -/
  | eof
  /-- `errDeadline` -/
  | deadline
  /-- The error that the stream was cancelled or reset with. -/
  | stream (reason : String)
  /-- `BUG: readPosInFrame > frame.DataLen in stream.Read` -/
  | bug
deriving DecidableEq, Repr

/-- The fields of `stream` that belong to its receiving half. `readChan` says whether the
channel holds a signal, and a deadline of `none` is the zero time. -/
structure Stream where
  readPosInFrame : Nat
  readOffset : Nat
  err : Option ReadError
  cancelled : Bool
  finishedReading : Bool
  resetLocally : Bool
  frameQueue : StreamFrameSorter
  readChan : Bool
  readDeadline : Option Nat

def newStream : Stream :=
  ⟨0, 0, none, false, false, false, newStreamFrameSorter, false, none⟩

inductive AddError where
  | flowControl
  | sorter (e : SorterError)
deriving DecidableEq, Repr

/-- A call of `Read` in progress: the length of its buffer, what it has copied, and whether
it waits for a signal. -/
structure Call where
  size : Nat
  got : List UInt8
  waiting : Bool
deriving DecidableEq, Repr

/-- What a turn of `Read` leads to. -/
inductive Progress where
  | running (s : Stream) (c : Call)
  | returned (s : Stream) (got : List UInt8) (err : Option ReadError)
  | crashed

namespace Stream

variable (s : Stream)

/-- `AddStreamFrame`; `exceeded` says that the flow controller refuses the offset. -/
def addStreamFrame (exceeded : Bool) (frame : StreamFrame) : Stream × Option AddError :=
  if exceeded then (s, some .flowControl)
  else
    let (frameQueue, err) := s.frameQueue.push frame
    match err with
    | none => ({ s with frameQueue, readChan := true }, none)
    | some .duplicate => ({ s with frameQueue, readChan := true }, none)
    | some e => ({ s with frameQueue }, some (.sorter e))

def expired (now : Nat) : Bool :=
  match s.readDeadline with
  | none => false
  | some deadline => decide (deadline ≤ now)

/-- The start of `Read` with a buffer of `size` bytes. -/
def enter (size : Nat) : Progress :=
  if s.cancelled || s.resetLocally then .returned s [] s.err
  else if s.finishedReading then .returned s [] (some .eof)
  else .running s ⟨size, [], false⟩

/-- The copying part of the loop body. -/
def copyFrom (c : Call) (frame : StreamFrame) : Progress :=
  if frame.dataLen < s.readPosInFrame then .returned s c.got (some .bug)
  else
    let m := min (c.size - c.got.length) (frame.dataLen - s.readPosInFrame)
    let got := c.got ++ (frame.data.drop s.readPosInFrame).take m
    let s := { s with readPosInFrame := s.readPosInFrame + m, readOffset := s.readOffset + m }
    if frame.dataLen ≤ s.readPosInFrame then
      let s := { s with frameQueue := s.frameQueue.pop }
      if frame.finBit then .returned { s with finishedReading := true } got (some .eof)
      else .running s ⟨c.size, got, false⟩
    else .running s ⟨c.size, got, false⟩

/-- The inner loop of `Read`, up to the point where it waits or leaves. A head frame that
starts after the read offset would give a negative position. -/
def await (now : Nat) (c : Call) (frame : Option StreamFrame) : Progress :=
  if s.resetLocally || s.cancelled then
    match s.err, frame with
    | some e, _ => .returned s c.got (some e)
    | none, some frame => s.copyFrom c frame
    | none, none => .crashed
  else if s.expired now then .returned s c.got (some .deadline)
  else
    match frame with
    | some frame =>
      if frame.offset ≤ s.readOffset then
        { s with readPosInFrame := s.readOffset - frame.offset }.copyFrom c frame
      else .crashed
    | none => .running s { c with waiting := true }

/-- One turn of a call of `Read`. -/
def turn (now : Nat) (c : Call) : Progress :=
  if c.waiting then
    if s.readChan then { s with readChan := false }.await now c s.frameQueue.head
    else if s.expired now then s.await now c s.frameQueue.head
    else .running s c
  else if c.got.length < c.size then
    match s.frameQueue.head with
    | none => if c.got ≠ [] then .returned s c.got s.err else s.await now c none
    | some frame => s.await now c (some frame)
  else .returned s c.got none

end Stream

/-! ### Runs -/

/-- A stream with its reader: the call in progress, the bytes that finished calls have
returned, whether `io.EOF` was returned, and whether a call crashed or returned another
error. -/
structure Reception where
  stream : Stream
  call : Option Call
  out : List UInt8
  eof : Bool
  fault : Bool

inductive Action where
  /-- A frame arrives within the flow control windows. -/
  | deliver (f : StreamFrame)
  /-- The user calls `Read` with a buffer of `k` bytes. -/
  | call (k : Nat)
  /-- The call in progress makes a turn. -/
  | turn (now : Nat)
deriving DecidableEq, Repr

namespace Reception

def new : Reception := ⟨newStream, none, [], false, false⟩

def record (r : Reception) : Progress → Reception
  | .running s c => { r with stream := s, call := some c }
  | .returned s got err =>
    { stream := s, call := none, out := r.out ++ got
      eof := r.eof || err == some .eof
      fault := r.fault || (err != none && err != some .eof) }
  | .crashed => { r with fault := true }

/-- One action. Calls of `Read` are not concurrent with each other. -/
def act (r : Reception) : Action → Reception
  | .deliver f => { r with stream := (r.stream.addStreamFrame false f).1 }
  | .call k =>
    match r.call with
    | none => r.record (r.stream.enter k)
    | some _ => r
  | .turn now =>
    match r.call with
    | none => r
    | some c => r.record (r.stream.turn now c)

/-- What the call in progress has copied. -/
def got (r : Reception) : List UInt8 :=
  match r.call with
  | none => []
  | some c => c.got

end Reception

def delivered (acts : List Action) : List StreamFrame :=
  acts.filterMap fun a => match a with
    | .deliver f => some f
    | _ => none

/-- The frames cover `D`, including its end. -/
def Covered (D : List UInt8) (fs : List StreamFrame) : Prop :=
  (∀ i < D.length, ∃ f ∈ fs, f.offset ≤ i ∧ i < f.stop) ∧ ∃ f ∈ fs, f.finBit = true

/-- Calls of `Read` with buffers of the given sizes, each with turns enough to return. -/
def readCalls (now : Nat) (sizes : List Nat) : List Action :=
  sizes.flatMap fun k => .call k :: List.replicate (k + 1) (.turn now)

/-! ### The invariant -/

namespace Reception

/-- No error was registered and no deadline is set. -/
structure Healthy (s : Stream) : Prop where
  cancelled : s.cancelled = false
  resetLocally : s.resetLocally = false
  err : s.err = none
  readDeadline : s.readDeadline = none

/-- The state after the frames `fs` of the stream that carries `D` were delivered. -/
structure Inv (D : List UInt8) (fs : List StreamFrame) (r : Reception) : Prop where
  sorter : r.stream.frameQueue.Inv D
  inGaps_iff : ∀ i, InGaps r.stream.frameQueue.gaps i ↔
    i < maxByteCount ∧ ∀ f ∈ fs, ¬ (f.offset ≤ i ∧ i < f.stop)
  healthy : Healthy r.stream
  fault : r.fault = false
  /-- `Read` is at the read position or inside of the head frame. -/
  position : r.stream.readOffset = r.stream.frameQueue.readPosition ∨
    ∃ f, r.stream.frameQueue.head = some f ∧
      r.stream.frameQueue.readPosition ≤ r.stream.readOffset ∧ r.stream.readOffset < f.stop
  bound : r.stream.readOffset ≤ D.length
  bytes : r.out ++ r.got = D.take r.stream.readOffset
  eof : r.eof = r.stream.finishedReading
  finished : r.stream.finishedReading = true → r.call = none ∧ r.stream.readOffset = D.length
  unfinished : r.stream.finishedReading = false → D ≠ [] →
    r.stream.frameQueue.readPosition < D.length
  /-- For an empty stream only its FIN frames count. -/
  empty : D = [] → fs ≠ [] → r.stream.finishedReading = false → r.stream.frameQueue.head ≠ none
  size : ∀ c, r.call = some c → c.got.length ≤ c.size
  /-- No signal gets lost. -/
  waiting : ∀ c, r.call = some c → c.waiting = true → c.got.length < c.size ∧
    (r.stream.frameQueue.head ≠ none → r.stream.readChan = true)

variable {D : List UInt8} {fs : List StreamFrame} {r : Reception} {c : Call} {f : StreamFrame}

theorem inv_new (D : List UInt8) : Inv D [] new where
  sorter := StreamFrameSorter.inv_new D
  inGaps_iff i := by simp [new, newStream, newStreamFrameSorter]
  healthy := ⟨rfl, rfl, rfl, rfl⟩
  fault := rfl
  position := .inl rfl
  bound := Nat.zero_le _
  bytes := rfl
  eof := rfl
  finished h := by cases h
  unfinished _ hne := length_pos_of_ne_nil hne
  empty _ h := absurd rfl h
  size _ h := by cases h
  waiting _ h := by cases h

theorem Inv.got_eq (_ : Inv D fs r) (hcall : r.call = some c) : r.got = c.got := by
  rw [got, hcall]

theorem Inv.not_finished (h : Inv D fs r) (hcall : r.call = some c) :
    r.stream.finishedReading = false := by
  cases hfin : r.stream.finishedReading with
  | false => rfl
  | true =>
    have := (h.finished hfin).1
    rw [hcall] at this
    cases this

/-! ### Deliveries -/

theorem addStreamFrame_eq {s : Stream}
    (herr : (s.frameQueue.push f).2 = none ∨ (s.frameQueue.push f).2 = some .duplicate) :
    (s.addStreamFrame false f).1 =
      { s with frameQueue := (s.frameQueue.push f).1, readChan := true } := by
  rcases herr with herr | herr
  · simp [Stream.addStreamFrame, herr]
  · simp [Stream.addStreamFrame, herr]

/-- After a frame of the empty stream the reader finds it. -/
theorem Inv.push_head_empty (h : Inv D fs r) (hD : D = []) (hf : Genuine D f) :
    (r.stream.frameQueue.push f).1.head ≠ none := by
  have hbound := hf.bound
  have hoffset := h.bound
  have hdef : f.stop = f.offset + f.dataLen := rfl
  rw [hD, length_nil] at hbound hoffset
  have hlen : f.dataLen = 0 := by omega
  have hposition : r.stream.frameQueue.readPosition = f.offset := by
    rcases h.position with heq | ⟨-, -, hle, -⟩
    · omega
    · omega
  rw [push, if_pos hlen, if_pos (hf.empty hlen), StreamFrameSorter.head]
  simp [hposition]

theorem deliver_inv (h : Inv D fs r) (hD : D.length < maxByteCount) (hf : Genuine D f)
    (hharmless : StreamFrameSorter.Harmless D r.stream.frameQueue f) :
    Inv D (fs ++ [f]) (r.act (.deliver f)) := by
  obtain ⟨haccepted, herr⟩ := push_spec h.sorter hD hf hharmless
  have hread := haccepted.readPosition
  rw [act, addStreamFrame_eq herr]
  constructor
  · exact haccepted.inv
  · intro i
    rw [haccepted.inGaps_iff, h.inGaps_iff, and_assoc]
    simp only [mem_append, mem_singleton, or_imp, forall_and, forall_eq]
  · exact { h.healthy with }
  · exact h.fault
  · rcases h.position with heq | ⟨f', hhead, hle, hlt⟩
    · exact .inl (heq.trans hread.symm)
    have hkey := h.sorter.key _ _ hhead
    have hdef : f'.stop = f'.offset + f'.dataLen := rfl
    refine .inr ⟨f', haccepted.head f' hhead (by omega), ?_, hlt⟩
    simp only [hread]
    exact hle
  · exact h.bound
  · exact h.bytes
  · exact h.eof
  · exact h.finished
  · intro hfin hne
    simp only [hread]
    exact h.unfinished hfin hne
  · exact fun hnil _ _ => h.push_head_empty hnil hf
  · exact h.size
  · exact fun c hc hwaiting => ⟨(h.waiting c hc hwaiting).1, fun _ => rfl⟩

/-! ### Turns of `Read` -/

theorem await_some {s : Stream} (hs : Healthy s) (now : Nat) (hle : f.offset ≤ s.readOffset) :
    s.await now c (some f) = { s with readPosInFrame := s.readOffset - f.offset }.copyFrom c f := by
  simp [Stream.await, Stream.expired, hs.resetLocally, hs.cancelled, hs.readDeadline, hle]

theorem await_none {s : Stream} (hs : Healthy s) (now : Nat) :
    s.await now c none = .running s { c with waiting := true } := by
  simp [Stream.await, Stream.expired, hs.resetLocally, hs.cancelled, hs.readDeadline]

/-- The call returns what it has, without an error. -/
theorem return_inv (h : Inv D fs r) (hcall : r.call = some c) :
    Inv D fs (r.record (.returned r.stream c.got none)) where
  __ := h
  fault := by simp [record, h.fault]
  bytes := by
    have hbytes := h.bytes
    rw [h.got_eq hcall] at hbytes
    simpa [record, got] using hbytes
  eof := by simp [record, h.eof]
  finished hfin := by
    rw [record, h.not_finished hcall] at hfin
    cases hfin
  size _ hc := by cases hc
  waiting _ hc := by cases hc

/-- The call waits because there is no head frame. -/
theorem wait_inv (h : Inv D fs r) (hcall : r.call = some c) (hsize : c.got.length < c.size)
    (hhead : r.stream.frameQueue.head = none) (readChan : Bool) :
    Inv D fs (r.record (.running { r.stream with readChan } { c with waiting := true })) where
  __ := h
  healthy := { h.healthy with }
  bytes := by
    have hbytes := h.bytes
    rw [h.got_eq hcall] at hbytes
    exact hbytes
  finished hfin := by
    rw [record, h.not_finished hcall] at hfin
    cases hfin
  size _ hc := by
    cases hc
    exact h.size c hcall
  waiting _ hc _ := by
    cases hc
    exact ⟨hsize, fun hne => absurd hhead hne⟩

/-- What the copying part of the loop body does in a state of the invariant: it returns
with `io.EOF`, or it has copied something. -/
structure Copied (D : List UInt8) (fs : List StreamFrame) (r : Reception) (c : Call)
    (r' : Reception) : Prop where
  inv : Inv D fs r'
  progress : r'.call = none ∧ r'.eof = true ∨
    ∃ c', r'.call = some c' ∧ c'.size = c.size ∧ c.got.length < c'.got.length ∧ r'.out = r.out

section

variable (h : Inv D fs r) (hcall : r.call = some c)

include h hcall

/-- What was returned and copied, with the next `m` bytes. -/
theorem Inv.bytes_add (m : Nat) :
    r.out ++ (c.got ++ (D.drop r.stream.readOffset).take m) = D.take (r.stream.readOffset + m) := by
  have hbytes := h.bytes
  rw [h.got_eq hcall] at hbytes
  rw [← append_assoc, hbytes, take_add]

/-- The call goes on with `m` more bytes, and the stream is `s` then. -/
theorem advance_spec {s : Stream} {m : Nat} (hsorter : s.frameQueue.Inv D)
    (hgaps : s.frameQueue.gaps = r.stream.frameQueue.gaps) (hhealthy : Healthy s)
    (hopen : s.finishedReading = r.stream.finishedReading)
    (hoffset : s.readOffset = r.stream.readOffset + m)
    (hposition : s.readOffset = s.frameQueue.readPosition ∨
      ∃ f, s.frameQueue.head = some f ∧
        s.frameQueue.readPosition ≤ s.readOffset ∧ s.readOffset < f.stop)
    (hunfinished : s.frameQueue.readPosition < D.length) (hpos : 0 < m)
    (hbound : r.stream.readOffset + m ≤ D.length) (hsize : c.got.length + m ≤ c.size) :
    Copied D fs r c (r.record
      (.running s ⟨c.size, c.got ++ (D.drop r.stream.readOffset).take m, false⟩)) := by
  have hlen : (c.got ++ (D.drop r.stream.readOffset).take m).length = c.got.length + m := by
    rw [length_append, length_take, length_drop]
    omega
  rw [h.not_finished hcall] at hopen
  refine ⟨?_, .inr ⟨_, rfl, rfl, ?_, rfl⟩⟩
  · constructor
    · exact hsorter
    · simp only [record, hgaps]
      exact h.inGaps_iff
    · exact hhealthy
    · exact h.fault
    · exact hposition
    · simp only [record, hoffset]
      exact hbound
    · simp only [record, hoffset]
      exact h.bytes_add hcall m
    · simp only [record, hopen, h.eof]
      exact h.not_finished hcall
    · exact fun hfin => by simp [record, hopen] at hfin
    · exact fun _ _ => hunfinished
    · intro hnil
      rw [hnil, length_nil] at hbound
      omega
    · intro c' hc'
      cases hc'
      simp only [hlen]
      exact hsize
    · intro c' hc' hwaiting
      cases hc'
      cases hwaiting
  · simp only [hlen]
    omega

theorem copy_spec (hsize : c.got.length < c.size) (hhead : r.stream.frameQueue.head = some f)
    (readChan : Bool) :
    f.offset ≤ r.stream.readOffset ∧
      Copied D fs r c (r.record ({ r.stream with
        readChan, readPosInFrame := r.stream.readOffset - f.offset }.copyFrom c f)) := by
  have hkey := h.sorter.key _ _ hhead
  have hgenuine := h.sorter.genuine _ _ hhead
  have hdef : f.stop = f.offset + f.dataLen := rfl
  have hbound := hgenuine.bound
  have hhealthy := h.healthy
  obtain ⟨pos, hpos⟩ : ∃ pos, r.stream.readOffset - f.offset = pos := ⟨_, rfl⟩
  have hplace : f.offset + pos = r.stream.readOffset ∧ (pos < f.dataLen ∨ pos = 0) := by
    rcases h.position with heq | ⟨f', hhead', hle, hlt⟩
    · omega
    rw [hhead] at hhead'
    cases hhead'
    omega
  obtain ⟨m, hm⟩ : ∃ m, min (c.size - c.got.length) (f.dataLen - pos) = m := ⟨_, rfl⟩
  have hcopy :
      c.got ++ (f.data.drop pos).take m = c.got ++ (D.drop r.stream.readOffset).take m := by
    rw [hgenuine.data, drop_take, take_take, drop_drop, hplace.1, Nat.min_eq_left (by omega)]
  refine ⟨by omega, ?_⟩
  rw [hpos, Stream.copyFrom]
  simp only [hm, hcopy, if_neg (show ¬ f.dataLen < pos by omega)]
  by_cases hdone : f.dataLen ≤ pos + m
  · obtain ⟨htracks, hgaps, hread, hqueue⟩ := h.sorter.toTracks.pop hhead
    have hpop : r.stream.frameQueue.pop.Inv D :=
      ⟨htracks, fun x f' hf' => h.sorter.genuine x f' (hqueue x f' hf')⟩
    have hplace' : r.stream.readOffset + m = r.stream.frameQueue.pop.readPosition := by omega
    rw [if_pos hdone]
    cases hbit : f.finBit with
    | true =>
      -- The frame that ends the stream.
      have hend := hgenuine.fin.mp hbit
      rw [if_pos rfl, record]
      refine ⟨?_, .inl ⟨rfl, by simp⟩⟩
      constructor
      · exact hpop
      · simp only [hgaps]
        exact h.inGaps_iff
      · exact { hhealthy with }
      · simp [h.fault]
      · exact .inl hplace'
      · simp only
        omega
      · simpa [got] using h.bytes_add hcall m
      · simp
      · exact fun _ => ⟨rfl, by simp only; omega⟩
      · exact fun hfin => by cases hfin
      · exact fun _ _ hfin => by cases hfin
      · exact fun _ hc => by cases hc
      · exact fun _ hc => by cases hc
    | false =>
      have hmore : f.stop ≠ D.length := fun heq => by
        rw [hgenuine.fin.mpr heq] at hbit
        cases hbit
      have hnonempty : f.dataLen ≠ 0 := fun hzero => by
        rw [hgenuine.empty hzero] at hbit
        cases hbit
      rw [if_neg (by simp)]
      exact advance_spec h hcall hpop hgaps { hhealthy with } rfl rfl (.inl hplace')
        (by simp only; omega) (by omega) (by omega) (by omega)
  · rw [if_neg hdone]
    exact advance_spec h hcall h.sorter rfl { hhealthy with } rfl rfl
      (.inr ⟨f, hhead, by simp only; omega, by simp only; omega⟩) (by simp only; omega)
      (by omega) (by omega) (by omega)

end

/-- A turn of the call in progress keeps the invariant. -/
theorem turn_inv (h : Inv D fs r) (now : Nat) : Inv D fs (r.act (.turn now)) := by
  rw [act]
  cases hcall : r.call with
  | none => exact h
  | some c =>
    simp only [Stream.turn]
    cases hwaiting : c.waiting with
    | true =>
      obtain ⟨hsize, -⟩ := h.waiting c hcall hwaiting
      rw [if_pos rfl]
      cases hchan : r.stream.readChan with
      | true =>
        have hhealthy : Healthy { r.stream with readChan := false } := { h.healthy with }
        rw [if_pos rfl]
        cases hhead : r.stream.frameQueue.head with
        | none =>
          rw [await_none hhealthy]
          exact wait_inv h hcall hsize hhead false
        | some f =>
          obtain ⟨hle, hcopied⟩ := copy_spec h hcall hsize hhead false
          rw [await_some hhealthy now hle]
          exact hcopied.inv
      | false =>
        have hsame : r.record (.running r.stream c) = r := by
          rw [record, ← hcall]
        rw [if_neg (by simp), Stream.expired, h.healthy.readDeadline, if_neg (by simp), hsame]
        exact h
    | false =>
      rw [if_neg (by simp)]
      split
      · rename_i hsize
        cases hhead : r.stream.frameQueue.head with
        | none =>
          simp only
          split
          · rw [h.healthy.err]
            exact return_inv h hcall
          · rw [await_none h.healthy]
            exact wait_inv h hcall hsize hhead r.stream.readChan
        | some f =>
          obtain ⟨hle, hcopied⟩ := copy_spec h hcall hsize hhead r.stream.readChan
          simp only [await_some h.healthy now hle]
          exact hcopied.inv
      · exact return_inv h hcall

theorem enter_eq {s : Stream} (hs : Healthy s) (k : Nat) :
    s.enter k =
      if s.finishedReading then .returned s [] (some .eof) else .running s ⟨k, [], false⟩ := by
  simp [Stream.enter, hs.cancelled, hs.resetLocally]

/-- A new call keeps the invariant. -/
theorem call_inv (h : Inv D fs r) (k : Nat) : Inv D fs (r.act (.call k)) := by
  rw [act]
  cases hcall : r.call with
  | some c => exact h
  | none =>
    have hgot : r.got = [] := by rw [got, hcall]
    have hbytes := h.bytes
    rw [hgot] at hbytes
    simp only [enter_eq h.healthy]
    cases hfin : r.stream.finishedReading with
    | true =>
      rw [if_pos rfl, record]
      exact { h with
        fault := by simp [h.fault]
        bytes := by simpa [got] using hbytes
        eof := by simp [hfin]
        finished := fun hfin => ⟨rfl, (h.finished hfin).2⟩
        size := fun _ hc => by cases hc
        waiting := fun _ hc => by cases hc }
    | false =>
      rw [if_neg (by simp), record]
      exact { h with
        bytes := hbytes
        finished := fun hfin' => by simp [hfin] at hfin'
        size := fun c hc => by cases hc; exact Nat.zero_le k
        waiting := fun c hc hwaiting => by cases hc; cases hwaiting }

/-! ### Reading to the end -/

/-- While a covered stream is not read to its end there is a head frame. -/
theorem Inv.head_of_covered (h : Inv D fs r) (hcovered : Covered D fs)
    (hopen : r.stream.finishedReading = false) : ∃ f, r.stream.frameQueue.head = some f := by
  obtain ⟨hcover, f₀, hf₀, -⟩ := hcovered
  have hgaps := h.inGaps_iff
  have hchains := h.sorter.chains
  have hord := h.sorter.ordered
  cases hgs : r.stream.frameQueue.gaps with
  | nil => exact absurd hgs h.sorter.gaps_ne_nil
  | cons g gs =>
    rw [hgs] at hgaps hchains hord
    -- The first missing byte lies behind the stream.
    have hend : D.length ≤ g.start := by
      by_contra hlt
      obtain ⟨f, hf, hin⟩ := hcover g.start (by omega)
      have hmissing : InGaps (g :: gs) g.start := inGaps_cons.mpr (.inl ⟨Nat.le_refl _, hord.2.1⟩)
      exact ((hgaps g.start).mp hmissing).2 f hf hin
    by_cases hnil : D = []
    · exact Option.ne_none_iff_exists'.mp (h.empty hnil (ne_nil_of_mem hf₀) hopen)
    have hlt := h.unfinished hopen hnil
    obtain ⟨f, hf, -, -⟩ := hchains.1.head (by omega)
    exact ⟨f, hf⟩

/-- A turn on a covered stream: the call returns with `io.EOF`, or it copies something, or
its buffer is full and it returns. -/
theorem turn_covered (h : Inv D fs r) (hcovered : Covered D fs) (hcall : r.call = some c)
    (now : Nat) :
    ((r.act (.turn now)).call = none ∧ (r.act (.turn now)).eof = true) ∨
      (∃ c', (r.act (.turn now)).call = some c' ∧ c'.size = c.size ∧
        c.got.length < c'.got.length ∧ (r.act (.turn now)).out = r.out) ∨
      c.got.length = c.size ∧ (r.act (.turn now)).call = none ∧
        (r.act (.turn now)).out = r.out ++ c.got := by
  obtain ⟨f, hhead⟩ := h.head_of_covered hcovered (h.not_finished hcall)
  have hfull := h.size c hcall
  have hcopy : ∀ b, c.got.length < c.size → _ := fun b hsize => copy_spec h hcall hsize hhead b
  simp only [act, hcall, Stream.turn, hhead]
  cases hwaiting : c.waiting with
  | true =>
    obtain ⟨hsize, hsignal⟩ := h.waiting c hcall hwaiting
    have hhealthy : Healthy { r.stream with readChan := false } := { h.healthy with }
    obtain ⟨hle, hcopied⟩ := hcopy false hsize
    rw [if_pos rfl, if_pos (hsignal (by simp [hhead])), await_some hhealthy now hle]
    exact hcopied.progress.imp id .inl
  | false =>
    rw [if_neg (by simp)]
    split
    · rename_i hsize
      obtain ⟨hle, hcopied⟩ := hcopy r.stream.readChan hsize
      rw [await_some h.healthy now hle]
      exact hcopied.progress.imp id .inl
    · exact .inr (.inr ⟨by omega, rfl, rfl⟩)

theorem turns_idle (now : Nat) (hcall : r.call = none) :
    ∀ n, run act r (replicate n (.turn now)) = r
  | 0 => rfl
  | n + 1 => by
    have hidle : r.act (.turn now) = r := by simp only [act, hcall]
    rw [replicate_succ, run_cons, hidle, turns_idle now hcall n]

/-- A call on a covered stream returns: with `io.EOF`, or with a full buffer. -/
theorem call_returns (now : Nat) (hcovered : Covered D fs) :
    ∀ (n : Nat) {r : Reception} {c : Call}, Inv D fs r → r.call = some c →
      c.size - c.got.length ≤ n →
      Inv D fs (run act r (replicate (n + 1) (.turn now))) ∧
        (run act r (replicate (n + 1) (.turn now))).call = none ∧
        ((run act r (replicate (n + 1) (.turn now))).eof = true ∨
          (run act r (replicate (n + 1) (.turn now))).out.length = r.out.length + c.size) := by
  intro n
  induction n with
  | zero =>
    intro r c h hcall hn
    have hfull := h.size c hcall
    have hturn := turn_inv h now
    rw [show replicate (0 + 1) (Action.turn now) = [.turn now] from rfl, run_cons, run_nil]
    rcases turn_covered h hcovered hcall now with ⟨hnone, heof⟩ | ⟨c', hc', hsize, hmore, -⟩ |
      ⟨hlen, hnone, hout⟩
    · exact ⟨hturn, hnone, .inl heof⟩
    · have := hturn.size c' hc'
      omega
    · refine ⟨hturn, hnone, .inr ?_⟩
      rw [hout, length_append, hlen]
  | succ n ih =>
    intro r c h hcall hn
    have hturn := turn_inv h now
    rw [replicate_succ, run_cons]
    rcases turn_covered h hcovered hcall now with ⟨hnone, heof⟩ | ⟨c', hc', hsize, hmore, hout⟩ |
      ⟨hlen, hnone, hout⟩
    · rw [turns_idle now hnone]
      exact ⟨hturn, hnone, .inl heof⟩
    · have hrest := ih hturn hc' (by omega)
      rwa [hout, hsize] at hrest
    · rw [turns_idle now hnone]
      refine ⟨hturn, hnone, .inr ?_⟩
      rw [hout, length_append, hlen]

/-- A whole call of `Read` on a covered stream. -/
theorem read_returns (h : Inv D fs r) (hcovered : Covered D fs) (hcall : r.call = none)
    (now k : Nat) :
    Inv D fs (run act r (readCalls now [k])) ∧ (run act r (readCalls now [k])).call = none ∧
      ((run act r (readCalls now [k])).eof = true ∨
        r.eof = false ∧ (run act r (readCalls now [k])).out.length = r.out.length + k) := by
  have hinv := call_inv h k
  have hacts : readCalls now [k] = .call k :: replicate (k + 1) (.turn now) := by
    simp [readCalls]
  rw [hacts, run_cons, h.eof]
  cases hfin : r.stream.finishedReading with
  | true =>
    have hact : r.act (.call k) = r.record (.returned r.stream [] (some .eof)) := by
      simp [act, hcall, enter_eq h.healthy, hfin]
    rw [hact] at hinv ⊢
    rw [turns_idle now (by rfl)]
    exact ⟨hinv, rfl, .inl (by simp [record])⟩
  | false =>
    have hact : r.act (.call k) = r.record (.running r.stream ⟨k, [], false⟩) := by
      simp [act, hcall, enter_eq h.healthy, hfin]
    rw [hact] at hinv ⊢
    obtain ⟨hinv', hnone, hresult⟩ := call_returns now hcovered k hinv rfl (Nat.le_refl k)
    exact ⟨hinv', hnone, hresult.imp id fun hlen => ⟨rfl, hlen⟩⟩

/-- Calls of `Read` on a covered stream return `io.EOF` or something each. -/
theorem reads_return (now : Nat) (hcovered : Covered D fs) :
    ∀ (sizes : List Nat) {r : Reception}, Inv D fs r → r.call = none → (∀ k ∈ sizes, 0 < k) →
      Inv D fs (run act r (readCalls now sizes)) ∧
        (run act r (readCalls now sizes)).call = none ∧
        ((run act r (readCalls now sizes)).eof = true ∨
          r.eof = false ∧
            r.out.length + sizes.length ≤ (run act r (readCalls now sizes)).out.length) := by
  intro sizes
  induction sizes with
  | nil =>
    intro r h hcall _
    refine ⟨h, hcall, ?_⟩
    cases heof : r.eof with
    | true => exact .inl heof
    | false => exact .inr ⟨rfl, Nat.le_refl _⟩
  | cons k sizes ih =>
    intro r h hcall hpos
    have hacts : readCalls now (k :: sizes) = readCalls now [k] ++ readCalls now sizes := by
      simp [readCalls]
    have hk := hpos k mem_cons_self
    obtain ⟨hinv, hnone, hfirst⟩ := read_returns h hcovered hcall now k
    obtain ⟨hinv', hnone', hrest⟩ := ih hinv hnone fun k' hk' =>
      hpos k' (mem_cons_of_mem _ hk')
    rw [hacts, run_append]
    refine ⟨hinv', hnone', ?_⟩
    rcases hrest with heof | ⟨hopen, hlen⟩
    · exact .inl heof
    rcases hfirst with heof | ⟨hopen', hlen'⟩
    · rw [hopen] at heof
      cases heof
    · refine .inr ⟨hopen', ?_⟩
      rw [length_cons]
      omega

/-- At `io.EOF` everything was returned. -/
theorem Inv.out_eq (h : Inv D fs r) (heof : r.eof = true) : r.out = D := by
  rw [h.eof] at heof
  obtain ⟨hcall, hoffset⟩ := h.finished heof
  have hbytes := h.bytes
  rw [hoffset, take_length, got, hcall, append_nil] at hbytes
  exact hbytes

/-- A covered stream is read to its end by enough calls. -/
theorem Inv.read_all (h : Inv D fs r) (hcovered : Covered D fs) (now n : Nat) (sizes : List Nat)
    (hn : ∀ c, r.call = some c → c.size < n) (hpos : ∀ k ∈ sizes, 0 < k)
    (hlen : D.length < sizes.length) :
    (run act r (replicate n (.turn now) ++ readCalls now sizes)).out = D ∧
      (run act r (replicate n (.turn now) ++ readCalls now sizes)).eof = true := by
  -- The call in progress returns first.
  obtain ⟨hinv, hcall⟩ : Inv D fs (run act r (replicate n (.turn now))) ∧
      (run act r (replicate n (.turn now))).call = none := by
    cases hcall : r.call with
    | none =>
      rw [turns_idle now hcall]
      exact ⟨h, hcall⟩
    | some c =>
      have hsize := hn c hcall
      obtain ⟨n, rfl⟩ := Nat.exists_eq_add_of_lt hsize
      obtain ⟨hinv, hnone, -⟩ := call_returns now hcovered (c.size + n) h hcall (by omega)
      exact ⟨hinv, hnone⟩
  rw [run_append]
  obtain ⟨hinv', -, hresult⟩ := reads_return now hcovered sizes hinv hcall hpos
  have heof : (run act (run act r (replicate n (.turn now))) (readCalls now sizes)).eof = true := by
    refine hresult.resolve_right fun hmore => ?_
    have hbytes := congrArg length hinv'.bytes
    rw [length_append, length_take] at hbytes
    omega
  exact ⟨hinv'.out_eq heof, heof⟩

/-- Run lemma: the invariant holds after every run of genuine and harmless frames. -/
theorem inv_run (hD : D.length < maxByteCount) (acts : List Action)
    (hgenuine : ∀ f ∈ delivered acts, Genuine D f)
    (hharmless : ∀ before f after, acts = before ++ .deliver f :: after →
      StreamFrameSorter.Harmless D (run act new before).stream.frameQueue f) :
    Inv D (delivered acts) (run act new acts) := by
  refine run_inv
    (fun r a => ∀ f, a = .deliver f →
      Genuine D f ∧ StreamFrameSorter.Harmless D r.stream.frameQueue f)
    (fun past r => Inv D (delivered past) r) ?_ acts [] new (inv_new D) ?_
  · intro past r a hinv hfit
    cases a with
    | deliver f =>
      obtain ⟨hf, hharm⟩ := hfit f rfl
      have hpast : delivered (past ++ [.deliver f]) = delivered past ++ [f] := by simp [delivered]
      rw [hpast]
      exact deliver_inv hinv hD hf hharm
    | call k =>
      have hpast : delivered (past ++ [.call k]) = delivered past := by simp [delivered]
      rw [hpast]
      exact call_inv hinv k
    | turn now =>
      have hpast : delivered (past ++ [.turn now]) = delivered past := by simp [delivered]
      rw [hpast]
      exact turn_inv hinv now
  · rintro before a after rfl f rfl
    exact ⟨hgenuine f (by simp [delivered]), hharmless before f after rfl⟩

end Reception

/-! ### Reassembly -/

open Reception

/-- **Reassembly**: in every run of genuine and harmless frames, with deliveries and turns of
`Read` interleaved in any way, what `Read` returns is a prefix of what the stream carries,
`io.EOF` is returned only at its end, and once it was delivered up to its end, enough calls
of `Read` return the rest of it and `io.EOF`. -/
theorem reassembly (D : List UInt8) (hD : D.length < maxByteCount) (acts : List Action)
    (hgenuine : ∀ f ∈ delivered acts, Genuine D f)
    (hharmless : ∀ before f after, acts = before ++ .deliver f :: after →
      StreamFrameSorter.Harmless D (run act new before).stream.frameQueue f) :
    (run act new acts).fault = false ∧
      ((run act new acts).out ++ (run act new acts).got) <+: D ∧
      ((run act new acts).eof = true → (run act new acts).out = D) ∧
      (Covered D (delivered acts) → ∀ now n sizes,
        (∀ c, (run act new acts).call = some c → c.size < n) → (∀ k ∈ sizes, 0 < k) →
        D.length < sizes.length →
        (run act new (acts ++ (List.replicate n (.turn now) ++ readCalls now sizes))).out = D ∧
        (run act new (acts ++ (List.replicate n (.turn now) ++ readCalls now sizes))).eof =
          true) := by
  have hinv := inv_run hD acts hgenuine hharmless
  refine ⟨hinv.fault, ?_, hinv.out_eq, fun hcovered now n sizes hn hpos hlen => ?_⟩
  · rw [hinv.bytes]
    exact take_prefix ..
  · rw [run_append]
    exact hinv.read_all hcovered now n sizes hn hpos hlen

/-- Three frames arrive out of order, the last of them with a byte that is there already, while
a call of `Read` waits for it. -/
theorem reassembly_out_of_order :
    let acts := [.call 9, .turn 0, .deliver ⟨2, [9, 10], false⟩, .deliver ⟨4, [11], true⟩, .turn 0,
      .deliver ⟨0, [7, 8, 9], false⟩, .turn 0, .turn 0, .turn 0]
    (run act new acts).fault = false ∧ (run act new acts).out = [7, 8, 9, 10, 11] ∧
      (run act new acts).eof = true := by
  intro acts
  have hharmless : AllFit act (fun r a => ∀ f, a = .deliver f →
      StreamFrameSorter.Harmless [7, 8, 9, 10, 11] r.stream.frameQueue f) new acts := by
    refine .cons nofun (.cons nofun (.cons ?_ (.cons ?_ (.cons nofun (.cons ?_ (.cons nofun
      (.cons nofun (.cons nofun .nil))))))))
    · rintro f ⟨⟩
      exact ⟨nofun, by decide⟩
    · rintro f ⟨⟩
      exact ⟨fun _ _ => .inl ⟨⟨4, maxByteCount⟩, by decide, by decide⟩, by decide⟩
    · rintro f ⟨⟩
      exact ⟨nofun, by decide⟩
  obtain ⟨hfault, -, hout, -⟩ := reassembly [7, 8, 9, 10, 11] (by decide) acts (by decide)
    fun before f after hacts => hharmless before _ after hacts f rfl
  have heof : (run act new acts).eof = true := by decide
  exact ⟨hfault, hout heof, heof⟩

/-! ### Split frames -/

/-- `maybeSplitOffFrame` of the sender (`stream_framer.go`): the frame split off, and what
is left. -/
def maybeSplitOffFrame (frame : StreamFrame) (n : Nat) : Option StreamFrame × StreamFrame :=
  if frame.dataLen ≤ n then (none, frame)
  else (some ⟨frame.offset, frame.data.take n, false⟩, frame.dropHead n)

/-- A FIN frame is sent, split for its retransmission, and overtaken by the second half: its
end is cut off, the FIN bit stays, and `Read` returns `io.EOF` one byte early. -/
theorem reassembly_cut_short :
    maybeSplitOffFrame ⟨1, [8, 9], true⟩ 1 = (some ⟨1, [8], false⟩, ⟨2, [9], true⟩) ∧
      (∀ f ∈ delivered [.deliver ⟨2, [9], true⟩, .deliver ⟨0, [7], false⟩,
        .deliver ⟨1, [8, 9], true⟩], Genuine [7, 8, 9] f) ∧
      (run act new [.deliver ⟨2, [9], true⟩, .deliver ⟨0, [7], false⟩, .deliver ⟨1, [8, 9], true⟩,
        .call 10, .turn 0, .turn 0]).out = [7, 8] ∧
      (run act new [.deliver ⟨2, [9], true⟩, .deliver ⟨0, [7], false⟩, .deliver ⟨1, [8, 9], true⟩,
        .call 10, .turn 0, .turn 0]).eof = true := by
  decide

end RlncStreaming.Quic
