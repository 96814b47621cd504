import RlncStreaming.Lib.Heap
import RlncStreaming.Quic.SendStream
import RlncStreaming.Quic.Stream

/-!
The stream framer (`stream_framer.go`) and the round-robin order of the streams
(`streams_map.go`).

The framer gives out the STREAM frames of a packet: first those to be retransmitted, then
new ones. A frame to be retransmitted is an object that a lost packet and its duplicates
may share. If it does not fit, its first part becomes a new frame and the object itself is
cut, so frames are references into a heap here. Whatever the framer does to it, nothing
that a frame carries gets lost (`popStreamFrames_spec`).
-/

namespace RlncStreaming.Quic

open Lib List Heap OutFrame SendStream

/-! ### Streams -/

/-- `streamsMap`, as far as iterating over it is concerned. -/
structure StreamsMap where
  streams : Nat → Option SendStream
  openStreams : List Nat
  roundRobinIndex : Nat

namespace StreamsMap

variable {α : Type}

def setStream (m : StreamsMap) (id : Nat) (s : SendStream) : StreamsMap :=
  { m with streams := fun id' => if id' = id then some s else m.streams id' }

variable (fn : α → SendStream → α × SendStream × Bool)

/-- The first loop of `RoundRobinIterate`, over the streams 1 and 3. The result says whether
to go on. -/
def iterateFirst : List Nat → α → StreamsMap → α × StreamsMap × Bool
  | [], a, m => (a, m, true)
  | id :: ids, a, m =>
    match m.streams id with
    | none => iterateFirst ids a m
    | some s =>
      let (a, s, cont) := fn a s
      if cont then iterateFirst ids a (m.setStream id s) else (a, m.setStream id s, false)

/-- The second loop of `RoundRobinIterate`, over the streams from the round-robin index on. -/
def iterateRest (numStreams : Nat) : List Nat → α → StreamsMap → α × StreamsMap
  | [], a, m => (a, m)
  | id :: ids, a, m =>
    if id = 1 ∨ id = 3 then iterateRest numStreams ids a m
    else
      match m.streams id with
      | none => (a, m)
      | some s =>
        let (a, s, cont) := fn a s
        let m := { m.setStream id s with
          roundRobinIndex := (m.roundRobinIndex + 1) % numStreams }
        if cont then iterateRest numStreams ids a m else (a, m)

/-- `RoundRobinIterate`. -/
def roundRobinIterate (a : α) (m : StreamsMap) : α × StreamsMap :=
  let numStreams := m.openStreams.length
  let startIndex := m.roundRobinIndex
  let (a, m, cont) := iterateFirst fn [1, 3] a m
  if cont then
    iterateRest fn numStreams ((List.range numStreams).map fun i =>
      m.openStreams.getD ((i + startIndex) % numStreams) 0) a m
  else (a, m)

/-- What every call of the function keeps, of its variables and of the streams, holds after the
iteration. -/
theorem roundRobinIterate_rule (P : α → (Nat → Option SendStream) → Prop)
    (hfn : ∀ a streams id s, streams id = some s → P a streams →
      P (fn a s).1 fun id' => if id' = id then some (fn a s).2.1 else streams id')
    {a : α} {m : StreamsMap} (ha : P a m.streams) :
    P (roundRobinIterate fn a m).1 (roundRobinIterate fn a m).2.streams := by
  have hfirst : ∀ (ids : List Nat) (a : α) (m : StreamsMap), P a m.streams →
      P (iterateFirst fn ids a m).1 (iterateFirst fn ids a m).2.1.streams := by
    intro ids
    induction ids with
    | nil => exact fun _ _ ha => ha
    | cons id ids ih =>
      intro a m ha
      rw [iterateFirst]
      split
      · exact ih _ _ ha
      next s hs =>
      have hnext := hfn a m.streams id s hs ha
      simp only
      split
      · exact ih _ _ hnext
      · exact hnext
  have hrest : ∀ (n : Nat) (ids : List Nat) (a : α) (m : StreamsMap), P a m.streams →
      P (iterateRest fn n ids a m).1 (iterateRest fn n ids a m).2.streams := by
    intro n ids
    induction ids with
    | nil => exact fun _ _ ha => ha
    | cons id ids ih =>
      intro a m ha
      rw [iterateRest]
      split
      · exact ih _ _ ha
      split
      · exact ha
      next s hs =>
      have hnext := hfn a m.streams id s hs ha
      simp only
      split
      · exact ih _ _ hnext
      · exact hnext
  rw [roundRobinIterate]
  simp only
  split
  · exact hrest _ _ _ _ (hfirst _ _ _ ha)
  · exact hfirst _ _ _ ha

/-- What every call of the function keeps holds after the iteration. -/
theorem roundRobinIterate_inv (P : α → Prop) (hfn : ∀ a s, P a → P (fn a s).1) {a : α}
    (ha : P a) (m : StreamsMap) : P (roundRobinIterate fn a m).1 :=
  roundRobinIterate_rule fn (fun a _ => P a) (fun a _ _ s _ => hfn a s) ha

end StreamsMap

/-! ### What frames carry -/

/-- A byte of a stream, or its end. -/
inductive Atom where
  | byte (streamID offset : Nat) (value : UInt8)
  | fin (streamID offset : Nat)
deriving DecidableEq, Repr

def OutFrame.Carries (f : OutFrame) : Atom → Prop
  | .byte streamID offset value =>
    f.streamID = streamID ∧ f.offset ≤ offset ∧ f.data[offset - f.offset]? = some value
  | .fin streamID offset => f.streamID = streamID ∧ f.finBit = true ∧ f.stop = offset

/-- What a frame carries, in order. -/
def OutFrame.atoms (f : OutFrame) : List Atom :=
  (f.data.mapIdx fun i value => .byte f.streamID (f.offset + i) value) ++
    if f.finBit then [.fin f.streamID f.stop] else []

theorem OutFrame.mem_atoms {f : OutFrame} {b : Atom} : b ∈ f.atoms ↔ f.Carries b := by
  rw [atoms, mem_append, mem_mapIdx]
  cases b with
  | byte streamID offset value =>
    constructor
    · rintro (⟨i, hi, h⟩ | h)
      · cases h
        refine ⟨rfl, Nat.le_add_right _ _, ?_⟩
        rw [Nat.add_sub_cancel_left, getElem?_eq_getElem hi]
      · split at h <;> simp at h
    · rintro ⟨rfl, hle, hvalue⟩
      obtain ⟨hi, hvalue⟩ := List.getElem?_eq_some_iff.mp hvalue
      refine .inl ⟨offset - f.offset, hi, ?_⟩
      rw [hvalue, Nat.add_sub_cancel' hle]
  | fin streamID offset =>
    constructor
    · rintro (⟨i, hi, h⟩ | h)
      · cases h
      split at h
      · next hfin =>
        cases mem_singleton.mp h
        exact ⟨rfl, hfin, rfl⟩
      · cases h
    · rintro ⟨rfl, hfin, rfl⟩
      exact .inr (by rw [if_pos hfin]; exact mem_singleton_self _)

/-- A frame that is split off and what is left carry together what the frame carried. -/
theorem atoms_split {f : OutFrame} {n : Nat} {front rest : StreamFrame}
    (h : maybeSplitOffFrame f.toStreamFrame n = (some front, rest)) :
    f.atoms = ({ f with toStreamFrame := front } : OutFrame).atoms ++
      ({ f with toStreamFrame := rest } : OutFrame).atoms := by
  rw [maybeSplitOffFrame] at h
  split at h
  · cases h
  rename_i hlong
  cases h
  have hlt : n < f.data.length := Nat.not_le.mp hlong
  have hdata : f.data.mapIdx (fun i value => Atom.byte f.streamID (f.offset + i) value) =
      (f.data.take n).mapIdx (fun i value => .byte f.streamID (f.offset + i) value) ++
        (f.data.drop n).mapIdx (fun i value => .byte f.streamID (f.offset + n + i) value) := by
    conv_lhs => rw [← take_append_drop n f.data, mapIdx_append]
    rw [length_take, Nat.min_eq_left (Nat.le_of_lt hlt)]
    congr 2
    funext i value
    rw [Nat.add_comm i n, Nat.add_assoc]
  simp only [atoms, StreamFrame.dropHead, hdata, Bool.false_eq_true, if_false,
    append_nil, append_assoc]
  rw [← StreamFrame.dropHead, dropHead_stop (Nat.le_of_lt hlt)]
  rfl

/-! ### The framer -/

/-- The length of a STREAM frame with its data. -/
def OutFrame.size (f : OutFrame) : Nat := f.minLength + f.dataLen

/-- The frame as the loop marks it before it looks at its length. -/
def OutFrame.marked (f : OutFrame) : OutFrame := { f with dataLenPresent := true }

instance : Inhabited OutFrame := ⟨⟨⟨0, [], false⟩, 0, false⟩⟩

/-- `streamFramer`, with the heap that the STREAM frames live in. -/
structure StreamFramer (φ : Type) where
  heap : Heap OutFrame
  streamsMap : StreamsMap
  flowControlManager : φ
  retransmissionQueue : List Nat
  blockedFrameQueue : List BlockedFrame

def newStreamFramer {φ : Type} (streamsMap : StreamsMap) (flowControlManager : φ) :
    StreamFramer φ :=
  ⟨.empty, streamsMap, flowControlManager, [], []⟩

namespace StreamFramer

variable {φ : Type}

/-- `AddFrameForRetransmission`. -/
def addFrameForRetransmission (f : StreamFramer φ) (frame : Nat) : StreamFramer φ :=
  { f with retransmissionQueue := f.retransmissionQueue ++ [frame] }

/-- The references in the queue are in use. -/
def Valid (f : StreamFramer φ) : Prop := ∀ r ∈ f.retransmissionQueue, r < f.heap.next

/-- The framer has given out the frames `res`: nothing that any frame carried is lost. -/
structure Pops (f : StreamFramer φ) (res : List Nat) (f' : StreamFramer φ) : Prop where
  moves : Heap.Moves OutFrame.Carries f.heap f'.heap res
  popped : ∀ r ∈ f.retransmissionQueue, r ∈ res ∨ r ∈ f'.retransmissionQueue
  queue : ∀ r ∈ f'.retransmissionQueue, r ∈ f.retransmissionQueue

theorem Pops.valid {f f' : StreamFramer φ} {res : List Nat} (h : Pops f res f') (hf : f.Valid) :
    f'.Valid := fun r hr => Nat.lt_of_lt_of_le (hf r (h.queue r hr)) h.moves.next_le

theorem Pops.refl (f : StreamFramer φ) : Pops f [] f :=
  ⟨.refl _, fun _ hr => .inr hr, fun _ hr => hr⟩

theorem Pops.trans {f f' f'' : StreamFramer φ} {res res' : List Nat} (h : Pops f res f')
    (h' : Pops f' res' f'') : Pops f (res ++ res') f'' where
  moves := h.moves.trans h'.moves
  popped := by
    intro r hr
    rcases h.popped r hr with hres | hleft
    · exact .inl (mem_append_left _ hres)
    · exact (h'.popped r hleft).imp (mem_append_right _) id
  queue := fun r hr => h.queue r (h'.queue r hr)

/-! #### The crypto stream -/

/-- `HasCryptoStreamFrame`. -/
def hasCryptoStreamFrame (f : StreamFramer φ) : Bool :=
  match f.streamsMap.streams 1 with
  | some cs => decide (0 < cs.lenOfDataForWriting)
  | none => false

/-- `PopCryptoStreamFrame`, for a crypto stream that has data. -/
def popCryptoStreamFrame (f : StreamFramer φ) (maxLen : Nat) : Option Nat × StreamFramer φ :=
  match f.streamsMap.streams 1 with
  | none => (none, f)
  | some cs =>
    if 0 < cs.lenOfDataForWriting then
      let frame : OutFrame := ⟨⟨cs.writeOffset, [], false⟩, 1, false⟩
      let (data, cs) := cs.getDataForWriting (sub64 maxLen frame.minLength)
      (some f.heap.next, { f with
        heap := f.heap.alloc { frame with data := data.getD [] }
        streamsMap := f.streamsMap.setStream 1 cs })
    else (none, f)

theorem popCryptoStreamFrame_pops (f : StreamFramer φ) (maxLen : Nat) :
    Pops f (f.popCryptoStreamFrame maxLen).1.toList (f.popCryptoStreamFrame maxLen).2 := by
  rw [popCryptoStreamFrame]
  split
  · exact .refl f
  split
  · exact ⟨moves_alloc _, fun _ hr => .inr hr, fun _ hr => hr⟩
  · exact .refl f

/-! #### Frames to be retransmitted -/

/-- The variables of `maybePopFramesForRetransmission`. -/
structure Retransmission (φ : Type) where
  heap : Heap OutFrame
  res : List Nat
  queue : List Nat
  currentLen : Nat
  flowControlManager : φ

/-- The heaps differ only in the marks of the frames. -/
structure Marks (heap heap' : Heap OutFrame) : Prop where
  next : heap'.next = heap.next
  cells : ∀ r, (heap'.cells r).marked = (heap.cells r).marked
  kept : ∀ r, (heap.cells r).dataLenPresent = true → (heap'.cells r).dataLenPresent = true

section

variable {heap heap' : Heap OutFrame}

theorem Marks.trans {heap'' : Heap OutFrame} (h : Marks heap heap') (h' : Marks heap' heap'') :
    Marks heap heap'' :=
  ⟨h'.next.trans h.next, fun r => (h'.cells r).trans (h.cells r),
    fun r hmarked => h'.kept r (h.kept r hmarked)⟩

theorem marks_write (heap : Heap OutFrame) (r : Nat) :
    Marks heap (heap.write r (heap.cells r).marked) := by
  have hcell : ∀ r', (heap.write r (heap.cells r).marked).cells r' = (heap.cells r').marked ∨
      (heap.write r (heap.cells r).marked).cells r' = heap.cells r' := by
    intro r'
    by_cases heq : r' = r
    · subst heq
      exact .inl write_self
    · exact .inr (write_of_ne heq)
  refine ⟨rfl, fun r' => ?_, fun r' hmarked => ?_⟩
  · rcases hcell r' with h | h <;> rw [h]
    rfl
  · rcases hcell r' with h | h <;> rw [h]
    exacts [rfl, hmarked]

variable (h : Marks heap heap')

include h

/-- A frame that was marked stays as it is. -/
theorem Marks.cell_eq {r : Nat}
    (hmarked : (heap.cells r).dataLenPresent = true) : heap'.cells r = heap.cells r := by
  have hself : ∀ f : OutFrame, f.dataLenPresent = true → f.marked = f := by
    rintro ⟨_, _, _⟩ rfl
    rfl
  rw [← hself _ (h.kept r hmarked), h.cells r, hself _ hmarked]

theorem Marks.atoms (r : Nat) : (heap'.cells r).atoms = (heap.cells r).atoms := by
  have hatoms : ∀ f : OutFrame, f.marked.atoms = f.atoms := fun _ => rfl
  rw [← hatoms, h.cells r, hatoms]

theorem Marks.moves : Heap.Moves OutFrame.Carries heap heap' [] := by
  have hsame : ∀ r b, (heap'.cells r).Carries b ↔ (heap.cells r).Carries b := fun r b => by
    rw [← mem_atoms, h.atoms, mem_atoms]
  exact ⟨Nat.le_of_eq h.next.symm, fun r _ b hc => .inl ((hsame r b).mpr hc),
    fun r _ b hc => (hsame r b).mp hc, fun _ hr => absurd hr not_mem_nil⟩

theorem Marks.dataLen (r : Nat) : (heap'.cells r).dataLen = (heap.cells r).dataLen := by
  have hlen : ∀ f : OutFrame, f.marked.dataLen = f.dataLen := fun _ => rfl
  rw [← hlen, h.cells r, hlen]

end

/-- The frame `r` is split after `n` bytes. -/
def cut (heap : Heap OutFrame) (r n : Nat) : Heap OutFrame :=
  let frame := heap.cells r
  (heap.alloc { frame with toStreamFrame := ⟨frame.offset, frame.data.take n, false⟩ }).write r
    { frame with toStreamFrame := frame.dropHead n }

theorem cut_of_ne {heap : Heap OutFrame} {r r' n : Nat} (hne : r' ≠ r) (hlt : r' < heap.next) :
    (cut heap r n).cells r' = heap.cells r' := by
  rw [cut, write_of_ne hne, alloc_of_lt hlt]

/-- What a call does: it marks frames, gives out those at the front of the queue and may split the
next one, so that the room is used up. -/
inductive Gives (maxLen currentLen : Nat) (heap : Heap OutFrame) (queue : List Nat) :
    Retransmission φ → Prop
  | whole {heap' : Heap OutFrame} {res rest : List Nat} {len : Nat} {fc : φ}
      (hqueue : queue = res ++ rest) (hmarks : Marks heap heap')
      (hmarked : ∀ r ∈ res, (heap'.cells r).dataLenPresent = true)
      (hlen : currentLen + heap'.total OutFrame.size res = len) (hroom : len ≤ maxLen) :
      Gives maxLen currentLen heap queue ⟨heap', res, rest, len, fc⟩
  | split {heap' : Heap OutFrame} (res : List Nat) {rest : List Nat} {r n : Nat} {fc : φ}
      (hqueue : queue = res ++ r :: rest) (hmarks : Marks heap heap')
      (hmarked : ∀ r' ∈ r :: res, (heap'.cells r').dataLenPresent = true)
      (hpos : 0 < n) (hlong : n < (heap'.cells r).dataLen)
      (hlen : currentLen + heap'.total OutFrame.size res + (heap'.cells r).minLength + n = maxLen) :
      Gives maxLen currentLen heap queue ⟨cut heap' r n, res ++ [heap'.next], r :: rest, maxLen, fc⟩

variable {maxLen currentLen : Nat} {heap heap' : Heap OutFrame} {queue : List Nat}
  {result : Retransmission φ}

/-- A frame that fits is popped before the others. -/
theorem Gives.cons {r : Nat} (hmarks : Marks heap heap')
    (hmarked : (heap'.cells r).dataLenPresent = true)
    (h : Gives maxLen (currentLen + (heap'.cells r).size) heap' queue result) :
    Gives maxLen currentLen heap (r :: queue) { result with res := r :: result.res } := by
  cases h with
  | whole hqueue hmarks' hres hlen hroom =>
    have hcell := hmarks'.cell_eq hmarked
    refine .whole (congrArg (r :: ·) hqueue) (hmarks.trans hmarks')
      (forall_mem_cons.mpr ⟨hcell ▸ hmarked, hres⟩) ?_ hroom
    rw [total_cons, hcell, ← Nat.add_assoc]
    exact hlen
  | split res hqueue hmarks' hres hpos hlong hlen =>
    have hcell := hmarks'.cell_eq hmarked
    obtain ⟨hnext, hres⟩ := forall_mem_cons.mp hres
    refine .split (r :: res) (congrArg (r :: ·) hqueue) (hmarks.trans hmarks')
      (forall_mem_cons.mpr ⟨hnext, forall_mem_cons.mpr ⟨hcell ▸ hmarked, hres⟩⟩) hpos
      hlong ?_
    rw [total_cons, hcell, ← Nat.add_assoc]
    exact hlen

theorem maybeSplitOffFrame_of_lt {r n : Nat} (hlong : n < (heap.cells r).dataLen) :
    maybeSplitOffFrame (heap.cells r).toStreamFrame n =
      (some ⟨(heap.cells r).offset, (heap.cells r).data.take n, false⟩,
        (heap.cells r).dropHead n) :=
  if_neg (Nat.not_le.mpr hlong)

/-- Nothing that a queued frame carried is lost. -/
theorem Gives.moves (h : Gives maxLen currentLen heap queue result)
    (hqueue : ∀ r ∈ queue, r < heap.next) :
    Heap.Moves OutFrame.Carries heap result.heap result.res ∧
      (∀ r ∈ queue, r ∈ result.res ∨ r ∈ result.queue) ∧ ∀ r ∈ result.queue, r ∈ queue := by
  cases h with
  | whole hsplit hmarks _ _ _ =>
    subst hsplit
    refine ⟨hmarks.moves.mono (nil_subset _) fun r hr => ?_, fun r hr => ?_, fun r hr => ?_⟩
    · exact hmarks.next ▸ hqueue r (mem_append_left _ hr)
    · exact mem_append.mp hr
    · exact mem_append_right _ hr
  | @split heap' res rest r n _ hsplit hmarks _ _ hlong _ =>
    subst hsplit
    have hinUse : ∀ r' ∈ res ++ r :: rest, r' < heap'.next := fun r' hr' =>
      hmarks.next ▸ hqueue r' hr'
    have hr : r < heap'.next := hinUse r (mem_append_right _ mem_cons_self)
    have hcut : Heap.Moves OutFrame.Carries heap' (cut heap' r n) [heap'.next] :=
      moves_split hr fun b => by
        rw [← mem_atoms, atoms_split (maybeSplitOffFrame_of_lt hlong), mem_append, mem_atoms,
          mem_atoms]
    refine ⟨(hmarks.moves.trans hcut).mono (subset_append_right _ _) ?_, fun r' hr' => ?_,
      fun r' hr' => mem_append_right _ hr'⟩
    · refine forall_mem_append.mpr ⟨fun r' hr' => ?_, hcut.out_lt⟩
      exact Nat.lt_of_lt_of_le (hinUse r' (mem_append_left _ hr')) hcut.next_le
    · exact (mem_append.mp hr').imp (mem_append_left _) id

end StreamFramer

/-! ### Flow control -/

/-- `flowcontrol.FlowControlManager`, as far as sending uses it. The errors of its first four
functions are dropped by the callers; that of `getReceiveWindow` is `none`. -/
class FlowControlManager (φ : Type) where
  sendWindowSize : φ → Nat → Nat
  addBytesSent : φ → Nat → Nat → φ
  addBytesRetrans : φ → Nat → Nat → φ
  remainingConnectionWindowSize : φ → Nat
  getReceiveWindow : φ → Nat → Option Nat

/-- Windows that are never used up. -/
instance : FlowControlManager Unit where
  sendWindowSize _ _ := 2 ^ 32
  addBytesSent _ _ _ := ()
  addBytesRetrans _ _ _ := ()
  remainingConnectionWindowSize _ := 2 ^ 32
  getReceiveWindow _ _ := some (2 ^ 32)

/-- The variables of `maybePopNormalFrames`. -/
structure PopState (φ : Type) where
  heap : Heap OutFrame
  res : List Nat
  currentLen : Nat
  flowControlManager : φ
  blockedFrameQueue : List BlockedFrame

variable {φ : Type} [FlowControlManager φ]

open FlowControlManager

/-- The part of `maybePopNormalFrames` that pops a frame with `data` and perhaps a FIN. -/
def PopState.pop (st : PopState φ) (frame : OutFrame) (window : Nat) : PopState φ :=
  let fc := addBytesSent st.flowControlManager frame.streamID frame.dataLen
  let blocked : List BlockedFrame :=
    if remainingConnectionWindowSize fc = 0 then [⟨0⟩]
    else if frame.finBit = false ∧ sub64 window frame.dataLen = 0 then [⟨frame.streamID⟩]
    else []
  { heap := st.heap.alloc frame
    res := st.res ++ [st.heap.next]
    currentLen := st.currentLen + frame.minLength + frame.dataLen
    flowControlManager := fc
    blockedFrameQueue := st.blockedFrameQueue ++ blocked }

/-- The end of a visit, after `data` was taken from the stream. -/
def finishVisit (maxBytes window : Nat) (st : PopState φ) (frame : OutFrame)
    (data : Option (List UInt8)) (s : SendStream) : PopState φ × SendStream × Bool :=
  if data = none ∧ s.shouldSendFin = false then (st, s, true)
  else
    let st := st.pop { frame with data := data.getD [], finBit := s.shouldSendFin } window
    (st, if s.shouldSendFin then s.sentFin else s, st.currentLen != maxBytes)

/-- The function that `maybePopNormalFrames` calls for every stream. -/
def visitStream (maxBytes : Nat) (st : PopState φ) (s : SendStream) :
    PopState φ × SendStream × Bool :=
  if s.streamID = 1 then (st, s, true)
  else if maxBytes < st.currentLen + s.newFrame.minLength then (st, s, false)
  else
    let window := sendWindowSize st.flowControlManager s.streamID
    let maxLen := s.maxLen (maxBytes - st.currentLen - s.newFrame.minLength) window
    if maxLen = 0 then (st, s, true)
    else if s.lenOfDataForWriting = 0 then finishVisit maxBytes window st s.newFrame none s
    else
      let (data, s') := s.getDataForWriting maxLen
      finishVisit maxBytes window st s.newFrame data s'

namespace StreamFramer

/-- The loop of `maybePopFramesForRetransmission` over the queue. -/
def popQueue (maxLen : Nat) :
    List Nat → Heap OutFrame → Nat → φ → Retransmission φ
  | [], heap, currentLen, fc => ⟨heap, [], [], currentLen, fc⟩
  | r :: queue, heap, currentLen, fc =>
    let frame := { heap.cells r with dataLenPresent := true }
    let heap := heap.write r frame
    if maxLen ≤ currentLen + frame.minLength then ⟨heap, [], r :: queue, currentLen, fc⟩
    else
      let currentLen := currentLen + frame.minLength
      match maybeSplitOffFrame frame.toStreamFrame (maxLen - currentLen) with
      | (some front, rest) =>
        let splitFrame := { frame with toStreamFrame := front }
        let heap' := (heap.alloc splitFrame).write r { frame with toStreamFrame := rest }
        ⟨heap', [heap.next], r :: queue, currentLen + splitFrame.dataLen,
          addBytesRetrans fc frame.streamID splitFrame.dataLen⟩
      | (none, _) =>
        let result := popQueue maxLen queue heap (currentLen + frame.dataLen)
          (addBytesRetrans fc frame.streamID frame.dataLen)
        { result with res := r :: result.res }

/-- `maybePopFramesForRetransmission`: the frames, and the length used. -/
def maybePopFramesForRetransmission (f : StreamFramer φ) (maxLen : Nat) :
    List Nat × Nat × StreamFramer φ :=
  let result := popQueue maxLen f.retransmissionQueue f.heap 0 f.flowControlManager
  (result.res, result.currentLen, { f with
    heap := result.heap
    retransmissionQueue := result.queue
    flowControlManager := result.flowControlManager })

/-- `maybePopNormalFrames`. -/
def maybePopNormalFrames (f : StreamFramer φ) (maxBytes : Nat) : List Nat × StreamFramer φ :=
  let (st, streamsMap) := f.streamsMap.roundRobinIterate (visitStream maxBytes)
    ⟨f.heap, [], 0, f.flowControlManager, f.blockedFrameQueue⟩
  (st.res, { f with
    heap := st.heap
    streamsMap
    flowControlManager := st.flowControlManager
    blockedFrameQueue := st.blockedFrameQueue })

/-- `PopStreamFrames`. -/
def popStreamFrames (f : StreamFramer φ) (maxLen : Nat) : List Nat × StreamFramer φ :=
  let (fs, currentLen, f) := f.maybePopFramesForRetransmission maxLen
  let (fs', f) := f.maybePopNormalFrames (sub64 maxLen currentLen)
  (fs ++ fs', f)

/-! #### The loop over the queue -/

/-- One turn of the loop. -/
theorem popQueue_cons (maxLen r : Nat) (queue : List Nat) (heap : Heap OutFrame) (currentLen : Nat)
    (fc : φ) :
    let frame := (heap.cells r).marked
    let marked := heap.write r frame
    let room := maxLen - (currentLen + frame.minLength)
    ∃ fc' fc'', popQueue maxLen (r :: queue) heap currentLen fc =
      if maxLen ≤ currentLen + frame.minLength then ⟨marked, [], r :: queue, currentLen, fc⟩
      else if frame.dataLen ≤ room then
        let result := popQueue maxLen queue marked (currentLen + frame.size) fc'
        { result with res := r :: result.res }
      else ⟨cut marked r room, [marked.next], r :: queue, maxLen, fc''⟩ := by
  intro frame marked room
  have hcell : marked.cells r = frame := write_self
  refine ⟨addBytesRetrans fc frame.streamID frame.dataLen,
    addBytesRetrans fc frame.streamID (frame.data.take room).length, ?_⟩
  rw [popQueue]
  change (if maxLen ≤ currentLen + frame.minLength then _ else
    match maybeSplitOffFrame frame.toStreamFrame room with
    | (some front, rest) => _
    | (none, _) => _) = _
  by_cases hroom : maxLen ≤ currentLen + frame.minLength
  · rw [if_pos hroom, if_pos hroom]
    rfl
  rw [if_neg hroom, if_neg hroom, maybeSplitOffFrame, size, ← Nat.add_assoc]
  by_cases hfits : frame.dataLen ≤ room
  · rw [if_pos hfits, if_pos hfits]
    rfl
  have hlen : currentLen + frame.minLength + (frame.data.take room).length = maxLen := by
    have hdata : frame.data.length = frame.dataLen := rfl
    rw [length_take]
    omega
  rw [if_neg hfits, if_neg hfits, cut, hcell]
  exact congrArg (Retransmission.mk _ _ _ · _) hlen

theorem popQueue_gives (maxLen : Nat) (queue : List Nat) (heap : Heap OutFrame) (currentLen : Nat)
    (fc : φ) (hlen : currentLen ≤ maxLen) :
    Gives maxLen currentLen heap queue (popQueue maxLen queue heap currentLen fc) := by
  induction queue generalizing heap currentLen fc with
  | nil =>
    exact .whole rfl ⟨rfl, fun _ => rfl, fun _ h => h⟩ (fun _ h => absurd h not_mem_nil) rfl
      hlen
  | cons r queue ih =>
    obtain ⟨fc', fc'', hturn⟩ := popQueue_cons maxLen r queue heap currentLen fc
    have hmarks := marks_write heap r
    generalize hframe : (heap.cells r).marked = frame at hturn hmarks
    have hcell : (heap.write r frame).cells r = frame := write_self
    have hmarked : frame.dataLenPresent = true := by
      rw [← hframe]
      rfl
    rw [hturn]
    split
    · exact .whole rfl hmarks (fun _ h => absurd h not_mem_nil) rfl hlen
    rename_i hroom
    split
    · next hfits =>
      have hsize : currentLen + frame.size ≤ maxLen := by
        rw [size]
        omega
      refine Gives.cons hmarks (by rw [hcell]; exact hmarked) ?_
      rw [hcell]
      exact ih _ _ fc' hsize
    · next hlong =>
      refine .split [] rfl hmarks ?_ (by omega) ?_ ?_
      · intro r' hr'
        rw [mem_singleton.mp hr', hcell]
        exact hmarked
      · rw [hcell]
        exact Nat.not_le.mp hlong
      · rw [hcell, total_nil]
        omega

theorem finishVisit_moves (maxBytes window : Nat) {heap : Heap OutFrame} (st : PopState φ)
    (frame : OutFrame) (data : Option (List UInt8)) (s : SendStream)
    (h : Heap.Moves OutFrame.Carries heap st.heap st.res) :
    Heap.Moves OutFrame.Carries heap (finishVisit maxBytes window st frame data s).1.heap
      (finishVisit maxBytes window st frame data s).1.res := by
  rw [finishVisit]
  split
  · exact h
  · exact h.trans (moves_alloc _)

theorem maybePopNormalFrames_pops (f : StreamFramer φ) (maxBytes : Nat) :
    Pops f (f.maybePopNormalFrames maxBytes).1 (f.maybePopNormalFrames maxBytes).2 where
  moves := by
    refine StreamsMap.roundRobinIterate_inv (visitStream maxBytes)
      (fun st : PopState φ => Heap.Moves OutFrame.Carries f.heap st.heap st.res)
      (a := ⟨f.heap, [], 0, f.flowControlManager, f.blockedFrameQueue⟩)
      (fun st s h => ?_) (.refl f.heap) f.streamsMap
    -- The frames popped are new ones.
    rw [visitStream]
    split
    · exact h
    split
    · exact h
    simp only
    split
    · exact h
    split
    · exact finishVisit_moves _ _ _ _ _ _ h
    · exact finishVisit_moves _ _ _ _ _ _ h
  popped := fun _ hr => .inr hr
  queue := fun _ hr => hr

/-- **Popping frames loses nothing.** What any frame carried, whoever refers to it, is
carried by it still or by a frame that is given out. -/
theorem popStreamFrames_spec (f : StreamFramer φ) (hf : f.Valid) (maxLen : Nat) :
    Pops f (f.popStreamFrames maxLen).1 (f.popStreamFrames maxLen).2 := by
  obtain ⟨hmoves, hpopped, hqueue⟩ := (popQueue_gives maxLen f.retransmissionQueue f.heap 0
    f.flowControlManager (Nat.zero_le _)).moves hf
  have hfirst : Pops f (f.maybePopFramesForRetransmission maxLen).1
    (f.maybePopFramesForRetransmission maxLen).2.2 := ⟨hmoves, hpopped, hqueue⟩
  exact hfirst.trans (maybePopNormalFrames_pops _ _)

end StreamFramer

/-! ### Uninterrupted visits -/

end RlncStreaming.Quic
