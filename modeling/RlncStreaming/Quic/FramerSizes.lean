import RlncStreaming.Quic.StreamFramer

/-!
The size of what the stream framer gives out.

The framer counts the length of every frame that it pops, with its header, and stops when
the room that it was given is used up. A frame to be retransmitted that does not fit is
split, and what is left of it starts at a larger offset, which may need a longer header. A
frame that was popped before and is split now is longer than was counted, so no frame may
be queued twice (`popStreamFrames_holds`).
-/

namespace RlncStreaming.Quic

open Lib List Heap OutFrame

/-! ### Frames -/

/-- The length of the data takes up two bytes. -/
theorem OutFrame.size_withoutLength {f : OutFrame} (h : f.dataLenPresent = true) :
    ({ f with dataLenPresent := false } : OutFrame).size + 2 = f.size := by
  obtain ⟨frame, streamID, present⟩ := f
  subst h
  change (_ + 0 + _) + 2 = _ + 2 + _
  exact Nat.add_right_comm _ _ _

theorem OutFrame.getOffsetLength_le (f : OutFrame) : f.getOffsetLength ≤ 8 := by
  rw [getOffsetLength]
  repeat' split
  all_goals decide

/-! ### The framer -/

namespace StreamFramer

variable {φ : Type}

theorem getDataForWriting_length {s : SendStream} {maxBytes : Nat} {data : List UInt8}
    (h : (s.getDataForWriting maxBytes).1 = some data) : data.length ≤ maxBytes := by
  rw [SendStream.getDataForWriting] at h
  split at h
  · split at h
    · cases h
      exact length_take_le _ _
    · next hle =>
      cases h
      exact Nat.not_lt.mp hle
  · cases h

/-- A frame of the crypto stream fits, if its header does. -/
theorem popCryptoStreamFrame_size (f : StreamFramer φ) (maxLen : Nat) (hheader : 10 ≤ maxLen) :
    ∀ r ∈ (f.popCryptoStreamFrame maxLen).1,
      ((f.popCryptoStreamFrame maxLen).2.heap.cells r).size ≤ maxLen := by
  intro r hr
  rw [popCryptoStreamFrame] at hr ⊢
  split at hr
  · cases hr
  next cs _ =>
  simp only
  split at hr
  · next hdata =>
    cases hr
    rw [if_pos hdata]
    simp only [alloc_self]
    generalize hheaderLen : minLength ⟨⟨cs.writeOffset, [], false⟩, 1, false⟩ = header
    have hle : header ≤ 10 := by
      have hoffset := getOffsetLength_le ⟨⟨cs.writeOffset, [], false⟩, 1, false⟩
      rw [← hheaderLen, minLength]
      change 1 + 1 + _ + 0 ≤ 10
      omega
    have hlen : ((cs.getDataForWriting (maxLen - header)).1.getD []).length ≤ maxLen - header := by
      cases hd : (cs.getDataForWriting (maxLen - header)).1 with
      | none => exact Nat.zero_le _
      | some d => exact getDataForWriting_length hd
    rw [sub64_of_le (Nat.le_trans hle hheader)]
    change minLength ⟨⟨cs.writeOffset, [], false⟩, 1, false⟩ + _ ≤ maxLen
    rw [hheaderLen]
    exact Nat.add_le_of_le_sub' (Nat.le_trans hle hheader) hlen
  · cases hr

/-- The frames `res` of the heap take up `len` bytes, with their lengths. -/
structure Holds (heap : Heap OutFrame) (res : List Nat) (len : Nat) : Prop where
  total : heap.total OutFrame.size res = len
  present : ∀ r ∈ res, (heap.cells r).dataLenPresent = true
  inUse : ∀ r ∈ res, r < heap.next

/-- Frames in use other than those of `changed` stay as they are. -/
structure Keeps (heap : Heap OutFrame) (changed : List Nat) (heap' : Heap OutFrame) : Prop where
  next_le : heap.next ≤ heap'.next
  cells : ∀ r < heap.next, r ∉ changed → heap'.cells r = heap.cells r

variable {heap heap' heap'' : Heap OutFrame} {res res' changed : List Nat} {len len' : Nat}

theorem Holds.nil : Holds heap [] 0 :=
  ⟨rfl, fun _ hr => absurd hr not_mem_nil, fun _ hr => absurd hr not_mem_nil⟩

theorem Holds.append (h : Holds heap res len) (h' : Holds heap res' len') :
    Holds heap (res ++ res') (len + len') where
  total := by rw [total_append, h.total, h'.total]
  present := forall_mem_append.mpr ⟨h.present, h'.present⟩
  inUse := forall_mem_append.mpr ⟨h.inUse, h'.inUse⟩

theorem Holds.keeps (h : Holds heap res len) (hk : Keeps heap [] heap') : Holds heap' res len := by
  have hcells : ∀ r ∈ res, heap'.cells r = heap.cells r := fun r hr =>
    hk.cells r (h.inUse r hr) not_mem_nil
  exact ⟨(total_congr hcells).trans h.total, fun r hr => hcells r hr ▸ h.present r hr,
    fun r hr => Nat.lt_of_lt_of_le (h.inUse r hr) hk.next_le⟩

theorem Keeps.refl (heap : Heap OutFrame) (changed : List Nat) : Keeps heap changed heap :=
  ⟨Nat.le_refl _, fun _ _ _ => rfl⟩

theorem Keeps.trans (h : Keeps heap changed heap') (h' : Keeps heap' changed heap'') :
    Keeps heap changed heap'' where
  next_le := Nat.le_trans h.next_le h'.next_le
  cells := fun r hr hout =>
    (h'.cells r (Nat.lt_of_lt_of_le hr h.next_le) hout).trans (h.cells r hr hout)

theorem keeps_alloc (f : OutFrame) : Keeps heap [] (heap.alloc f) :=
  ⟨Nat.le_succ _, fun _ hr _ => alloc_of_lt hr⟩

/-! #### Frames to be retransmitted -/

/-- The part that is split off a frame has the header of the frame. -/
theorem holds_cut {r n : Nat} (hr : r < heap.next) (hlong : n < (heap.cells r).dataLen)
    (hpresent : (heap.cells r).dataLenPresent = true) :
    Holds (cut heap r n) [heap.next] ((heap.cells r).minLength + n) := by
  have hdata : ((heap.cells r).data.take n).length = n := by
    have hlen : (heap.cells r).data.length = (heap.cells r).dataLen := rfl
    rw [length_take]
    omega
  have hcell : (cut heap r n).cells heap.next = { heap.cells r with
      toStreamFrame := ⟨(heap.cells r).offset, (heap.cells r).data.take n, false⟩ } :=
    (write_of_ne (Nat.ne_of_gt hr)).trans alloc_self
  refine ⟨?_, ?_, ?_⟩
  · rw [total_cons, hcell]
    exact congrArg ((heap.cells r).minLength + ·) hdata
  · intro r' hr'
    rw [mem_singleton.mp hr', hcell]
    exact hpresent
  · intro r' hr'
    rw [mem_singleton.mp hr']
    exact Nat.lt_succ_self _

/-- Where no frame is split that was popped before, the frames that are popped have the length
that was counted. -/
theorem Gives.holds {maxLen currentLen : Nat} {queue : List Nat} {result : Retransmission φ}
    (h : Gives maxLen currentLen heap queue result) (hvalid : ∀ r ∈ queue, r < heap.next)
    (honce : ∀ res r rest, queue = res ++ r :: rest → 1 < (heap.cells r).dataLen → r ∉ res) :
    ∃ len, Holds result.heap result.res len ∧ result.currentLen = currentLen + len ∧
      result.currentLen ≤ maxLen := by
  cases h with
  | whole hqueue hmarks hres hlen hroom =>
    subst hqueue
    refine ⟨_, ⟨rfl, hres, fun r hr => ?_⟩, hlen.symm, hroom⟩
    exact hmarks.next ▸ hvalid r (mem_append_left _ hr)
  | @split heap' res rest r n _ hqueue hmarks hres hpos hlong hlen =>
    have hnot := honce res r rest hqueue (hmarks.dataLen r ▸ Nat.lt_of_le_of_lt hpos hlong)
    subst hqueue
    have hinUse : ∀ r' ∈ res ++ r :: rest, r' < heap'.next := fun r' hr' =>
      hmarks.next ▸ hvalid r' hr'
    obtain ⟨hpresent, hres⟩ := forall_mem_cons.mp hres
    have hkept : ∀ r' ∈ res, (cut heap' r n).cells r' = heap'.cells r' := fun r' hr' =>
      cut_of_ne (ne_of_mem_of_not_mem hr' hnot) (hinUse r' (mem_append_left _ hr'))
    have hholds : Holds (cut heap' r n) res (heap'.total size res) :=
      ⟨total_congr hkept, fun r' hr' => hkept r' hr' ▸ hres r' hr', fun r' hr' =>
        Nat.lt_succ_of_lt (hinUse r' (mem_append_left _ hr'))⟩
    have hfront := holds_cut (hinUse r (mem_append_right _ mem_cons_self)) hlong hpresent
    refine ⟨_, hholds.append hfront, hlen.symm.trans ?_, Nat.le_refl _⟩
    omega

/-! #### New frames -/

variable [FlowControlManager φ]

/-- The frames popped so far take up the length that was counted, within the limit. -/
structure Popping (heap : Heap OutFrame) (maxBytes : Nat) (st : PopState φ) : Prop where
  holds : Holds st.heap st.res st.currentLen
  keeps : Keeps heap [] st.heap
  le : st.currentLen ≤ maxBytes

theorem Popping.finishVisit {maxBytes window maxLen : Nat} {st : PopState φ} {frame : OutFrame}
    {data : Option (List UInt8)} (s : SendStream) (h : Popping heap maxBytes st)
    (hpresent : frame.dataLenPresent = true) (hdata : ∀ d ∈ data, d.length ≤ maxLen)
    (hroom : st.currentLen + frame.minLength + maxLen ≤ maxBytes) :
    Popping heap maxBytes (finishVisit maxBytes window st frame data s).1 := by
  rw [Quic.finishVisit]
  split
  · exact h
  generalize hnew :
    ({ frame with data := data.getD [], finBit := s.shouldSendFin } : OutFrame) = new
  have hmin : new.minLength = frame.minLength := by rw [← hnew]; rfl
  have hlen : new.dataLen ≤ maxLen := by
    rw [← hnew]
    cases data with
    | none => exact Nat.zero_le _
    | some d => exact hdata d rfl
  have hkeep : Keeps st.heap [] (st.heap.alloc new) := keeps_alloc new
  have hlast : Holds (st.heap.alloc new) [st.heap.next] new.size := by
    refine ⟨by rw [total_cons, alloc_self]; rfl, ?_, ?_⟩
    · intro r hr
      rw [mem_singleton.mp hr, alloc_self, ← hnew]
      exact hpresent
    · intro r hr
      rw [mem_singleton.mp hr]
      exact Nat.lt_succ_self _
  refine ⟨?_, h.keeps.trans hkeep, ?_⟩
  · have hboth := (h.holds.keeps hkeep).append hlast
    rwa [size, ← Nat.add_assoc] at hboth
  · change st.currentLen + new.minLength + new.dataLen ≤ maxBytes
    omega

theorem Popping.visitStream {maxBytes : Nat} {st : PopState φ} (h : Popping heap maxBytes st)
    (s : SendStream) : Popping heap maxBytes (visitStream maxBytes st s).1 := by
  rw [Quic.visitStream]
  split
  · exact h
  split
  · exact h
  next hheader =>
  have hmax : ∀ room window, s.maxLen room window ≤ room := by
    intro room window
    rw [SendStream.maxLen]
    split
    · exact Nat.min_le_left _ _
    · exact Nat.le_refl _
  have hroom : ∀ window, st.currentLen + s.newFrame.minLength +
      s.maxLen (maxBytes - st.currentLen - s.newFrame.minLength) window ≤ maxBytes := by
    intro window
    have hle := hmax (maxBytes - st.currentLen - s.newFrame.minLength) window
    omega
  simp only
  split
  · exact h
  split
  · exact h.finishVisit s rfl (fun d hd => by cases hd) (hroom 0)
  · exact h.finishVisit _ rfl (fun d hd => getDataForWriting_length hd) (hroom _)

/-- **What the framer gives out** fits the room that it was given, if no frame is queued
twice. -/
theorem popStreamFrames_holds (f : StreamFramer φ) (hvalid : f.Valid)
    (hnodup : f.retransmissionQueue.Nodup) (maxLen : Nat) :
    ∃ len ≤ maxLen, Holds (f.popStreamFrames maxLen).2.heap (f.popStreamFrames maxLen).1 len := by
  obtain ⟨len, hholds, hcount, hle⟩ := (popQueue_gives maxLen f.retransmissionQueue f.heap 0
    f.flowControlManager (Nat.zero_le _)).holds hvalid fun res r rest hqueue _ => by
      rw [hqueue, nodup_append] at hnodup
      exact fun hmem => hnodup.2.2 r hmem r mem_cons_self rfl
  rw [Nat.zero_add] at hcount
  generalize hpopped : popQueue maxLen f.retransmissionQueue f.heap 0 f.flowControlManager = popped
    at hholds hcount hle
  have hpopping := StreamsMap.roundRobinIterate_inv (visitStream (maxLen - len))
    (fun st : PopState φ => Popping popped.heap (maxLen - len) st) (fun st s h => h.visitStream s)
    (a := ⟨popped.heap, [], 0, popped.flowControlManager, f.blockedFrameQueue⟩)
    ⟨.nil, .refl _ _, Nat.zero_le _⟩ f.streamsMap
  have hsub : sub64 maxLen popped.currentLen = maxLen - len := by rw [sub64_of_le hle, hcount]
  simp only [popStreamFrames, maybePopFramesForRetransmission, maybePopNormalFrames, hpopped, hsub]
  exact ⟨_, by have := hpopping.le; omega,
    (hholds.keeps hpopping.keeps).append hpopping.holds⟩

end StreamFramer

end RlncStreaming.Quic
