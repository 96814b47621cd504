import Mathlib.Data.List.Nodup
import RlncStreaming.Quic.FramerSizes

/-!
Frames that are queued for retransmission, over any number of calls of
`maybePopFramesForRetransmission` (`stream_framer.go`).

A call pops frames from the front of the queue while they fit, and may split the next one. The
queue holds pointers, and a packet and its duplicate share their frames, so that one frame may be
queued twice. If it is split, then the part that is split off is given out once, but all copies of
the frame lose it (`queued_twice_split`). A frame of one byte is never split. Hence the calls
conserve what is queued, whatever their limits, just if no longer frame is queued twice
(`retransmissions_conserved_iff`).
-/

namespace RlncStreaming.Quic

open Lib List OutFrame Heap

namespace StreamFramer

variable {φ : Type}

/-! ### Frames that are queued twice -/

/-- The frames are in use, and those that occur more than once are too short to be split. -/
structure Queued (heap : Heap OutFrame) (refs : List Nat) : Prop where
  inUse : ∀ r ∈ refs, r < heap.next
  short : ∀ r, 2 ≤ refs.count r → (heap.cells r).dataLen ≤ 1

section Conserve

variable {heap heap' : Heap OutFrame} {out res rest : List Nat} {r n : Nat}

theorem Queued.marks {refs : List Nat} (h : Queued heap refs) (hmarks : Marks heap heap') :
    Queued heap' refs :=
  ⟨fun r hr => hmarks.next ▸ h.inUse r hr, fun r hr => hmarks.dataLen r ▸ h.short r hr⟩

section

variable (h : Queued heap (out ++ r :: rest))

include h

/-- A frame that is long enough to be split occurs once. -/
theorem Queued.others (hlong : 1 < (heap.cells r).dataLen) :
    ∀ r' ∈ out ++ rest, r' < heap.next ∧ r' ≠ r := by
  intro r' hr'
  refine ⟨h.inUse r' ?_, ?_⟩
  · rcases mem_append.mp hr' with hr' | hr'
    · exact mem_append_left _ hr'
    · exact mem_append_right _ (mem_cons_of_mem r hr')
  rintro rfl
  have hcount : 2 ≤ (out ++ r' :: rest).count r' := by
    have hpos := count_pos_iff.mpr hr'
    rw [count_append] at hpos ⊢
    rw [count_cons_self]
    omega
  exact absurd (h.short r' hcount) (Nat.not_le.mpr hlong)

theorem Queued.contents_cut (hpos : 0 < n) (hlong : n < (heap.cells r).dataLen) :
    (cut heap r n).contents atoms (out ++ heap.next :: r :: rest) =
      heap.contents atoms (out ++ r :: rest) := by
  have hothers := h.others (Nat.lt_of_le_of_lt hpos hlong)
  have hr : r < heap.next := h.inUse r (mem_append_right _ mem_cons_self)
  have hsplit := maybeSplitOffFrame_of_lt hlong
  exact contents_split (fun r' hr' => hothers r' (mem_append_left _ hr'))
    (fun r' hr' => hothers r' (mem_append_right _ hr')) hr (atoms_split hsplit)

theorem Queued.cut (hpos : 0 < n) (hlong : n < (heap.cells r).dataLen) :
    Queued (cut heap r n) (out ++ heap.next :: r :: rest) where
  inUse := by
    intro r' hr'
    have hmem : r' = heap.next ∨ r' ∈ out ++ r :: rest := by
      rw [← mem_cons]
      exact perm_middle.mem_iff.mp hr'
    rcases hmem with rfl | hmem
    · exact Nat.lt_succ_self _
    · exact Nat.lt_succ_of_lt (h.inUse r' hmem)
  short := by
    intro r' hr'
    rw [perm_middle.count_eq, count_cons] at hr'
    have hold : 2 ≤ (out ++ r :: rest).count r' ∧ r' < heap.next := by
      by_cases hnext : heap.next = r'
      · -- the new cell occurs once
        have hzero : (out ++ r :: rest).count r' = 0 :=
          count_eq_zero.mpr fun hmem => absurd (h.inUse r' hmem) (by omega)
        simp [hnext, hzero] at hr'
      · rw [if_neg (by simpa using hnext), Nat.add_zero] at hr'
        exact ⟨hr', h.inUse r' (count_pos_iff.mp (by omega))⟩
    have hshort := h.short r' hold.1
    have hne : r' ≠ r := by
      rintro rfl
      omega
    rwa [cut_of_ne hne hold.2]

end

/-- Where no frame is queued twice that could be split, a call conserves what is queued and what
was given out, and stays within its limit. -/
theorem Gives.conserves {maxLen : Nat} {queue : List Nat} {result : Retransmission φ}
    (h : Gives maxLen 0 heap queue result) (hqueued : Queued heap (out ++ queue)) :
    result.heap.contents atoms (out ++ result.res ++ result.queue) =
        heap.contents atoms (out ++ queue) ∧
      Queued result.heap (out ++ result.res ++ result.queue) ∧
      result.heap.total size result.res ≤ maxLen := by
  have hsize : result.heap.total size result.res ≤ maxLen := by
    obtain ⟨len, hholds, hcount, hle⟩ := h.holds
      (fun r hr => hqueued.inUse r (mem_append_right _ hr)) fun res r rest hqueue hlong hr => by
        rw [hqueue, ← append_assoc] at hqueued
        have hmem : r ∈ out ++ res ++ rest := mem_append_left _ (mem_append_right _ hr)
        exact (hqueued.others hlong r hmem).2 rfl
    rw [hholds.total]
    omega
  cases h with
  | whole hqueue hmarks =>
    subst hqueue
    simp only [append_assoc]
    exact ⟨contents_congr fun r _ => hmarks.atoms r, hqueued.marks hmarks, hsize⟩
  | @split heap' res rest r n _ hqueue hmarks _ hpos hlong =>
    subst hqueue
    rw [← append_assoc] at hqueued
    have hqueued' := hqueued.marks hmarks
    have hrefs : out ++ (res ++ [heap'.next]) ++ r :: rest =
        out ++ res ++ heap'.next :: r :: rest := by
      simp only [append_assoc, cons_append, nil_append]
    simp only at hsize ⊢
    rw [hrefs]
    refine ⟨?_, hqueued'.cut hpos hlong, hsize⟩
    rw [hqueued'.contents_cut hpos hlong, append_assoc]
    exact contents_congr fun r _ => hmarks.atoms r

end Conserve

variable [FlowControlManager φ]

/-! ### Runs -/

/-- A call of `maybePopFramesForRetransmission`, with the frames given out so far. -/
def retransmit (s : StreamFramer φ × List Nat) (maxLen : Nat) : StreamFramer φ × List Nat :=
  ((s.1.maybePopFramesForRetransmission maxLen).2.2,
    s.2 ++ (s.1.maybePopFramesForRetransmission maxLen).1)

/-- The frames that were given out and those in the queue. -/
def held (s : StreamFramer φ × List Nat) : List Nat := s.2 ++ s.1.retransmissionQueue

theorem retransmit_conserves {s : StreamFramer φ × List Nat} (hqueued : Queued s.1.heap (held s))
    (maxLen : Nat) :
    (retransmit s maxLen).1.heap.contents atoms (held (retransmit s maxLen)) =
        s.1.heap.contents atoms (held s) ∧
      Queued (retransmit s maxLen).1.heap (held (retransmit s maxLen)) ∧
      (retransmit s maxLen).1.heap.total size
        (s.1.maybePopFramesForRetransmission maxLen).1 ≤ maxLen :=
  (popQueue_gives maxLen s.1.retransmissionQueue s.1.heap 0 s.1.flowControlManager
    (Nat.zero_le _)).conserves hqueued

theorem run_retransmit_conserves (limits : List Nat) {s : StreamFramer φ × List Nat}
    (hqueued : Queued s.1.heap (held s)) :
    (run retransmit s limits).1.heap.contents atoms (held (run retransmit s limits)) =
        s.1.heap.contents atoms (held s) ∧
      Queued (run retransmit s limits).1.heap (held (run retransmit s limits)) := by
  induction limits generalizing s with
  | nil => exact ⟨rfl, hqueued⟩
  | cons maxLen limits ih =>
    obtain ⟨hsame, hqueued, -⟩ := retransmit_conserves hqueued maxLen
    rw [run_cons]
    exact ⟨(ih hqueued).1.trans hsame, (ih hqueued).2⟩

/-- After the calls with `limits`, a call with `maxLen` stays within it, and what was given out and
what is queued carry together what was queued at first. -/
def Conserves (f : StreamFramer φ) (limits : List Nat) (maxLen : Nat) : Prop :=
  let s := run retransmit (f, []) limits
  (retransmit s maxLen).1.heap.total OutFrame.size
      (s.1.maybePopFramesForRetransmission maxLen).1 ≤ maxLen ∧
    ((retransmit s maxLen).1.heap.contents OutFrame.atoms (held (retransmit s maxLen))).Perm
      (f.heap.contents OutFrame.atoms f.retransmissionQueue)

/-! #### A split of a frame that is queued twice -/

theorem Marks.total_marked {heap heap' : Heap OutFrame} (h : Marks heap heap') (refs : List Nat) :
    heap'.total (fun f => f.marked.size) refs = heap.total (fun f => f.marked.size) refs := by
  have hcells : ∀ r, (heap'.cells r).marked.size = (heap.cells r).marked.size :=
    fun r => congrArg size (h.cells r)
  exact Nat.le_antisymm (total_mono fun r _ => Nat.le_of_eq (hcells r))
    (total_mono fun r _ => Nat.le_of_eq (hcells r).symm)

/-- Frames for which there is room are popped. -/
theorem popQueue_append {maxLen : Nat} (first rest : List Nat) (heap : Heap OutFrame)
    (currentLen : Nat) (fc : φ)
    (hroom : currentLen + heap.total (fun f => f.marked.size) first < maxLen) :
    ∃ heap' fc', Marks heap heap' ∧
      let result := popQueue maxLen rest heap'
        (currentLen + heap.total (fun f => f.marked.size) first) fc'
      popQueue maxLen (first ++ rest) heap currentLen fc =
        { result with res := first ++ result.res } := by
  induction first generalizing heap currentLen fc with
  | nil => exact ⟨heap, fc, ⟨rfl, fun _ => rfl, fun _ h => h⟩, rfl⟩
  | cons r first ih =>
    obtain ⟨fc', fc'', hturn⟩ := popQueue_cons maxLen r (first ++ rest) heap currentLen fc
    have hmarks := marks_write heap r
    rw [total_cons, ← Nat.add_assoc] at hroom ⊢
    have hsize : (heap.cells r).marked.size =
      (heap.cells r).marked.minLength + (heap.cells r).marked.dataLen := rfl
    obtain ⟨heap', fc', hmarks', hrest⟩ := ih (heap.write r (heap.cells r).marked)
      (currentLen + (heap.cells r).marked.size) fc' (by rwa [hmarks.total_marked])
    refine ⟨heap', fc', hmarks.trans hmarks', ?_⟩
    rw [cons_append, hturn, if_neg (by omega), if_pos (by omega), hrest, hmarks.total_marked]
    rfl

/-- All copies of a frame lose what is split off from one of them. -/
theorem cut_loses {heap : Heap OutFrame} {before after : List Nat} {r n : Nat}
    (hinUse : ∀ r' ∈ before ++ r :: after, r' < heap.next) (hafter : r ∈ after) (hpos : 0 < n)
    (hlong : n < (heap.cells r).dataLen) :
    ((cut heap r n).contents atoms (before ++ heap.next :: r :: after)).length <
      (heap.contents atoms (before ++ r :: after)).length := by
  have hr : r < heap.next := hinUse r (mem_append_right _ mem_cons_self)
  have hsplit := congrArg length (atoms_split (maybeSplitOffFrame_of_lt hlong))
  rw [length_append] at hsplit
  have hfront : ((cut heap r n).cells heap.next).atoms.length +
      ((cut heap r n).cells r).atoms.length = (heap.cells r).atoms.length := by
    rw [hsplit, cut, write_self, write_of_ne (Nat.ne_of_gt hr), alloc_self]
  have hfront_pos : 0 < ((cut heap r n).cells heap.next).atoms.length := by
    have hdata : n < (heap.cells r).data.length := hlong
    rw [cut, write_of_ne (Nat.ne_of_gt hr), alloc_self, atoms,
      length_append, length_mapIdx, length_take]
    omega
  have hle : ∀ r' ∈ before ++ r :: after,
      ((cut heap r n).cells r').atoms.length ≤ (heap.cells r').atoms.length := by
    intro r' hr'
    by_cases heq : r' = r
    · subst heq
      omega
    · exact Nat.le_of_eq (by rw [cut_of_ne heq (hinUse r' hr')])
  rw [length_contents, length_contents, total_append, total_append,
    total_cons, total_cons, total_cons]
  have hbefore := total_mono (w := fun f : OutFrame => f.atoms.length)
    fun r' hr' => hle r' (mem_append_left _ hr')
  have hlost := total_lt (w := fun f : OutFrame => f.atoms.length)
    (fun r' hr' => hle r' (mem_append_right _ (mem_cons_of_mem r hr'))) hafter
    (show ((cut heap r n).cells r).atoms.length < (heap.cells r).atoms.length by omega)
  omega

/-- With one byte of room for the data of `r`, the frames before it are popped and it is split. -/
theorem popQueue_splits (heap : Heap OutFrame) (before after : List Nat) {r : Nat} (fc : φ)
    (hlong : 1 < (heap.cells r).dataLen) :
    ∃ heap' len fc', Marks heap heap' ∧
      popQueue (heap.total (fun f => f.marked.size) before + (heap.cells r).marked.minLength + 1)
        (before ++ r :: after) heap 0 fc =
        ⟨cut heap' r 1, before ++ [heap'.next], r :: after, len, fc'⟩ := by
  generalize hmaxLen : heap.total (fun f => f.marked.size) before +
    (heap.cells r).marked.minLength + 1 = maxLen
  obtain ⟨heap₁, fc₁, hmarks, hpopped⟩ :=
    popQueue_append before (r :: after) heap 0 fc (show _ < maxLen by omega)
  obtain ⟨_, fc₂, hturn⟩ := popQueue_cons maxLen r after heap₁
    (0 + heap.total (fun f => f.marked.size) before) fc₁
  have hdataLen : 1 < (heap.cells r).marked.dataLen := hlong
  refine ⟨_, maxLen, fc₂, hmarks.trans (marks_write heap₁ r), ?_⟩
  rw [hmarks.cells r, if_neg (by omega), if_neg (by omega)] at hturn
  rw [hpopped, hturn, hmarks.cells r,
    show maxLen - (0 + heap.total (fun f => f.marked.size) before +
      (heap.cells r).marked.minLength) = 1 by omega]

theorem not_conserves {f : StreamFramer φ} (hf : f.Valid) {before after : List Nat} {r : Nat}
    (hqueue : f.retransmissionQueue = before ++ r :: after) (hafter : r ∈ after)
    (hlong : 1 < (f.heap.cells r).dataLen) :
    ¬ f.Conserves [] (f.heap.total (fun g => g.marked.size) before +
      (f.heap.cells r).marked.minLength + 1) := by
  rintro ⟨-, hperm⟩
  obtain ⟨heap', len, fc', hmarks, hsplit⟩ :=
    popQueue_splits f.heap before after f.flowControlManager hlong
  have hlength := hperm.length_eq
  simp only [run_nil, held, retransmit, maybePopFramesForRetransmission, hqueue, hsplit,
    nil_append, append_assoc, cons_append] at hlength
  have hlost := cut_loses (fun r' hr' => hmarks.next ▸ hf r' (hqueue ▸ hr')) hafter
    Nat.zero_lt_one (hmarks.dataLen r ▸ hlong)
  rw [contents_congr fun r _ => hmarks.atoms r] at hlost
  exact Nat.ne_of_lt hlost hlength

theorem exists_queued_twice {queue : List Nat} {r : Nat} (h : 2 ≤ queue.count r) :
    ∃ before after, queue = before ++ r :: after ∧ r ∈ after := by
  obtain ⟨before, after, rfl, hbefore⟩ :=
    eq_append_cons_of_mem (count_pos_iff.mp (Nat.zero_lt_of_lt h))
  refine ⟨before, after, rfl, count_pos_iff.mp ?_⟩
  rw [count_append, count_eq_zero.mpr hbefore, count_cons_self] at h
  omega

/-- **Frames queued for retransmission are conserved**, whatever the limits of the calls, exactly
where every frame that is queued more than once has at most one byte. -/
theorem retransmissions_conserved_iff {f : StreamFramer φ} (hf : f.Valid) :
    (∀ limits maxLen, f.Conserves limits maxLen) ↔
      ∀ r, 2 ≤ f.retransmissionQueue.count r → (f.heap.cells r).dataLen ≤ 1 := by
  constructor
  · intro hconserves r hcount
    refine Nat.not_lt.mp fun hlong => ?_
    obtain ⟨before, after, hqueue, hafter⟩ := exists_queued_twice hcount
    exact not_conserves hf hqueue hafter hlong (hconserves _ _)
  intro hshort limits maxLen
  have hqueued : Queued f.heap (held (f, [])) := ⟨hf, hshort⟩
  obtain ⟨hsame, hqueued⟩ := run_retransmit_conserves (s := (f, [])) limits hqueued
  obtain ⟨hsame', -, hlen⟩ := retransmit_conserves hqueued maxLen
  refine ⟨hlen, ?_⟩
  rw [hsame', hsame]
  exact .refl _

/-- A framer with the frames `frames` on its heap. -/
def queuing (frames : List OutFrame) (queue : List Nat) : StreamFramer Unit :=
  ⟨⟨fun r => frames.getD r default, frames.length⟩, ⟨fun _ => none, [], 0⟩, (), queue, []⟩

theorem retransmissions_conserved_pair :
    let f := queuing [⟨⟨0, [7, 8], false⟩, 5, true⟩, ⟨⟨2, [9], true⟩, 5, false⟩] [0, 1]
    f.Valid ∧ ∀ limits maxLen, f.Conserves limits maxLen := by
  intro f
  have hvalid : f.Valid := by
    intro r hr
    rcases mem_pair.mp hr with rfl | rfl <;> decide
  refine ⟨hvalid, (retransmissions_conserved_iff hvalid).mpr fun r hr => ?_⟩
  have hnodup : f.retransmissionQueue.Nodup := by decide
  exact absurd (nodup_iff_count_le_one.mp hnodup r) (Nat.not_le.mpr hr)

/-- A frame of two bytes is queued twice. With a limit of 5 its first byte is given out once, and
both copies lose it. With a limit of 11 the first copy is given out, then cut, and its header gets
longer, so that the frames given out take up 12 bytes. -/
theorem queued_twice_split :
    let f := queuing [⟨⟨0, [7, 8], false⟩, 5, true⟩] [0, 0]
    f.Valid ∧
      f.heap.contents atoms f.retransmissionQueue =
        [.byte 5 0 7, .byte 5 1 8, .byte 5 0 7, .byte 5 1 8] ∧
      (retransmit (f, []) 5).1.heap.contents atoms (held (retransmit (f, []) 5)) =
        [.byte 5 0 7, .byte 5 1 8, .byte 5 1 8] ∧
      (retransmit (f, []) 11).1.heap.total size (f.maybePopFramesForRetransmission 11).1 = 12 ∧
      ¬ f.Conserves [] 5 ∧ ¬ f.Conserves [] 11 := by
  intro f
  have hvalid : f.Valid := by
    intro r hr
    rcases mem_pair.mp hr with rfl | rfl <;> decide
  exact ⟨hvalid, by decide, by decide, by decide, fun h => absurd h.2.length_eq (by decide),
    fun h => absurd h.1 (by decide)⟩

end StreamFramer

end RlncStreaming.Quic
