import RlncStreaming.Quic.AckFrames

/-!
ACK and CLOSE_PATH frames on the wire.

The blocks of a range determine the range (`blocks_range`), and the writer writes the
blocks of exactly those ranges that were counted (`writeRanges_eq`), if the gap below the
first range needs less than 255 blocks. A frame whose first gap needs more is counted as
one block and then written in full, so that the writer refuses it. Every other well-formed
frame comes back, cut to its highest ranges if it has too many blocks
(`ack_survives_iff`).
-/

namespace RlncStreaming.Quic

open List Option RangeParser

/-! ### Well-formed frames -/

/-- The ranges descend below `bound`; they are not empty and do not touch. -/
def Descends : Nat → List AckRange → Prop
  | _, [] => True
  | bound, r :: rs => r.last < bound ∧ r.first ≤ r.last ∧ Descends (r.first - 1) rs

/-- The blocks that all ranges below `above` take. -/
def blocksBelow : AckRange → List AckRange → Nat
  | _, [] => 0
  | above, r :: rs => numBlocks (above.gap r) + blocksBelow r rs

namespace AckBlocks

/-- What a frame may report: no range, or at least two ranges that descend from the largest
number to the lowest. -/
structure WellFormed (f : AckBlocks) : Prop where
  one_le : 1 ≤ f.lowestAcked
  le : f.lowestAcked ≤ f.largestAcked
  lt : f.largestAcked < 2 ^ 48
  ranges : ∀ r rs, f.ackRanges = r :: rs →
    rs ≠ [] ∧ Descends (f.largestAcked + 1) (r :: rs) ∧ r.last = f.largestAcked ∧
      ((r :: rs).getLast (List.cons_ne_nil r rs)).first = f.lowestAcked

/-- The blocks that the ranges of a frame take, with the first one. -/
def blocksNeeded (f : AckBlocks) : Nat :=
  match f.ackRanges with
  | [] => 1
  | r :: rs => 1 + blocksBelow r rs

/-- The gap below the first range takes less than 255 blocks. -/
def FirstGapFits (f : AckBlocks) : Prop :=
  ∀ above r rs, f.ackRanges = above :: r :: rs → above.gap r ≤ 254 * 255

/-- `f'` reports what `f` does, or its highest ranges if `f` needs too many blocks. -/
def SurvivesAs (f f' : AckBlocks) : Prop :=
  f'.pathID = f.pathID ∧ f'.largestAcked = f.largestAcked ∧
    ((∀ p, f'.acksPacket p = f.acksPacket p) ∨
      255 < f.blocksNeeded ∧ ∃ k, 2 ≤ k ∧ k < f.ackRanges.length ∧
        ∀ p, f'.acksPacket p = true ↔ ∃ r ∈ f.ackRanges.take k, r.first ≤ p ∧ p ≤ r.last)

end AckBlocks

/-! ### Ranges -/

variable {rs : List AckRange}

theorem Descends.mem {b : Nat} {r : AckRange} (h : Descends b rs) (hr : r ∈ rs) :
    r.first ≤ r.last ∧ r.last < b := by
  induction rs generalizing b with
  | nil => exact absurd hr not_mem_nil
  | cons r' rs ih =>
    obtain ⟨hlast, hle, hrest⟩ := h
    rcases mem_cons.mp hr with rfl | hr
    · exact ⟨hle, hlast⟩
    have hbelow := ih hrest hr
    omega

theorem Descends.take {b : Nat} (h : Descends b rs) (k : Nat) : Descends b (rs.take k) := by
  induction rs generalizing b k with
  | nil => simpa using h
  | cons r rs ih =>
    cases k with
    | zero => trivial
    | succ k => exact ⟨h.1, h.2.1, ih h.2.2 k⟩

section Range

variable {above r : AckRange} {b : Nat} {rs : List AckRange}

theorem AckRange.length_eq (hle : r.first ≤ r.last) (hone : 1 ≤ r.first) (hlt : r.last < 2 ^ 48) :
    r.length = r.last - r.first + 1 := by
  rw [AckRange.length, sub64_of_le hle, add64_of_lt (by omega)]

theorem AckRange.gap_eq (h : r.last + 1 < above.first) :
    above.gap r = above.first - r.last - 1 := by
  rw [AckRange.gap, sub64_of_le (show r.last ≤ above.first by omega),
    sub64_of_le (show 1 ≤ above.first - r.last by omega)]

end Range

theorem numBlocks_eq {gap : Nat} (h : 1 ≤ gap) : numBlocks gap = (gap - 1) / 255 + 1 := by
  rw [numBlocks]
  split <;> omega

/-- The blocks of a range, as pairs of a gap and a length. -/
def rangeBlocks (gap length : Nat) : List (Nat × Nat) :=
  List.replicate (numBlocks gap - 1) (255, 0) ++ [(1 + (gap - 1) % 255, length)]

/-- The blocks of all ranges below `above`. -/
def allBlocks : AckRange → List AckRange → List (Nat × Nat)
  | _, [] => []
  | above, r :: rs => rangeBlocks (above.gap r) r.length ++ allBlocks r rs

theorem allBlocks_length {above : AckRange} (h : Descends (above.first - 1) rs) :
    (allBlocks above rs).length = blocksBelow above rs := by
  induction rs generalizing above with
  | nil => rfl
  | cons r rs ih =>
    have hgap : 1 ≤ above.gap r := by
      have hlast := h.1
      rw [AckRange.gap_eq (by omega)]
      omega
    rw [allBlocks, length_append, ih h.2.2, blocksBelow, rangeBlocks, length_append,
      length_replicate, length_singleton, numBlocks_eq hgap]
    omega

theorem allBlocks_bound {width : Nat} (above : AckRange) (hlen : ∀ r ∈ rs, r.length < 256 ^ width) :
    ∀ b ∈ allBlocks above rs, b.1 < 256 ∧ b.2 < 256 ^ width := by
  induction rs generalizing above with
  | nil => exact fun b hb => absurd hb not_mem_nil
  | cons r rs ih =>
    intro b hb
    rw [allBlocks, rangeBlocks, mem_append, mem_append, mem_singleton] at hb
    rcases hb with (hzero | rfl) | hrest
    · rw [eq_of_mem_replicate hzero]
      exact ⟨by decide, Nat.pow_pos (by decide)⟩
    · exact ⟨by simp only; omega, hlen r mem_cons_self⟩
    · exact ih r (fun r' hr' => hlen r' (mem_cons_of_mem _ hr')) b hrest

/-! ### What is written -/

/-- The bytes of a block. -/
def blockBytes (o : ByteOrder) (width : PacketNumberLen) (b : Nat × Nat) : List UInt8 :=
  UInt8.ofNat b.1 :: o.bytes width.toNat b.2

section Write

variable (masked : Bool) (o : ByteOrder) {width : PacketNumberLen}

theorem writeNumber_eq {n : Nat} (h : n < 256 ^ width.toNat) :
    writeNumber masked o width n = some (o.bytes width.toNat n) := by
  refine if_neg fun hbig => ?_
  obtain ⟨rfl, -, hle⟩ := hbig
  exact Nat.lt_irrefl _ (Nat.lt_of_lt_of_le h hle)

theorem writeRange_eq {gap length : Nat} (hgap : 1 ≤ gap) (hlen : length < 256 ^ width.toNat) :
    writeRange masked o width gap length =
      some ((rangeBlocks gap length).flatMap (blockBytes o width)) := by
  have hzero : 0 < 256 ^ width.toNat := Nat.pow_pos (by decide)
  obtain ⟨m, hm⟩ : ∃ m, numBlocks gap = m + 1 := ⟨_, numBlocks_eq hgap⟩
  simp only [writeRange, rangeBlocks, hm, writeNumber_eq masked o hlen,
    writeNumber_eq masked o hzero,
    Option.bind_eq_bind, Option.bind_some, Option.pure_def, Nat.add_sub_cancel, sub64_of_le hgap]
  split
  · next hone =>
    -- A single block, whose gap is at most 255.
    rw [numBlocks_eq hgap] at hm
    have hlow : 1 + (gap - 1) % 255 = gap := by omega
    rw [show m = 0 by omega, hlow]
    simp [blockBytes]
  have hchain : ∀ i, (if i = m then
      some (UInt8.ofNat (1 + (gap - 1) % 255) :: o.bytes width.toNat length)
      else some (0xFF :: o.bytes width.toNat 0)) =
        some (blockBytes o width (if i = m then (1 + (gap - 1) % 255, length) else (255, 0))) := by
    intro i
    split <;> rfl
  have hzeros : ∀ i ∈ range m, blockBytes o width
      (if i = m then (1 + (gap - 1) % 255, length) else (255, 0)) =
        blockBytes o width (255, 0) := by
    intro i hi
    rw [if_neg (Nat.ne_of_lt (mem_range.mp hi))]
  simp only [hchain]
  rw [← Option.pure_def, mapM_pure, range_succ, map_append, map_congr_left hzeros]
  simp [flatMap, blockBytes]

theorem one_le_gap {above r : AckRange} (h : Descends (above.first - 1) (r :: rs)) :
    1 ≤ above.gap r := by
  have hlast := h.1
  rw [AckRange.gap_eq (by omega)]
  omega

theorem one_le_blocksBelow {above : AckRange} (h : Descends (above.first - 1) rs) (hne : rs ≠ []) :
    1 ≤ blocksBelow above rs := by
  cases rs with
  | nil => exact absurd rfl hne
  | cons r rs =>
    rw [blocksBelow, numBlocks_eq (one_le_gap h)]
    omega

theorem blocksBelow_take_le (above : AckRange) (rs : List AckRange) (k : Nat) :
    blocksBelow above (rs.take k) ≤ blocksBelow above rs := by
  induction rs generalizing above k with
  | nil => simp
  | cons r rs ih =>
    cases k with
    | zero => exact Nat.zero_le _
    | succ k => exact Nat.add_le_add_left (ih r k) _

/-- The counter takes the longest prefix of the ranges that keeps below 255 blocks. -/
theorem countBlocks_spec (n : Nat) (above : AckRange) :
    ∃ k ≤ rs.length, countBlocks n above rs = n + blocksBelow above (rs.take k) ∧
      (k < rs.length → 255 ≤ n + blocksBelow above (rs.take (k + 1))) := by
  induction rs generalizing n above with
  | nil => exact ⟨0, Nat.le_refl 0, rfl, fun h => absurd h (Nat.lt_irrefl 0)⟩
  | cons r rs ih =>
    rw [countBlocks]
    split
    · obtain ⟨k, hk, hcount, hmore⟩ := ih (n + numBlocks (above.gap r)) r
      refine ⟨k + 1, Nat.succ_le_succ hk, ?_, fun hlt => ?_⟩
      · rw [hcount, take_succ_cons, blocksBelow, Nat.add_assoc]
      rw [take_succ_cons, blocksBelow, ← Nat.add_assoc]
      exact hmore (Nat.lt_of_succ_lt_succ hlt)
    · next hfull =>
      refine ⟨0, Nat.zero_le _, rfl, fun _ => ?_⟩
      simpa [blocksBelow] using hfull

theorem countBlocks_lt {n : Nat} (h : n < 255) (above : AckRange) (rs : List AckRange) :
    countBlocks n above rs < 255 := by
  induction rs generalizing n above with
  | nil => exact h
  | cons r rs ih =>
    rw [countBlocks]
    split
    · next hfits => exact ih hfits r
    · exact h

/-- The writer stops after the ranges whose blocks were counted. -/
theorem writeRanges_eq {above : AckRange} {k : Nat} (hdesc : Descends (above.first - 1) rs)
    (hlen : ∀ r ∈ rs, r.length < 256 ^ width.toNat) (hk : 1 ≤ k) (hle : k ≤ rs.length)
    (written : Nat) :
    writeRanges masked o width (written + blocksBelow above (rs.take k)) above rs written =
      some ((allBlocks above (rs.take k)).flatMap (blockBytes o width),
        written + blocksBelow above (rs.take k)) := by
  induction rs generalizing above k written with
  | nil => exact absurd (Nat.le_trans hk hle) (by simp)
  | cons r rs ih =>
    obtain ⟨k, rfl⟩ : ∃ k', k = k' + 1 := ⟨k - 1, by omega⟩
    have hblock := writeRange_eq masked o (one_le_gap hdesc) (hlen r mem_cons_self)
    simp only [writeRanges, take_succ_cons, blocksBelow, hblock, bind_eq_bind,
      Option.bind_some, Option.pure_def]
    by_cases hlast : k = 0
    · subst hlast
      simp [blocksBelow, allBlocks]
    have hrest := one_le_blocksBelow (hdesc.2.2.take k) (by
      intro hnil
      have hlength := congrArg length hnil
      rw [length_take, length_nil] at hlength
      simp only [length_cons] at hle
      omega)
    rw [if_neg (by omega), ← Nat.add_assoc, ih hdesc.2.2
      (fun r' hr' => hlen r' (mem_cons_of_mem _ hr')) (by omega) (Nat.le_of_succ_le_succ hle)]
    simp [allBlocks]

end Write

/-! ### What is read back -/

/-- The blocks one after the other. -/
def RangeParser.blocks (st : RangeParser) (bs : List (Nat × Nat)) : RangeParser :=
  bs.foldl (fun st b => st.block b.1 b.2) st

theorem parseRanges_eq {o : ByteOrder} {width : PacketNumberLen} {blocks : List (Nat × Nat)}
    (hb : ∀ b ∈ blocks, b.1 < 256 ∧ b.2 < 256 ^ width.toNat) (st : RangeParser)
    (rest : List UInt8) :
    parseRanges o width.toNat blocks.length st (blocks.flatMap (blockBytes o width) ++ rest) =
      .ok (st.blocks blocks, rest) := by
  induction blocks generalizing st with
  | nil => rfl
  | cons b blocks ih =>
    obtain ⟨hgap, hlen⟩ := hb b mem_cons_self
    have hread := o.readUintN_bytes (blocks.flatMap (blockBytes o width) ++ rest) hlen
    rw [flatMap_cons, blockBytes, cons_append, cons_append, append_assoc, length_cons, parseRanges]
    simp only [readByte, bind, Except.bind, hread, UInt8.toNat_ofNat', Nat.mod_eq_of_lt hgap]
    exact ih (fun b' hb' => hb b' (mem_cons_of_mem _ hb')) _

section Parse

variable {above r : AckRange} {rs : List AckRange} (before : List AckRange) (complete : Bool)

/-- A chain of blocks of length zero has started a range that is still empty. -/
theorem blocks_chain (k : Nat) (hlt : above.first < 2 ^ 48) (hk : 255 * (k + 1) < above.first) :
    blocks ⟨above :: before, false, complete⟩ (replicate (k + 1) (255, 0)) =
      ⟨⟨above.first - 255 * (k + 1), above.first - 255 * (k + 1) - 1⟩ :: above :: before, true,
        false⟩ := by
  induction k with
  | zero =>
    simp only [blocks, Nat.zero_add, Nat.mul_one, replicate_one,
      foldl_cons, foldl_nil, block, Bool.false_eq_true, if_false]
    rw [sub64_of_le (show 255 ≤ above.first by omega),
      sub64_of_le (show 1 ≤ above.first - 255 by omega), sub64_of_le (Nat.zero_le _),
      add64_of_lt (by omega)]
    simp
    omega
  | succ k ih =>
    have hstart := ih (by omega)
    rw [blocks] at hstart
    rw [blocks, replicate_succ', foldl_append, hstart]
    simp only [foldl_cons, foldl_nil, block, if_true]
    rw [add64_of_lt (by omega), sub64_of_le (by omega), sub64_of_le (by omega)]
    simp
    omega

/-- The blocks of a range give the range. -/
theorem blocks_range (hlast : r.last + 1 < above.first) (hle : r.first ≤ r.last)
    (hone : 1 ≤ r.first) (hlt : above.first < 2 ^ 48) :
    blocks ⟨above :: before, false, complete⟩
        (rangeBlocks (above.gap r) r.length) = ⟨r :: above :: before, false, true⟩ := by
  have hgap := AckRange.gap_eq hlast
  have hpos : 1 ≤ above.gap r := by omega
  have hlength := AckRange.length_eq hle hone (by omega)
  generalize hg : above.gap r = gap at hgap hpos
  generalize hl : r.length = length at hlength
  obtain ⟨first, last⟩ := r
  simp only at hlast hle hone hgap hlength
  rw [rangeBlocks, numBlocks_eq hpos, Nat.add_sub_cancel]
  have hsplit : 255 * ((gap - 1) / 255) + (1 + (gap - 1) % 255) = gap := by omega
  generalize (gap - 1) / 255 = k at hsplit
  generalize 1 + (gap - 1) % 255 = low at hsplit
  cases k with
  | zero =>
    simp only [blocks, replicate_zero, nil_append, foldl_cons,
      foldl_nil, block, Bool.false_eq_true, if_false]
    rw [sub64_of_le (show low ≤ above.first by omega),
      sub64_of_le (show 1 ≤ above.first - low by omega),
      sub64_of_le (show length ≤ above.first - low - 1 by omega), add64_of_lt (by omega)]
    simp
    omega
  | succ k =>
    have hchain := blocks_chain before complete k hlt (by omega)
    rw [blocks] at hchain
    rw [blocks, foldl_append, hchain]
    simp only [foldl_cons, foldl_nil, block, if_true]
    rw [add64_of_lt (by omega), sub64_of_le (by omega), sub64_of_le (by omega)]
    simp
    omega

/-- The blocks of the ranges give the ranges. -/
theorem blocks_all (hdesc : Descends (above.first - 1) rs) (hone : ∀ r ∈ rs, 1 ≤ r.first)
    (hlt : above.first < 2 ^ 48) :
    blocks ⟨above :: before, false, complete⟩ (allBlocks above rs) =
      ⟨rs.reverse ++ above :: before, false, complete || !rs.isEmpty⟩ := by
  induction rs generalizing above before complete with
  | nil => simp [blocks, allBlocks]
  | cons r rs ih =>
    obtain ⟨hlast, hle, hrest⟩ := hdesc
    have hr := blocks_range before complete (show r.last + 1 < above.first by omega) hle
      (hone r mem_cons_self) hlt
    have htail := ih (above :: before) true hrest
      (fun r' hr' => hone r' (mem_cons_of_mem _ hr')) (by omega)
    rw [blocks] at hr htail
    rw [blocks, allBlocks, foldl_append, hr, htail]
    simp

end Parse

/-! ### Whole frames -/

theorem getPacketNumberLength_fits {n : Nat} (h : n < 2 ^ 48) :
    n < 256 ^ (getPacketNumberLength n).toNat := by
  rw [getPacketNumberLength]
  split
  · assumption
  split
  · assumption
  · split <;> assumption

theorem le_foldl_max {r : AckRange} (hr : r ∈ rs) (m : Nat) :
    r.length ≤ rs.foldl (fun m r => max m r.length) m := by
  have hstart : ∀ (rs : List AckRange) (m : Nat), m ≤ rs.foldl (fun m r => max m r.length) m := by
    intro rs
    induction rs with
    | nil => exact fun m => Nat.le_refl m
    | cons r rs ih => exact fun m => Nat.le_trans (Nat.le_max_left m r.length) (ih _)
  induction rs generalizing m with
  | nil => exact absurd hr not_mem_nil
  | cons r' rs ih =>
    rcases mem_cons.mp hr with rfl | hr
    · exact Nat.le_trans (Nat.le_max_right m r.length) (hstart rs _)
    · exact ih hr _

theorem Descends.first_le {b : Nat} (h : Descends b rs) (hne : rs ≠ []) {r : AckRange}
    (hr : r ∈ rs) : (rs.getLast hne).first ≤ r.first := by
  induction rs generalizing b with
  | nil => exact absurd rfl hne
  | cons r' rs ih =>
    by_cases hrs : rs = []
    · subst hrs
      obtain rfl := mem_singleton.mp hr
      exact Nat.le_refl _
    · have hlast := (h.2.2.mem (getLast_mem hrs))
      rw [getLast_cons hrs]
      rcases mem_cons.mp hr with rfl | hr
      · omega
      · exact ih h.2.2 hrs hr

theorem consistentRanges_of_descends {b : Nat} (h : Descends b rs) (hb : b ≤ 2 ^ 48) :
    consistentRanges rs = true := by
  induction rs generalizing b with
  | nil => rfl
  | cons above rs ih =>
    cases rs with
    | nil => rfl
    | cons r rs =>
      obtain ⟨hlast, hle, hr, hrle, hrest⟩ := h
      rw [consistentRanges, ih ⟨hr, hrle, hrest⟩ (by omega), add64_of_lt (by omega)]
      simp only [Bool.and_true, Bool.and_eq_true, decide_eq_true_eq]
      omega

namespace AckBlocks

variable {f : AckBlocks} {r : AckRange} {rs : List AckRange}

theorem lt_width {n : Nat} (h : n ≤ f.maxRangeLength) (hlt : n < 2 ^ 48) :
    n < 256 ^ f.getMissingSequenceNumberDeltaLen.toNat := by
  rw [getMissingSequenceNumberDeltaLen]
  split
  · exact Nat.lt_of_le_of_lt (Nat.le_trans h (by assumption)) (by decide)
  split
  · exact Nat.lt_of_le_of_lt (Nat.le_trans h (by assumption)) (by decide)
  split
  · exact Nat.lt_of_le_of_lt (Nat.le_trans h (by assumption)) (by decide)
  · exact hlt

/-- The frame with its highest ranges only. -/
def cut (f : AckBlocks) (r : AckRange) (rs : List AckRange) : AckBlocks :=
  ⟨f.pathID, f.largestAcked, ((r :: rs).getLast (List.cons_ne_nil r rs)).first, r :: rs⟩

theorem validateAckRanges_cut (hdesc : Descends (f.largestAcked + 1) (r :: rs))
    (hlast : r.last = f.largestAcked) (hlt : f.largestAcked < 2 ^ 48) (hne : rs ≠ []) :
    (f.cut r rs).validateAckRanges = true := by
  have hcons := consistentRanges_of_descends hdesc hlt
  have hall : (r :: rs).all (fun r => decide (r.first ≤ r.last)) = true :=
    all_eq_true.mpr fun r' hr' => decide_eq_true (hdesc.mem hr').1
  cases rs with
  | nil => exact absurd rfl hne
  | cons r' rs =>
    rw [validateAckRanges]
    simp only [cut, hlast, decide_true, Bool.true_and, Bool.and_eq_true]
    exact ⟨hall, hcons⟩

/-- With ranges, the acknowledged packets are those of the ranges. -/
theorem acksPacket_cut (hdesc : Descends (f.largestAcked + 1) (r :: rs)) (p : Nat) :
    (f.cut r rs).acksPacket p = true ↔ ∃ r' ∈ r :: rs, r'.first ≤ p ∧ p ≤ r'.last := by
  have hrange : ∀ r' ∈ r :: rs, r'.first ≤ p → p ≤ r'.last →
      ¬ (p < (f.cut r rs).lowestAcked ∨ (f.cut r rs).largestAcked < p) := by
    intro r' hr' hfirst hlast
    have hlow := hdesc.first_le (cons_ne_nil r rs) hr'
    have hhigh := (hdesc.mem hr').2
    simp only [cut]
    omega
  rw [acksPacket]
  constructor
  · intro h
    split at h
    · cases h
    · simpa [hasMissingRanges, cut] using h
  · rintro ⟨r', hr', hfirst, hlast⟩
    rw [if_neg (hrange r' hr' hfirst hlast), if_pos (by simp [hasMissingRanges, cut])]
    exact any_eq_true.mpr ⟨r', hr', decide_eq_true ⟨hfirst, hlast⟩⟩

section Ranges

variable (hf : f.WellFormed) (hrs : f.ackRanges = r :: rs)

include hf hrs

theorem WellFormed.one_le_first {r' : AckRange} (hr' : r' ∈ r :: rs) : 1 ≤ r'.first := by
  obtain ⟨-, hdesc, -, hlow⟩ := hf.ranges r rs hrs
  have hle := hdesc.first_le (cons_ne_nil r rs) hr'
  have hone := hf.one_le
  omega

theorem WellFormed.length_lt {r' : AckRange} (hr' : r' ∈ r :: rs) :
    r'.length < 256 ^ f.getMissingSequenceNumberDeltaLen.toNat := by
  obtain ⟨-, hdesc, -, -⟩ := hf.ranges r rs hrs
  obtain ⟨hle, hlast⟩ := hdesc.mem hr'
  have hone := hf.one_le_first hrs hr'
  have hlt := hf.lt
  refine lt_width ?_ (by rw [AckRange.length_eq hle hone (by omega)]; omega)
  rw [maxRangeLength, if_pos (by simp [hasMissingRanges, hrs]), hrs]
  exact le_foldl_max hr' 0

/-- The ranges that are written: more than the first one if and only if the first gap fits. -/
theorem WellFormed.count : ∃ k ≤ rs.length,
    f.numWritableNackRanges = 1 + blocksBelow r (rs.take k) ∧
      blocksBelow r (rs.take k) < 255 ∧ (k < rs.length → 255 < f.blocksNeeded) ∧
      (f.FirstGapFits ↔ 1 ≤ k) := by
  obtain ⟨hne, hdesc, -, -⟩ := hf.ranges r rs hrs
  obtain ⟨k, hk, hcount, hmore⟩ := countBlocks_spec 0 r
  have hlt := countBlocks_lt (show 0 < 255 by decide) r rs
  rw [Nat.zero_add] at hcount
  refine ⟨k, hk, ?_, by omega, fun hshort => ?_, ?_⟩
  · rw [numWritableNackRanges, hrs]
    simp only
    omega
  · have htaken := hmore hshort
    have htotal := blocksBelow_take_le r rs (k + 1)
    rw [blocksNeeded, hrs]
    simp only
    omega
  obtain ⟨r', rest, rfl⟩ := exists_cons_of_ne_nil hne
  have hgap := one_le_gap hdesc.2.2
  have hnum := numBlocks_eq hgap
  constructor
  · intro hfits
    have hsmall := hfits r r' rest hrs
    by_contra hzero
    obtain rfl : k = 0 := by omega
    have hfull := hmore (by simp)
    simp only [take_succ_cons, take_zero, blocksBelow] at hfull
    omega
  · intro hone above r'' rest' heq
    cases hrs.symm.trans heq
    have hfirst := blocksBelow_take_le r ((r' :: rest).take k) 1
    rw [take_take, Nat.min_eq_left hone] at hfirst
    simp only [take_succ_cons, take_zero, blocksBelow] at hfirst
    omega

end Ranges

/-- The number of blocks and the blocks are written, and read back as a frame that
reports what `f` does. -/
def BlocksReturn (f : AckBlocks) (masked : Bool) (o : ByteOrder) (rest : List UInt8) : Prop :=
  ∃ (n : UInt8) (blocks : List UInt8) (f' : AckBlocks),
    f.writeNumRanges = some (if f.hasMissingRanges then [n] else []) ∧
      (if f.hasMissingRanges then n else 0) = n ∧
      ¬ (f.hasMissingRanges = true ∧ n = 0) ∧ f.writeBlocks masked o = some (.ok blocks) ∧
      parseBlocks o f.pathID f.hasMissingRanges n.toNat f.largestAcked
        f.getMissingSequenceNumberDeltaLen.toNat (blocks ++ rest) = .ok (f', rest) ∧
      f.SurvivesAs f'

theorem WellFormed.blocksReturn_nil (hf : f.WellFormed) (hrs : f.ackRanges = []) (masked : Bool)
    (o : ByteOrder) (rest : List UInt8) : f.BlocksReturn masked o rest := by
  have hlt := hf.lt
  have hone := hf.one_le
  have hle := hf.le
  have hmissing : f.hasMissingRanges = false := by simp [hasMissingRanges, hrs]
  have hlen : add64 (sub64 f.largestAcked f.lowestAcked) 1 =
      f.largestAcked - f.lowestAcked + 1 := by
    rw [sub64_of_le hle, add64_of_lt (by omega)]
  have hwidth : f.largestAcked - f.lowestAcked + 1 <
      256 ^ f.getMissingSequenceNumberDeltaLen.toNat := by
    refine lt_width (Nat.le_of_eq ?_) (by omega)
    rw [maxRangeLength, hmissing, hlen]
    rfl
  have hwrite : f.writeBlocks masked o = some (.ok
      (o.bytes f.getMissingSequenceNumberDeltaLen.toNat (f.largestAcked - f.lowestAcked + 1))) := by
    rw [writeBlocks, hrs]
    simp only [hlen, writeNumber_eq masked o hwidth, Option.bind_eq_bind, Option.bind_some,
      Option.pure_def]
  have hread := o.readUintN_bytes rest hwidth
  have hlow : sub64 (add64 f.largestAcked 1) (f.largestAcked - f.lowestAcked + 1) =
      f.lowestAcked := by
    rw [add64_of_lt (by omega), sub64_of_le (by omega)]
    omega
  have hframe : AckBlocks.mk f.pathID f.largestAcked f.lowestAcked [] = f := by rw [← hrs]
  have hvalid : f.validateAckRanges = true := by rw [validateAckRanges, hrs]
  refine ⟨0, _, f, by simp [writeNumRanges, hmissing], by simp, by simp [hmissing], hwrite, ?_, rfl,
    rfl, .inl fun _ => rfl⟩
  simp only [parseBlocks, hread, bind, Except.bind, hmissing]
  rw [if_neg (by omega), if_neg (by omega)]
  simp only [pure, Except.pure, Bool.false_eq_true, if_false,
    if_neg (show f.largestAcked ≠ 0 by omega), hlow, hframe, hvalid, if_true]

section Ranges

variable (hf : f.WellFormed) (hrs : f.ackRanges = r :: rs)

include hf hrs

/-- The blocks of the first `k` ranges below the first are read back as these ranges. -/
theorem WellFormed.parseBlocks_eq {k : Nat} (hk : 1 ≤ k) (o : ByteOrder) (rest : List UInt8) :
    parseBlocks o f.pathID true (blocksBelow r (rs.take k)) f.largestAcked
        f.getMissingSequenceNumberDeltaLen.toNat
        (o.bytes f.getMissingSequenceNumberDeltaLen.toNat r.length ++
          (allBlocks r (rs.take k)).flatMap (blockBytes o f.getMissingSequenceNumberDeltaLen) ++
          rest) = .ok (f.cut r (rs.take k), rest) := by
  have hlt := hf.lt
  obtain ⟨hne, hdesc, hlast, -⟩ := hf.ranges r rs hrs
  have htake : rs.take k ≠ [] := by
    rw [ne_eq, take_eq_nil_iff, not_or]
    exact ⟨by omega, hne⟩
  have hdesc' : Descends (f.largestAcked + 1) (r :: rs.take k) := hdesc.take (k + 1)
  have hrle := hdesc.2.1
  have hone := hf.one_le_first hrs mem_cons_self
  have hlength := AckRange.length_eq hrle hone (by omega)
  have hfirst : (⟨add64 (f.largestAcked - r.length) 1, f.largestAcked⟩ : AckRange) = r := by
    rw [add64_of_lt (by omega), ← hlast, hlength]
    obtain ⟨first, last⟩ := r
    simp only [AckRange.mk.injEq, and_true] at hrle hone ⊢
    omega
  have hread := o.readUintN_bytes ((allBlocks r (rs.take k)).flatMap
    (blockBytes o f.getMissingSequenceNumberDeltaLen) ++ rest) (hf.length_lt hrs mem_cons_self)
  have hmem : ∀ r' ∈ rs.take k, r' ∈ r :: rs := fun r' hr' =>
    mem_cons_of_mem _ (mem_of_mem_take hr')
  have hranges := parseRanges_eq (o := o) (allBlocks_bound r fun r' hr' =>
    hf.length_lt hrs (hmem r' hr')) ⟨[r], false, false⟩ rest
  rw [allBlocks_length hdesc'.2.2, blocks_all [] false hdesc'.2.2
    (fun r' hr' => hf.one_le_first hrs (hmem r' hr')) (by omega)] at hranges
  have hcomplete : (false || !(rs.take k).isEmpty) = true := by simpa using htake
  have hreverse : (rs.take k).reverse ++ [r] = (r :: rs.take k).reverse := by simp
  rw [append_assoc]
  simp only [parseBlocks, hread, bind, Except.bind]
  rw [if_neg (by omega), if_neg (by omega), hfirst]
  simp only [pure, Except.pure, if_true, hranges, hcomplete, hreverse, head?_reverse,
    reverse_reverse, getLast?_eq_some_getLast (cons_ne_nil r (rs.take k)), map_some, getD_some]
  exact if_pos (validateAckRanges_cut hdesc' hlast hlt htake)

theorem WellFormed.blocksReturn_cons (hfits : f.FirstGapFits) (masked : Bool)
    (o : ByteOrder) (rest : List UInt8) : f.BlocksReturn masked o rest := by
  have hlt := hf.lt
  have hmissing : f.hasMissingRanges = true := by simp [hasMissingRanges, hrs]
  obtain ⟨hne, hdesc, hlast, hlow⟩ := hf.ranges r rs hrs
  obtain ⟨k, hk, hcount, hsmall, hcut, hiff⟩ := hf.count hrs
  have hkone := hiff.mp hfits
  have hpos := one_le_blocksBelow (hdesc.2.2.take k) (by
    rw [ne_eq, take_eq_nil_iff, not_or]
    exact ⟨by omega, hne⟩)
  have hnum : (UInt8.ofNat (blocksBelow r (rs.take k))).toNat = blocksBelow r (rs.take k) := by
    rw [UInt8.toNat_ofNat', Nat.mod_eq_of_lt (by omega)]
  have hlen : add64 (sub64 f.largestAcked r.first) 1 = r.length := by
    rw [← hlast, AckRange.length]
  have hwrite : f.writeBlocks masked o = some (.ok
      (o.bytes f.getMissingSequenceNumberDeltaLen.toNat r.length ++
        (allBlocks r (rs.take k)).flatMap (blockBytes o f.getMissingSequenceNumberDeltaLen))) := by
    have hranges := writeRanges_eq masked o hdesc.2.2
      (fun r' hr' => hf.length_lt hrs (mem_cons_of_mem _ hr')) hkone hk 1
    rw [writeBlocks, hrs]
    simp only [Option.bind_eq_bind, Option.pure_def, hlast, ne_eq, not_true_eq_false, if_false,
      hlow, hlen, writeNumber_eq masked o (hf.length_lt hrs mem_cons_self), Option.bind_some,
      hcount, hranges]
  refine ⟨UInt8.ofNat (blocksBelow r (rs.take k)), _, f.cut r (rs.take k), ?_, if_pos hmissing, ?_,
    hwrite, ?_, rfl, rfl, ?_⟩
  · rw [writeNumRanges, hmissing, if_pos rfl, if_neg (by omega), if_pos rfl, hcount,
      Nat.add_sub_cancel_left]
  · rintro ⟨-, hzero⟩
    rw [hzero, UInt8.toNat_zero] at hnum
    omega
  · rw [hnum, hmissing]
    exact hf.parseBlocks_eq hrs hkone o rest
  · -- All ranges are there, or the rest of them did not fit.
    rcases Nat.eq_or_lt_of_le hk with rfl | hshort
    · left
      have hself : f.cut r (rs.take rs.length) = f := by
        rw [take_length, cut, hlow, ← hrs]
      rw [hself]
      exact fun _ => rfl
    · right
      refine ⟨hcut hshort, k + 1, by omega, by rw [hrs, length_cons]; omega, fun p => ?_⟩
      rw [hrs, take_succ_cons]
      exact acksPacket_cut (hdesc.take (k + 1)) p

/-- A first gap that does not fit is counted as nothing and written. -/
theorem WellFormed.writeBlocks_error (hfits : ¬ f.FirstGapFits) (masked : Bool) (o : ByteOrder) :
    f.writeBlocks masked o = some (.error .inconsistentNumberOfRanges) := by
  obtain ⟨hne, hdesc, hlast, hlow⟩ := hf.ranges r rs hrs
  obtain ⟨k, -, hcount, -, -, hiff⟩ := hf.count hrs
  obtain rfl : k = 0 := by
    by_contra hk
    exact hfits (hiff.mpr (by omega))
  obtain ⟨r', rest, rfl⟩ := exists_cons_of_ne_nil hne
  have hgap := one_le_gap hdesc.2.2
  have hnum := numBlocks_eq hgap
  have hlen : add64 (sub64 f.largestAcked r.first) 1 = r.length := by
    rw [← hlast, AckRange.length]
  have hblock := writeRange_eq masked o hgap (hf.length_lt hrs (mem_cons_of_mem r mem_cons_self))
  rw [writeBlocks, hrs]
  simp only [Option.bind_eq_bind, Option.pure_def, hlast, ne_eq, not_true_eq_false, if_false,
    hlow, hlen, writeNumber_eq masked o (hf.length_lt hrs mem_cons_self), bind_some,
    hcount, take_zero, blocksBelow, Nat.add_zero, writeRanges, hblock]
  rw [if_pos (by omega), Option.bind_some, if_pos (by omega)]

end Ranges

end AckBlocks

/-! ### The two frames -/

/-- The parser finds the widths and flags of the type byte. -/
theorem ackTypeByte_bits (largest delta : PacketNumberLen) (missing path : Bool) :
    let b := ackTypeByte largest delta missing path
    widthOf ((b &&& 0x0C) >>> 2) = largest.toNat ∧ widthOf (b &&& 0x03) = delta.toNat ∧
      (b &&& 0x20 == 0x20) = missing ∧ (b &&& 0x10 == 0x10) = path := by
  cases largest <;> cases delta <;> cases missing <;> cases path <;> decide

theorem closePathFlags_bits (largest delta : PacketNumberLen) (missing : Bool) :
    let b := closePathFlags largest delta missing
    widthOf ((b &&& 0x0C) >>> 2) = largest.toNat ∧ widthOf (b &&& 0x03) = delta.toNat ∧
      (b &&& 0x10 == 0x10) = missing := by
  cases largest <;> cases delta <;> cases missing <;> decide

/-- A byte that is written and read under the same condition. -/
theorem readByteIf_append (c : Bool) (b : UInt8) (bs : List UInt8) :
    readByteIf c ((if c then [b] else []) ++ bs) = .ok (if c then b else 0, bs) := by
  cases c <;> rfl

/-- An ACK frame is written and read back as a frame that reports the same. -/
def AckFrame.Survives (o : ByteOrder) (delay : Nat) (rest : List UInt8) (f : AckFrame) : Prop :=
  ∃ bs f', f.write o delay = some (.ok bs) ∧ parseAckFrame o (bs ++ rest) = .ok (f', rest) ∧
    f.SurvivesAs f'.toAckBlocks

/-- A CLOSE_PATH frame is written and read back as a frame that reports the same. -/
def ClosePathFrame.Survives (o : ByteOrder) (rest : List UInt8) (f : ClosePathFrame) : Prop :=
  ∃ bs f', f.write o = some (.ok bs) ∧ parseClosePathFrame o (bs ++ rest) = .ok (f', rest) ∧
    f.SurvivesAs f'.toAckBlocks

section Frames

variable {o : ByteOrder} {rest : List UInt8}

theorem AckFrame.survives_of {f : AckFrame} {delay : Nat} (hlt : f.largestAcked < 2 ^ 48)
    (h : f.BlocksReturn true o (0 :: rest)) : f.Survives o delay rest := by
  obtain ⟨n, blocks, f', hnum, hsame, hn, hblocks, hparse, hsurvives⟩ := h
  obtain ⟨hlargest, hdelta, hmissing, hpath⟩ := ackTypeByte_bits
    (getPacketNumberLength f.largestAcked) f.getMissingSequenceNumberDeltaLen f.hasMissingRanges
    (f.pathID != 0)
  have hid : (if f.pathID != 0 then f.pathID else 0) = f.pathID := by
    by_cases hzero : f.pathID = 0 <;> simp [hzero]
  have hread := fun tail => o.readUintN_bytes tail (getPacketNumberLength_fits hlt)
  have hdelay := fun tail => o.readUfloat16_bytes tail (ufloat16_lt delay)
  refine ⟨_, ⟨f', ofUfloat16 (ufloat16 delay) * 1000⟩, by
    simp only [write, hnum, hblocks, bind_eq_bind, bind_some]
    rfl, ?_, hsurvives⟩
  simp only [cons_append, append_assoc, nil_append, parseAckFrame, readByte, bind,
    Except.bind, hlargest, hdelta, hmissing, hpath, readByteIf_append, hid, hread, hdelay, hsame,
    if_neg hn, hparse]
  rfl

theorem ClosePathFrame.survives_of {f : ClosePathFrame} (hlt : f.largestAcked < 2 ^ 48)
    (h : f.BlocksReturn false o rest) : f.Survives o rest := by
  obtain ⟨n, blocks, f', hnum, hsame, hn, hblocks, hparse, hsurvives⟩ := h
  obtain ⟨hlargest, hdelta, hmissing⟩ := closePathFlags_bits
    (getPacketNumberLength f.largestAcked) f.getMissingSequenceNumberDeltaLen f.hasMissingRanges
  have hfits := getPacketNumberLength_fits hlt
  have hread := fun tail => o.readUintN_bytes tail hfits
  refine ⟨_, ⟨f'⟩, by
    simp only [write, hnum, hblocks, writeNumber_eq false o hfits, bind_eq_bind, bind_some]
    rfl, ?_, hsurvives⟩
  simp only [cons_append, append_assoc, parseClosePathFrame, readByte, bind, Except.bind,
    hlargest, hdelta, hmissing, readByteIf_append, hread, hsame, if_neg hn, hparse]
  rfl

end Frames

theorem AckBlocks.WellFormed.blocksReturn {f : AckBlocks} (hf : f.WellFormed)
    (hfits : f.FirstGapFits)
    (masked : Bool) (o : ByteOrder) (rest : List UInt8) : f.BlocksReturn masked o rest := by
  cases hrs : f.ackRanges with
  | nil => exact hf.blocksReturn_nil hrs masked o rest
  | cons r rs => exact hf.blocksReturn_cons hrs hfits masked o rest

theorem AckBlocks.WellFormed.firstGapFits {f : AckBlocks} (hf : f.WellFormed) {masked : Bool}
    {o : ByteOrder} {bs : List UInt8} (h : f.writeBlocks masked o = some (.ok bs)) :
    f.FirstGapFits := by
  by_contra hfits
  cases hrs : f.ackRanges with
  | nil => exact hfits fun above r rs heq => absurd (hrs.symm.trans heq) (by simp)
  | cons r rs =>
    rw [hf.writeBlocks_error hrs hfits] at h
    cases h

theorem AckFrame.blocks_of_write {f : AckFrame} {o : ByteOrder} {delay : Nat} {bs : List UInt8}
    (h : f.write o delay = some (.ok bs)) : ∃ blocks, f.writeBlocks true o = some (.ok blocks) := by
  simp only [write, bind_eq_bind, bind_eq_some_iff] at h
  obtain ⟨_, _, r, hblocks, hr⟩ := h
  cases r with
  | error e => cases hr
  | ok blocks => exact ⟨blocks, hblocks⟩

theorem ClosePathFrame.blocks_of_write {f : ClosePathFrame} {o : ByteOrder} {bs : List UInt8}
    (h : f.write o = some (.ok bs)) : ∃ blocks, f.writeBlocks false o = some (.ok blocks) := by
  simp only [write, bind_eq_bind, bind_eq_some_iff] at h
  obtain ⟨_, _, _, _, r, hblocks, hr⟩ := h
  cases r with
  | error e => cases hr
  | ok blocks => exact ⟨blocks, hblocks⟩

/-- **ACK and CLOSE_PATH frames survive the wire exactly if the first gap fits.** For both
byte orders, every well-formed frame, every delay and every following input: the frame is
written and read back with the same path and largest number, and with the same
acknowledged packets or, if more than 255 blocks are needed, those of its highest ranges,
if and only if the gap below its first range has at most `254 * 255` packets. -/
theorem ack_survives_iff (o : ByteOrder) (rest : List UInt8) :
    (∀ (f : AckFrame) (delay : Nat), f.WellFormed → (f.Survives o delay rest ↔ f.FirstGapFits)) ∧
      ∀ f : ClosePathFrame, f.WellFormed → (f.Survives o rest ↔ f.FirstGapFits) := by
  refine ⟨fun f delay hf => ⟨?_, fun hfits => ?_⟩, fun f hf => ⟨?_, fun hfits => ?_⟩⟩
  · rintro ⟨bs, f', hwrite, -⟩
    obtain ⟨blocks, hblocks⟩ := AckFrame.blocks_of_write hwrite
    exact hf.firstGapFits hblocks
  · exact AckFrame.survives_of hf.lt (hf.blocksReturn hfits true o (0 :: rest))
  · rintro ⟨bs, f', hwrite, -⟩
    obtain ⟨blocks, hblocks⟩ := ClosePathFrame.blocks_of_write hwrite
    exact hf.firstGapFits hblocks
  · exact ClosePathFrame.survives_of hf.lt (hf.blocksReturn hfits false o rest)

/-- Three ranges with small gaps. -/
theorem ack_survives_three_ranges :
    (⟨⟨3, 900, 5, [⟨800, 900⟩, ⟨300, 301⟩, ⟨5, 5⟩]⟩, 0⟩ : AckFrame).Survives .littleEndian 70 [9] ∧
      (⟨⟨3, 900, 5, [⟨800, 900⟩, ⟨300, 301⟩, ⟨5, 5⟩]⟩⟩ : ClosePathFrame).Survives
        .bigEndian [9] := by
  have hf : (⟨3, 900, 5, [⟨800, 900⟩, ⟨300, 301⟩, ⟨5, 5⟩]⟩ : AckBlocks).WellFormed := by
    refine ⟨by decide, by decide, by decide, ?_⟩
    rintro r rs ⟨⟩
    exact ⟨cons_ne_nil _ _, ⟨by decide, by decide, by decide, by decide, by decide, by decide,
      trivial⟩, rfl, rfl⟩
  have hgap : (⟨3, 900, 5, [⟨800, 900⟩, ⟨300, 301⟩, ⟨5, 5⟩]⟩ : AckBlocks).FirstGapFits := by
    rintro above r rs ⟨⟩
    decide
  exact ⟨((ack_survives_iff .littleEndian [9]).1 _ 70 hf).mpr hgap,
    ((ack_survives_iff .bigEndian [9]).2 _ hf).mpr hgap⟩

/-- Packets 1 and 64773 were received and the 64771 packets between them were not: the gap
needs 255 blocks, and the writers refuse the well-formed frames. -/
theorem ack_long_gap_refused :
    (⟨1, 64773, 1, [⟨64773, 64773⟩, ⟨1, 1⟩]⟩ : AckBlocks).WellFormed ∧
      AckFrame.write .bigEndian 0 ⟨⟨1, 64773, 1, [⟨64773, 64773⟩, ⟨1, 1⟩]⟩, 0⟩ =
        some (.error .inconsistentNumberOfRanges) ∧
      ClosePathFrame.write .bigEndian ⟨⟨1, 64773, 1, [⟨64773, 64773⟩, ⟨1, 1⟩]⟩⟩ =
        some (.error .inconsistentNumberOfRanges) := by
  refine ⟨⟨by decide, by decide, by decide, ?_⟩, by decide +kernel, by decide +kernel⟩
  rintro r rs ⟨⟩
  exact ⟨cons_ne_nil _ _, ⟨by decide, by decide, by decide, by decide, trivial⟩, rfl, rfl⟩

end RlncStreaming.Quic
