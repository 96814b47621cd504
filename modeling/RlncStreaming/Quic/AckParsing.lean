import RlncStreaming.Lib.Items
import RlncStreaming.Quic.AckWire

/-!
What the parsers of ACK and CLOSE_PATH frames accept.

A block moves a range down by numbers that the peer chooses, in 64-bit arithmetic, and the
ranges are checked at the end only. A range is never longer than a block can say
(`AckRange.Bounded`), so one that has wrapped below zero starts above the range that it
should follow, and the final check finds it: the ranges of an accepted frame descend from
the largest number to the lowest (`parsed_ranges_proper`).
-/

namespace RlncStreaming.Quic

open Lib List

/-! ### 64-bit ranges -/

theorem sub64_eq_mod {a b : Nat} (ha : a < 2 ^ 64) (hb : b < 2 ^ 64) :
    sub64 a b = (a + (2 ^ 64 - b)) % 2 ^ 64 := by
  rw [sub64]
  split <;> omega

theorem sub64_lt {a b : Nat} (ha : a < 2 ^ 64) (hb : b < 2 ^ 64) : sub64 a b < 2 ^ 64 := by
  rw [sub64_eq_mod ha hb]
  exact Nat.mod_lt _ (by decide)

theorem add64_lt (a b : Nat) : add64 a b < 2 ^ 64 := Nat.mod_lt _ (by decide)

/-- A range of length zero, moved down and extended by `n`. -/
theorem length_moved {f l g n : Nat} (hf : f < 2 ^ 64) (hl : l < 2 ^ 64) (hg : g < 256)
    (hn : n < 2 ^ 48) (hzero : add64 (sub64 l f) 1 = 0) :
    add64 (sub64 (sub64 l g) (sub64 f (add64 g n))) 1 = n := by
  rw [sub64_eq_mod hl hf, add64] at hzero
  rw [add64_of_lt (show g + n < 2 ^ 64 by omega), sub64_eq_mod hl (by omega),
    sub64_eq_mod hf (by omega), sub64_eq_mod (Nat.mod_lt _ (by decide)) (Nat.mod_lt _ (by decide)),
    add64]
  omega

/-- A range of length `n` that ends at `l`. -/
theorem length_started {l n : Nat} (hl : l < 2 ^ 64) (hn : n < 2 ^ 48) :
    add64 (sub64 l (add64 (sub64 l n) 1)) 1 = n := by
  rw [sub64_eq_mod hl (show n < 2 ^ 64 by omega), add64, add64,
    sub64_eq_mod hl (Nat.mod_lt _ (by decide))]
  omega

/-- A range whose numbers have 64 bits and that is not longer than a block can say. -/
structure AckRange.Bounded (r : AckRange) : Prop where
  first_lt : r.first < 2 ^ 64
  last_lt : r.last < 2 ^ 64
  length_lt : r.length < 2 ^ 48

/-- A range that names packets, or one that the final check refuses. -/
def AckRange.Whole (r : AckRange) : Prop := 0 < r.length ∨ r.last < r.first

/-- In the middle of a chain the newest range has length zero; all others are whole. -/
structure RangeParser.Ok (st : RangeParser) : Prop where
  bounded : ∀ r ∈ st.ranges, r.Bounded
  tail : ∀ r ∈ st.ranges.tail, r.Whole
  chain : ∀ r ∈ st.ranges.head?, st.inLongBlock = true → r.length = 0
  whole : ∀ r ∈ st.ranges.head?, st.inLongBlock = false → r.Whole
  complete : ∀ r ∈ st.ranges.head?, st.lastRangeComplete = true → 0 < r.length

theorem RangeParser.Ok.block {st : RangeParser} (h : st.Ok) {gap length : Nat} (hgap : gap < 256)
    (hlength : length < 2 ^ 48) : (st.block gap length).Ok := by
  rw [RangeParser.block]
  split
  · exact h
  rename_i above before hranges
  have hhead : above ∈ st.ranges.head? := by simp [hranges]
  have hmem : ∀ r ∈ above :: before, r.Bounded := fun r hr => h.bounded r (by rwa [hranges])
  have htail : ∀ r ∈ before, r.Whole := fun r hr => h.tail r (by rwa [hranges])
  obtain ⟨hfirst, hlast, -⟩ := hmem above mem_cons_self
  cases hlong : st.inLongBlock with
  | true =>
    have hzero := h.chain above hhead hlong
    have hnew := length_moved hfirst hlast hgap hlength hzero
    have hcomplete := h.complete above hhead
    refine ⟨?_, htail, ?_, ?_, ?_⟩
    · intro r hr
      rcases mem_cons.mp hr with rfl | hr
      · refine ⟨sub64_lt hfirst (add64_lt _ _), sub64_lt hlast (by omega), ?_⟩
        rw [AckRange.length, hnew]
        exact hlength
      · exact hmem r (mem_cons_of_mem _ hr)
    · rintro r ⟨⟩ hblock
      exact hnew.trans (of_decide_eq_true hblock)
    · rintro r ⟨⟩ hblock
      refine .inl ?_
      rw [AckRange.length, hnew]
      exact Nat.pos_of_ne_zero (of_decide_eq_false hblock)
    rintro r ⟨⟩ hdone
    rw [AckRange.length, hnew]
    rcases Bool.or_eq_true_iff.mp hdone with hpos | hold
    · exact of_decide_eq_true hpos
    have := hcomplete (by simpa using hold)
    omega
  | false =>
    have hstop : sub64 (sub64 above.first gap) 1 < 2 ^ 64 :=
      sub64_lt (sub64_lt hfirst (by omega)) (by decide)
    have hnew := length_started hstop hlength
    refine ⟨?_, ?_, ?_, ?_, ?_⟩
    · intro r hr
      rcases mem_cons.mp hr with rfl | hr
      · refine ⟨add64_lt _ _, hstop, ?_⟩
        rw [AckRange.length, hnew]
        exact hlength
      · exact hmem r hr
    · intro r hr
      rcases mem_cons.mp hr with rfl | hr
      · exact h.whole _ hhead hlong
      · exact htail r hr
    · rintro r ⟨⟩ hblock
      exact hnew.trans (of_decide_eq_true hblock)
    · rintro r ⟨⟩ hblock
      refine .inl ?_
      rw [AckRange.length, hnew]
      exact Nat.pos_of_ne_zero (of_decide_eq_false hblock)
    · rintro r ⟨⟩ hdone
      rw [AckRange.length, hnew]
      simpa using hdone

theorem leValue_lt : ∀ bs : List UInt8, leValue bs < 256 ^ bs.length
  | [] => by decide
  | b :: bs => by
    have hb := b.toNat_lt
    have hrest := leValue_lt bs
    rw [leValue, length_cons, Nat.pow_succ']
    omega

variable {o : ByteOrder}

theorem readUintN_lt {k n : Nat} {bs rest : List UInt8} (hk : k ≤ 6)
    (h : o.readUintN k bs = .ok (n, rest)) : n < 2 ^ 48 := by
  rw [ByteOrder.readUintN] at h
  split at h
  · next hlen =>
    cases h
    have hvalue : o.value (bs.take k) < 256 ^ k := by
      have htake : (bs.take k).length = k := length_take_of_le hlen
      have hlittle := leValue_lt (bs.take k)
      have hbig := leValue_lt (bs.take k).reverse
      rw [length_reverse] at hbig
      rw [htake] at hlittle hbig
      cases o with
      | littleEndian => exact hlittle
      | bigEndian => exact hbig
    exact Nat.lt_of_lt_of_le hvalue (Nat.pow_le_pow_right (by decide) hk)
  · cases h

theorem parseRanges_ok {width : Nat} (hwidth : width ≤ 6) {n : Nat} {st st' : RangeParser}
    {bs rest : List UInt8} (hst : st.Ok) (h : parseRanges o width n st bs = .ok (st', rest)) :
    st'.Ok := by
  induction n generalizing st bs with
  | zero =>
    cases h
    exact hst
  | succ n ih =>
    simp only [parseRanges, bind_eq_ok, Prod.exists] at h
    obtain ⟨gap, _, -, length, _, hlength, hrest⟩ := h
    exact ih (hst.block gap.toNat_lt (readUintN_lt hwidth hlength)) hrest

theorem Descends.pairwise {b : Nat} {rs : List AckRange} (h : Descends b rs) :
    rs.Pairwise fun above r => r.last + 1 < above.first := by
  induction rs generalizing b with
  | nil => exact .nil
  | cons r rs ih =>
    obtain ⟨-, -, hrest⟩ := h
    refine .cons (fun q hq => ?_) (ih hrest)
    have hlast := (hrest.mem hq).2
    omega

/-- Ranges that pass the parser's checks descend: with lengths below `2 ^ 48` no number has
wrapped. -/
theorem descends_of_consistent {rs : List AckRange} {b : Nat} (hb : b ≤ 2 ^ 48)
    (hrs : ∀ r ∈ rs, r.Bounded ∧ 0 < r.length ∧ r.first ≤ r.last)
    (hcons : consistentRanges rs = true) (hhead : ∀ r ∈ rs.head?, r.last < b) :
    Descends b rs := by
  induction rs generalizing b with
  | nil => trivial
  | cons above rs ih =>
    obtain ⟨-, -, hle⟩ := hrs above mem_cons_self
    have hlast : above.last < b := hhead above rfl
    refine ⟨hlast, hle, ?_⟩
    cases rs with
    | nil => trivial
    | cons r rs =>
      rw [consistentRanges, Bool.and_eq_true, Bool.and_eq_true, decide_eq_true_eq,
        decide_eq_true_eq] at hcons
      obtain ⟨⟨hfirst, hgap⟩, hrest⟩ := hcons
      refine ih (by omega) (fun r' hr' => hrs r' (mem_cons_of_mem _ hr')) hrest ?_
      rintro r' ⟨⟩
      obtain ⟨⟨hf, hl, hlen⟩, hpos, hrle⟩ := hrs r (by simp)
      rw [AckRange.length, sub64_of_le hrle, add64] at hlen hpos
      rw [add64] at hgap
      omega

/-- The ranges of a frame descend from the largest number to the lowest. -/
def AckBlocks.Ordered (f : AckBlocks) : Prop :=
  ∀ r rs, f.ackRanges = r :: rs → Descends (f.largestAcked + 1) (r :: rs) ∧
    r.last = f.largestAcked ∧ ((r :: rs).getLast (List.cons_ne_nil r rs)).first = f.lowestAcked

variable {f : AckBlocks}

theorem AckBlocks.ordered_of_validate (hlargest : f.largestAcked < 2 ^ 48)
    (hranges : ∀ r ∈ f.ackRanges, r.Bounded ∧ r.Whole)
    (hlowest : ∀ r ∈ f.ackRanges.getLast?, r.first = f.lowestAcked)
    (hvalid : f.validateAckRanges = true) : f.Ordered := by
  intro r rs hrs
  rw [hrs] at hranges hlowest
  cases rs with
  | nil =>
    rw [validateAckRanges, hrs] at hvalid
    cases hvalid
  | cons r' rs =>
    simp only [validateAckRanges, hrs, Bool.and_eq_true, decide_eq_true_eq] at hvalid
    obtain ⟨⟨hlast, hall⟩, hcons⟩ := hvalid
    refine ⟨descends_of_consistent (by omega) ?_ hcons ?_, hlast,
      hlowest _ (getLast?_eq_getLast_of_ne_nil (cons_ne_nil r _))⟩
    · intro q hq
      obtain ⟨hbounded, hwhole⟩ := hranges q hq
      have hle : q.first ≤ q.last := of_decide_eq_true (all_eq_true.mp hall q hq)
      exact ⟨hbounded, hwhole.resolve_right (by omega), hle⟩
    · rintro q ⟨⟩
      omega

theorem RangeParser.ok_new {largest length : Nat} (hlargest : largest < 2 ^ 48)
    (hlength : length ≤ largest) (hpos : 0 < largest → 0 < length) :
    (RangeParser.mk [⟨add64 (largest - length) 1, largest⟩] false false).Ok := by
  have hnew : (AckRange.mk (add64 (largest - length) 1) largest).length = length := by
    have hstarted := length_started (l := largest) (n := length) (by omega) (by omega)
    rwa [sub64_of_le hlength] at hstarted
  refine ⟨?_, by simp, by simp, ?_, by simp⟩
  · intro r hr
    obtain rfl := mem_singleton.mp hr
    exact ⟨add64_lt _ _, by simp only; omega, by rw [hnew]; omega⟩
  rintro r ⟨⟩ -
  rcases Nat.eq_zero_or_pos length with rfl | hlen
  · -- Only the frame whose largest number is zero announces an empty first range.
    obtain rfl : largest = 0 := by omega
    exact .inr (by decide)
  · exact .inl (hnew.symm ▸ hlen)

theorem RangeParser.Ok.ranges {st : RangeParser} (h : st.Ok) :
    ∀ r ∈ if st.lastRangeComplete then st.ranges else st.ranges.tail, r.Bounded ∧ r.Whole := by
  intro r hr
  split at hr
  · next hdone =>
    refine ⟨h.bounded r hr, ?_⟩
    cases hranges : st.ranges with
    | nil =>
      rw [hranges] at hr
      cases hr
    | cons above before =>
      rw [hranges] at hr
      rcases mem_cons.mp hr with rfl | hmem
      · exact .inl (h.complete r (by rw [hranges]; rfl) hdone)
      · exact h.tail r (by rwa [hranges])
  · exact ⟨h.bounded r (mem_of_mem_tail hr), h.tail r hr⟩

/-- What holds of a frame when its blocks are read. -/
theorem parseBlocks_spec {pathID : UInt8} {missing : Bool} {n largest width : Nat}
    {bs rest : List UInt8} (hwidth : width ≤ 6) (hlargest : largest < 2 ^ 48)
    (h : parseBlocks o pathID missing n largest width bs = .ok (f, rest)) :
    f.Ordered ∧ f.validateAckRanges = true ∧
      (f.ackRanges = [] → f.lowestAcked ≤ f.largestAcked) := by
  have hchecked : ∀ {frame f : AckBlocks} {bs rest : List UInt8},
      (if frame.validateAckRanges then pure (frame, bs) else throw .invalidAckRanges :
        Except WireError (AckBlocks × List UInt8)) = .ok (f, rest) →
      f = frame ∧ f.validateAckRanges = true := by
    intro frame f bs rest h
    split at h
    · next hvalid =>
      cases h
      exact ⟨rfl, hvalid⟩
    · cases h
  simp only [parseBlocks, bind_eq_ok, guard_eq_ok, Prod.exists] at h
  obtain ⟨length, _, -, hpos, hle, h⟩ := h
  have hnew := RangeParser.ok_new hlargest (Nat.not_lt.mp hle) (by omega)
  split at h
  · simp only [bind_eq_ok, pure_eq_ok, Prod.exists, Prod.mk.injEq] at h
    obtain ⟨st, _, hranges, frame, _, ⟨hframe, -⟩, hcheck⟩ := h
    obtain ⟨rfl, hvalid⟩ := hchecked hcheck
    have hall := (parseRanges_ok hwidth hnew hranges).ranges
    generalize (if st.lastRangeComplete = true then st.ranges else st.ranges.tail) =
      ranges at hall hframe
    subst hframe
    refine ⟨AckBlocks.ordered_of_validate hlargest
      (fun r hr => hall r (mem_reverse.mp hr)) ?_ hvalid, hvalid, ?_⟩
    · intro r hr
      simp only [getLast?_reverse] at hr
      simp only [Option.mem_def.mp hr]
      rfl
    · intro hnil
      rw [reverse_eq_nil_iff.mp hnil]
      exact Nat.zero_le _
  · simp only [bind_eq_ok, pure_eq_ok, Prod.exists, Prod.mk.injEq] at h
    obtain ⟨frame, _, ⟨hframe, -⟩, hcheck⟩ := h
    obtain ⟨rfl, hvalid⟩ := hchecked hcheck
    subst hframe
    refine ⟨fun r rs hrs => (cons_ne_nil r rs hrs.symm).elim, hvalid, fun _ => ?_⟩
    simp only
    split
    · exact Nat.zero_le _
    rw [add64_of_lt (by omega), sub64_of_le (by omega)]
    omega

/-! ### Acknowledged packets -/

theorem AckBlocks.acksPacket_iff {n : Nat} (hne : f.ackRanges ≠ []) (hlow : f.lowestAcked ≤ n)
    (hhigh : n ≤ f.largestAcked) :
    f.acksPacket n = true ↔ ∃ r ∈ f.ackRanges, r.first ≤ n ∧ n ≤ r.last := by
  have hmissing : f.hasMissingRanges = true :=
    decide_eq_true (length_pos_iff.mpr hne)
  rw [acksPacket, if_neg (by omega), if_pos hmissing, any_eq_true]
  simp only [decide_eq_true_eq]

theorem AckBlocks.acksPacket_nil {n : Nat} (hnil : f.ackRanges = []) (hlow : f.lowestAcked ≤ n)
    (hhigh : n ≤ f.largestAcked) : f.acksPacket n = true := by
  have hmissing : f.hasMissingRanges = false := by rw [hasMissingRanges, hnil]; rfl
  rw [acksPacket, if_neg (by omega), hmissing]
  exact decide_eq_true ⟨hlow, hhigh⟩

theorem AckBlocks.acksPacket_outside {n : Nat} (h : n < f.lowestAcked ∨ f.largestAcked < n) :
    f.acksPacket n = false := if_pos h

/-! ### The frames -/

theorem widthOf_le {bits : UInt8} (h : bits.toNat ≤ 3) : widthOf bits ≤ 6 := by
  rw [widthOf]
  split <;> omega

theorem widthOf_low (b : UInt8) : widthOf (b &&& 0x03) ≤ 6 := by
  refine widthOf_le ?_
  rw [UInt8.toNat_and]
  exact Nat.and_le_right

theorem widthOf_high (b : UInt8) : widthOf ((b &&& 0x0C) >>> 2) ≤ 6 := by
  refine widthOf_le ?_
  have hand : b.toNat &&& 12 ≤ 12 := Nat.and_le_right
  rw [UInt8.toNat_shiftRight, UInt8.toNat_and, Nat.shiftRight_eq_div_pow]
  change (b.toNat &&& 12) / 4 ≤ 3
  omega

/-- Both parsers end with the blocks, of a width and below a number of at most six bytes. -/
def ReadFromBlocks (o : ByteOrder) (f : AckBlocks) : Prop :=
  ∃ pathID missing n largest width bs rest, width ≤ 6 ∧ largest < 2 ^ 48 ∧
    parseBlocks o pathID missing n largest width bs = .ok (f, rest)

theorem parseClosePathFrame_blocks {bs rest : List UInt8} {f : ClosePathFrame}
    (h : parseClosePathFrame o bs = .ok (f, rest)) : ReadFromBlocks o f.toAckBlocks := by
  simp only [parseClosePathFrame, bind_eq_ok, guard_eq_ok, pure_eq_ok, Prod.exists,
    Prod.mk.injEq] at h
  obtain ⟨_, _, -, _, _, -, flags, _, -, _, _, -, -, _, _, hlargest, _, _, hblocks, rfl, -⟩ := h
  exact ⟨_, _, _, _, _, _, _, widthOf_low flags, readUintN_lt (widthOf_high flags) hlargest,
    hblocks⟩

theorem parseAckFrame_blocks {bs rest : List UInt8} {f : AckFrame}
    (h : parseAckFrame o bs = .ok (f, rest)) : ReadFromBlocks o f.toAckBlocks := by
  simp only [parseAckFrame, bind_eq_ok, guard_eq_ok, pure_eq_ok, Prod.exists, Prod.mk.injEq] at h
  obtain ⟨typeByte, _, -, _, _, -, _, _, hlargest, _, _, -, _, _, -, -, _, _, hblocks,
    _, -, rfl, -⟩ := h
  exact ⟨_, _, _, _, _, _, _, widthOf_low typeByte, readUintN_lt (widthOf_high typeByte) hlargest,
    hblocks⟩

theorem ReadFromBlocks.ordered (h : ReadFromBlocks o f) : f.Ordered := by
  obtain ⟨_, _, _, _, _, _, _, hwidth, hlargest, hblocks⟩ := h
  exact (parseBlocks_spec hwidth hlargest hblocks).1

/-! ### Proper frames -/

namespace AckBlocks

/-- The form of the ranges of a frame. There is no range, or there are at least two of them,
which descend from the largest number to the lowest, with numbers missing in between. -/
structure Proper (f : AckBlocks) : Prop where
  count : f.ackRanges = [] ∨ 2 ≤ f.ackRanges.length
  nonempty : ∀ r ∈ f.ackRanges, r.first ≤ r.last
  descending : f.ackRanges.Pairwise fun above r => r.last + 1 < above.first
  highest : ∀ r ∈ f.ackRanges.head?, r.last = f.largestAcked
  lowest : ∀ r ∈ f.ackRanges.getLast?, r.first = f.lowestAcked
  lowest_le : f.lowestAcked ≤ f.largestAcked
  within : ∀ r ∈ f.ackRanges, r.last ≤ f.largestAcked

theorem Ordered.proper (hf : f.Ordered) (hcount : ∀ r, f.ackRanges ≠ [r])
    (hnil : f.ackRanges = [] → f.lowestAcked ≤ f.largestAcked) : f.Proper := by
  cases hranges : f.ackRanges with
  | nil => constructor <;> simp [hranges, hnil]
  | cons r rs =>
    obtain ⟨hdesc, hhigh, hlow⟩ := hf r rs hranges
    have hlast := hdesc.mem (getLast_mem (cons_ne_nil r rs))
    constructor
    case count =>
      cases rs with
      | nil => exact absurd hranges (hcount r)
      | cons r' rs => exact .inr (by simp [hranges])
    case nonempty => exact fun q hq => (hdesc.mem (hranges ▸ hq)).1
    case descending => exact hranges ▸ hdesc.pairwise
    case highest =>
      rw [hranges]
      rintro q ⟨⟩
      exact hhigh
    case lowest =>
      rw [hranges, getLast?_eq_getLast_of_ne_nil (cons_ne_nil r rs)]
      rintro q ⟨⟩
      exact hlow
    case lowest_le => omega
    case within => exact fun q hq => Nat.le_of_lt_succ (hdesc.mem (hranges ▸ hq)).2

/-- A frame with ranges acknowledges the packets of its ranges. -/
theorem Proper.acksPacket_iff (hf : f.Proper) (hne : f.ackRanges ≠ []) {n : Nat} :
    f.acksPacket n = true ↔ ∃ r ∈ f.ackRanges, r.first ≤ n ∧ n ≤ r.last := by
  have hbounds : ∀ r ∈ f.ackRanges, f.lowestAcked ≤ r.first ∧ r.last ≤ f.largestAcked := by
    intro r hr
    refine ⟨?_, hf.within r hr⟩
    have hlow := hf.lowest _ (getLast?_eq_getLast_of_ne_nil hne)
    obtain ⟨i, hi, rfl⟩ := mem_iff_getElem.mp hr
    rw [getLast_eq_getElem] at hlow
    rcases Nat.lt_or_ge i (f.ackRanges.length - 1) with hlt | hge
    · have hapart := pairwise_iff_getElem.mp hf.descending i _ hi (by omega) hlt
      have hle := hf.nonempty _ (getElem_mem (by omega : f.ackRanges.length - 1 < _))
      omega
    · obtain rfl : i = f.ackRanges.length - 1 := by omega
      exact Nat.le_of_eq hlow.symm
  constructor
  · intro hacks
    by_cases hin : n < f.lowestAcked ∨ f.largestAcked < n
    · rw [acksPacket_outside hin] at hacks
      cases hacks
    · exact (AckBlocks.acksPacket_iff hne (by omega) (by omega)).mp hacks
  · rintro ⟨r, hr, hn⟩
    have hr' := hbounds r hr
    exact (AckBlocks.acksPacket_iff hne (by omega) (by omega)).mpr ⟨r, hr, hn⟩

end AckBlocks

theorem ReadFromBlocks.proper (h : ReadFromBlocks o f) : f.Proper := by
  obtain ⟨_, _, _, _, _, _, _, hwidth, hlargest, hblocks⟩ := h
  obtain ⟨hordered, hvalid, hnil⟩ := parseBlocks_spec hwidth hlargest hblocks
  refine hordered.proper (fun r hr => ?_) hnil
  rw [AckBlocks.validateAckRanges, hr] at hvalid
  cases hvalid

/-- **No malformed range is accepted.** Whatever bytes a peer sends, the ranges of a frame that
is accepted are proper ones; in particular none has wrapped below zero. -/
theorem parsed_ranges_proper (o : ByteOrder) (bs : List UInt8) :
    (∀ f rest, parseAckFrame o bs = .ok (f, rest) → f.toAckBlocks.Proper) ∧
      ∀ f rest, parseClosePathFrame o bs = .ok (f, rest) → f.toAckBlocks.Proper :=
  ⟨fun _ _ h => (parseAckFrame_blocks h).proper, fun _ _ h => (parseClosePathFrame_blocks h).proper⟩

/-- An ACK frame of the packets 2 to 5 and 8 to 10 is accepted. -/
theorem parsed_ranges_two :
    ∃ f, parseAckFrame .bigEndian [0x60, 10, 0, 0, 1, 3, 2, 4, 0] = .ok (f, []) ∧
      f.ackRanges = [⟨8, 10⟩, ⟨2, 5⟩] ∧ f.toAckBlocks.Proper := by
  have hparse : parseAckFrame .bigEndian [0x60, 10, 0, 0, 1, 3, 2, 4, 0] =
      .ok (⟨⟨0, 10, 2, [⟨8, 10⟩, ⟨2, 5⟩]⟩, 0⟩, []) := by decide +kernel
  exact ⟨_, hparse, rfl, (parsed_ranges_proper _ _).1 _ _ hparse⟩

end RlncStreaming.Quic
