import RlncStreaming.Kodr.Data
import RlncStreaming.Lib.Blocks

/-!
Splitting data into pieces, and flattened coded pieces into coded ones (`kodr/data.go`).

The data is padded with zero bytes to a whole number of pieces. The split by a count pads first and
leaves the rest to the split by a size, which comes to the same count again (`ceilDiv_mul_self`).
Both compare their parameter with the length as an `int`. A `uint` from `2 ^ 63` on is negative
then, passes for a small one and ends in a panic; up to there the split is lossless
(`splitting_lossless`).

A split for recoding finds the length of a coded piece by a division. It gives back what was
flattened; but the count zero is not checked before, and a negative one only by the allocation
(`recoding_split_iff`).
-/

namespace RlncStreaming.Kodr

open Lib List CodedPiece

/-! ### Rounding up -/

section

variable (a : Nat) {b : Nat} (hb : 0 < b)

include hb

theorem le_ceilDiv_mul : a ≤ ceilDiv a b * b := by
  have hlt : a + b - 1 < b * ((a + b - 1) / b + 1) := Nat.lt_mul_div_succ _ hb
  unfold ceilDiv
  rw [Nat.mul_succ, Nat.mul_comm] at hlt
  omega

theorem ceilDiv_mul_lt : ceilDiv a b * b < a + b := by
  have hle : (a + b - 1) / b * b ≤ a + b - 1 := Nat.div_mul_le_self _ _
  unfold ceilDiv
  omega

theorem ceilDiv_mul_self : ceilDiv (a * b) b = a := by
  unfold ceilDiv
  rw [Nat.add_sub_assoc hb, Nat.mul_comm, Nat.mul_add_div hb, Nat.div_eq_of_lt (by omega),
    Nat.add_zero]

end

theorem ceilDiv_eq_one {a b : Nat} (ha : 0 < a) (hab : a ≤ b) : ceilDiv a b = 1 := by
  unfold ceilDiv
  apply Nat.div_eq_of_lt_le
  · omega
  · omega

theorem ceilDiv_zero (b : Nat) : ceilDiv 0 b = 0 := by
  unfold ceilDiv
  rw [Nat.zero_add]
  rcases Nat.eq_zero_or_pos b with rfl | hb
  · rfl
  · exact Nat.div_eq_of_lt (by omega)

/-! ### What a split is -/

/-- So many pieces of that size, which are the data with the padding behind it. -/
structure Splits (data : List UInt8) (count size : Nat) (pieces : List Piece) (padding : Nat) :
    Prop where
  count : pieces.length = count
  size : ∀ piece ∈ pieces, piece.length = size
  flatten : pieces.flatten = data ++ List.replicate padding 0

/-- `OriginalPiecesFromDataAndPieceSize` returns a split, or an error where there is none. -/
def SplitsBySize (data : List UInt8) (pieceSize : Nat) : Prop :=
  if 0 < pieceSize ∧ pieceSize < data.length then
    ∃ pieces padding, originalPiecesFromDataAndPieceSize data pieceSize =
      some (.ok (pieces, padding)) ∧
        Splits data (ceilDiv data.length pieceSize) pieceSize pieces padding ∧ padding < pieceSize
  else ∃ e, originalPiecesFromDataAndPieceSize data pieceSize = some (.error e)

/-- `OriginalPiecesFromDataAndPieceCount` returns a split, or an error where there is none. -/
def SplitsByCount (data : List UInt8) (pieceCount : Nat) : Prop :=
  if 2 ≤ pieceCount ∧ pieceCount ≤ data.length then
    ∃ pieces padding, originalPiecesFromDataAndPieceCount data pieceCount =
      some (.ok (pieces, padding)) ∧
        Splits data pieceCount (ceilDiv data.length pieceCount) pieces padding
  else ∃ e, originalPiecesFromDataAndPieceCount data pieceCount = some (.error e)

theorem splits_blocks {data : List UInt8} {count size padding : Nat}
    (hlength : data.length + padding = size * count) :
    Splits data count size (blocks size count (data ++ replicate padding 0)) padding := by
  have hpadded : (data ++ replicate padding 0).length = size * count := by
    rw [length_append, length_replicate, hlength]
  constructor
  · exact length_blocks _ _ _
  · intro piece hpiece
    exact length_of_mem_blocks (Nat.le_of_eq hpadded.symm) hpiece
  · rw [flatten_blocks, ← hpadded, take_length]

/-! ### By size -/

section

variable {data : List UInt8} {pieceSize pieceCount : Nat}

theorem toInt_of_lt {u : Nat} (hu : u < 2 ^ 63) : toInt u = u := if_pos hu

theorem toInt_neg {u : Nat} (hlow : 2 ^ 63 ≤ u) (hhigh : u < 2 ^ 64) : toInt u < 0 := by
  unfold toInt
  rw [if_neg (Nat.not_lt.mpr hlow)]
  omega

theorem toUint_natCast {n : Nat} (hn : n < 2 ^ 64) : toUint n = n := by
  unfold toUint
  omega

/-- The padded data has a length that an `int` can hold, or the allocation panics. -/
theorem extend_padded (padding : Nat) (hpos : 0 < padding) :
    extend data (data.length + padding : Nat) =
      if data.length + padding < 2 ^ 63 then some (.ok (data ++ replicate padding 0))
      else none := by
  unfold extend
  split
  · next hbad =>
    rw [if_neg (by omega)]
  rename_i hgood
  rw [if_neg (by omega), if_pos (by omega)]
  congr 4
  omega

variable (hdata : data.length < 2 ^ 63)

include hdata

/-- The split by a size below the length. -/
theorem splitBySize_eq (hpos : 0 < pieceSize)
    (hlt : pieceSize < data.length) {padding : Nat}
    (hpadding : ceilDiv data.length pieceSize * pieceSize = data.length + padding) :
    originalPiecesFromDataAndPieceSize data pieceSize =
      if data.length + padding < 2 ^ 63 then
        some (.ok (blocks pieceSize (ceilDiv data.length pieceSize)
          (data ++ replicate padding 0), padding))
      else none := by
  have hbelow := ceilDiv_mul_lt data.length hpos
  have htotal : (ceilDiv data.length pieceSize : Int) * toInt pieceSize =
      (data.length + padding : Nat) := by
    rw [toInt_of_lt (by omega), ← hpadding, Nat.cast_mul]
  have huint : toUint ((data.length + padding : Nat) - data.length : Int) = padding := by
    unfold toUint
    omega
  unfold originalPiecesFromDataAndPieceSize
  rw [if_neg (Nat.ne_of_gt hpos), toInt_of_lt (by omega), if_neg (by omega)]
  rw [toInt_of_lt (by omega)] at htotal
  simp only [htotal, huint]
  rcases Nat.eq_zero_or_pos padding with rfl | hpos
  · rw [if_neg (Nat.lt_irrefl 0), if_pos (by omega), replicate_zero, append_nil]
    rfl
  rw [if_pos hpos, extend_padded padding hpos]
  split
  · rfl
  · rfl

/-- A size that is negative as an `int` gives no pieces for no data, and a panic otherwise. -/
theorem splitBySize_neg (hlow : 2 ^ 63 ≤ pieceSize)
    (hhigh : pieceSize < 2 ^ 64) (e : KodrError) :
    originalPiecesFromDataAndPieceSize data pieceSize ≠ some (.error e) := by
  have hneg := toInt_neg hlow hhigh
  unfold originalPiecesFromDataAndPieceSize
  rw [if_neg (by omega), if_neg (by omega)]
  rcases Nat.eq_zero_or_pos data.length with hzero | hpos
  · simp [hzero, ceilDiv_zero, toUint, Except.map]
  have hone : ceilDiv data.length pieceSize = 1 := ceilDiv_eq_one hpos (by omega)
  have hextend : extend data ((1 : Nat) * toInt pieceSize) = none := if_pos (.inl (by omega))
  simp only [hone, hextend]
  split
  · simp
  · simp [Except.map]

theorem splitsBySize_iff (huint : pieceSize < 2 ^ 64) :
    SplitsBySize data pieceSize ↔
      pieceSize < 2 ^ 63 ∧ ceilDiv data.length pieceSize * pieceSize < 2 ^ 63 := by
  unfold SplitsBySize
  split
  · next hrange =>
    obtain ⟨hpos, hlt⟩ := hrange
    have hle := le_ceilDiv_mul data.length hpos
    have hbelow := ceilDiv_mul_lt data.length hpos
    obtain ⟨padding, hpadding⟩ := Nat.exists_eq_add_of_le hle
    rw [splitBySize_eq hdata hpos hlt hpadding, hpadding]
    constructor
    · rintro ⟨pieces, padding', heq, -⟩
      refine ⟨by omega, ?_⟩
      by_contra hbad
      rw [if_neg hbad] at heq
      cases heq
    · rintro ⟨-, hfits⟩
      rw [if_pos hfits]
      refine ⟨_, padding, rfl, splits_blocks ?_, by omega⟩
      rw [← hpadding, Nat.mul_comm]
  · next hrange =>
    constructor
    · rintro ⟨e, he⟩
      have hlow : pieceSize < 2 ^ 63 := by
        by_contra hbad
        exact splitBySize_neg hdata (Nat.not_lt.mp hbad) huint e he
      refine ⟨hlow, ?_⟩
      rcases Nat.eq_zero_or_pos data.length with hzero | hpos
      · rw [hzero, ceilDiv_zero, Nat.zero_mul]
        exact Nat.two_pow_pos 63
      rcases Nat.eq_zero_or_pos pieceSize with rfl | hsize
      · exact Nat.two_pow_pos 63
      rw [ceilDiv_eq_one hpos (by omega), Nat.one_mul]
      exact hlow
    · rintro ⟨hlow, -⟩
      unfold originalPiecesFromDataAndPieceSize
      rcases Nat.eq_zero_or_pos pieceSize with rfl | hsize
      · exact ⟨_, if_pos rfl⟩
      refine ⟨.badPieceCount, ?_⟩
      rw [if_neg (Nat.ne_of_gt hsize), toInt_of_lt hlow, if_pos (by omega)]

/-! ### By count -/

/-- Padded data is split into the same number of pieces again, without padding. -/
theorem splitBySize_padded (htwo : 2 ≤ pieceCount)
    (hpos : 0 < pieceSize) (hlength : data.length = pieceSize * pieceCount) :
    originalPiecesFromDataAndPieceSize data pieceSize =
      some (.ok (blocks pieceSize pieceCount data, 0)) := by
  have hcount : ceilDiv data.length pieceSize = pieceCount := by
    rw [hlength, Nat.mul_comm, ceilDiv_mul_self _ hpos]
  have hlt : pieceSize < data.length := by
    rw [hlength]
    exact (Nat.lt_mul_iff_one_lt_right hpos).mpr htwo
  have hnone : ceilDiv data.length pieceSize * pieceSize = data.length + 0 := by
    rw [hcount, Nat.mul_comm, ← hlength, Nat.add_zero]
  rw [splitBySize_eq hdata hpos hlt hnone, Nat.add_zero, if_pos hdata, hcount,
    replicate_zero, append_nil]

/-- The split by a count that passes for one of at most the length. -/
theorem splitByCount_eq (htwo : 2 ≤ pieceCount)
    (hint : toInt pieceCount ≤ data.length) (hpos : 0 < data.length) {padding : Nat}
    (hpadding : ceilDiv data.length pieceCount * pieceCount = data.length + padding) :
    originalPiecesFromDataAndPieceCount data pieceCount =
      if data.length + padding < 2 ^ 63 then
        some (.ok (blocks (ceilDiv data.length pieceCount) pieceCount
          (data ++ replicate padding 0), padding))
      else none := by
  have hsize : 0 < ceilDiv data.length pieceCount := by
    apply Nat.pos_of_ne_zero
    intro hzero
    rw [hzero, Nat.zero_mul] at hpadding
    omega
  have huint : uintSub (pieceCount * ceilDiv data.length pieceCount) data.length = padding := by
    unfold uintSub
    rw [Nat.mul_comm, hpadding, if_pos (Nat.le_add_right _ _), Nat.add_sub_cancel_left]
  unfold originalPiecesFromDataAndPieceCount
  rw [if_neg (Nat.not_lt.mpr htwo), if_neg (by omega)]
  simp only [huint, hpadding]
  rcases Nat.eq_zero_or_pos padding with rfl | hpad
  · rw [if_neg (Nat.lt_irrefl 0), Nat.add_zero, if_pos hdata, replicate_zero,
      append_nil, Option.bind_some]
    simp only [splitBySize_padded hdata htwo hsize hpadding.symm]
    rfl
  rw [if_pos hpad, extend_padded padding hpad]
  split
  · next hfits =>
    have hlength : (data ++ replicate padding 0).length = data.length + padding := by
      rw [length_append, length_replicate]
    rw [Option.bind_some]
    simp only
    rw [splitBySize_padded (hlength ▸ hfits) htwo hsize (hlength.trans hpadding.symm)]
    rfl
  · rfl

omit hdata in
/-- Without data every count is an error. -/
theorem splitByCount_nil :
    ∃ e, originalPiecesFromDataAndPieceCount [] pieceCount = some (.error e) := by
  unfold originalPiecesFromDataAndPieceCount
  split
  · exact ⟨_, rfl⟩
  split
  · exact ⟨_, rfl⟩
  refine ⟨.zeroPieceSize, ?_⟩
  simp [ceilDiv_zero, uintSub, originalPiecesFromDataAndPieceSize, Except.map]

theorem splitsByCount_iff (huint : pieceCount < 2 ^ 64) :
    SplitsByCount data pieceCount ↔ ceilDiv data.length pieceCount * pieceCount < 2 ^ 63 := by
  unfold SplitsByCount
  split
  · next hrange =>
    obtain ⟨htwo, hle⟩ := hrange
    obtain ⟨padding, hpadding⟩ :=
      Nat.exists_eq_add_of_le (le_ceilDiv_mul data.length (by omega : 0 < pieceCount))
    have hint : toInt pieceCount ≤ data.length := by
      rw [toInt_of_lt (by omega)]
      exact Int.ofNat_le.mpr hle
    rw [splitByCount_eq hdata htwo hint (by omega) hpadding, hpadding]
    constructor
    · rintro ⟨pieces, padding', heq, -⟩
      by_contra hbad
      rw [if_neg hbad] at heq
      cases heq
    · intro hfits
      rw [if_pos hfits]
      exact ⟨_, padding, rfl, splits_blocks hpadding.symm⟩
  · next hrange =>
    rcases Nat.eq_zero_or_pos data.length with hzero | hpos
    · rw [length_eq_zero_iff.mp hzero, length_nil, ceilDiv_zero, Nat.zero_mul]
      exact iff_of_true splitByCount_nil (Nat.two_pow_pos 63)
    by_cases htwo : 2 ≤ pieceCount
    · have hone : ceilDiv data.length pieceCount = 1 := ceilDiv_eq_one hpos (by omega)
      rw [hone, Nat.one_mul]
      rcases Nat.lt_or_ge pieceCount (2 ^ 63) with hlow | hlow
      · refine iff_of_true ⟨.pieceCountMoreThanTotalBytes, ?_⟩ hlow
        unfold originalPiecesFromDataAndPieceCount
        rw [if_neg (by omega), toInt_of_lt hlow, if_pos (by omega)]
      · -- the count is negative as an `int`, and the padded data too long
        refine iff_of_false ?_ (Nat.not_lt.mpr hlow)
        rintro ⟨e, he⟩
        obtain ⟨padding, hpadding⟩ := Nat.exists_eq_add_of_le (by omega : data.length ≤ pieceCount)
        have hneg := toInt_neg hlow huint
        rw [splitByCount_eq hdata htwo (by omega) hpos (by rw [hone, Nat.one_mul, hpadding]),
          if_neg (by omega)] at he
        cases he
    · refine iff_of_true ⟨.badPieceCount, if_pos (by omega)⟩ ?_
      have hcases : pieceCount = 0 ∨ pieceCount = 1 := by omega
      rcases hcases with rfl | rfl
      · exact Nat.two_pow_pos 63
      have hbelow := ceilDiv_mul_lt data.length Nat.one_pos
      omega

end

/-- Both splits are lossless, with an error for every other parameter, just if the padded length is
one that an `int` can hold; the size must be one, too. -/
theorem splitting_lossless (data : List UInt8) (hdata : data.length < 2 ^ 63)
    (pieceCount pieceSize : Nat) (hcount : pieceCount < 2 ^ 64) (hsize : pieceSize < 2 ^ 64) :
    (SplitsByCount data pieceCount ↔ ceilDiv data.length pieceCount * pieceCount < 2 ^ 63) ∧
      (SplitsBySize data pieceSize ↔
        pieceSize < 2 ^ 63 ∧ ceilDiv data.length pieceSize * pieceSize < 2 ^ 63) :=
  ⟨splitsByCount_iff hdata hcount, splitsBySize_iff hdata hsize⟩

theorem splitting_lossless_five_bytes :
    SplitsByCount [1, 2, 3, 4, 5] 3 ∧ SplitsBySize [1, 2, 3, 4, 5] 3 := by
  have hlossless := splitting_lossless [1, 2, 3, 4, 5] (by decide) 3 3 (by decide) (by decide)
  exact ⟨hlossless.1.mpr (by decide), hlossless.2.mpr (by decide)⟩

/-- One byte in `2 ^ 63` pieces, or in pieces of `2 ^ 63` bytes, is no error but a panic. -/
theorem splitting_panics :
    originalPiecesFromDataAndPieceCount [7] (2 ^ 63) = none ∧
      originalPiecesFromDataAndPieceSize [7] (2 ^ 63) = none ∧
      ¬ SplitsByCount [7] (2 ^ 63) ∧ ¬ SplitsBySize [7] (2 ^ 63) := by
  refine ⟨by decide, by decide, ?_, ?_⟩
  · rw [splitsByCount_iff (by decide) (by decide)]
    decide
  · rw [splitsBySize_iff (by decide) (by decide)]
    decide

/-! ### For recoding -/

section

variable {data : List UInt8} {pieceCount m : Nat}

@[simp] theorem CodedPiece.flatten_split (m : Nat) (codedPiece : List UInt8) :
    (split m codedPiece).flatten = codedPiece := take_append_drop m codedPiece

/-- `CodedPiecesForRecoding` does not panic, and the pieces it returns are the data. -/
def Recovers (data : List UInt8) (pieceCount piecesCodedTogether : Nat) : Prop :=
  ∃ result, codedPiecesForRecoding data pieceCount piecesCodedTogether = some result ∧
    ∀ pieces, result = .ok pieces →
      pieces.length = pieceCount ∧ (pieces.map CodedPiece.flatten).flatten = data

/-- The split by a count that an `int` can hold. -/
theorem codedPiecesForRecoding_eq (hdata : data.length < 2 ^ 63) (hpos : 0 < pieceCount)
    (hint : pieceCount < 2 ^ 63) :
    codedPiecesForRecoding data pieceCount m =
      some (if data.length / pieceCount * pieceCount ≠ data.length then
          .error .codedDataLengthMismatch
        else if ¬ m < data.length / pieceCount then .error .codingVectorLengthMismatch
        else .ok ((blocks (data.length / pieceCount) pieceCount data).map (.split m))) := by
  have hquot : (data.length : Int).tdiv (toInt pieceCount) = (data.length / pieceCount : Nat) := by
    rw [toInt_of_lt hint]
    rfl
  have hle : data.length / pieceCount ≤ data.length := Nat.div_le_self _ _
  unfold codedPiecesForRecoding
  rw [if_neg (Nat.ne_of_gt hpos)]
  simp only [hquot, toUint_natCast (by omega : data.length / pieceCount < 2 ^ 64)]
  rw [toInt_of_lt hint, ← Nat.cast_mul, if_neg (Nat.not_le.mpr hint), Int.toNat_natCast]
  simp only [ne_eq, Nat.cast_inj]
  split
  · rfl
  split
  · rfl
  rw [blocks, map_map]
  rfl

/-- A count that is negative as an `int`: `n` below zero. The length is then negative, too, and as a
`uint` almost any vector is shorter. -/
theorem codedPiecesForRecoding_negative {n : Nat} (hn : pieceCount + n = 2 ^ 64) (hpos : 0 < n)
    (hle : n ≤ 2 ^ 63) :
    codedPiecesForRecoding data pieceCount m =
      if data.length / n * n ≠ data.length then some (.error .codedDataLengthMismatch)
      else if ¬ m < toUint (-(data.length / n : Nat)) then
        some (.error .codingVectorLengthMismatch)
      else none := by
  have hcount : toInt pieceCount = -(n : Int) := by
    unfold toInt
    rw [if_neg (by omega)]
    omega
  have hquot : (data.length : Int).tdiv (toInt pieceCount) = -(data.length / n : Nat) := by
    rw [hcount, Int.tdiv_neg]
    rfl
  unfold codedPiecesForRecoding
  rw [if_neg (by omega)]
  simp only [hquot]
  rw [hcount, Int.neg_mul_neg, ← Nat.cast_mul, if_pos (by omega : 2 ^ 63 ≤ pieceCount)]
  simp only [ne_eq, Nat.cast_inj]

theorem recovers_of_int (hdata : data.length < 2 ^ 63) (hpos : 0 < pieceCount)
    (hint : pieceCount < 2 ^ 63) : Recovers data pieceCount m := by
  refine ⟨_, codedPiecesForRecoding_eq hdata hpos hint, ?_⟩
  intro pieces hpieces
  split at hpieces
  · cases hpieces
  split at hpieces
  · cases hpieces
  next hwhole _ =>
  cases hpieces
  constructor
  · rw [length_map, length_blocks]
  have hid : CodedPiece.flatten ∘ split m = id := funext (flatten_split m)
  rw [map_map, hid, map_id, flatten_blocks, not_not.mp hwhole, take_length]

theorem recovers_negative_iff {n : Nat} (hdata : data.length < 2 ^ 63)
    (hn : pieceCount + n = 2 ^ 64) (hpos : 0 < n) (hle : n ≤ 2 ^ 63) :
    Recovers data pieceCount m ↔
      ¬ (0 < data.length ∧ n ∣ data.length ∧ m < 2 ^ 64 - data.length / n) := by
  have hquot : data.length / n ≤ data.length := Nat.div_le_self _ _
  unfold Recovers
  rw [codedPiecesForRecoding_negative hn hpos hle]
  split
  · next hrest =>
    have hnot : ¬ n ∣ data.length := fun hdvd => hrest (Nat.div_mul_cancel hdvd)
    refine iff_of_true ⟨_, rfl, fun pieces hpieces => ?_⟩ (fun h => hnot h.2.1)
    cases hpieces
  next hwhole =>
  have hdvd : n ∣ data.length := ⟨_, (Nat.mul_comm _ _).trans (not_not.mp hwhole) |>.symm⟩
  rcases Nat.eq_zero_or_pos data.length with hzero | hpositive
  · -- no vector is shorter than the length zero
    have huint : ¬ m < toUint (-(data.length / n : Nat)) := by
      rw [hzero, Nat.zero_div]
      exact Nat.not_lt_zero m
    rw [if_pos huint]
    refine iff_of_true ⟨_, rfl, fun pieces hpieces => ?_⟩ (by omega)
    cases hpieces
  have huint : toUint (-(data.length / n : Nat)) = 2 ^ 64 - data.length / n := by
    have hone : 0 < data.length / n := Nat.div_pos (Nat.le_of_dvd hpositive hdvd) hpos
    unfold toUint
    omega
  rw [huint]
  split
  · next hlong =>
    refine iff_of_true ⟨_, rfl, fun pieces hpieces => ?_⟩ (fun h => hlong h.2.2)
    cases hpieces
  · next hshort =>
    refine iff_of_false ?_ (not_not.mpr ⟨hpositive, hdvd, not_not.mp hshort⟩)
    rintro ⟨result, hresult, -⟩
    cases hresult

/-- What was flattened comes back. -/
theorem codedPiecesForRecoding_flatten {pieces : List CodedPiece} {n : Nat} (hne : pieces ≠ [])
    (hvector : ∀ c ∈ pieces, c.vector.length = m) (hpiece : ∀ c ∈ pieces, c.piece.length = n)
    (hn : 0 < n) (hdata : (pieces.map CodedPiece.flatten).flatten.length < 2 ^ 63) :
    codedPiecesForRecoding (pieces.map CodedPiece.flatten).flatten pieces.length m =
      some (.ok pieces) := by
  have hpos : 0 < pieces.length := length_pos_iff.mpr hne
  have hflat : ∀ l ∈ pieces.map CodedPiece.flatten, l.length = m + n := by
    intro l hl
    obtain ⟨c, hc, rfl⟩ := mem_map.mp hl
    rw [CodedPiece.flatten, length_append, hvector c hc, hpiece c hc]
  have hlength : (pieces.map CodedPiece.flatten).flatten.length = (m + n) * pieces.length := by
    rw [length_flatten_of_length hflat, length_map]
  have hint : pieces.length < 2 ^ 63 :=
    Nat.lt_of_le_of_lt (hlength ▸ Nat.le_mul_of_pos_left _ (by omega)) hdata
  have hsplit : (pieces.map CodedPiece.flatten).map (.split m) = pieces := by
    rw [map_map]
    refine (map_congr_left fun c hc => ?_).trans (map_id _)
    simp only [Function.comp_apply, CodedPiece.split, CodedPiece.flatten,
      take_left' (hvector c hc), drop_left' (hvector c hc), id_eq]
  have hblocks := blocks_flatten hflat
  rw [length_map] at hblocks
  rw [codedPiecesForRecoding_eq hdata hpos hint, hlength, Nat.mul_div_cancel _ hpos,
    if_neg (not_not.mpr rfl), if_neg (not_not.mpr (by omega)), hblocks, hsplit]

end

/-- Flattened pieces come back. Other data is split or refused just if the count is neither zero nor
a negative `int` that divides the length, with a vector shorter than the `uint` of the quotient. -/
theorem recoding_split_iff (pieces : List CodedPiece) (m n : Nat) (data : List UInt8)
    (pieceCount piecesCodedTogether : Nat)
    (hflat : (pieces.map CodedPiece.flatten).flatten.length < 2 ^ 63)
    (hdata : data.length < 2 ^ 63) (hcount : pieceCount < 2 ^ 64) :
    (pieces ≠ [] → (∀ c ∈ pieces, c.vector.length = m) → (∀ c ∈ pieces, c.piece.length = n) →
        0 < n → codedPiecesForRecoding (pieces.map CodedPiece.flatten).flatten pieces.length m =
          some (.ok pieces)) ∧
      (Recovers data pieceCount piecesCodedTogether ↔
        0 < pieceCount ∧
          ¬ (2 ^ 63 ≤ pieceCount ∧ 0 < data.length ∧ 2 ^ 64 - pieceCount ∣ data.length ∧
            piecesCodedTogether < 2 ^ 64 - data.length / (2 ^ 64 - pieceCount))) := by
  constructor
  · intro hne hvector hpiece hn
    exact codedPiecesForRecoding_flatten hne hvector hpiece hn hflat
  rcases Nat.eq_zero_or_pos pieceCount with rfl | hpos
  · refine iff_of_false ?_ (fun h => absurd h.1 (Nat.lt_irrefl 0))
    rintro ⟨result, hresult, -⟩
    cases hresult
  · rcases Nat.lt_or_ge pieceCount (2 ^ 63) with hint | hneg
    · exact iff_of_true (recovers_of_int hdata hpos hint) ⟨hpos, fun h => by omega⟩
    rw [recovers_negative_iff hdata (Nat.add_sub_cancel' hcount.le) (by omega) (by omega)]
    simp only [hpos, hneg, true_and]

theorem recoding_split_two_pieces :
    codedPiecesForRecoding [1, 2, 3, 4, 5, 6] 2 2 = some (.ok [⟨[1, 2], [3]⟩, ⟨[4, 5], [6]⟩]) ∧
      Recovers [1, 2, 3, 4, 5, 6] 4 1 := by
  have hsplit := recoding_split_iff [⟨[1, 2], [3]⟩, ⟨[4, 5], [6]⟩] 2 1 [1, 2, 3, 4, 5, 6] 4 1
    (by decide) (by decide) (by decide)
  exact ⟨hsplit.1 (by decide) (by decide) (by decide) (by decide), hsplit.2.mpr (by decide)⟩

/-- No pieces at all, or five bytes in `2 ^ 64 - 1` pieces, are no error but a panic. -/
theorem recoding_split_panics :
    codedPiecesForRecoding [1, 2, 3] 0 1 = none ∧
      codedPiecesForRecoding [1, 2, 3, 4, 5] (2 ^ 64 - 1) 2 = none ∧
      ¬ Recovers [1, 2, 3] 0 1 ∧ ¬ Recovers [1, 2, 3, 4, 5] (2 ^ 64 - 1) 2 := by
  have hzero : codedPiecesForRecoding [1, 2, 3] 0 1 = none := by decide
  have hnegative : codedPiecesForRecoding [1, 2, 3, 4, 5] (2 ^ 64 - 1) 2 = none := by decide
  refine ⟨hzero, hnegative, ?_, ?_⟩
  · rintro ⟨result, hresult, -⟩
    exact absurd (hzero.symm.trans hresult) nofun
  · rintro ⟨result, hresult, -⟩
    exact absurd (hnegative.symm.trans hresult) nofun

end RlncStreaming.Kodr
