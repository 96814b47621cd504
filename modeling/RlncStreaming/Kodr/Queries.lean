import RlncStreaming.Kodr.Coders
import RlncStreaming.Kodr.Progress

/-!
The queries of a decoder (`kodr/full/decoder.go`).

`Rref` removes zero rows, so a decoder may have received pieces and hold none. `GetPiece`,
`GetPieces` and `Required` look at the number of rows first; `PieceLength` asks for the first row
after any piece. It panics just if at least two pieces have arrived and all their vectors are zero
(`queries_safe_iff`). A single zero vector is counted as useful and stays.
-/

namespace RlncStreaming.Kodr

open Lib List DecoderState

/-- The queries of a decoder that was given the pieces `ps` of length `L`. None of them panics,
`Required` does not wrap around, and `PieceLength` is the length once there was a piece. -/
structure RLNCDecoder.Safe (ps : List CodedPiece) (L : Nat) (d : RLNCDecoder) : Prop where
  pieceLength : d.pieceLength = some (if ps = [] then 0 else L)
  required : d.useful ≤ d.expected
  getPiece : ∀ i, (d.getPiece i).isSome = true
  getPieces : d.getPieces.isSome = true

/-- At least two pieces, and all vectors are zero. -/
def OnlyZeroVectors (n : Nat) (ps : List CodedPiece) : Prop :=
  2 ≤ ps.length ∧ ∀ p ∈ ps, p.vector = List.replicate n 0

namespace RLNCDecoder

variable {gf : GF256} {n L : Nat} {ps : List CodedPiece} {d : RLNCDecoder}

/-! ### `GetPiece` and `GetPieces` -/

theorem getPiece_isSome (h : d.Inv gf n L ps) (i : Nat) : (d.getPiece i).isSome = true := by
  have hrows : d.state.coeffs.rows = d.useful := h.rect.coeffs_length
  unfold getPiece DecoderState.getPiece
  simp only [rank, hrows, h.pieceCount, ge_iff_le, Option.pure_def, Option.bind_eq_bind]
  split
  · rfl
  split
  · rfl
  rename_i hrow
  have hi : i < d.useful := Nat.not_le.mp hrow
  have hcoded : i < d.state.coded.length := h.rect.coded_length.symm ▸ hi
  have hlength := h.rect.vector_length_getD hi
  obtain ⟨decoded, hscan, -⟩ := scanRow_spec (d.state.coeffs.getD i []) i n 0 (by omega)
  rw [getElem?_eq_getElem hcoded, h.rect.coeffs_cols (by omega), h.rect.coded_cols (by omega)]
  simp only [Option.bind_some, hscan]
  split
  · rfl
  split
  · rfl
  · rfl

theorem collect_isSome (h : d.Inv gf n L ps) : ∀ m i, (d.collect i m).isSome = true := by
  intro m
  induction m with
  | zero =>
    intro i
    rfl
  | succ m ih =>
    intro i
    obtain ⟨result, hresult⟩ := Option.isSome_iff_exists.mp (getPiece_isSome h i)
    unfold collect
    rw [hresult, Option.bind_some]
    cases result with
    | error e => rfl
    | ok piece =>
      rw [Option.isSome_map]
      exact ih (i + 1)

theorem getPieces_isSome (h : d.Inv gf n L ps) : d.getPieces.isSome = true := by
  unfold getPieces
  split
  · rfl
  · exact collect_isSome h _ _

/-! ### `PieceLength` -/

theorem pieceLength_eq (h : d.Inv gf n L ps) :
    d.pieceLength = if d.received = 0 then some 0 else if d.useful = 0 then none else some L := by
  unfold pieceLength
  by_cases hreceived : d.received = 0
  · rw [if_neg (by omega), if_pos hreceived]
  rw [if_pos (by omega), if_neg hreceived]
  split
  · next hempty =>
    have hnil : d.state.coded = [] := length_eq_zero_iff.mp (h.rect.coded_length.trans hempty)
    rw [hnil]
    rfl
  · next hrows => exact h.rect.coded_cols (by omega)

/-! ### Runs -/

/-- The number of rows after a run: a first vector stays, and from the second piece on no row is
left just if all vectors are zero. -/
structure Rows (gf : GF256) (n L : Nat) (ps : List CodedPiece) (d : RLNCDecoder) : Prop where
  inv : d.Inv gf n L ps
  received : d.received = 0 ↔ ps = []
  empty : ps ≠ [] → (d.useful = 0 ↔ OnlyZeroVectors n ps)

theorem rows_new (hn : 0 < n) : (new n).Rows gf n L [] :=
  ⟨inv_new gf L hn, iff_of_true rfl rfl, fun hne => absurd rfl hne⟩

theorem codeSpan_eq_bot_iff (gf : GF256) (hlength : ∀ p ∈ ps, p.vector.length = n) :
    codeSpan gf n (ps.map CodedPiece.vector) = ⊥ ↔ ∀ p ∈ ps, p.vector = replicate n 0 := by
  rw [eq_bot_iff, codeSpan_le_iff]
  constructor
  · intro hzero p hp
    have hvec := hzero p.vector (mem_map_of_mem hp)
    rw [Submodule.mem_bot, ← toVec_replicate_zero n n] at hvec
    exact eq_of_toVec_eq (hlength p hp) length_replicate hvec
  · intro hzero v hv
    obtain ⟨p, hp, rfl⟩ := mem_map.mp hv
    rw [hzero p hp, toVec_replicate_zero]
    exact Submodule.zero_mem _

/-- All vectors are zero just if no row is left, as long as each row that is left has an entry. -/
theorem Inv.useful_eq_zero_iff (h : d.Inv gf n L ps) (hfit : ∀ p ∈ ps, Fits n L p)
    (hrows : ∀ j < d.useful, ∃ k < n, d.state.entry gf j k ≠ 0) :
    d.useful = 0 ↔ ∀ p ∈ ps, p.vector = replicate n 0 := by
  constructor
  · intro hempty
    rw [← codeSpan_eq_bot_iff gf fun p hp => (hfit p hp).1, ← h.span_eq, hempty]
    simp [DecoderState.vectorSpan, rowSpan]
  · intro hzero
    by_contra hne
    obtain ⟨k, hk, hentry⟩ := hrows 0 (Nat.pos_of_ne_zero hne)
    have hbot := (codeSpan_eq_bot_iff gf fun p hp => (hfit p hp).1).mpr hzero
    rw [← h.span_eq, eq_bot_iff, DecoderState.vectorSpan, rowSpan_le_iff] at hbot
    have hrow := (Submodule.mem_bot _).mp (hbot 0 (Nat.pos_of_ne_zero hne))
    exact hentry (congrFun hrow ⟨k, hk⟩)

/-- Step lemma. -/
theorem addPiece_rows (hn : 2 ≤ n) (h : d.Rows gf n L ps) {p : CodedPiece}
    (hfit : ∀ q ∈ ps ++ [p], Fits n L q) :
    ∃ d' err, d.addPiece gf p = some (d', err) ∧ d'.Rows gf n L (ps ++ [p]) := by
  have hp : Fits n L p := hfit p (mem_append_right ps mem_cons_self)
  have hne : ps ++ [p] ≠ [] := append_ne_nil_of_right_ne_nil ps (cons_ne_nil p [])
  obtain ⟨d', err, hadd, hinv⟩ := addPiece_inv hn h.inv hp
  refine ⟨d', err, hadd, ?_⟩
  -- a piece after the first one makes a second, whatever is done with it
  have hlong : ps ≠ [] → 2 ≤ (ps ++ [p]).length := by
    intro hps
    have := length_pos_iff.mpr hps
    rw [length_append, length_singleton]
    omega
  rcases addPiece_cases h.inv hp with
    ⟨hfull, heq⟩ | ⟨-, hfirst, heq⟩ | ⟨-, hlater, state, r', hred, heq⟩
  · -- decoding is complete: the rows are those of the identity matrix
    rw [hadd] at heq
    cases heq
    have hreceived : d.received ≠ 0 := fun hzero => by
      have hnone := h.inv.untouched hzero
      omega
    refine ⟨hinv, iff_of_false hreceived hne, fun _ => ?_⟩
    rw [hinv.useful_eq_zero_iff hfit fun j hj => ⟨j, by omega, by
      rw [hinv.identity hfull j (by omega) j (by omega), if_pos rfl]
      exact one_ne_zero⟩]
    exact ⟨fun hzero => ⟨hlong fun hnil => hreceived (h.received.mpr hnil), hzero⟩, And.right⟩
  · -- the first piece is taken as it is
    rw [hadd] at heq
    cases heq
    refine ⟨hinv, iff_of_false Nat.one_ne_zero hne, fun _ => iff_of_false Nat.one_ne_zero ?_⟩
    rw [h.received.mp hfirst]
    exact fun honly => absurd honly.1 (Nat.lt_irrefl 1)
  · rw [hadd] at heq
    cases heq
    refine ⟨hinv, iff_of_false (Nat.succ_ne_zero _) hne, fun _ => ?_⟩
    rw [hinv.useful_eq_zero_iff hfit hred.row_ne_zero]
    exact ⟨fun hzero => ⟨hlong fun hnil => hlater.ne' (h.received.mpr hnil), hzero⟩, And.right⟩

/-- Run lemma. -/
theorem feed_rows (hn : 2 ≤ n) (hfit : ∀ p ∈ ps, Fits n L p) :
    ∃ d, feed (addPiece gf) (new n) ps = some d ∧ d.Rows gf n L ps := by
  refine feed_rule ps (I := fun d ps => d.Rows gf n L ps) (rows_new (by omega)) ?_
  intro before p after d hps h
  refine addPiece_rows hn h fun q hq => hfit q ?_
  rw [hps, append_cons]
  exact mem_append_left after hq

/-- After a run the queries are safe, unless all rows were removed. -/
theorem Rows.safe_iff (h : d.Rows gf n L ps) : d.Safe ps L ↔ ¬ OnlyZeroVectors n ps := by
  have hlength := pieceLength_eq h.inv
  constructor
  · intro hsafe honly
    have hps : ps ≠ [] := length_pos_iff.mp (by have := honly.1; omega)
    rw [if_neg fun hzero => hps (h.received.mp hzero), if_pos ((h.empty hps).mpr honly),
      hsafe.pieceLength] at hlength
    cases hlength
  intro hsome
  refine ⟨?_, ?_, getPiece_isSome h.inv, getPieces_isSome h.inv⟩
  · rw [hlength]
    by_cases hps : ps = []
    · rw [if_pos (h.received.mpr hps), if_pos hps]
    rw [if_neg fun hzero => hps (h.received.mp hzero),
      if_neg fun hzero => hsome ((h.empty hps).mp hzero), if_neg hps]
  · rw [h.inv.expected]
    exact h.inv.useful_le

/-- A decoder that is given pieces of its size never panics on them, and afterwards the queries
are safe just if the pieces are not two or more with zero vectors only. -/
theorem queries_safe_iff (gf : GF256) (n L : Nat) (ps : List CodedPiece) (hn : 2 ≤ n)
    (hfit : ∀ p ∈ ps, Fits n L p) :
    (∃ d, feed (addPiece gf) (new n) ps = some d ∧ d.Safe ps L) ↔ ¬ OnlyZeroVectors n ps := by
  obtain ⟨d, hfeed, h⟩ := feed_rows hn hfit
  rw [← h.safe_iff]
  constructor
  · rintro ⟨d', hfeed', hsafe⟩
    rw [hfeed] at hfeed'
    cases hfeed'
    exact hsafe
  · intro hsafe
    exact ⟨d, hfeed, hsafe⟩

/-- A zero vector and then another one. -/
theorem queries_safe_second_piece :
    ∃ d, feed (addPiece poly84320) (new 2) [⟨[0, 0], [7]⟩, ⟨[0, 3], [9]⟩] = some d ∧
      d.Safe [⟨[0, 0], [7]⟩, ⟨[0, 3], [9]⟩] 1 :=
  (queries_safe_iff poly84320 2 1 [⟨[0, 0], [7]⟩, ⟨[0, 3], [9]⟩] (Nat.le_refl 2)
    (by simp [Fits])).mpr fun honly => absurd (honly.2 ⟨[0, 3], [9]⟩ (by simp)) (by decide)

/-- After two zero vectors `PieceLength` looks at the first row of an empty matrix. -/
theorem pieceLength_panics :
    ∃ d, feed (addPiece poly84320) (new 2) [⟨[0, 0], [7]⟩, ⟨[0, 0], [9]⟩] = some d ∧
      d.pieceLength = none := by
  have hfit : ∀ p ∈ [⟨[0, 0], [7]⟩, ⟨[0, 0], [9]⟩], Fits 2 1 p := by simp [Fits]
  obtain ⟨d, hfeed, h⟩ := feed_rows (Nat.le_refl 2) hfit
  refine ⟨d, hfeed, ?_⟩
  rw [pieceLength_eq h.inv, if_neg fun hzero => cons_ne_nil _ _ (h.received.mp hzero),
    if_pos ((h.empty (cons_ne_nil _ _)).mpr ⟨Nat.le_refl 2, by simp⟩)]

end RLNCDecoder

end RlncStreaming.Kodr
