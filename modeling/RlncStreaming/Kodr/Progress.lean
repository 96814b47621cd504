import RlncStreaming.Kodr.Decoder

/-!
What a decoder reports before decoding is complete.

`Required` counts the rows that the elimination left. The elimination looks at the
diagonal only and the first piece is counted unseen, so the count can exceed the
rank of what was received: a zero first vector counts, and so can a dependent vector
while a column without a pivot is being skipped (`required_overcounts`).
`Accounted` collects the arrivals after which the count is right. When every
arrival of a run is one of them, `Required` is `n` minus the rank throughout
(`required_honest`).

`GetPiece` on a partially filled matrix tests the cells beside the requested one
against zero the wrong way round. It refuses the unit row and accepts a row without
zero cells, and it is right about every other row (`getPiece_partial_iff`).
-/

namespace RlncStreaming.Kodr

open Lib CodedPiece List RLNCDecoder

/-! ### The rank of what was received -/

/-- The rank of coding vectors of length `n`. -/
noncomputable def codeRank (gf : GF256) (n : Nat) (vectors : List CodingVector) : Nat :=
  Module.finrank gf.Sym (codeSpan gf n vectors)

section Rank

variable {gf : GF256} {n : Nat} {vs : List CodingVector} {v : CodingVector}

theorem codeSpan_le_append (ws : List CodingVector) : codeSpan gf n vs ≤ codeSpan gf n (vs ++ ws) :=
  codeSpan_mono fun _ hv => mem_append_left _ hv

variable (gf n vs) in
theorem codeRank_le_append (ws : List CodingVector) : codeRank gf n vs ≤ codeRank gf n (vs ++ ws) :=
  Submodule.finrank_mono (codeSpan_le_append ws)

theorem codeRank_eq_of_span (h : codeSpan gf n vs = ⊤) : codeRank gf n vs = n := by
  rw [codeRank, h, finrank_top]
  simp

theorem codeRank_lt_append (h : toVec gf n v ∉ codeSpan gf n vs) :
    codeRank gf n vs < codeRank gf n (vs ++ [v]) := by
  apply Submodule.finrank_lt_finrank_of_lt
  refine lt_of_le_of_ne (codeSpan_le_append _) fun heq => h ?_
  rw [heq]
  exact mem_codeSpan (by simp)

theorem codeRank_singleton (h : toVec gf n v ≠ 0) : codeRank gf n [v] = 1 := by
  have hset : toVec gf n '' {w | w ∈ [v]} = {toVec gf n v} := by
    simp
  rw [codeRank, codeSpan, hset]
  exact finrank_span_singleton h

end Rank

/-! ### `Required` -/

/-- The arrivals of `v` after `vs` that the useful count registers correctly. -/
inductive Accounted (gf : GF256) (n : Nat) (vs : List CodingVector) (v : CodingVector) : Prop where
  /-- The first vector is counted unseen, so it has to be nonzero. -/
  | first : vs = [] → toVec gf n v ≠ 0 → Accounted gf n vs v
  | independent : vs ≠ [] → toVec gf n v ∉ codeSpan gf n vs → Accounted gf n vs v
  | zero : vs ≠ [] → toVec gf n v = 0 → Accounted gf n vs v
  /-- At most one vector is missing: the matrix with the new row is square. -/
  | last : vs ≠ [] → n ≤ codeRank gf n vs + 1 → Accounted gf n vs v
  /-- The leading coordinates decide about the vectors received: no column that the
  elimination visits lacks a pivot. -/
  | leading : vs ≠ [] → (∀ w ∈ codeSpan gf n vs, (∀ k : Fin n, (k : Nat) < codeRank gf n vs →
      w k = 0) → w = 0) → Accounted gf n vs v

namespace RLNCDecoder

variable {gf : GF256} {n L : Nat} {ps : List CodedPiece} {d : RLNCDecoder}

theorem Inv.codeRank_le_useful (h : d.Inv gf n L ps) :
    codeRank gf n (ps.map vector) ≤ d.useful := by
  rw [codeRank, ← h.span_eq]
  exact finrank_rowSpan_le _ _

/-- The invariant together with a useful count that is the rank. -/
structure Counts (gf : GF256) (n L : Nat) (ps : List CodedPiece) (d : RLNCDecoder) : Prop where
  inv : d.Inv gf n L ps
  fresh : d.received = 0 ↔ ps = []
  useful_eq : d.useful = codeRank gf n (ps.map CodedPiece.vector)

/-- A reduction that drops no row of an accounted arrival has raised the rank. -/
theorem codeRank_of_no_drop (h : d.Counts gf n L ps) {p : CodedPiece}
    (hacc : Accounted gf n (ps.map vector) p.vector) (hrec : 0 < d.received)
    (hlt : d.useful < n) {d' : RLNCDecoder} (h' : d'.Inv gf n L (ps ++ [p]))
    (hred : DecoderState.Reduced gf (d.useful + 1) d'.useful n L (d.state.addPiece p) d'.state)
    (hkeep : d'.useful = d.useful + 1) :
    codeRank gf n ((ps ++ [p]).map vector) = d.useful + 1 := by
  have hle := h'.codeRank_le_useful
  have huse := h.useful_eq
  rw [map_append, map_singleton] at hle ⊢
  have hmono := codeRank_le_append gf n (ps.map vector) [p.vector]
  by_contra hne
  have hsame : codeRank gf n (ps.map vector ++ [p.vector]) =
      codeRank gf n (ps.map vector) := by omega
  cases hacc with
  | first hps _ =>
    have : ps = [] := map_eq_nil_iff.mp hps
    have := h.fresh.mpr this
    omega
  | independent _ hnot =>
    have := codeRank_lt_append hnot
    omega
  | zero _ hzero =>
    have hrow : (d.state.addPiece p).HasZeroRow gf (d.useful + 1) n := by
      refine ⟨d.useful, Nat.lt_succ_self _, fun k hk => ?_⟩
      rw [DecoderState.entry_eq_rowPair L _ hk, rowPair_addPiece_last h.inv p, hzero]
      rfl
    have := hred.lt_of_zero_row hrow
    omega
  | last _ hlast =>
    -- The matrix is square and has no zero row, so everything was received.
    have hspan := h'.isDecoded_iff_span.mp ((isDecoded_iff h').mpr (by omega))
    rw [map_append, map_singleton] at hspan
    have := codeRank_eq_of_span hspan
    omega
  | leading _ hlead =>
    -- The last row is triangular, hence zero on the leading coordinates.
    have hspan : codeSpan gf n (ps.map vector) = codeSpan gf n (ps.map vector ++ [p.vector]) :=
      Submodule.eq_of_le_of_finrank_eq (codeSpan_le_append _) hsame.symm
    obtain ⟨htri, -⟩ := hred.shape hkeep
    have hmem : toVec gf n (d'.state.coeffs.getD d.useful []) ∈ codeSpan gf n (ps.map vector) := by
      have hspan' := h'.span_eq
      rw [map_append, map_singleton] at hspan'
      rw [hspan, ← hspan']
      exact mem_rowSpan (M := fun j => toVec gf n (d'.state.coeffs.getD j [])) (by omega)
    have hrow := hlead _ hmem fun k hk => htri d.useful k (by omega) (by omega)
    obtain ⟨k, hk, hne0⟩ := hred.row_ne_zero d.useful (by omega)
    exact hne0 (congrFun hrow ⟨k, hk⟩)

/-- Step lemma: an accounted arrival keeps the useful count equal to the rank. -/
theorem addPiece_counts (hn : 2 ≤ n) (h : d.Counts gf n L ps) {p : CodedPiece} (hp : Fits n L p)
    (hacc : Accounted gf n (ps.map vector) p.vector) :
    ∃ d' err, d.addPiece gf p = some (d', err) ∧ d'.Counts gf n L (ps ++ [p]) := by
  obtain ⟨d', err, heq, h'⟩ := addPiece_inv hn h.inv hp
  refine ⟨d', err, heq, h', ?_, ?_⟩
  · have hne : ps ++ [p] ≠ [] := by simp
    refine ⟨fun hzero => ?_, fun hnil => absurd hnil hne⟩
    have hzero' := h'.untouched hzero
    rcases addPiece_cases h.inv hp with ⟨hfull, heq'⟩ | ⟨-, -, heq'⟩ | ⟨-, -, _, _, -, heq'⟩
    · rw [heq] at heq'
      cases heq'
      omega
    · rw [heq] at heq'
      cases heq'
      exact absurd hzero (by simp)
    · rw [heq] at heq'
      cases heq'
      exact absurd hzero (by simp)
  · have hle := h'.codeRank_le_useful
    have hmono := codeRank_le_append gf n (ps.map vector) [p.vector]
    have huse := h.useful_eq
    rw [map_append, map_singleton] at hle ⊢
    rcases addPiece_cases h.inv hp with ⟨hfull, heq'⟩ | ⟨-, hrec, heq'⟩ |
      ⟨hlt, hrec, state, r', hred, heq'⟩
    · rw [heq] at heq'
      cases heq'
      omega
    · obtain rfl : ps = [] := h.fresh.mp hrec
      rw [heq] at heq'
      cases heq'
      cases hacc with
      | first _ hne => exact (codeRank_singleton hne).symm
      | independent hne | zero hne | last hne | leading hne => exact absurd rfl hne
    rw [heq] at heq'
    cases heq'
    have hdrop := hred.le
    by_cases hkeep : r' = d.useful + 1
    · have hrank := codeRank_of_no_drop h hacc hrec hlt h' hred hkeep
      rw [map_append, map_singleton] at hrank
      exact hkeep.trans hrank.symm
    · simp only at hle ⊢
      omega

variable (gf L) in
theorem counts_new (hn : 0 < n) : (new n).Counts gf n L [] where
  inv := inv_new gf L hn
  fresh := ⟨fun _ => rfl, fun _ => rfl⟩
  useful_eq := by
    have hset : toVec gf n '' {v | v ∈ map vector []} = ∅ := by simp
    rw [codeRank, codeSpan, hset, Submodule.span_empty, finrank_bot]
    rfl

end RLNCDecoder

/-- **Progress is reported honestly along accounted runs.** After every prefix of
such a run both decoders ask for `n` minus the rank of the vectors received, and for
no more than after any shorter prefix. -/
theorem required_honest (gf : GF256) {n L : Nat} (hn : 2 ≤ n) (ps : List CodedPiece)
    (hfit : ∀ p ∈ ps, Fits n L p)
    (hacc : ∀ before p after, ps = before ++ p :: after →
      Accounted gf n (before.map CodedPiece.vector) p.vector) (k : Nat) :
    ∃ d e, feed (FullRLNCDecoder.addPiece gf) (newFullRLNCDecoder n) (ps.take k) = some d ∧
      feed (SystematicRLNCDecoder.addPiece gf) (newSystematicRLNCDecoder n) (ps.take k) = some e ∧
      FullRLNCDecoder.required d = n - codeRank gf n ((ps.take k).map CodedPiece.vector) ∧
      SystematicRLNCDecoder.required e = n - codeRank gf n ((ps.take k).map CodedPiece.vector) ∧
      ∀ j ≤ k, ∀ d₀ e₀,
        feed (FullRLNCDecoder.addPiece gf) (newFullRLNCDecoder n) (ps.take j) = some d₀ →
        feed (SystematicRLNCDecoder.addPiece gf) (newSystematicRLNCDecoder n) (ps.take j) =
          some e₀ →
        FullRLNCDecoder.required d ≤ FullRLNCDecoder.required d₀ ∧
          SystematicRLNCDecoder.required e ≤ SystematicRLNCDecoder.required e₀ := by
  have hrun : ∀ j, ∃ d, feed (addPiece gf) (.new n) (ps.take j) = some d ∧
      d.required = n - codeRank gf n ((ps.take j).map vector) := by
    intro j
    obtain ⟨d, hfeed, h⟩ := feed_rule (ps.take j)
      (I := fun d ps => d.Counts gf n L ps) (counts_new gf L (by omega)) (by
        intro before p after d htake h
        refine addPiece_counts hn h (hfit p (mem_of_mem_take (by rw [htake]; simp))) ?_
        refine hacc before p (after ++ ps.drop j) ?_
        rw [← cons_append, ← append_assoc, ← htake, take_append_drop])
    refine ⟨d, hfeed, ?_⟩
    rw [required, uintSub, if_pos (h.inv.expected ▸ h.inv.useful_le), h.inv.expected, h.useful_eq]
  obtain ⟨d, hfeed, hreq⟩ := hrun k
  refine ⟨d, d, hfeed, hfeed, hreq, hreq, ?_⟩
  intro j hj d₀ e₀ hd₀ he₀
  obtain ⟨d₁, hfeed₁, hreq₁⟩ := hrun j
  obtain rfl : d₁ = d₀ := Option.some.inj (hfeed₁.symm.trans hd₀)
  obtain rfl : d₁ = e₀ := Option.some.inj (hfeed₁.symm.trans he₀)
  have hmono : codeRank gf n ((ps.take j).map vector) ≤ codeRank gf n ((ps.take k).map vector) := by
    apply Submodule.finrank_mono
    apply codeSpan_mono
    intro v hv
    rw [map_take] at hv ⊢
    exact take_subset_take_left _ hj hv
  have hle : d.required ≤ d₁.required := by
    rw [hreq, hreq₁]
    exact Nat.sub_le_sub_left hmono n
  exact ⟨hle, hle⟩

/-- Two accounted arrivals. -/
theorem required_honest_two_pieces :
    ∃ d e, feed (FullRLNCDecoder.addPiece poly84320) (newFullRLNCDecoder 2)
        [⟨[1, 0], [5]⟩, ⟨[1, 1], [2]⟩] = some d ∧
      feed (SystematicRLNCDecoder.addPiece poly84320) (newSystematicRLNCDecoder 2)
        [⟨[1, 0], [5]⟩, ⟨[1, 1], [2]⟩] = some e ∧
      FullRLNCDecoder.required d = 2 - codeRank poly84320 2 [[1, 0], [1, 1]] ∧
      SystematicRLNCDecoder.required e = 2 - codeRank poly84320 2 [[1, 0], [1, 1]] := by
  have hne : toVec poly84320 2 [1, 0] ≠ 0 := fun h => absurd (congrFun h 0) (by decide)
  obtain ⟨d, e, hd, he, hreqd, hreqe, -⟩ := required_honest poly84320 (L := 1) (Nat.le_refl 2)
    [⟨[1, 0], [5]⟩, ⟨[1, 1], [2]⟩] (by simp [Fits]) (by
      intro before p after h
      match before, h with
      | [], h =>
        cases h
        exact .first rfl hne
      | [q], h =>
        cases h
        refine .last (by simp) ?_
        rw [map_singleton, codeRank_singleton hne]
      | _ :: _ :: before, h => exact absurd (congrArg length h) (by simp)) 2
  exact ⟨d, e, hd, he, hreqd, hreqe⟩

/-- One vector received three times: its second copy is counted as useful, and with
the third one `Required` goes up again. -/
theorem required_overcounts :
    (feed (FullRLNCDecoder.addPiece poly84320) (newFullRLNCDecoder 3)
        (List.replicate 2 ⟨[0, 0, 1], [5]⟩)).map FullRLNCDecoder.required = some 1 ∧
      3 - codeRank poly84320 3 (List.replicate 2 [0, 0, 1]) = 2 ∧
      (feed (FullRLNCDecoder.addPiece poly84320) (newFullRLNCDecoder 3)
        (List.replicate 3 ⟨[0, 0, 1], [5]⟩)).map FullRLNCDecoder.required = some 2 := by
  refine ⟨by decide, ?_, by decide⟩
  have hne : toVec poly84320 3 [0, 0, 1] ≠ 0 := fun h => absurd (congrFun h 2) (by decide)
  have hspan : codeSpan poly84320 3 (replicate 2 [0, 0, 1]) = codeSpan poly84320 3 [[0, 0, 1]] :=
    le_antisymm (codeSpan_mono (by simp)) (codeSpan_mono (by simp))
  rw [codeRank, hspan, ← codeRank, codeRank_singleton hne]

/-! ### `GetPiece` -/

/-- The unit vector `e_i`. -/
def unitVector (n i : Nat) : CodingVector := (List.replicate n 0).set i 1

/-- What the scan of `GetPiece` accepts: a one in the requested cell and no zero in
any other. -/
def Accepts (row : CodingVector) (idx : Nat) : Prop :=
  ∀ k < row.length, if k = idx then row.getD k 0 = 1 else row.getD k 0 ≠ 0

theorem getD_unitVector {n i k : Nat} (hk : k < n) :
    (unitVector n i).getD k 0 = if k = i then 1 else 0 := by
  have hlen : k < (unitVector n i).length := by simpa [unitVector] using hk
  rw [getD_eq_getElem _ _ hlen]
  simp only [unitVector, getElem_set, getElem_replicate, eq_comm]

/-- With two cells or more the scan refuses the unit vector. -/
theorem not_accepts_unitVector {n i : Nat} (hn : 2 ≤ n) : ¬ Accepts (unitVector n i) i := by
  intro h
  -- Some cell beside `i` exists, and it is zero.
  obtain ⟨k, hk, hki⟩ : ∃ k < n, k ≠ i := by
    by_cases hi : i = 0
    · exact ⟨1, by omega, by omega⟩
    · exact ⟨0, by omega, Ne.symm hi⟩
  have hcell := h k (by simpa [unitVector] using hk)
  rw [if_neg hki, getD_unitVector hk, if_neg hki] at hcell
  exact hcell rfl

namespace DecoderState

/-- The scan reads cells `i`, `i + 1`, … up to the end of the row. -/
theorem scanRow_spec (row : List UInt8) (idx : Nat) :
    ∀ (n i : Nat), i + n = row.length → ∃ b, scanRow row idx i n = some b ∧
      (b = true ↔ ∀ k, i ≤ k → k < row.length →
        if k = idx then row.getD k 0 = 1 else row.getD k 0 ≠ 0) := by
  intro n
  induction n with
  | zero =>
    intro i hi
    exact ⟨true, rfl, by simp only [true_iff]; intro k hlo hhi; omega⟩
  | succ n ih =>
    intro i hi
    have hlt : i < row.length := by omega
    obtain ⟨b, hscan, hb⟩ := ih (i + 1) (by omega)
    -- The cells from `i` on are cell `i` and the cells from `i + 1` on.
    have hsplit : (∀ k, i ≤ k → k < row.length →
        if k = idx then row.getD k 0 = 1 else row.getD k 0 ≠ 0) ↔
        (if i = idx then row[i] = 1 else row[i] ≠ 0) ∧ b = true := by
      rw [hb, ← getD_eq_getElem row 0 hlt]
      constructor
      · intro h
        exact ⟨h i (Nat.le_refl i) hlt, fun k hk => h k (by omega)⟩
      rintro ⟨hhead, htail⟩ k hk hkl
      rcases Nat.eq_or_lt_of_le hk with rfl | hgt
      · exact hhead
      · exact htail k hgt hkl
    rw [scanRow, getElem?_eq_getElem hlt, Option.bind_some, hsplit]
    by_cases hidx : i = idx
    · subst hidx
      by_cases hone : row[i] = 1
      · exact ⟨b, by simp [hone, hscan], by simp [hone]⟩
      · exact ⟨false, by simp [hone], by simp [hone]⟩
    · by_cases hzero : row[i] = 0
      · exact ⟨false, by simp [hidx, hzero], by simp [hidx, hzero]⟩
      · exact ⟨b, by simp [hidx, hzero, hscan], by simp [hidx, hzero]⟩

/-- `GetPiece` on a partially filled matrix succeeds exactly on the rows that the
scan accepts. -/
theorem getPiece_incomplete {d : DecoderState} {r c L i : Nat} (h : d.Rect r c L) (hi : i < r)
    (hr : r < d.pieceCount) :
    (∃ piece, d.getPiece i = some (.ok piece)) ↔ Accepts (d.coeffs.getD i []) i := by
  have hlen := h.vector_length_getD hi
  have hrows : d.coeffs.rows = r := h.coeffs_length
  have hcoded : i < d.coded.length := h.coded_length.symm ▸ hi
  obtain ⟨b, hscan, hb⟩ := scanRow_spec (d.coeffs.getD i []) i c 0 (by omega)
  have hacc : b = true ↔ Accepts (d.coeffs.getD i []) i := by
    rw [hb]
    exact ⟨fun h k hk => h k (Nat.zero_le k) hk, fun h k _ hk => h k hk⟩
  rw [← hacc]
  simp only [getPiece, rank, hrows, ge_iff_le, Option.pure_def, Option.bind_eq_bind]
  rw [if_neg (by omega), if_neg (by omega), if_neg (by omega), h.coeffs_cols (by omega),
    Option.bind_some, hscan, Option.bind_some]
  cases b with
  | false => simp
  | true => simp [h.coded_cols (by omega : 0 < r), getElem?_eq_getElem hcoded]

end DecoderState

/-- **`GetPiece` against the revealed rows.** In every state that genuine pieces lead
to, `GetPiece(i)` is sound and complete exactly when the matrix is full, or row `i`
is not there yet, or row `i` is neither the unit vector nor a row that the scan
accepts. -/
theorem getPiece_partial_iff (gf : GF256) (originals : List Piece) {L : Nat}
    (hn : 2 ≤ originals.length) (hL : ∀ p ∈ originals, p.length = L) (ps : List CodedPiece)
    (hps : ∀ p ∈ ps, Genuine gf originals L p) (i : Nat) :
    ∃ d, feed (FullRLNCDecoder.addPiece gf) (newFullRLNCDecoder originals.length) ps = some d ∧
      (((i < d.state.rank → d.state.rank < originals.length →
          ((∃ piece, d.state.getPiece i = some (.ok piece)) ↔
            d.state.coeffs.getD i [] = unitVector originals.length i)) ∧
        ∀ piece, d.state.getPiece i = some (.ok piece) → originals[i]? = some piece) ↔
      (i < d.state.rank → d.state.rank < originals.length →
        d.state.coeffs.getD i [] ≠ unitVector originals.length i ∧
        ¬ Accepts (d.state.coeffs.getD i []) i)) := by
  obtain ⟨d, hfeed, h⟩ := feed_new gf (L := L) hn
    fun p hp => ⟨(hps p hp).vector_length, (hps p hp).piece_length⟩
  have hrank : d.state.rank = d.useful := h.rect.coeffs_length
  have hcount := h.pieceCount
  have hle := h.useful_le
  have haccepts : i < d.useful → d.useful < originals.length →
      ((∃ piece, d.state.getPiece i = some (.ok piece)) ↔ Accepts (d.state.coeffs.getD i []) i) :=
    fun hi hr => DecoderState.getPiece_incomplete h.rect hi (by omega)
  refine ⟨d, hfeed, ?_⟩
  rw [hrank]
  constructor
  · rintro ⟨hiff, -⟩ hi hr
    have hunit := (haccepts hi hr).symm.trans (hiff hi hr)
    have hne : d.state.coeffs.getD i [] ≠ unitVector originals.length i := by
      intro heq
      have hacc := hunit.mpr heq
      rw [heq] at hacc
      exact not_accepts_unitVector hn hacc
    exact ⟨hne, fun hacc => hne (hunit.mp hacc)⟩
  intro hcond
  constructor
  · intro hi hr
    obtain ⟨hne, hnot⟩ := hcond hi hr
    rw [haccepts hi hr]
    exact ⟨fun hacc => absurd hacc hnot, fun heq => absurd heq hne⟩
  intro piece hget
  rcases Nat.lt_or_ge i d.useful with hi | hi
  · rcases Nat.lt_or_ge d.useful originals.length with hr | hr
    · exact absurd ((haccepts hi hr).mp ⟨piece, hget⟩) (hcond hi hr).2
    -- The matrix is full: the row read is the original piece.
    have hfull : d.useful = originals.length := by omega
    have hread := getPiece_full h hfull (i := i) (by omega)
    rw [getPiece, hget, coded_eq_original hL h hps hfull (by omega)] at hread
    cases horig : originals[i]? with
    | none =>
      rw [horig] at hread
      cases hread
    | some original =>
      rw [horig] at hread
      cases hread
      rfl
  · -- Row `i` is not there: an error is returned.
    have hrows : d.state.coeffs.rows = d.useful := hrank
    simp only [DecoderState.getPiece, hrows, hi, if_true] at hget
    split at hget
    · cases hget
    · cases hget

/-- One piece received as itself. -/
theorem getPiece_partial_iff_one_piece :
    ∃ d, feed (FullRLNCDecoder.addPiece poly84320) (newFullRLNCDecoder 2) [⟨[2, 0], [10]⟩] =
        some d ∧
      (((0 < d.state.rank → d.state.rank < 2 →
          ((∃ piece, d.state.getPiece 0 = some (.ok piece)) ↔
            d.state.coeffs.getD 0 [] = unitVector 2 0)) ∧
        ∀ piece, d.state.getPiece 0 = some (.ok piece) →
          ([[5], [7]] : List Piece)[0]? = some piece) ↔
      (0 < d.state.rank → d.state.rank < 2 →
        d.state.coeffs.getD 0 [] ≠ unitVector 2 0 ∧ ¬ Accepts (d.state.coeffs.getD 0 []) 0)) := by
  refine getPiece_partial_iff poly84320 [[5], [7]] (L := 1) (by decide) (by simp)
    [⟨[2, 0], [10]⟩] ?_ 0
  intro p hp
  obtain rfl : p = ⟨[2, 0], [10]⟩ := by simpa using hp
  exact ⟨rfl, rfl, by decide⟩

/-- Of the two pieces `5` and `7`, the piece received as itself is refused, and the sum
of both is returned as the first one. -/
theorem getPiece_inverted :
    (feed (FullRLNCDecoder.addPiece poly84320) (newFullRLNCDecoder 2) [⟨[1, 0], [5]⟩]).bind
        (fun d => d.state.getPiece 0) = some (.error .pieceNotDecodedYet) ∧
      (feed (FullRLNCDecoder.addPiece poly84320) (newFullRLNCDecoder 2) [⟨[1, 1], [2]⟩]).bind
        (fun d => d.state.getPiece 0) = some (.ok [2]) := by
  decide

end RlncStreaming.Kodr
