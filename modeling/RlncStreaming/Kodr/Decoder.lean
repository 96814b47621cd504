import RlncStreaming.Kodr.Rref

/-!
The decoders (`kodr/full/decoder.go`, `kodr/systematic/decoder.go`).

The full and the systematic decoder are one piece of code under two names.
`Inv` is the invariant of a run of `AddPiece` calls with vectors of length `n` and
pieces of length `L`: the useful count is the number of rows, the rows span what
the received vectors span, and `n` rows are the identity matrix. It is kept in
every arrival order, with dependent, repeated and zero vectors in between, and it
decides when decoding is complete (`decoding_exact`).
-/

namespace RlncStreaming.Kodr

open Lib DecoderState List Submodule CodedPiece

/-- The record behind both decoders. -/
structure RLNCDecoder where
  expected : Nat
  useful : Nat
  received : Nat
  state : DecoderState
deriving DecidableEq, Repr

namespace RLNCDecoder

def new (pieceCount : Nat) : RLNCDecoder :=
  ⟨pieceCount, 0, 0, .newDecoderStateWithPieceCount pieceCount⟩

/-- `PieceLength`: the width of the coded matrix once a piece was added. -/
def pieceLength (d : RLNCDecoder) : Option Nat :=
  if d.received > 0 then d.state.coded.cols else some 0

/-- `IsDecoded`. -/
def isDecoded (d : RLNCDecoder) : Bool := decide (d.useful ≥ d.expected)

/-- `Required`, a `uint` difference. -/
def required (d : RLNCDecoder) : Nat := uintSub d.expected d.useful

/-- `AddPiece`: the decoder afterwards and the error returned. The first piece is
counted without reducing the matrix. -/
def addPiece (gf : GF256) (d : RLNCDecoder) (piece : CodedPiece) :
    Option (RLNCDecoder × Option KodrError) :=
  if d.isDecoded then some (d, some .allUsefulPiecesReceived)
  else
    let state := d.state.addPiece piece
    let received := d.received + 1
    if ¬ received > 1 then some ({ d with state, received, useful := d.useful + 1 }, none)
    else (state.rref gf).map fun state =>
      ({ d with state, received, useful := state.rank }, none)

/-- `GetPiece`. -/
def getPiece (d : RLNCDecoder) (i : Nat) : Option (Except KodrError Piece) := d.state.getPiece i

/-- The loop of `GetPieces`: `n` pieces from index `i` on. -/
def collect (d : RLNCDecoder) : Nat → Nat → Option (Except KodrError (List Piece))
  | _, 0 => some (.ok [])
  | i, n + 1 => (d.getPiece i).bind fun r => match r with
      | .error e => some (.error e)
      | .ok piece => (d.collect (i + 1) n).map fun r => r.map (piece :: ·)

/-- `GetPieces`. -/
def getPieces (d : RLNCDecoder) : Option (Except KodrError (List Piece)) :=
  if !d.isDecoded then some (.error .moreUsefulPiecesRequired) else d.collect 0 d.useful

end RLNCDecoder

abbrev FullRLNCDecoder := RLNCDecoder

/-- `NewFullRLNCDecoder`. -/
abbrev newFullRLNCDecoder (pieceCount : Nat) : FullRLNCDecoder := .new pieceCount

namespace FullRLNCDecoder

abbrev isDecoded (d : FullRLNCDecoder) : Bool := RLNCDecoder.isDecoded d
abbrev required (d : FullRLNCDecoder) : Nat := RLNCDecoder.required d
abbrev addPiece (gf : GF256) (d : FullRLNCDecoder) (piece : CodedPiece) :
    Option (FullRLNCDecoder × Option KodrError) := RLNCDecoder.addPiece gf d piece
abbrev getPiece (d : FullRLNCDecoder) (i : Nat) : Option (Except KodrError Piece) :=
  RLNCDecoder.getPiece d i
abbrev getPieces (d : FullRLNCDecoder) : Option (Except KodrError (List Piece)) :=
  RLNCDecoder.getPieces d

end FullRLNCDecoder

abbrev SystematicRLNCDecoder := RLNCDecoder

/-- `NewSystematicRLNCDecoder`. -/
abbrev newSystematicRLNCDecoder (pieceCount : Nat) : SystematicRLNCDecoder := .new pieceCount

namespace SystematicRLNCDecoder

abbrev required (d : SystematicRLNCDecoder) : Nat := RLNCDecoder.required d
abbrev addPiece (gf : GF256) (d : SystematicRLNCDecoder) (piece : CodedPiece) :
    Option (SystematicRLNCDecoder × Option KodrError) := RLNCDecoder.addPiece gf d piece

end SystematicRLNCDecoder

/-- A run of `AddPiece` calls, its error results ignored. -/
def feed (add : RLNCDecoder → CodedPiece → Option (RLNCDecoder × Option KodrError)) :
    RLNCDecoder → List CodedPiece → Option RLNCDecoder
  | d, [] => some d
  | d, piece :: pieces => (add d piece).bind fun r => feed add r.1 pieces

/-! ### What was received -/

/-- The space spanned by coding vectors of length `n`. -/
def codeSpan (gf : GF256) (n : Nat) (vectors : List CodingVector) :
    Submodule gf.Sym (Fin n → gf.Sym) :=
  span gf.Sym (toVec gf n '' {v | v ∈ vectors})

/-- The space spanned by coded pieces, vector and piece together. -/
def pieceSpan (gf : GF256) (n L : Nat) (pieces : List CodedPiece) :
    Submodule gf.Sym ((Fin n → gf.Sym) × (Fin L → gf.Sym)) :=
  span gf.Sym ((fun p : CodedPiece => (toVec gf n p.vector, toVec gf L p.piece)) ''
    {p | p ∈ pieces})

/-- Vectors of length `n` and pieces of length `L`. -/
def Fits (n L : Nat) (piece : CodedPiece) : Prop :=
  piece.vector.length = n ∧ piece.piece.length = L

/-- `piece = ∑ i, vector[i] * original[i]`, byte by byte. -/
structure Genuine (gf : GF256) (originals : List Piece) (L : Nat) (p : CodedPiece) : Prop where
  vector_length : p.vector.length = originals.length
  piece_length : p.piece.length = L
  sum_eq : ∀ j < L, gf.sym (p.piece.getD j 0) =
    ∑ i ∈ Finset.range originals.length,
      gf.sym (p.vector.getD i 0) * gf.sym ((originals.getD i []).getD j 0)

variable {originals : List Piece} {ps : List CodedPiece}

section Received

variable {gf : GF256} {n L : Nat}

theorem codeSpan_mono {vs vs' : List CodingVector} (h : ∀ v ∈ vs, v ∈ vs') :
    codeSpan gf n vs ≤ codeSpan gf n vs' :=
  span_mono (Set.image_mono h)

theorem mem_codeSpan {vs : List CodingVector} {v : CodingVector} (h : v ∈ vs) :
    toVec gf n v ∈ codeSpan gf n vs :=
  subset_span ⟨v, h, rfl⟩

theorem codeSpan_le_iff {vs : List CodingVector} {W : Submodule gf.Sym (Fin n → gf.Sym)} :
    codeSpan gf n vs ≤ W ↔ ∀ v ∈ vs, toVec gf n v ∈ W := by
  rw [codeSpan, span_le]
  constructor
  · intro h v hv
    exact h ⟨v, hv, rfl⟩
  · rintro h _ ⟨v, hv, rfl⟩
    exact h v hv

theorem codeSpan_append (vs ws : List CodingVector) :
    codeSpan gf n (vs ++ ws) = codeSpan gf n vs ⊔ codeSpan gf n ws := by
  have hset : {v | v ∈ vs ++ ws} = {v | v ∈ vs} ∪ {v | v ∈ ws} := by
    ext v
    simp
  rw [codeSpan, hset, Set.image_union, span_union, codeSpan, codeSpan]

/-- The rows of a matrix span what they span as a list. -/
theorem codeSpan_eq_rowSpan (vs : List CodingVector) :
    codeSpan gf n vs = rowSpan gf.Sym vs.length fun j => toVec gf n (vs.getD j []) := by
  apply le_antisymm
  · rw [codeSpan_le_iff]
    intro v hv
    obtain ⟨j, hj, rfl⟩ := mem_iff_getElem.mp hv
    rw [← getD_eq_getElem vs [] hj]
    exact mem_rowSpan (M := fun j => toVec gf n (vs.getD j [])) hj
  · rw [rowSpan_le_iff]
    intro j hj
    rw [getD_eq_getElem _ _ hj]
    exact mem_codeSpan (getElem_mem hj)

theorem pieceSpan_mono {ps' : List CodedPiece} (h : ∀ p ∈ ps, p ∈ ps') :
    pieceSpan gf n L ps ≤ pieceSpan gf n L ps' :=
  span_mono (Set.image_mono h)

/-- Slices of one length are equal when they are the same vector. -/
theorem eq_of_toVec_eq {a b : List UInt8} (ha : a.length = n) (hb : b.length = n)
    (h : toVec gf n a = toVec gf n b) : a = b := by
  apply ext_getElem (ha.trans hb.symm)
  intro k hk hk'
  have hcell := congrFun h ⟨k, by omega⟩
  rw [toVec, toVec, GF256.sym_inj] at hcell
  rwa [getD_eq_getElem _ _ hk, getD_eq_getElem _ _ hk'] at hcell

/-- The pieces a combination of coded pieces stands for: `v` is sent to the sum of
the original pieces with the coefficients `v`. -/
noncomputable def combine (gf : GF256) (originals : List Piece) (L : Nat) :
    (Fin originals.length → gf.Sym) →ₗ[gf.Sym] (Fin L → gf.Sym) :=
  Fintype.linearCombination gf.Sym fun i => toVec gf L (originals.getD i [])

theorem combine_apply (v : Fin originals.length → gf.Sym) (j : Fin L) :
    combine gf originals L v j =
      ∑ i : Fin originals.length, v i * gf.sym ((originals.getD i []).getD j 0) := by
  simp [combine, Fintype.linearCombination_apply, toVec]

/-- A coded piece is genuine when its piece is the combination its vector names. -/
theorem Genuine.toVec_piece {p : CodedPiece} (h : Genuine gf originals L p) :
    toVec gf L p.piece = combine gf originals L (toVec gf originals.length p.vector) := by
  funext j
  rw [combine_apply, toVec, h.sum_eq j j.isLt, Finset.sum_range]
  rfl

/-- The combinations of genuine pieces are genuine. -/
theorem pieceSpan_le_graph (h : ∀ p ∈ ps, Genuine gf originals L p) :
    pieceSpan gf originals.length L ps ≤ (combine gf originals L).graph := by
  rw [pieceSpan, span_le]
  rintro _ ⟨p, hp, rfl⟩
  rw [SetLike.mem_coe, LinearMap.mem_graph_iff]
  exact (h p hp).toVec_piece

end Received

/-! ### The invariant of a run -/

/-- The decoder after the pieces `ps`. -/
structure RLNCDecoder.Inv (gf : GF256) (n L : Nat) (ps : List CodedPiece) (d : RLNCDecoder) :
    Prop where
  expected : d.expected = n
  pieceCount : d.state.pieceCount = n
  rect : d.state.Rect d.useful n L
  useful_le : d.useful ≤ n
  untouched : d.received = 0 → d.useful = 0
  span_eq : d.state.vectorSpan gf d.useful n = codeSpan gf n (ps.map vector)
  mem : ∀ j < d.useful, d.state.rowPair gf n L j ∈ pieceSpan gf n L ps
  identity : d.useful = n → ∀ j < n, ∀ k < n, d.state.entry gf j k = if j = k then 1 else 0

namespace RLNCDecoder

variable {gf : GF256} {n L : Nat} {ps : List CodedPiece} {d : RLNCDecoder}

variable (gf L) in
theorem inv_new (hn : 0 < n) : (new n).Inv gf n L [] where
  expected := rfl
  pieceCount := rfl
  rect := ⟨rfl, rfl, by simp [new, newDecoderStateWithPieceCount],
    by simp [new, newDecoderStateWithPieceCount]⟩
  useful_le := Nat.zero_le n
  untouched _ := rfl
  span_eq := by simp [DecoderState.vectorSpan, rowSpan, codeSpan, new]
  mem j hj := absurd hj (Nat.not_lt_zero j)
  identity h := absurd h (by simp only [new]; omega)

section

variable (h : d.Inv gf n L ps)

include h

theorem isDecoded_iff : d.isDecoded = true ↔ d.useful = n := by
  have hle := h.useful_le
  rw [isDecoded, decide_eq_true_eq, h.expected]
  omega

/-- The identity matrix spans everything. -/
theorem vectorSpan_eq_top (hfull : d.useful = n) : d.state.vectorSpan gf n n = ⊤ := by
  have hid := h.identity hfull
  rw [eq_top_iff, ← (Pi.basisFun gf.Sym (Fin n)).span_eq, span_le]
  rintro _ ⟨j, rfl⟩
  have hrow : toVec gf n (d.state.coeffs.getD j []) = Pi.basisFun gf.Sym (Fin n) j := by
    funext k
    have hjk := hid j j.isLt k k.isLt
    rw [entry] at hjk
    rw [toVec, hjk, Pi.basisFun_apply, Pi.single_apply]
    simp only [Fin.ext_iff, eq_comm]
  rw [SetLike.mem_coe, ← hrow]
  exact mem_rowSpan (M := fun j => toVec gf n (d.state.coeffs.getD j [])) j.isLt

/-- **Decoding is complete exactly when the received vectors span the space.** -/
theorem Inv.isDecoded_iff_span : d.isDecoded = true ↔ codeSpan gf n (ps.map vector) = ⊤ := by
  rw [isDecoded_iff h, ← h.span_eq]
  constructor
  · intro hfull
    rw [hfull]
    exact vectorSpan_eq_top h hfull
  intro htop
  have hle := finrank_rowSpan_le (F := gf.Sym) d.useful
    fun j => toVec gf n (d.state.coeffs.getD j [])
  have hdim : Module.finrank gf.Sym (d.state.vectorSpan gf d.useful n) = n := by
    rw [htop, finrank_top]
    simp
  have huse := h.useful_le
  rw [DecoderState.vectorSpan] at hdim
  omega

/-- The matrix with a new row at the bottom. -/
theorem rect_addPiece {p : CodedPiece} (hp : Fits n L p) :
    (d.state.addPiece p).Rect (d.useful + 1) n L := by
  refine ⟨?_, ?_, ?_, ?_⟩
  · simpa [DecoderState.addPiece] using h.rect.coeffs_length
  · simpa [DecoderState.addPiece] using h.rect.coded_length
  · intro v hv
    rcases mem_append.mp hv with hmem | hmem
    · exact h.rect.vector_length v hmem
    rw [mem_singleton.mp hmem]
    exact hp.1
  · intro v hv
    rcases mem_append.mp hv with hmem | hmem
    · exact h.rect.piece_length v hmem
    rw [mem_singleton.mp hmem]
    exact hp.2

theorem rowPair_addPiece_lt (p : CodedPiece) {j : Nat} (hj : j < d.useful) :
    (d.state.addPiece p).rowPair gf n L j = d.state.rowPair gf n L j := by
  have hcoeffs : j < d.state.coeffs.length := h.rect.coeffs_length.symm ▸ hj
  have hcoded : j < d.state.coded.length := h.rect.coded_length.symm ▸ hj
  simp only [DecoderState.rowPair, DecoderState.addPiece]
  rw [getD_append _ _ _ _ hcoeffs, getD_append _ _ _ _ hcoded]

theorem rowPair_addPiece_last (p : CodedPiece) :
    (d.state.addPiece p).rowPair gf n L d.useful = (toVec gf n p.vector, toVec gf L p.piece) := by
  have hcoeffs := h.rect.coeffs_length
  have hcoded := h.rect.coded_length
  simp only [DecoderState.rowPair, DecoderState.addPiece]
  rw [getD_append_right _ _ _ _ hcoeffs.le, getD_append_right _ _ _ _ hcoded.le, hcoeffs, hcoded]
  simp

/-- Every row of the grown matrix is a combination of what was received. -/
theorem rowPair_addPiece_mem (p : CodedPiece) {j : Nat} (hj : j < d.useful + 1) :
    (d.state.addPiece p).rowPair gf n L j ∈ pieceSpan gf n L (ps ++ [p]) := by
  rcases Nat.lt_or_ge j d.useful with hlt | hge
  · rw [rowPair_addPiece_lt h p hlt]
    exact pieceSpan_mono (fun _ hq => mem_append_left _ hq) (h.mem j hlt)
  · obtain rfl : j = d.useful := by omega
    rw [rowPair_addPiece_last h p]
    exact subset_span ⟨p, by simp, rfl⟩

theorem Inv.codeSpan_coeffs : codeSpan gf n d.state.coeffs = codeSpan gf n (ps.map vector) := by
  rw [codeSpan_eq_rowSpan, h.rect.coeffs_length]
  exact h.span_eq

/-- The grown matrix spans what was received. -/
theorem vectorSpan_addPiece (p : CodedPiece) :
    (d.state.addPiece p).vectorSpan gf (d.useful + 1) n =
      codeSpan gf n ((ps ++ [p]).map vector) := by
  have hlen : (d.state.addPiece p).coeffs.length = d.useful + 1 := by
    rw [DecoderState.addPiece, length_append, h.rect.coeffs_length, length_singleton]
  rw [DecoderState.vectorSpan, ← hlen, ← codeSpan_eq_rowSpan, DecoderState.addPiece,
    codeSpan_append, h.codeSpan_coeffs, map_append, codeSpan_append, map_singleton]

/-- What one `AddPiece` does: it is refused when decoding is complete, it only
appends a row when it is the first, and otherwise it reduces the grown matrix. -/
theorem addPiece_cases {p : CodedPiece} (hp : Fits n L p) :
    (d.useful = n ∧ d.addPiece gf p = some (d, some .allUsefulPiecesReceived)) ∨
    (d.useful < n ∧ d.received = 0 ∧ d.addPiece gf p =
      some ({ d with state := d.state.addPiece p, received := 1, useful := 1 }, none)) ∨
    (d.useful < n ∧ 0 < d.received ∧ ∃ state r',
      DecoderState.Reduced gf (d.useful + 1) r' n L (d.state.addPiece p) state ∧
      d.addPiece gf p =
        some ({ d with state, received := d.received + 1, useful := r' }, none)) := by
  have hdec := isDecoded_iff h
  have hle := h.useful_le
  by_cases hfull : d.useful = n
  · left
    refine ⟨hfull, ?_⟩
    rw [addPiece, if_pos (hdec.mpr hfull)]
  right
  have hnot : ¬ d.isDecoded = true := fun hd => hfull (hdec.mp hd)
  by_cases hrec : d.received = 0
  · left
    refine ⟨by omega, hrec, ?_⟩
    rw [addPiece, if_neg hnot]
    simp [hrec, h.untouched hrec]
  right
  obtain ⟨state, r', hrref, hred⟩ := rref_spec gf (rect_addPiece h hp) (Nat.succ_pos _)
  refine ⟨by omega, by omega, state, r', hred, ?_⟩
  rw [addPiece, if_neg hnot]
  have hrank : state.rank = r' := hred.rect.coeffs_length
  simp only [gt_iff_lt, not_lt]
  rw [if_neg (by omega), hrref, Option.map_some, hrank]

end

section

variable (hn : 2 ≤ n) (h : d.Inv gf n L ps) {p : CodedPiece} (hp : Fits n L p)

include hn h hp

/-- Step lemma: `AddPiece` does not panic and keeps the invariant. -/
theorem addPiece_inv : ∃ d' err, d.addPiece gf p = some (d', err) ∧ d'.Inv gf n L (ps ++ [p]) := by
  rcases addPiece_cases h hp with ⟨hfull, heq⟩ | ⟨hlt, hrec, heq⟩ |
    ⟨hlt, hrec, state, r', hred, heq⟩
  · refine ⟨d, _, heq, ?_⟩
    refine { h with span_eq := ?_, mem := ?_ }
    · -- The span is already everything, and it can only grow.
      have htop := h.isDecoded_iff_span.mp ((isDecoded_iff h).mpr hfull)
      rw [h.span_eq, htop, eq_comm, eq_top_iff, ← htop]
      exact codeSpan_mono fun v hv => by
        rw [map_append]
        exact mem_append_left _ hv
    · intro j hj
      exact pieceSpan_mono (fun _ hq => mem_append_left _ hq) (h.mem j hj)
  · have huse := h.untouched hrec
    have hrect := rect_addPiece h hp
    have hspan := vectorSpan_addPiece h p
    have hmem := fun j hj => rowPair_addPiece_mem h p (j := j) hj
    rw [huse] at hrect hspan hmem
    exact ⟨_, _, heq, ⟨h.expected, h.pieceCount, hrect, by simp only; omega,
      fun h0 => absurd h0 (by simp), hspan, hmem, fun h1 => absurd h1 (by simp only; omega)⟩⟩
  refine ⟨_, _, heq, ⟨h.expected, ?_, hred.rect, ?_, ?_, ?_, ?_, ?_⟩⟩
  · exact hred.pieceCount.trans h.pieceCount
  · have := hred.le
    simp only
    omega
  · intro h0
    exact absurd h0 (by simp)
  · exact hred.vectorSpan_eq.trans (vectorSpan_addPiece h p)
  · intro j hj
    refine (rowSpan_le_iff.mpr ?_) (hred.mem j hj)
    intro i hi
    exact rowPair_addPiece_mem h p hi
  intro hfull
  have hle := hred.le
  have hr : d.useful + 1 = n := by simp only at hfull; omega
  have hshape := hred.shape (by simp only at hfull; omega)
  rw [hr, Nat.min_self] at hshape
  exact identity_of_rows_ne_zero hshape.1 hshape.2 fun j hj =>
    hred.row_ne_zero j (by simp only at hfull; omega)

/-- While decoding is not complete `AddPiece` reports no error. -/
theorem addPiece_undecoded (hdec : ¬ d.isDecoded = true) :
    ∃ d', d.addPiece gf p = some (d', none) ∧ d'.Inv gf n L (ps ++ [p]) := by
  obtain ⟨d', err, hadd, h'⟩ := addPiece_inv hn h hp
  rcases addPiece_cases h hp with ⟨hfull, -⟩ | ⟨-, -, heq⟩ | ⟨-, -, _, _, -, heq⟩
  · exact absurd ((isDecoded_iff h).mpr hfull) hdec
  · rw [hadd] at heq
    cases heq
    exact ⟨_, hadd, h'⟩
  · rw [hadd] at heq
    cases heq
    exact ⟨_, hadd, h'⟩

end

/-- Run rule: what every call of `AddPiece` keeps, for the pieces given so far. -/
theorem feed_rule (ps : List CodedPiece) {I : RLNCDecoder → List CodedPiece → Prop}
    (hinit : I d [])
    (hstep : ∀ before p after d, ps = before ++ p :: after → I d before →
      ∃ d' err, d.addPiece gf p = some (d', err) ∧ I d' (before ++ [p])) :
    ∃ d', feed (addPiece gf) d ps = some d' ∧ I d' ps := by
  have hrun : ∀ after before d, ps = before ++ after → I d before →
      ∃ d', feed (addPiece gf) d after = some d' ∧ I d' ps := by
    intro after
    induction after with
    | nil =>
      intro before d hps h
      rw [append_nil] at hps
      exact ⟨d, rfl, hps ▸ h⟩
    | cons p after ih =>
      intro before d hps h
      obtain ⟨d₁, err, hadd, h₁⟩ := hstep before p after d hps h
      obtain ⟨d₂, hfeed, h₂⟩ := ih (before ++ [p]) d₁ (by rw [hps, append_cons]) h₁
      exact ⟨d₂, by rw [feed, hadd]; exact hfeed, h₂⟩
  exact hrun ps [] d rfl hinit

variable (gf) in
/-- The decoder after a run from the start. -/
theorem feed_new (hn : 2 ≤ n) (hfit : ∀ p ∈ ps, Fits n L p) :
    ∃ d, feed (addPiece gf) (new n) ps = some d ∧ d.Inv gf n L ps :=
  feed_rule ps (I := fun d ps => d.Inv gf n L ps) (inv_new gf L (by omega))
    fun before p after d hps h => addPiece_inv hn h (hfit p (by simp [hps]))

/-- When decoding ends depends on the set of vectors only: neither on their order, nor on
repetitions, nor on the payloads. -/
theorem isDecoded_of_vectors (hn : 2 ≤ n) (hps : ∀ p ∈ ps, Fits n L p) {M : Nat}
    {qs : List CodedPiece} (hqs : ∀ q ∈ qs, Fits n M q)
    (hsub : ps.map vector ⊆ qs.map vector) :
    ∃ d e, feed (addPiece gf) (new n) ps = some d ∧ feed (addPiece gf) (new n) qs = some e ∧
      (d.isDecoded = true → e.isDecoded = true) := by
  obtain ⟨d, hd, hinv⟩ := feed_new gf hn hps
  obtain ⟨e, he, hinv'⟩ := feed_new gf hn hqs
  refine ⟨d, e, hd, he, fun hdec => hinv'.isDecoded_iff_span.mpr (top_le_iff.mp ?_)⟩
  rw [← hinv.isDecoded_iff_span.mp hdec]
  exact codeSpan_mono hsub

/-- The second run has the pieces in another order, one of them forged. -/
theorem isDecoded_of_vectors_forged :
    ∃ d e, feed (addPiece poly84320) (new 2) [⟨[1, 2], [5]⟩, ⟨[1, 3], [2]⟩] = some d ∧
      feed (addPiece poly84320) (new 2) [⟨[1, 3], [9]⟩, ⟨[1, 2], [5]⟩] = some e ∧
      (d.isDecoded = true → e.isDecoded = true) :=
  isDecoded_of_vectors (L := 1) (M := 1) (by decide) (by simp; trivial) (by simp; trivial) (by simp)

/-! ### Reading the pieces back -/

/-- Once decoding is complete, row `j` of the coded matrix is original piece `j`. -/
theorem coded_eq_original (hL : ∀ p ∈ originals, p.length = L) (h : d.Inv gf originals.length L ps)
    (hps : ∀ p ∈ ps, Genuine gf originals L p) (hfull : d.useful = originals.length) {j : Nat}
    (hj : j < originals.length) : d.state.coded[j]? = originals[j]? := by
  have hlt : j < d.state.coded.length := by
    rw [h.rect.coded_length, hfull]
    exact hj
  have hgen := (LinearMap.mem_graph_iff _ _).mp (pieceSpan_le_graph hps (h.mem j (by omega)))
  have hunit : (d.state.rowPair gf originals.length L j).1 =
      Pi.single (⟨j, hj⟩ : Fin originals.length) (1 : gf.Sym) := by
    funext k
    have hjk := h.identity hfull j hj k k.isLt
    rw [entry_eq_rowPair L j k.isLt] at hjk
    rw [Pi.single_apply, show (d.state.rowPair gf originals.length L j).1 k = _ from hjk]
    simp only [Fin.ext_iff, eq_comm]
  rw [hunit, combine, Fintype.linearCombination_apply_single, one_smul] at hgen
  have hpiece : (d.state.coded.getD j []).length = L := h.rect.piece_length_getD (by omega)
  have horig : (originals.getD j []).length = L := by
    rw [getD_eq_getElem _ _ hj]
    exact hL _ (getElem_mem hj)
  have heq := eq_of_toVec_eq hpiece horig hgen
  rw [getD_eq_getElem _ _ hlt, getD_eq_getElem _ _ hj] at heq
  rw [getElem?_eq_getElem hlt, getElem?_eq_getElem hj, heq]

/-- `GetPiece` of a decoder that holds as many rows as pieces reads a row of the
coded matrix. -/
theorem getPiece_full (h : d.Inv gf n L ps) (hfull : d.useful = n) {i : Nat} (hi : i < n) :
    d.getPiece i = (d.state.coded[i]?).map Except.ok := by
  have hrows : d.state.coeffs.rows = n := h.rect.coeffs_length.trans hfull
  simp only [getPiece, DecoderState.getPiece, DecoderState.rank, hrows, h.pieceCount, ge_iff_le,
    Nat.le_refl, if_true]
  rw [if_neg (by omega), if_neg (by omega)]
  cases d.state.coded[i]? <;> rfl

theorem collect_eq {pieces : List Piece} (hget : ∀ i < pieces.length,
      d.getPiece i = (pieces[i]?).map Except.ok) :
    ∀ (n i : Nat), i + n = pieces.length → d.collect i n = some (.ok (pieces.drop i)) := by
  intro n
  induction n with
  | zero =>
    intro i hi
    simp [collect, drop_eq_nil_of_le (by omega : pieces.length ≤ i)]
  | succ n ih =>
    intro i hi
    have hlt : i < pieces.length := by omega
    rw [collect, hget i hlt, getElem?_eq_getElem hlt, drop_eq_getElem_cons hlt,
      Option.map_some, Option.bind_some, ih (i + 1) (by omega)]
    rfl

/-- Once decoding is complete, `GetPieces` returns the rows of the coded matrix. -/
theorem getPieces_full (h : d.Inv gf n L ps) (hdec : d.isDecoded = true) :
    d.getPieces = some (.ok d.state.coded) := by
  have hfull := (isDecoded_iff h).mp hdec
  have hlen : d.state.coded.length = n := h.rect.coded_length.trans hfull
  rw [getPieces, hdec, hfull]
  exact collect_eq (fun i hi => getPiece_full h hfull (hlen ▸ hi)) n 0 (by omega)

/-- With genuine pieces these are the original pieces. -/
theorem getPieces_eq (hL : ∀ p ∈ originals, p.length = L) (h : d.Inv gf originals.length L ps)
    (hps : ∀ p ∈ ps, Genuine gf originals L p) (hdec : d.isDecoded = true) :
    d.getPieces = some (.ok originals) := by
  have hfull := (isDecoded_iff h).mp hdec
  have hcoded : d.state.coded = originals := by
    apply ext_getElem?
    intro j
    rcases Nat.lt_or_ge j originals.length with hj | hj
    · exact coded_eq_original hL h hps hfull hj
    · rw [getElem?_eq_none hj, getElem?_eq_none (by rw [h.rect.coded_length, hfull]; exact hj)]
  rw [getPieces_full h hdec, hcoded]

end RLNCDecoder

/-- After every prefix of the run `IsDecoded` says whether the vectors received so far
span the space, and when they do `GetPieces` returns the original pieces in order. -/
def DecodesExactly (gf : GF256) (originals : List Piece) (ps : List CodedPiece) : Prop :=
  ∀ k, ∃ d,
    feed (FullRLNCDecoder.addPiece gf) (newFullRLNCDecoder originals.length) (ps.take k) = some d ∧
    (FullRLNCDecoder.isDecoded d = true ↔
      codeSpan gf originals.length ((ps.take k).map vector) = ⊤) ∧
    (FullRLNCDecoder.isDecoded d = true → FullRLNCDecoder.getPieces d = some (.ok originals))

theorem decodesExactly_of_genuine {gf : GF256} {L : Nat} (hn : 2 ≤ originals.length)
    (hL : ∀ p ∈ originals, p.length = L) (hps : ∀ p ∈ ps, Genuine gf originals L p) :
    DecodesExactly gf originals ps := by
  intro k
  have hgen : ∀ p ∈ ps.take k, Genuine gf originals L p := fun p hp =>
    hps p (mem_of_mem_take hp)
  obtain ⟨d, hfeed, h⟩ := RLNCDecoder.feed_new gf (L := L) hn
    fun p hp => ⟨(hgen p hp).vector_length, (hgen p hp).piece_length⟩
  exact ⟨d, hfeed, h.isDecoded_iff_span, RLNCDecoder.getPieces_eq hL h hgen⟩

/-- **Decoding is exact and happens as early as possible**, for every run of genuine
pieces. -/
theorem decoding_exact (gf : GF256) (originals : List Piece) {L : Nat}
    (hn : 2 ≤ originals.length) (hL : ∀ p ∈ originals, p.length = L) (ps : List CodedPiece)
    (hps : ∀ p ∈ ps, Genuine gf originals L p) (k : Nat) :
    ∃ d, feed (FullRLNCDecoder.addPiece gf) (newFullRLNCDecoder originals.length) (ps.take k) =
        some d ∧
      (FullRLNCDecoder.isDecoded d = true ↔
        codeSpan gf originals.length ((ps.take k).map vector) = ⊤) ∧
      (FullRLNCDecoder.isDecoded d = true → FullRLNCDecoder.getPieces d = some (.ok originals)) :=
  decodesExactly_of_genuine hn hL hps k

/-- Two one-byte pieces, received as themselves and as their sum. -/
theorem decoding_exact_two_pieces :
    ∃ d, feed (FullRLNCDecoder.addPiece poly84320) (newFullRLNCDecoder 2)
        [⟨[1, 0], [5]⟩, ⟨[1, 1], [2]⟩] = some d ∧
      (FullRLNCDecoder.isDecoded d = true ↔ codeSpan poly84320 2 [[1, 0], [1, 1]] = ⊤) ∧
      (FullRLNCDecoder.isDecoded d = true →
        FullRLNCDecoder.getPieces d = some (.ok [[5], [7]])) := by
  refine decoding_exact poly84320 [[5], [7]] (L := 1) (by decide) (by simp)
    [⟨[1, 0], [5]⟩, ⟨[1, 1], [2]⟩] ?_ 2
  intro p hp
  simp only [mem_cons, not_mem_nil, or_false] at hp
  rcases hp with rfl | rfl
  · exact ⟨rfl, rfl, by decide⟩
  · exact ⟨rfl, rfl, by decide⟩

end RlncStreaming.Kodr
