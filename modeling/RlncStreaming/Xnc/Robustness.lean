import RlncStreaming.Xnc.Client

/-!
The receive loop on blocks from an untrusted server.

Ids, sizes and types come from different frames and nothing relates them, so the loop
can index and slice out of range. `BlockOk` says when one block is harmless in a given
state: the id has a decoder, a block that completes a chunk has a size that fits, and a
frame type of the other mode meets a decoder that survives it. A run is free of panics
exactly when each block is harmless in the state that it meets (`client_survives_iff`).

A decoder of a reachable table is either in the ordinary state or holds a single row
without a vector, which a plain frame in the encoded mode leaves behind (`DecoderOk`).
-/

namespace RlncStreaming.Xnc

open Kodr Lib DecoderState List Option

/-! ### Rows without a vector -/

section Blank

variable (gf : GF256)

/-- The pivot search meets a row without a vector, or stops before it. -/
theorem findPivot_blank {m : Matrix} {r i : Nat} (hrow : m[r]? = some []) :
    ∀ (n pivot : Nat), pivot ≤ r → r < pivot + n →
      findPivot m i pivot n = none ∨ ∃ p < r, findPivot m i pivot n = some (some p) := by
  intro n
  induction n with
  | zero =>
    intro pivot hlo hhi
    omega
  | succ n ih =>
    intro pivot hlo hhi
    rw [findPivot]
    rcases Nat.eq_or_lt_of_le hlo with rfl | hlt
    · left
      simp [Matrix.cell, hrow]
    cases hcell : m.cell pivot i with
    | none => exact .inl rfl
    | some x =>
      by_cases hx : x = 0
      · simpa [hx] using ih (pivot + 1) hlt (by omega)
      · exact .inr ⟨pivot, hlt, by simp [hx]⟩

/-- `eliminate` leaves every row but the one it is aimed at, and it crashes on a row
without a vector. -/
theorem eliminate_blank (cols i r : Nat) :
    (∀ j d d', d.coeffs[r]? = some [] → eliminate gf cols i j d = some d' →
      d'.coeffs[r]? = some []) ∧
    ∀ d : DecoderState, d.coeffs[r]? = some [] → eliminate gf cols i r d = none := by
  have hcrash : ∀ d : DecoderState, d.coeffs[r]? = some [] → eliminate gf cols i r d = none := by
    intro d hrow
    have hcell : d.coeffs.cell r i = none := by simp [Matrix.cell, hrow]
    simp [eliminate, hcell]
  refine ⟨?_, hcrash⟩
  intro j d d' hrow heq
  by_cases hj : j = r
  · rw [hj, hcrash d hrow] at heq
    cases heq
  simp only [eliminate, Option.bind_eq_bind, Option.pure_def, Option.bind_eq_some_iff] at heq
  obtain ⟨x, -, heq⟩ := heq
  split at heq
  · cases heq
    exact hrow
  simp only [bind_eq_some_iff] at heq
  obtain ⟨_, -, _, -, _, -, _, -, heq⟩ := heq
  cases heq
  exact (getElem?_set_ne hj).trans hrow

/-- Selecting the first pivot crashes, or it finds one above the row without a vector. -/
theorem selectPivot_blank {r : Nat} {d : DecoderState} (hr : 0 < r)
    (hrow : d.coeffs[r]? = some []) :
    selectPivot (r + 1) 0 d = none ∨
      ∃ d', selectPivot (r + 1) 0 d = some (true, d') ∧ d'.coeffs[r]? = some [] := by
  rw [selectPivot, Nat.zero_add, Nat.add_sub_cancel]
  cases hcell : d.coeffs.cell 0 0 with
  | none => exact .inl rfl
  | some x =>
    by_cases hx : x = 0
    · rcases findPivot_blank (i := 0) hrow r 1 hr (by omega) with hfind | ⟨p, hp, hfind⟩
      · exact .inl (by simp [hx, hfind])
      cases hcoeffs : d.coeffs.swapRows 0 p with
      | none => exact .inl (by simp [hx, hfind, hcoeffs])
      | some coeffs =>
        cases hcoded : d.coded.swapRows 0 p with
        | none => exact .inl (by simp [hx, hfind, hcoeffs, hcoded])
        | some coded =>
          refine .inr ⟨⟨d.pieceCount, coeffs, coded⟩, by simp [hx, hfind, hcoeffs, hcoded], ?_⟩
          rw [Matrix.swapRows, bind_eq_some_iff] at hcoeffs
          obtain ⟨a, -, hcoeffs⟩ := hcoeffs
          rw [map_eq_some_iff] at hcoeffs
          obtain ⟨b, -, rfl⟩ := hcoeffs
          rw [getElem?_set_ne (by omega), getElem?_set_ne (by omega)]
          exact hrow
    · exact .inr ⟨d, by simp [hx], hrow⟩

/-- The first column of a matrix whose last row has no vector: row `r` is below the
pivot, so the elimination reaches it. -/
theorem forwardStep_blank {cols r : Nat} {d : DecoderState} (hr : 0 < r)
    (hrow : d.coeffs[r]? = some []) : forwardStep gf (r + 1) cols 0 d = none := by
  rw [forwardStep]
  rcases selectPivot_blank hr hrow with hsel | ⟨d', hsel, hrow'⟩
  · rw [hsel]
    rfl
  · obtain ⟨hkeep, hcrash⟩ := eliminate_blank gf cols 0 r
    rw [hsel]
    exact forUp_crash (fun d => d.coeffs[r]? = some []) hkeep hcrash hrow' hr (by omega)

/-- `Rref` crashes on a row without a vector behind rows that have one. -/
theorem rref_blank_last {d : DecoderState} {r c : Nat} (hr : 0 < r) (hlen : d.coeffs.length = r + 1)
    (hcols : d.coeffs.cols = some (c + 1)) (hrow : d.coeffs[r]? = some []) :
    d.rref gf = none := by
  have hforward : d.cleanForward gf = none := by
    simp only [cleanForward, hcols, bind_eq_bind, bind_some, Matrix.rows, hlen]
    exact forUp_eq_none (by omega) (forwardStep_blank gf hr hrow)
  simp [rref, hforward]

/-- With a row without a vector in front, `Rref` looks at no column and drops every
row. -/
theorem rref_blank_first {d : DecoderState} {rows : Matrix} (hcoeffs : d.coeffs = [] :: rows)
    (hlen : d.coded.length = d.coeffs.length) :
    d.rref gf = some { d with coeffs := [], coded := [] } := by
  have hcols : d.coeffs.cols = some 0 := by rw [hcoeffs]; rfl
  have hforward : d.cleanForward gf = some d := by
    simp [cleanForward, hcols, forUp]
  have hbackward : d.cleanBackward gf = some d := by
    simp [cleanBackward, hcols, forDown]
  have hdrop : ∀ {coeffs coded : Matrix}, coded.length = coeffs.length →
      dropZeroRows 0 coeffs coded = some ([], []) := by
    intro coeffs
    induction coeffs with
    | nil =>
      intro coded h
      obtain rfl : coded = [] := length_eq_zero_iff.mp h
      rfl
    | cons row coeffs ih =>
      intro coded h
      cases coded with
      | nil => exact absurd h (by simp)
      | cons piece coded =>
        have hzero : isZeroRow 0 row = some true := by
          simp [isZeroRow]
        simp [dropZeroRows, hzero, ih (by simpa using h)]
  simp [rref, hforward, hbackward, removeZeroRows, hcols, hdrop hlen]

end Blank

/-! ### Decoders of a reachable table -/

/-- The states of a decoder in the table. -/
inductive DecoderOk (gf : GF256) (d : FullRLNCDecoder) : Prop where
  | rows (ps : List CodedPiece) : RLNCDecoder.Inv gf piececnt piecesize ps d → DecoderOk gf d
  /-- A plain frame came first: one row, without a vector. -/
  | blank (p : Piece) : d = ⟨piececnt, 1, 1, ⟨piececnt, [[]], [p]⟩⟩ → DecoderOk gf d

/-- What `AddPiece` does to a decoder that is not complete: no error, a state of the
table, and completeness read off the rows held. -/
structure Added (gf : GF256) (d : FullRLNCDecoder) (p : CodedPiece) (d' : FullRLNCDecoder) :
    Prop where
  addPiece_eq : FullRLNCDecoder.addPiece gf d p = some (d', none)
  ok : DecoderOk gf d'
  isDecoded_iff : FullRLNCDecoder.isDecoded d' = true ↔
    codeSpan gf piececnt (d.state.coeffs ++ [p.vector]) = ⊤

variable {d : FullRLNCDecoder}

section Table

variable {gf : GF256}

/-- Fewer vectors than coordinates do not span. -/
theorem codeSpan_ne_top {n : Nat} {vs : List CodingVector} (h : vs.length < n) :
    codeSpan gf n vs ≠ ⊤ := by
  intro htop
  have hle := finrank_rowSpan_le (F := gf.Sym) vs.length fun j => toVec gf n (vs.getD j [])
  have hdim : Module.finrank gf.Sym (Fin n → gf.Sym) = n := by simp
  rw [← codeSpan_eq_rowSpan, htop, finrank_top, hdim] at hle
  omega

theorem not_isDecoded (h : d.expected = piececnt) (huse : d.useful ≤ 1) : ¬ d.isDecoded = true := by
  rw [FullRLNCDecoder.isDecoded, RLNCDecoder.isDecoded, decide_eq_true_eq, h]
  have : 2 ≤ piececnt := by decide
  omega

/-- `AddPiece` when the matrix of the new state is known and short. -/
theorem added_of_short {d' : FullRLNCDecoder} {p : CodedPiece}
    (hadd : FullRLNCDecoder.addPiece gf d p = some (d', none)) (hok : DecoderOk gf d')
    (hexp : d'.expected = piececnt) (huse : d'.useful ≤ 1) (hlen : d.state.coeffs.length ≤ 1) :
    Added gf d p d' where
  addPiece_eq := hadd
  ok := hok
  isDecoded_iff := by
    have hshort : (d.state.coeffs ++ [p.vector]).length < piececnt := by
      rw [length_append, length_singleton]
      have : 2 < piececnt := by decide
      omega
    exact ⟨fun h => absurd h (not_isDecoded hexp huse), fun h => absurd h (codeSpan_ne_top hshort)⟩

/-- The state in which rows were lost: nothing is held, something was received. -/
theorem decoderOk_emptied (received : Nat) :
    DecoderOk gf ⟨piececnt, 0, received, ⟨piececnt, [], []⟩⟩ := by
  refine .rows [] ⟨rfl, rfl, ⟨rfl, rfl, by simp, by simp⟩, Nat.zero_le _, fun _ => rfl, ?_, ?_, ?_⟩
  · simp [DecoderState.vectorSpan, rowSpan, codeSpan]
  · intro j hj
    exact absurd hj (Nat.not_lt_zero j)
  · intro h
    exact absurd (show 0 = piececnt from h) (by decide)

variable (gf) in
/-- When a row without a vector is in front, `AddPiece` loses every row. -/
theorem addPiece_blank_first {p : CodedPiece} (rows : Matrix)
    (hdec : ¬ FullRLNCDecoder.isDecoded d = true) (hrec : 0 < d.received)
    (hcoeffs : d.state.coeffs ++ [p.vector] = [] :: rows)
    (hlen : d.state.coded.length = d.state.coeffs.length) :
    FullRLNCDecoder.addPiece gf d p = some (⟨d.expected, 0, d.received + 1,
      ⟨d.state.pieceCount, [], []⟩⟩, none) := by
  have hrref := rref_blank_first gf (d := d.state.addPiece p) hcoeffs (by
    simp [addPiece, hlen])
  rw [FullRLNCDecoder.addPiece, RLNCDecoder.addPiece, if_neg hdec, if_neg (by omega), hrref]
  rfl

/-- A decoder that holds one row without a vector loses it with the next piece. -/
theorem added_to_blank (q : Piece) (p : CodedPiece) :
    Added gf ⟨piececnt, 1, 1, ⟨piececnt, [[]], [q]⟩⟩ p ⟨piececnt, 0, 2, ⟨piececnt, [], []⟩⟩ :=
  added_of_short (addPiece_blank_first gf [p.vector] (not_isDecoded rfl (Nat.le_refl 1))
    (Nat.lt_succ_self 0) rfl rfl) (decoderOk_emptied 2) rfl (Nat.zero_le 1) (Nat.le_refl 1)

section

variable (h : DecoderOk gf d) (hdec : ¬ FullRLNCDecoder.isDecoded d = true)

include h hdec

/-- A piece with a vector never panics. -/
theorem added_coded {p : CodedPiece} (hp : Fits piececnt piecesize p) : ∃ d', Added gf d p d' := by
  cases h with
  | rows ps hinv =>
    obtain ⟨d', hadd, hinv'⟩ := RLNCDecoder.addPiece_undecoded (by decide) hinv hp hdec
    refine ⟨d', hadd, .rows _ hinv', ?_⟩
    rw [FullRLNCDecoder.isDecoded, hinv'.isDecoded_iff_span, codeSpan_append,
      hinv.codeSpan_coeffs, map_append, codeSpan_append, map_singleton]
  | blank q hd =>
    subst hd
    exact ⟨_, added_to_blank q p⟩

/-- A piece without a vector is taken by a decoder that holds no row with one. -/
theorem added_blank (piece : Piece) (hrows : d.state.coeffs = [] ∨ d.state.coeffs = [[]]) :
    ∃ d', Added gf d ⟨[], piece⟩ d' := by
  cases h with
  | rows ps hinv =>
    have hexp := hinv.expected
    have hcount := hinv.pieceCount
    have hrect := hinv.rect
    have hempty : d.state.coeffs = [] := by
      rcases hrows with hnil | hblank
      · exact hnil
      have hlen := hrect.vector_length [] (by rw [hblank]; exact mem_singleton_self _)
      exact absurd (show 0 = piececnt from hlen) (by decide)
    have huse : d.useful = 0 := by rw [← hrect.coeffs_length, hempty]; rfl
    have hcoded : d.state.coded = [] := length_eq_zero_iff.mp (hrect.coded_length.trans huse)
    by_cases hrec : d.received = 0
    · refine ⟨⟨piececnt, 1, 1, ⟨piececnt, [[]], [piece]⟩⟩, added_of_short ?_ (.blank piece rfl) rfl
        (Nat.le_refl 1) (by rw [hempty]; exact Nat.zero_le 1)⟩
      rw [FullRLNCDecoder.addPiece, RLNCDecoder.addPiece, if_neg hdec]
      simp [hrec, huse, hexp, addPiece, hempty, hcoded, hcount]
    · have hadd := addPiece_blank_first gf (p := ⟨[], piece⟩) [] hdec (by omega)
        (by rw [hempty]; rfl) (by rw [hempty, hcoded])
      rw [hexp, hcount] at hadd
      exact ⟨_, added_of_short hadd (decoderOk_emptied _) rfl (Nat.zero_le 1)
        (by rw [hempty]; exact Nat.zero_le 1)⟩
  | blank q hd =>
    subst hd
    exact ⟨_, added_to_blank q _⟩

/-- A piece without a vector panics on a decoder that holds rows with one. -/
theorem addPiece_blank_panics (piece : Piece)
    (hrows : ¬ (d.state.coeffs = [] ∨ d.state.coeffs = [[]])) :
    FullRLNCDecoder.addPiece gf d ⟨[], piece⟩ = none := by
  cases h with
  | rows ps hinv =>
    have hrect := hinv.rect
    have huse : 0 < d.useful := by
      rw [← hrect.coeffs_length]
      exact length_pos_iff.mpr fun hnil => hrows (.inl hnil)
    have hrec : 0 < d.received := by
      by_contra hzero
      have := hinv.untouched (by omega)
      omega
    have hcols : (d.state.addPiece ⟨[], piece⟩).coeffs.cols = some (15 + 1) := by
      have hhead := hrect.coeffs_cols huse
      rw [Matrix.cols] at hhead ⊢
      rw [addPiece, head?_append]
      cases hd : d.state.coeffs with
      | nil => exact absurd (.inl hd) hrows
      | cons row rows =>
        rw [hd] at hhead
        exact hhead
    have hrref := rref_blank_last gf (d := d.state.addPiece ⟨[], piece⟩) huse
      (by simp [addPiece, hrect.coeffs_length]) hcols
      (by rw [addPiece, ← hrect.coeffs_length, getElem?_concat_length])
    rw [FullRLNCDecoder.addPiece, RLNCDecoder.addPiece, if_neg hdec, if_neg (by omega), hrref]
    rfl
  | blank q hd =>
    subst hd
    exact absurd (.inr rfl) hrows

end

end Table

/-! ### One block -/

/-- A block that is harmless in the state `c`. -/
inductive BlockOk (gf : GF256) (spare : Nat) (c : ClientState) (b : List UInt8) : Bool → Prop where
  /-- An END frame, or a type byte that is refused. -/
  | stop {encode : Bool} : b.getD 0 0 ≠ typeXncEnc → b.getD 0 0 ≠ typeXnc →
      BlockOk gf spare c b encode
  /-- A coded piece: its id has a decoder, and if it completes the chunk the size fits into
  what `GetFile` returns. -/
  | coded {d : FullRLNCDecoder} : b.getD 0 0 = typeXncEnc →
      (c.decodersFor (field b 9))[field b 1]? = some d →
      (FullRLNCDecoder.isDecoded d = true ∨
        (codeSpan gf piececnt (d.state.coeffs ++ [(b.drop 13).take vectorsize]) = ⊤ →
          field b 5 ≤ chunksize + spare)) →
      BlockOk gf spare c b true
  /-- A plain frame in the encoded mode: its decoder is complete or holds no vector. -/
  | blank {d : FullRLNCDecoder} : b.getD 0 0 = typeXnc →
      (c.decodersFor (field b 9))[field b 1]? = some d →
      (FullRLNCDecoder.isDecoded d = true ∨ d.state.coeffs = [] ∨ d.state.coeffs = [[]]) →
      BlockOk gf spare c b true
  /-- A plain frame in the plain mode: if it completes the chunk the size fits into it. -/
  | plain : b.getD 0 0 = typeXnc →
      (c.chunk.length + piecesize = chunksize → field b 5 ≤ chunksize) →
      BlockOk gf spare c b false

/-- The decoders of the table are in one of their states. -/
def TableOk (gf : GF256) (c : ClientState) : Prop :=
  ∀ ds, c.decoders = some ds → ∀ d ∈ ds, DecoderOk gf d

section OneBlock

variable {gf : GF256} {spare : Nat} {c : ClientState}

theorem TableOk.mem (h : TableOk gf c) {num : Nat} (hd : d ∈ c.decodersFor num) :
    DecoderOk gf d := by
  rw [ClientState.decodersFor] at hd
  cases hds : c.decoders with
  | none =>
    rw [hds, getD_none] at hd
    rw [(mem_replicate.mp hd).2]
    exact .rows [] (RLNCDecoder.inv_new gf piecesize (by decide))
  | some ds =>
    rw [hds, getD_some] at hd
    exact h ds hds d hd

theorem TableOk.set (h : TableOk gf c) (num id : Nat) (hd : DecoderOk gf d) (rFile : List UInt8) :
    TableOk gf ⟨c.chunk, rFile, some ((c.decodersFor num).set id d)⟩ := by
  intro ds hds d' hd'
  cases hds
  rcases mem_or_eq_of_mem_set hd' with hmem | rfl
  · exact h.mem hmem
  · exact hd

/-- What a decoder of the table returns once it is complete is one chunk long. -/
theorem getFile_length (h : DecoderOk gf d) (hdec : FullRLNCDecoder.isDecoded d = true) :
    ∃ recvfile, getFile d = some (.ok recvfile) ∧ recvfile.length = chunksize := by
  cases h with
  | rows ps hinv =>
    refine ⟨d.state.coded.flatten, by
      rw [getFile, FullRLNCDecoder.getPieces, RLNCDecoder.getPieces_full hinv hdec]; rfl, ?_⟩
    have hlen : ∀ piece ∈ d.state.coded, piece.length = piecesize := hinv.rect.piece_length
    have hfull := (RLNCDecoder.isDecoded_iff hinv).mp hdec
    rw [length_flatten, map_congr_left hlen, map_const', sum_replicate_nat,
      hinv.rect.coded_length, hfull]
    decide
  | blank p hd =>
    subst hd
    exact absurd hdec (not_isDecoded rfl (Nat.le_refl 1))

variable (spare) in
/-- The rest of the loop body after a successful `AddPiece`. -/
theorem receiveCoded_added {xncD : XNC} {d' : FullRLNCDecoder}
    (hd : (c.decodersFor xncD.chunkNum)[xncD.chunkId]? = some d)
    (h : Added gf d ⟨xncD.vector, xncD.piece⟩ d') :
    (receiveCoded gf spare c xncD = none ↔
      d'.isDecoded = true ∧ ¬ xncD.chunkSize ≤ chunksize + spare) ∧
    (TableOk gf c → ∀ c', receiveCoded gf spare c xncD = some (.next c') → TableOk gf c') := by
  have hadd := h.addPiece_eq
  simp only [receiveCoded, hd, Option.bind_eq_bind, Option.bind_some, hadd, Option.pure_def]
  by_cases hdec : d'.isDecoded = true
  · obtain ⟨recvfile, hfile, hlen⟩ := getFile_length h.ok hdec
    simp only [hdec, if_true, hfile, Option.bind_some, sliceTo, hlen, true_and]
    by_cases hsize : xncD.chunkSize ≤ chunksize + spare
    · simp only [hsize, if_true, Option.bind_some, not_true_eq_false, reduceCtorEq, true_and]
      intro hc c' heq
      rw [appendPart] at heq
      split at heq
      · cases heq
      cases heq
      exact hc.set _ _ h.ok _
    · simp [hsize]
  · simp only [hdec, if_false, false_and, reduceCtorEq, true_and, Option.some.injEq,
      Outcome.next.injEq, Bool.false_eq_true]
    rintro hc c' rfl
    exact hc.set _ _ h.ok _

variable (spare) in
/-- A data frame of the encoded mode, given which decoders `good` take it. -/
theorem receiveCoded_ne_none_iff (xncD : XNC) (good : FullRLNCDecoder → Prop) (hc : TableOk gf c)
    (hgood : ∀ d, DecoderOk gf d → ¬ FullRLNCDecoder.isDecoded d = true → good d →
      ∃ d', Added gf d ⟨xncD.vector, xncD.piece⟩ d')
    (hbad : ∀ d, DecoderOk gf d → ¬ FullRLNCDecoder.isDecoded d = true → ¬ good d →
      FullRLNCDecoder.addPiece gf d ⟨xncD.vector, xncD.piece⟩ = none) :
    (receiveCoded gf spare c xncD ≠ none ↔
      ∃ d, (c.decodersFor xncD.chunkNum)[xncD.chunkId]? = some d ∧
        (FullRLNCDecoder.isDecoded d = true ∨ good d ∧
          (codeSpan gf piececnt (d.state.coeffs ++ [xncD.vector]) = ⊤ →
            xncD.chunkSize ≤ chunksize + spare))) ∧
    ∀ c', receiveCoded gf spare c xncD = some (.next c') → TableOk gf c' := by
  cases hd : (c.decodersFor xncD.chunkNum)[xncD.chunkId]? with
  | none =>
    have hnone : receiveCoded gf spare c xncD = none := by simp [receiveCoded, hd]
    simp [hnone]
  | some d =>
    have hok : DecoderOk gf d := hc.mem (mem_of_getElem? hd)
    by_cases hdec : FullRLNCDecoder.isDecoded d = true
    · have hsurplus := receiveCoded_surplus gf spare xncD hd hdec
      refine ⟨⟨fun _ => ⟨d, rfl, .inl hdec⟩, fun _ => by simp [hsurplus]⟩, fun c' heq => ?_⟩
      rw [hsurplus] at heq
      cases heq
      exact hc.set _ _ hok _
    by_cases hd' : good d
    · obtain ⟨d', hadded⟩ := hgood d hok hdec hd'
      obtain ⟨hnone, hnext⟩ := receiveCoded_added spare hd hadded
      refine ⟨?_, hnext hc⟩
      rw [ne_eq, hnone, hadded.isDecoded_iff]
      simp [hdec, hd']
    · have hnone : receiveCoded gf spare c xncD = none := by
        simp [receiveCoded, hd, hbad d hok hdec hd']
      simp [hnone, hdec, hd']

variable (gf spare c) in
/-- A block that is neither a coded piece nor a plain frame makes `Client` return. -/
theorem processBlock_stop (encode : Bool) {b : List UInt8}
    (hb : b.length = framesizeEnc ∨ b.length = framesize) (henc : b.getD 0 0 ≠ typeXncEnc)
    (hxnc : b.getD 0 0 ≠ typeXnc) :
    ∃ result, processBlock gf spare encode c b = some (.done result) := by
  by_cases hend : b.getD 0 0 = typeEnd
  · refine ⟨some c.rFile, ?_⟩
    rw [processBlock, decodeXNCPkt_eq hb, if_pos hend]
    rfl
  · refine ⟨none, ?_⟩
    rw [processBlock, decodeXNCPkt_eq hb, if_neg hend, if_neg henc, if_neg hxnc]
    rfl

/-- The encoded mode. -/
theorem processBlock_coded_iff (hc : TableOk gf c) {b : List UInt8} (hb : b.length = framesizeEnc) :
    (processBlock gf spare true c b ≠ none ↔ BlockOk gf spare c b true) ∧
      ∀ c', processBlock gf spare true c b = some (.next c') → TableOk gf c' := by
  have hdecode := decodeXNCPkt_eq (.inl hb)
  by_cases henc : b.getD 0 0 = typeXncEnc
  · have hprocess : processBlock gf spare true c b = receiveCoded gf spare c
        ⟨typeXncEnc, field b 1, field b 9, field b 5, (b.drop 13).take vectorsize,
          (b.drop (13 + vectorsize)).take piecesize⟩ := by
      rw [processBlock, hdecode, henc, if_neg (by decide), if_pos rfl, if_pos hb]
      rfl
    have hfit : Fits piececnt piecesize
        ⟨(b.drop 13).take vectorsize, (b.drop (13 + vectorsize)).take piecesize⟩ := by
      have hsize : framesizeEnc = 13 + vectorsize + piecesize := rfl
      constructor
      · rw [length_take, length_drop, piececnt]
        omega
      · rw [length_take, length_drop]
        omega
    obtain ⟨hiff, hnext⟩ := receiveCoded_ne_none_iff spare ⟨typeXncEnc, field b 1, field b 9,
        field b 5, (b.drop 13).take vectorsize, (b.drop (13 + vectorsize)).take piecesize⟩
      (fun _ => True) hc (fun d hok hdec _ => added_coded hok hdec hfit)
      (fun d _ _ hnot => absurd trivial hnot)
    rw [hprocess]
    refine ⟨hiff.trans ⟨?_, ?_⟩, hnext⟩
    · rintro ⟨d, hd, hcond⟩
      exact .coded henc hd (hcond.imp id And.right)
    intro hblock
    cases hblock with
    | stop hne _ => exact absurd henc hne
    | coded _ hd hcond => exact ⟨_, hd, hcond.imp id fun h => ⟨trivial, h⟩⟩
    | blank hxnc _ _ => exact absurd (henc.symm.trans hxnc) (by decide)
  · by_cases hxnc : b.getD 0 0 = typeXnc
    · have hprocess : processBlock gf spare true c b = receiveCoded gf spare c
          ⟨typeXnc, field b 1, field b 9, field b 5, [], b.drop 13⟩ := by
        rw [processBlock, hdecode, hxnc, if_neg (by decide), if_neg (by decide), if_pos rfl]
        rfl
      obtain ⟨hiff, hnext⟩ := receiveCoded_ne_none_iff spare
        ⟨typeXnc, field b 1, field b 9, field b 5, [], b.drop 13⟩
        (fun d => d.state.coeffs = [] ∨ d.state.coeffs = [[]]) hc
        (fun d hok hdec hrows => added_blank hok hdec _ hrows)
        (fun d hok hdec hrows => addPiece_blank_panics hok hdec _ hrows)
      rw [hprocess]
      refine ⟨hiff.trans ⟨?_, ?_⟩, hnext⟩
      · rintro ⟨d, hd, hcond⟩
        exact .blank hxnc hd (hcond.imp id And.left)
      intro hblock
      cases hblock with
      | stop _ hne => exact absurd hxnc hne
      | coded h _ _ => exact absurd h henc
      | @blank d _ hd hcond =>
        refine ⟨d, hd, hcond.imp id fun hrows => ⟨hrows, fun htop => ?_⟩⟩
        -- Two rows at most do not complete a chunk.
        refine absurd htop (codeSpan_ne_top ?_)
        rw [length_append]
        rcases hrows with hnil | hblank
        · rw [hnil]
          exact (by decide : 0 + 1 < piececnt)
        · rw [hblank]
          exact (by decide : 1 + 1 < piececnt)
    · have hstop : BlockOk gf spare c b true := .stop henc hxnc
      obtain ⟨result, hprocess⟩ := processBlock_stop gf spare c true (.inl hb) henc hxnc
      simp [hprocess, hstop]

/-- The plain mode. -/
theorem processBlock_plain_iff (hc : TableOk gf c) {b : List UInt8} (hb : b.length = framesize) :
    (processBlock gf spare false c b ≠ none ↔ BlockOk gf spare c b false) ∧
      ∀ c', processBlock gf spare false c b = some (.next c') → TableOk gf c' := by
  have hdecode := decodeXNCPkt_eq (.inr hb)
  by_cases henc : b.getD 0 0 = typeXncEnc
  · have hprocess : processBlock gf spare false c b = none := by
      rw [processBlock, hdecode, henc, if_neg (by decide), if_pos rfl, if_neg (by rw [hb]; decide)]
      rfl
    refine ⟨⟨fun h => absurd hprocess h, fun hblock => ?_⟩, by simp [hprocess]⟩
    cases hblock with
    | stop hne _ => exact absurd henc hne
    | plain hxnc _ => exact absurd (henc.symm.trans hxnc) (by decide)
  by_cases hxnc : b.getD 0 0 = typeXnc
  · have hprocess : processBlock gf spare false c b = receivePlain c
        ⟨typeXnc, field b 1, field b 9, field b 5, [], b.drop 13⟩ := by
      rw [processBlock, hdecode, hxnc, if_neg (by decide), if_neg (by decide), if_pos rfl]
      rfl
    have hlen : (c.chunk ++ b.drop 13).length = c.chunk.length + piecesize := by
      have hsize : framesize = 13 + piecesize := rfl
      rw [length_append, length_drop]
      omega
    rw [hprocess, receivePlain]
    simp only [hlen, sliceTo]
    by_cases hfull : c.chunk.length + piecesize = chunksize
    · by_cases hsize : field b 5 ≤ chunksize
      · refine ⟨⟨fun _ => .plain hxnc fun _ => hsize, fun _ => by simp [hfull, hsize]⟩, ?_⟩
        simp only [hfull, if_true, Nat.add_zero, hsize, map_some, some.injEq]
        intro c' heq
        rw [appendPart] at heq
        split at heq
        · cases heq
        cases heq
        exact hc
      · refine ⟨⟨fun h => absurd (by simp [hfull, hsize]) h, fun hblock => ?_⟩, by
          simp [hfull, hsize]⟩
        cases hblock with
        | stop _ hne => exact absurd hxnc hne
        | plain _ hfits => exact absurd (hfits hfull) hsize
    · refine ⟨⟨fun _ => .plain hxnc fun h => absurd h hfull, fun _ => by simp [hfull]⟩, ?_⟩
      simp only [hfull, if_false, some.injEq, Outcome.next.injEq]
      rintro c' rfl
      exact hc
  · have hstop : BlockOk gf spare c b false := .stop henc hxnc
    obtain ⟨result, hprocess⟩ := processBlock_stop gf spare c false (.inr hb) henc hxnc
    simp [hprocess, hstop]

variable (spare) in
/-- Step lemma: a block is processed without a panic exactly when it is harmless, and the
table stays in order. -/
theorem processBlock_ne_none_iff {encode : Bool} (hc : TableOk gf c) {b : List UInt8}
    (hb : b.length = frameSize encode) :
    (processBlock gf spare encode c b ≠ none ↔ BlockOk gf spare c b encode) ∧
      ∀ c', processBlock gf spare encode c b = some (.next c') → TableOk gf c' := by
  cases encode with
  | true => exact processBlock_coded_iff hc hb
  | false => exact processBlock_plain_iff hc hb

end OneBlock

/-! ### Runs -/

/-- Run lemma, from any state with the table in order. -/
theorem receive_ne_none_of {gf : GF256} {spare : Nat} {encode : Bool} :
    ∀ (bs : List (List UInt8)) {c : ClientState}, TableOk gf c →
      (∀ b ∈ bs, b.length = frameSize encode) →
      (receive gf spare encode c bs ≠ none ↔
        ∀ before b after c', bs = before ++ b :: after →
          receive gf spare encode c before = some (.next c') → BlockOk gf spare c' b encode) := by
  intro bs
  induction bs with
  | nil =>
    intro c _ _
    refine ⟨fun _ before b after c' h => absurd h (by simp), fun _ => by simp [receive]⟩
  | cons b bs ih =>
    intro c hc hlen
    obtain ⟨hiff, hnext⟩ := processBlock_ne_none_iff spare hc (hlen b mem_cons_self)
    have hrest := fun b' hb' => hlen b' (mem_cons_of_mem _ hb')
    cases hstep : processBlock gf spare encode c b with
    | none =>
      have hbad : ¬ BlockOk gf spare c b encode := fun h => hiff.mpr h hstep
      refine ⟨fun h => absurd (by simp [receive, hstep]) h, fun h => ?_⟩
      exact absurd (h [] b bs c rfl rfl) hbad
    | some o =>
      have hgood : BlockOk gf spare c b encode := hiff.mp (by simp [hstep])
      cases o with
      | done result =>
        refine ⟨fun _ before b' after c' heq hrun => ?_, fun _ => by simp [receive, hstep]⟩
        cases before with
        | nil =>
          cases heq
          cases hrun
          exact hgood
        | cons b₀ before =>
          cases heq
          simp [receive, hstep] at hrun
      | next c₁ =>
        have hloop : receive gf spare encode c (b :: bs) = receive gf spare encode c₁ bs := by
          simp [receive, hstep]
        rw [hloop, ih (hnext c₁ hstep) hrest]
        constructor
        · intro h before b' after c' heq hrun
          cases before with
          | nil =>
            cases heq
            cases hrun
            exact hgood
          | cons b₀ before =>
            cases heq
            refine h before b' after c' rfl ?_
            simpa [receive, hstep] using hrun
        · intro h before b' after c' heq hrun
          refine h (b :: before) b' after c' (by rw [heq]; rfl) ?_
          simpa [receive, hstep] using hrun

/-- **A server can crash the client exactly with a block that is not harmless** in the
state it meets. -/
theorem client_survives_iff (gf : GF256) (spare : Nat) (encode : Bool) (bs : List (List UInt8))
    (hlen : ∀ b ∈ bs, b.length = frameSize encode) :
    receive gf spare encode .new bs ≠ none ↔
      ∀ before b after c, bs = before ++ b :: after →
        receive gf spare encode .new before = some (.next c) → BlockOk gf spare c b encode :=
  receive_ne_none_of bs (fun ds hds => absurd hds (by simp [ClientState.new])) hlen

/-- Two coded frames for the second of two chunks with an END frame, and two plain frames. -/
theorem client_survives_data :
    receive poly84320 0 true .new [encFrame 9 1 2 ⟨replicate 16 1, replicate 1024 5⟩,
      encFrame 9 1 2 ⟨replicate 16 2, replicate 1024 7⟩, encodeEND 0 true] ≠ none ∧
    receive poly84320 0 false .new [plainFrame 9 0 1 (replicate 1024 5),
      plainFrame 9 0 1 (replicate 1024 7)] ≠ none := by
  -- the table that the first coded frame makes
  have htable :
      (receive poly84320 0 true .new [encFrame 9 1 2 ⟨replicate 16 1, replicate 1024 5⟩]).any
        (fun o => o.casesOn (fun c => ((c.decodersFor 2)[1]?).isSome) fun _ => false) = true := by
    decide +kernel
  constructor
  · refine (client_survives_iff poly84320 0 true _ (by decide +kernel)).mpr ?_
    intro before b after c hbs hrun
    rcases before with _ | ⟨_, _ | ⟨_, _ | ⟨_, _ | _⟩⟩⟩
    · cases hbs
      cases hrun
      exact .coded rfl rfl (.inr fun _ => by decide +kernel)
    · cases hbs
      rw [hrun] at htable
      obtain ⟨d, hd⟩ := Option.isSome_iff_exists.mp htable
      exact .coded rfl hd (.inr fun _ => by decide +kernel)
    · cases hbs
      exact .stop (by decide +kernel) (by decide +kernel)
    · cases hbs
    · cases hbs
  · refine (client_survives_iff poly84320 0 false _ (by decide +kernel)).mpr ?_
    intro before b after c hbs _
    have hb : b ∈ [plainFrame 9 0 1 (replicate 1024 5), plainFrame 9 0 1 (replicate 1024 7)] := by
      rw [hbs]
      simp
    rcases mem_pair.mp hb with rfl | rfl
    · exact .plain rfl fun _ => by decide +kernel
    · exact .plain rfl fun _ => by decide +kernel

/-- In the encoded mode a data frame that announces no chunks, and in the plain mode a
frame of the encoded type: either of them crashes the client as its first block. -/
theorem client_crashes :
    (encFrame 0 0 0 ⟨List.replicate 16 0, List.replicate 1024 0⟩).length = frameSize true ∧
      receive poly84320 0 true .new [encFrame 0 0 0 ⟨List.replicate 16 0, List.replicate 1024 0⟩] =
        none ∧
      (frame typeXncEnc 0 0 0 (List.replicate 1024 0)).length = frameSize false ∧
      receive poly84320 0 false .new [frame typeXncEnc 0 0 0 (List.replicate 1024 0)] = none := by
  have hfit : Fits piececnt piecesize ⟨replicate 16 0, replicate 1024 0⟩ :=
    ⟨length_replicate, length_replicate⟩
  have hplain : (frame typeXncEnc 0 0 0 (replicate 1024 0)).length = framesize := by
    rw [frame_length, length_replicate]
    decide
  refine ⟨?_, ?_, hplain, ?_⟩
  · rw [encFrame, frame_length, length_append, length_replicate, length_replicate]
    decide
  · rw [receive, processBlock_encFrame 0 0 0 hfit]
    rfl
  · rw [receive, processBlock, decodeXNCPkt_eq (.inr hplain), if_neg (by decide),
      if_pos (by decide), if_neg (by rw [hplain]; decide)]
    rfl

end RlncStreaming.Xnc
