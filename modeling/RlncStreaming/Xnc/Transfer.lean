import RlncStreaming.Xnc.Server
import RlncStreaming.Xnc.Client

/-!
A whole transfer: the receive loop on the frames that `sendFile` writes.

The chunks arrive one after the other, so the loop is followed chunk by chunk. In the
encoded mode a chunk adds its bytes to the result when the vectors that arrived span
the space, and nothing otherwise; the loop does not notice a chunk that stayed
incomplete. So a transfer is right exactly when every chunk's draws span and the chunk
number fits its 32-bit field (`transfer_integrity_iff`), and it survives the loss of
frames as long as they do (`loss_tolerant_transfer`).
-/

namespace RlncStreaming.Xnc

open Kodr Lib List FullRLNCDecoder CodedPiece Option ClientState Function

section

variable (filebytes : List UInt8) (got : Nat → Bool) (m : Nat)

/-- The bytes of those of the first `m` chunks that were decoded. -/
def decodedBytes : List UInt8 :=
  (List.range m).flatMap fun i => if got i then block chunksize i filebytes else []

theorem decodedBytes_succ : decodedBytes filebytes got (m + 1) = decodedBytes filebytes got m ++
      if got m then block chunksize m filebytes else [] := by
  simp [decodedBytes, range_succ]

end

/-! ### The encoded mode, chunk by chunk -/

/-- What the frames of chunk `i` do to the state: `part` is appended to the result and
no other decoder of the table, `num` entries long, is touched. -/
structure Passed (num i : Nat) (part : List UInt8) (c c' : ClientState) : Prop where
  rFile : c'.rFile = c.rFile ++ part
  length : (c'.decodersFor num).length = (c.decodersFor num).length
  other : ∀ j, j ≠ i → (c'.decodersFor num)[j]? = (c.decodersFor num)[j]?

theorem Passed.trans {num i : Nat} {part part' : List UInt8} {c c' c'' : ClientState}
    (h : Passed num i part c c') (h' : Passed num i part' c' c'') :
    Passed num i (part ++ part') c c'' where
  rFile := by rw [h'.rFile, h.rFile, append_assoc]
  length := h'.length.trans h.length
  other j hj := (h'.other j hj).trans (h.other j hj)

/-- Storing a decoder and appending a part. -/
theorem passed_set (num i : Nat) (c : ClientState) (d : FullRLNCDecoder) (part : List UInt8) :
    Passed num i part c ⟨c.chunk, c.rFile ++ part, some ((c.decodersFor num).set i d)⟩ where
  rFile := rfl
  length := length_set
  other _ hj := getElem?_set_ne (Ne.symm hj)

theorem flatMap_range_split {α : Type} (f : Nat → List α) {m n : Nat} (h : m < n) :
    ∃ back, (range n).flatMap f = (range m).flatMap f ++ (f m ++ back) := by
  obtain ⟨k, rfl⟩ := Nat.exists_eq_add_of_lt h
  exact ⟨_, by rw [Nat.add_assoc, range_add, range_succ_eq_map, map_cons, flatMap_append,
    flatMap_cons, Nat.add_zero]⟩

variable {ps : Nat → List CodedPiece}

section Coded

variable (gf : GF256) (spare : Nat) {filebytes : List UInt8} {i num : Nat}

/-- The frame of a coded piece of chunk `i`. -/
abbrev chunkFrame (filebytes : List UInt8) (i : Nat) (p : CodedPiece) : List UInt8 :=
  encFrame (block chunksize i filebytes).length i (chunkCount filebytes) p

/-- The frames of chunk `i`. -/
abbrev codedChunk (filebytes : List UInt8) (ps : Nat → List CodedPiece) (i : Nat) :
    List (List UInt8) := (ps i).map (chunkFrame filebytes i)

variable {gf} in
theorem genuine_fits {p : CodedPiece}
    (hp : Genuine gf (chunkPieces filebytes i) piecesize p) : Fits piececnt piecesize p :=
  ⟨hp.vector_length.trans (length_chunkPieces i), hp.piece_length⟩

/-- A frame of chunk `i` when the chunk number on the wire is `num`. -/
theorem processBlock_chunkFrame (hnum : chunkCount filebytes % 2 ^ 32 = num) (hi : i < num)
    {c : ClientState} {p : CodedPiece} (hp : Fits piececnt piecesize p) :
    processBlock gf spare true c (chunkFrame filebytes i p) =
      receiveCoded gf spare c ⟨typeXncEnc, i, num, (block chunksize i filebytes).length,
        p.vector, p.piece⟩ := by
  have hsize : (block chunksize i filebytes).length ≤ chunksize := by
    rw [length_block]
    exact Nat.min_le_left _ _
  have hsmall : chunksize < 2 ^ 32 := by decide
  rw [processBlock_encFrame _ _ _ hp, hnum, Nat.mod_eq_of_lt (by omega : i < 2 ^ 32),
    Nat.mod_eq_of_lt (by omega : (block chunksize i filebytes).length < 2 ^ 32)]

variable {gf} in
/-- Once its chunk is decoded, a decoder gives back the padded chunk. -/
theorem getFile_decoded {d : FullRLNCDecoder} {ps : List CodedPiece}
    (hps : ∀ p ∈ ps, Genuine gf (chunkPieces filebytes i) piecesize p)
    (h : RLNCDecoder.Inv gf piececnt piecesize ps d) (hdec : isDecoded d = true) :
    getFile d = some (.ok (paddedChunk filebytes i)) := by
  rw [← length_chunkPieces i] at h
  have hget := RLNCDecoder.getPieces_eq (fun p hp => length_of_mem_chunkPieces hp) h hps hdec
  rw [getFile, getPieces, hget, map_some, ← flatten_chunkPieces]

variable {gf} in
/-- A frame of a chunk that is not decoded yet: the decoder takes the piece, and when
that completes the chunk its bytes are appended. -/
theorem receiveCoded_step {c : ClientState} {d : FullRLNCDecoder} {ps : List CodedPiece}
    {p : CodedPiece} (hps : ∀ q ∈ ps ++ [p], Genuine gf (chunkPieces filebytes i) piecesize q)
    (hd : (c.decodersFor num)[i]? = some d) (h : RLNCDecoder.Inv gf piececnt piecesize ps d)
    (hdec : ¬ isDecoded d = true) :
    ∃ d', RLNCDecoder.Inv gf piececnt piecesize (ps ++ [p]) d' ∧
      receiveCoded gf spare c ⟨typeXncEnc, i, num, (block chunksize i filebytes).length,
        p.vector, p.piece⟩ = some (
          if isDecoded d' = true then
            if i + 1 = num then .done (some (c.rFile ++ block chunksize i filebytes))
            else .next ⟨c.chunk, c.rFile ++ block chunksize i filebytes,
              some ((c.decodersFor num).set i d')⟩
          else .next ⟨c.chunk, c.rFile, some ((c.decodersFor num).set i d')⟩) := by
  have hfit : Fits piececnt piecesize p := genuine_fits (hps p (by simp))
  obtain ⟨d', hadd, h'⟩ := RLNCDecoder.addPiece_undecoded (by decide) h hfit hdec
  refine ⟨d', h', ?_⟩
  simp only [receiveCoded, hd, Option.bind_eq_bind, Option.bind_some, addPiece, hadd,
    Option.pure_def]
  by_cases hdec' : isDecoded d' = true
  · have hle : (block chunksize i filebytes).length ≤ (paddedChunk filebytes i).length := by
      rw [length_paddedChunk, length_block]
      exact Nat.min_le_left _ _
    rw [if_pos hdec', if_pos hdec']
    simp only [getFile_decoded hps h' hdec', Option.bind_some, sliceTo_of_le hle, take_paddedChunk,
      appendPart]
    by_cases hlast : i + 1 = num
    · rw [if_pos hlast, if_pos (by omega)]
    · rw [if_neg hlast, if_neg (by omega)]
  · rw [if_neg hdec', if_neg hdec']

section

variable (hnum : chunkCount filebytes % 2 ^ 32 = num)

include hnum

/-- Run lemma of surplus frames. -/
theorem receive_surplus (hi : i < num) (rest : List (List UInt8)) :
    ∀ (qs : List CodedPiece) {c : ClientState} {d : FullRLNCDecoder},
      (c.decodersFor num)[i]? = some d → isDecoded d = true →
      (∀ q ∈ qs, Fits piececnt piecesize q) →
      ∃ c', receive gf spare true c (qs.map (chunkFrame filebytes i) ++ rest) =
          receive gf spare true c' rest ∧ Passed num i [] c c' := by
  intro qs
  induction qs with
  | nil =>
    intro c d _ _ _
    exact ⟨c, rfl, ⟨(append_nil _).symm, rfl, fun _ _ => rfl⟩⟩
  | cons q qs ih =>
    intro c d hd hdec hfit
    have hstep := processBlock_chunkFrame gf spare hnum hi (c := c) (hfit q mem_cons_self)
    rw [receiveCoded_surplus gf spare _ hd hdec] at hstep
    have hpass := passed_set num i c d []
    rw [append_nil] at hpass
    have hd' : (decodersFor ⟨c.chunk, c.rFile, some ((c.decodersFor num).set i d)⟩
        num)[i]? = some d :=
      List.getElem?_set_self (List.getElem?_eq_some_iff.mp hd).1
    obtain ⟨c', heq, hpass'⟩ := ih hd' hdec fun q' hq' => hfit q' (mem_cons_of_mem _ hq')
    refine ⟨c', ?_, hpass.trans hpass'⟩
    rw [map_cons, cons_append, receive, hstep, bind_some]
    exact heq

/-- Run lemma of one chunk: its bytes are appended exactly when what arrived spans, and
with the last chunk of the table that ends the loop. -/
theorem receive_chunk (hi : i < num) (rest : List (List UInt8)) {got : Bool} :
    ∀ (qs : List CodedPiece) {ps : List CodedPiece} {c : ClientState} {d : FullRLNCDecoder},
      (c.decodersFor num)[i]? = some d → RLNCDecoder.Inv gf piececnt piecesize ps d →
      ¬ isDecoded d = true →
      (∀ q ∈ ps ++ qs, Genuine gf (chunkPieces filebytes i) piecesize q) →
      (got = true ↔ codeSpan gf piececnt ((ps ++ qs).map vector) = ⊤) →
      ∃ c', receive gf spare true c (qs.map (chunkFrame filebytes i) ++ rest) =
          (if got = true ∧ i + 1 = num then some (.done (some c'.rFile))
            else receive gf spare true c' rest) ∧
        Passed num i (if got then block chunksize i filebytes else []) c c' := by
  intro qs
  induction qs with
  | nil =>
    intro ps c d _ h hdec _ hgot
    rw [append_nil, ← h.isDecoded_iff_span] at hgot
    obtain rfl : got = false := Bool.eq_false_iff.mpr fun ht => hdec (hgot.mp ht)
    exact ⟨c, (if_neg (by simp)).symm, ⟨(append_nil _).symm, rfl, fun _ _ => rfl⟩⟩
  | cons q qs ih =>
    intro ps c d hd h hdec hgen hgot
    rw [append_cons] at hgen hgot
    obtain ⟨d', h', hstep⟩ := receiveCoded_step spare
      (fun q' hq' => hgen q' (mem_append_left _ hq')) hd h hdec
    have hfit : ∀ q' ∈ q :: qs, Fits piececnt piecesize q' := by
      intro q' hq'
      refine genuine_fits (hgen q' ?_)
      simp only [mem_append, mem_cons] at hq' ⊢
      tauto
    rw [← processBlock_chunkFrame gf spare hnum hi (hfit q mem_cons_self)] at hstep
    have hset : i < (c.decodersFor num).length := (List.getElem?_eq_some_iff.mp hd).1
    rw [map_cons, cons_append, receive, hstep, bind_some]
    by_cases hdec' : isDecoded d' = true
    · -- This piece completes the chunk, whatever arrives after it.
      have hspan : codeSpan gf piececnt ((ps ++ [q] ++ qs).map vector) = ⊤ := by
        rw [eq_top_iff, ← h'.isDecoded_iff_span.mp hdec']
        refine codeSpan_mono fun v hv => ?_
        rw [map_append]
        exact mem_append_left _ hv
      obtain rfl : got = true := hgot.mpr hspan
      rw [if_pos hdec']
      by_cases hlast : i + 1 = num
      · refine ⟨_, ?_, passed_set num i c d' (block chunksize i filebytes)⟩
        rw [if_pos hlast, if_pos ⟨rfl, hlast⟩]
      rw [if_neg hlast]
      obtain ⟨c', heq, hpass⟩ := receive_surplus gf spare hnum hi rest qs
        (c := ⟨c.chunk, c.rFile ++ block chunksize i filebytes,
          some ((c.decodersFor num).set i d')⟩)
        (getElem?_set_self hset) hdec' fun q' hq' => hfit q' (mem_cons_of_mem _ hq')
      refine ⟨c', heq.trans (if_neg fun hstop => hlast hstop.2).symm, ?_⟩
      have htotal := (passed_set num i c d' (block chunksize i filebytes)).trans hpass
      rwa [append_nil] at htotal
    · rw [if_neg hdec']
      have hpass := passed_set num i c d' []
      rw [append_nil] at hpass
      obtain ⟨c', heq, hpass'⟩ := ih
        (c := ⟨c.chunk, c.rFile, some ((c.decodersFor num).set i d')⟩)
        (getElem?_set_self hset) h' hdec' hgen hgot
      exact ⟨c', heq, hpass.trans hpass'⟩

/-- Run lemma of the chunks from chunk `k` on. The loop ends with the last chunk of the
table when that one is decoded, and otherwise goes on with `rest`. -/
theorem receive_chunks {got : Nat → Bool}
    (hgen : ∀ i < num, ∀ p ∈ ps i, Genuine gf (chunkPieces filebytes i) piecesize p)
    (hgot : ∀ i < num, (got i = true ↔ codeSpan gf piececnt ((ps i).map vector) = ⊤))
    (rest : List (List UInt8)) :
    ∀ (m k : Nat) {c : ClientState}, k + m = num → c.rFile = decodedBytes filebytes got k →
      (c.decodersFor num).length = num →
      (∀ j, k ≤ j → j < num → (c.decodersFor num)[j]? = some (newFullRLNCDecoder piececnt)) →
      ∃ c', receive gf spare true c ((range' k m).flatMap (codedChunk filebytes ps) ++ rest) =
          (if 0 < m ∧ got (num - 1) = true then some (.done (some c'.rFile))
            else receive gf spare true c' rest) ∧
        c'.rFile = decodedBytes filebytes got num ∧ (c'.decodersFor num).length = num := by
  intro m
  induction m with
  | zero =>
    intro k c hk hfile hlen _
    obtain rfl : k = num := by omega
    exact ⟨c, (if_neg (by simp)).symm, hfile, hlen⟩
  | succ m ih =>
    intro k c hk hfile hlen hfresh
    have hkn : k < num := by omega
    have hnew : ¬ isDecoded (newFullRLNCDecoder piececnt) = true := by decide
    obtain ⟨c₁, heq, hpass⟩ := receive_chunk gf spare hnum hkn
      ((range' (k + 1) m).flatMap (codedChunk filebytes ps) ++ rest)
      (ps k) (hfresh k (Nat.le_refl k) hkn) (RLNCDecoder.inv_new gf piecesize (by decide)) hnew
      (hgen k hkn) (hgot k hkn)
    have hfile₁ : c₁.rFile = decodedBytes filebytes got (k + 1) := by
      rw [hpass.rFile, hfile, decodedBytes_succ]
    have hlen₁ := hpass.length.trans hlen
    rw [range'_succ, flatMap_cons, append_assoc]
    rcases Nat.eq_zero_or_pos m with rfl | hm
    · -- Chunk `k` is the last one.
      obtain rfl : num = k + 1 := hk.symm
      exact ⟨c₁, by simpa using heq, hfile₁, hlen₁⟩
    obtain ⟨c', hrest, hlast⟩ := ih (k + 1) (by omega) hfile₁ hlen₁
      fun j hj hjn => (hpass.other j (by omega)).trans (hfresh j (by omega) hjn)
    refine ⟨c', ?_, hlast⟩
    rw [if_neg fun h => by omega, hrest] at heq
    simpa [hm] using heq

end

theorem decodersFor_new :
    new.decodersFor num = replicate num (newFullRLNCDecoder piececnt) := rfl

/-- The loop on the frames of the chunks, from its start. -/
theorem receive_codedChunks (hnum : chunkCount filebytes % 2 ^ 32 = num) {got : Nat → Bool}
    (hgen : ∀ i < num, ∀ p ∈ ps i, Genuine gf (chunkPieces filebytes i) piecesize p)
    (hgot : ∀ i < num, (got i = true ↔ codeSpan gf piececnt ((ps i).map vector) = ⊤))
    (rest : List (List UInt8)) :
    ∃ c', receive gf spare true .new ((range num).flatMap (codedChunk filebytes ps) ++ rest) =
        (if 0 < num ∧ got (num - 1) = true then some (.done (some c'.rFile))
          else receive gf spare true c' rest) ∧
      c'.rFile = decodedBytes filebytes got num ∧ (c'.decodersFor num).length = num := by
  have hrun := receive_chunks gf spare hnum hgen hgot rest num 0 (c := .new) (by omega) rfl
    (by rw [decodersFor_new, length_replicate])
    (fun j _ hj => by rw [decodersFor_new, getElem?_replicate, if_pos hj])
  rwa [← range_eq_range'] at hrun

end Coded

/-! ### Which bytes arrive -/

/-- All chunks together are the file. -/
theorem decodedBytes_all {filebytes : List UInt8} {got : Nat → Bool} {m : Nat}
    (h : ∀ i < m, got i = true) :
    decodedBytes filebytes got m = filebytes.take (chunksize * m) := by
  have hblocks : decodedBytes filebytes got m = (blocks chunksize m filebytes).flatten := by
    rw [decodedBytes, blocks, ← flatMap_def]
    refine flatMap_congr fun i hi => ?_
    rw [if_pos (h i (mem_range.mp hi))]
  rw [hblocks, flatten_blocks]

theorem take_chunkCount (filebytes : List UInt8) :
    filebytes.take (chunksize * chunkCount filebytes) = filebytes :=
  take_of_length_le (chunkCount_spec filebytes).1

/-- The first `m` chunks give at most `m` chunks of bytes, and fewer when one of them,
not being empty, is missing. -/
theorem length_decodedBytes (filebytes : List UInt8) (got : Nat → Bool) (m : Nat) :
    (decodedBytes filebytes got m).length ≤ (filebytes.take (chunksize * m)).length ∧
      ∀ i < m, got i = false → 0 < (block chunksize i filebytes).length →
        (decodedBytes filebytes got m).length < (filebytes.take (chunksize * m)).length := by
  have hstep : ∀ m, (filebytes.take (chunksize * (m + 1))).length =
      (filebytes.take (chunksize * m)).length + (block chunksize m filebytes).length := by
    intro m
    rw [Nat.mul_succ, take_add, length_append, block]
  induction m with
  | zero => exact ⟨by simp [decodedBytes], fun i hi => absurd hi (Nat.not_lt_zero i)⟩
  | succ m ih =>
    obtain ⟨hle, hlt⟩ := ih
    have hpart : (if got m then block chunksize m filebytes else []).length ≤
        (block chunksize m filebytes).length := by
      cases got m with
      | true => simp
      | false => simp
    rw [decodedBytes_succ, length_append, hstep]
    refine ⟨by omega, fun i hi hmissing hpos => ?_⟩
    rcases Nat.eq_or_lt_of_le (Nat.le_of_lt_succ hi) with rfl | hlt'
    · rw [hmissing]
      simp only [Bool.false_eq_true, if_false, length_nil]
      omega
    · have := hlt i hlt' hmissing hpos
      omega

/-! ### The plain mode -/

section Plain

variable (gf : GF256) (spare : Nat) {filebytes : List UInt8}

/-- The pieces of one chunk, from some piece on: the last one completes the chunk. -/
theorem receive_plainPieces {size : Nat} (hsize : size ≤ chunksize) (id num : Nat)
    (rest : List (List UInt8)) :
    ∀ (qs : List Piece) {c : ClientState}, qs ≠ [] → (∀ q ∈ qs, q.length = piecesize) →
      c.chunk.length + piecesize * qs.length = chunksize →
      receive gf spare false c (qs.map (plainFrame size id num) ++ rest) =
        if id % 2 ^ 32 + 1 = num % 2 ^ 32 then
          some (.done (some (c.rFile ++ (c.chunk ++ qs.flatten).take size)))
        else receive gf spare false
          ⟨[], c.rFile ++ (c.chunk ++ qs.flatten).take size, c.decoders⟩ rest := by
  have hsmall : size < 2 ^ 32 := Nat.lt_of_le_of_lt hsize (by decide)
  have hpos : 0 < piecesize := by decide
  intro qs
  induction qs with
  | nil =>
    intro c hne
    exact absurd rfl hne
  | cons q qs ih =>
    intro c _ hlen htotal
    have hq := hlen q mem_cons_self
    have hchunk : (c.chunk ++ q).length = c.chunk.length + piecesize := by
      rw [length_append, hq]
    rw [length_cons, Nat.mul_succ] at htotal
    rw [map_cons, cons_append, receive, processBlock_plainFrame _ _ _ hq,
      Nat.mod_eq_of_lt hsmall, receivePlain]
    cases qs with
    | nil =>
      have hfull : (c.chunk ++ q).length = chunksize := by
        rw [hchunk]
        simpa using htotal
      simp only [hfull, if_true, sliceTo_of_le (hsize.trans hfull.ge), map_some, bind_some,
        appendPart, map_nil, nil_append, flatten_cons, flatten_nil, append_nil]
      by_cases hlast : id % 2 ^ 32 + 1 = num % 2 ^ 32
      · rw [if_pos hlast, if_pos (by omega)]
      · rw [if_neg hlast, if_neg (by omega)]
    | cons q' qs =>
      have hmore : ¬ (c.chunk ++ q).length = chunksize := by
        rw [hchunk]
        rw [length_cons, Nat.mul_succ] at htotal
        omega
      have hrest := ih (c := ⟨c.chunk ++ q, c.rFile, c.decoders⟩) (by simp)
        (fun q'' hq'' => hlen q'' (mem_cons_of_mem _ hq''))
        (by rw [hchunk]; omega)
      rw [append_assoc, ← flatten_cons] at hrest
      simp only [hmore, if_false, bind_some]
      exact hrest

/-- The state of the loop between two chunks. -/
def plainState (filebytes : List UInt8) (k : Nat) : ClientState :=
  ⟨[], filebytes.take (chunksize * k), none⟩

/-- The frames of chunk `i`. -/
abbrev plainChunk (filebytes : List UInt8) (i : Nat) : List (List UInt8) :=
  (chunkPieces filebytes i).map
    (plainFrame (block chunksize i filebytes).length i (chunkCount filebytes))

/-- One chunk: its bytes are appended, and the loop ends where the id on the wire is one
below the chunk number on the wire. -/
theorem receive_plainChunk (k : Nat) (rest : List (List UInt8)) :
    receive gf spare false (plainState filebytes k) (plainChunk filebytes k ++ rest) =
      if k % 2 ^ 32 + 1 = chunkCount filebytes % 2 ^ 32 then
        some (.done (some (filebytes.take (chunksize * (k + 1)))))
      else receive gf spare false (plainState filebytes (k + 1)) rest := by
  have hsize : (block chunksize k filebytes).length ≤ chunksize := by
    rw [length_block]
    exact Nat.min_le_left _ _
  have hne : chunkPieces filebytes k ≠ [] :=
    ne_nil_of_length_pos (by rw [length_chunkPieces]; decide)
  have hbytes : filebytes.take (chunksize * k) ++ block chunksize k filebytes =
      filebytes.take (chunksize * (k + 1)) := by
    rw [Nat.mul_succ, take_add, block]
  rw [plainChunk, receive_plainPieces gf spare hsize k (chunkCount filebytes) rest
    (chunkPieces filebytes k) hne (fun q hq => length_of_mem_chunkPieces hq)
    (by rw [length_chunkPieces, plainState, length_nil]; decide)]
  simp only [plainState, nil_append, flatten_chunkPieces, take_paddedChunk, hbytes]

/-- Chunks none of which ends the loop. -/
theorem receive_plainChunks (rest : List (List UInt8)) :
    ∀ (m k : Nat), (∀ i, k ≤ i → i < k + m → i % 2 ^ 32 + 1 ≠ chunkCount filebytes % 2 ^ 32) →
      receive gf spare false (plainState filebytes k)
        ((range' k m).flatMap (plainChunk filebytes) ++ rest) =
          receive gf spare false (plainState filebytes (k + m)) rest := by
  intro m
  induction m with
  | zero =>
    intro k _
    rfl
  | succ m ih =>
    intro k hgo
    rw [range'_succ, flatMap_cons, append_assoc, receive_plainChunk,
      if_neg (hgo k (Nat.le_refl k) (by omega)),
      ih (k + 1) fun i hlo hhi => hgo i (by omega) (by omega),
      Nat.add_right_comm, Nat.add_assoc]

/-- The chunk whose id is one below the chunk number on the wire ends the loop. -/
theorem receive_plainFrames_stop (num : Nat) (hnum : chunkCount filebytes % 2 ^ 32 = num + 1)
    (rest : List (List UInt8)) :
    receive gf spare false .new (plainFrames filebytes ++ rest) =
      some (.done (some (filebytes.take (chunksize * (num + 1))))) := by
  have hlt : num + 1 ≤ chunkCount filebytes := hnum ▸ Nat.mod_le _ _
  have hsmall : num + 1 < 2 ^ 32 := hnum ▸ Nat.mod_lt _ (by decide)
  obtain ⟨back, hsplit⟩ := flatMap_range_split (plainChunk filebytes) hlt
  have hgo : ∀ i, 0 ≤ i → i < 0 + num → i % 2 ^ 32 + 1 ≠ chunkCount filebytes % 2 ^ 32 := by
    intro i _ hi
    rw [hnum, Nat.mod_eq_of_lt (by omega)]
    omega
  have hnew : new = plainState filebytes 0 := by simp [new, plainState]
  rw [plainFrames, hsplit, range_eq_range', append_assoc, hnew,
    receive_plainChunks gf spare _ num 0 hgo, Nat.zero_add, append_assoc,
    receive_plainChunk, hnum, Nat.mod_eq_of_lt (by omega : num < 2 ^ 32), if_pos rfl]

/-- With a chunk number of zero on the wire no chunk ends the loop. -/
theorem receive_plainFrames_zero (hnum : chunkCount filebytes % 2 ^ 32 = 0)
    (rest : List (List UInt8)) :
    receive gf spare false .new (plainFrames filebytes ++ rest) =
      receive gf spare false (plainState filebytes (chunkCount filebytes)) rest := by
  have hnew : new = plainState filebytes 0 := by simp [new, plainState]
  have hrun := receive_plainChunks gf spare rest (chunkCount filebytes) 0
    (fun i _ _ => by rw [hnum]; exact Nat.succ_ne_zero _)
  rw [Nat.zero_add] at hrun
  rw [hnew, plainFrames, range_eq_range']
  exact hrun

end Plain

/-! ### Frames dropped on the way -/

/-- The coding vector in a frame of chunk `i`. -/
def vectorInChunk (i : Nat) (pkt : List UInt8) : Option CodingVector :=
  match decodeXNCPkt pkt with
  | some (.ok xncD) => if xncD.chunkId = i then some xncD.vector else none
  | _ => none

/-- The coding vectors of the frames of chunk `i` among `frames`. -/
def survivingVectors (frames : List (List UInt8)) (i : Nat) : List CodingVector :=
  frames.filterMap (vectorInChunk i)

section Dropped

variable {filebytes : List UInt8}

/-- A subsequence of the frames of the chunks consists of subsequences of the frames of
each chunk. -/
theorem sublist_chunks :
    ∀ {n : Nat} {frames : List (List UInt8)},
      frames.Sublist ((range n).flatMap (codedChunk filebytes ps)) →
      ∃ kept : Nat → List CodedPiece, (∀ i, (kept i).Sublist (ps i)) ∧
        frames = (range n).flatMap (codedChunk filebytes kept) := by
  intro n
  induction n with
  | zero =>
    intro frames h
    exact ⟨fun _ => [], fun _ => nil_sublist _, by simpa using h⟩
  | succ n ih =>
    intro frames h
    rw [range_succ, flatMap_append, flatMap_singleton] at h
    obtain ⟨front, back, rfl, hfront, hback⟩ := sublist_append_iff.mp h
    obtain ⟨kept, hkept, rfl⟩ := ih hfront
    obtain ⟨last, hlast, rfl⟩ := sublist_map_iff.mp hback
    refine ⟨update kept n last, ?_, ?_⟩
    · intro i
      by_cases hi : i = n
      · subst hi
        rw [update_self]
        exact hlast
      · rw [update_of_ne hi]
        exact hkept i
    · rw [range_succ, flatMap_append, flatMap_singleton, codedChunk, update_self]
      congr 1
      refine flatMap_congr fun i hi => ?_
      rw [codedChunk, codedChunk, update_of_ne (Nat.ne_of_lt (mem_range.mp hi))]

/-- The surviving vectors of a chunk are those of its surviving pieces. -/
theorem survivingVectors_chunks (hnum : chunkCount filebytes < 2 ^ 32)
    {kept : Nat → List CodedPiece}
    (hfit : ∀ i < chunkCount filebytes, ∀ p ∈ kept i, Fits piececnt piecesize p) {i : Nat}
    (hi : i < chunkCount filebytes) :
    survivingVectors ((range (chunkCount filebytes)).flatMap (codedChunk filebytes kept)) i =
      (kept i).map vector := by
  have hchunk : ∀ j < chunkCount filebytes,
      survivingVectors (codedChunk filebytes kept j) i =
        if j = i then (kept j).map vector else [] := by
    intro j hj
    have hdecode : ∀ p ∈ kept j, (vectorInChunk i ∘ chunkFrame filebytes j) p =
        if j = i then some p.vector else none := by
      intro p hp
      rw [comp_apply, vectorInChunk, chunkFrame, decode_encFrame _ _ _ (hfit j hj p hp)]
      simp only [Nat.mod_eq_of_lt (Nat.lt_trans hj hnum)]
    rw [survivingVectors, filterMap_map, filterMap_congr hdecode]
    by_cases hji : j = i
    · simp [hji]
    · simp [hji]
  -- Of the chunks before `n` only chunk `i` contributes.
  have hall : ∀ n ≤ chunkCount filebytes,
      survivingVectors ((range n).flatMap (codedChunk filebytes kept)) i =
        if i < n then (kept i).map vector else [] := by
    intro n
    induction n with
    | zero =>
      intro _
      rfl
    | succ n ih =>
      intro hn
      rw [range_succ, flatMap_append, flatMap_singleton, survivingVectors, filterMap_append,
        ← survivingVectors, ← survivingVectors, ih (by omega), hchunk n (by omega)]
      rcases Nat.lt_trichotomy i n with hlt | rfl | hgt
      · rw [if_pos hlt, if_neg (by omega), if_pos (by omega), append_nil]
      · rw [if_neg (Nat.lt_irrefl i), if_pos rfl, if_pos (Nat.lt_succ_self i), nil_append]
      · rw [if_neg (by omega), if_neg (by omega), if_neg (by omega), append_nil]
  rw [hall _ (Nat.le_refl _), if_pos hi]

end Dropped

/-! ### Whole transfers -/

theorem chunkCount_pos {filebytes : List UInt8} (h : filebytes ≠ []) :
    0 < chunkCount filebytes := by
  have hlen := length_pos_iff.mpr h
  have hall := (chunkCount_spec filebytes).1
  by_contra hzero
  rw [Nat.eq_zero_of_not_pos hzero] at hall
  omega

/-- **A transfer tolerates losses**: of a nonempty file of fewer than `2 ^ 32` chunks, any
subsequence of the coded frames in which the vectors of every chunk still span, followed
by any of the END frames, is received as the file; so are the plain frames when none is
dropped. -/
theorem loss_tolerant_transfer (gf : GF256) (spare : Nat) (filebytes : List UInt8)
    (draw : Nat → Nat → Nat → UInt8) (hne : filebytes ≠ []) (hnum : chunkCount filebytes < 2 ^ 32) :
    (∃ frames, sendFile gf true filebytes draw (fun _ _ => .ok) =
        some (frames ++ List.replicate 5 (encodeEND (chunkCount filebytes - 1) true)) ∧
      ∀ kept, kept.Sublist frames →
        (∀ i < chunkCount filebytes, codeSpan gf piececnt (survivingVectors kept i) = ⊤) →
        ∀ k ≤ 5, receive gf spare true .new
          (kept ++ List.replicate k (encodeEND (chunkCount filebytes - 1) true)) =
            some (.done (some filebytes))) ∧
    ∃ frames, sendFile gf false filebytes draw (fun _ _ => .ok) =
        some (frames ++ List.replicate 5 (encodeEND (chunkCount filebytes - 1) false)) ∧
      ∀ k ≤ 5, receive gf spare false .new
        (frames ++ List.replicate k (encodeEND (chunkCount filebytes - 1) false)) =
          some (.done (some filebytes)) := by
  have hpos := chunkCount_pos hne
  have hmod := Nat.mod_eq_of_lt hnum
  constructor
  · obtain ⟨ps, hps, hsend⟩ := sendFile_encoded gf filebytes draw
    refine ⟨codedFrames filebytes ps, hsend, ?_⟩
    intro frames hsub hspan k _
    obtain ⟨kept, hkept, rfl⟩ := sublist_chunks hsub
    have hgen : ∀ i < chunkCount filebytes, ∀ p ∈ kept i,
        Genuine gf (chunkPieces filebytes i) piecesize p := fun i hi p hp =>
      (hps i hi).2 p ((hkept i).subset hp)
    have hgot : ∀ i < chunkCount filebytes, ((fun _ => true) i = true ↔
        codeSpan gf piececnt ((kept i).map vector) = ⊤) := by
      intro i hi
      rw [← survivingVectors_chunks hnum (fun j hj p hp => genuine_fits (hgen j hj p hp)) hi]
      exact ⟨fun _ => hspan i hi, fun _ => rfl⟩
    obtain ⟨c', hrun, hfile, -⟩ := receive_codedChunks gf spare hmod hgen hgot
      (replicate k (encodeEND (chunkCount filebytes - 1) true))
    rw [if_pos ⟨hpos, rfl⟩, hfile, decodedBytes_all (fun _ _ => rfl), take_chunkCount] at hrun
    exact hrun
  · refine ⟨plainFrames filebytes, sendFile_plain gf filebytes draw, ?_⟩
    intro k _
    rw [receive_plainFrames_stop gf spare (chunkCount filebytes - 1) (by rw [hmod]; omega),
      Nat.sub_add_cancel hpos, take_chunkCount]

/-- A file of one chunk and a byte. -/
theorem loss_tolerant_transfer_two_chunks :
    let file : List UInt8 := List.replicate (chunksize + 1) 7
    let draw := fun _ j b => if j = b then 1 else 0
    chunkCount file = 2 ∧
    (∃ frames, sendFile poly84320 true file draw (fun _ _ => .ok) =
        some (frames ++ List.replicate 5 (encodeEND 1 true)) ∧
      ∀ kept, kept.Sublist frames →
        (∀ i < 2, codeSpan poly84320 piececnt (survivingVectors kept i) = ⊤) →
        ∀ k ≤ 5, receive poly84320 0 true .new (kept ++ List.replicate k (encodeEND 1 true)) =
          some (.done (some file))) ∧
    ∃ frames, sendFile poly84320 false file draw (fun _ _ => .ok) =
        some (frames ++ List.replicate 5 (encodeEND 1 false)) ∧
      ∀ k ≤ 5, receive poly84320 0 false .new (frames ++ List.replicate k (encodeEND 1 false)) =
        some (.done (some file)) := by
  intro file draw
  have hcount : chunkCount file = 2 := by decide +kernel
  have htransfer := loss_tolerant_transfer poly84320 0 file draw (cons_ne_nil _ _)
    (by rw [hcount]; decide)
  rw [hcount] at htransfer
  exact ⟨hcount, htransfer⟩

/-- A file of `2 ^ 32 + 1` chunks: its chunk number is sent as one, so `Client` stops
after the first chunk. -/
theorem transfer_truncated :
    ∃ frames, sendFile poly84320 false (List.replicate (2 ^ 46 + 1) 0) (fun _ _ _ => 0)
        (fun _ _ => .ok) = some frames ∧
      receive poly84320 0 false .new frames = some (.done (some (List.replicate (2 ^ 14) 0))) ∧
      (List.replicate (2 ^ 14) 0 : List UInt8) ≠ List.replicate (2 ^ 46 + 1) 0 := by
  have hcount : chunkCount (replicate (2 ^ 46 + 1) 0) = 2 ^ 32 + 1 := by
    rw [chunkCount_eq, length_replicate, chunksize]
    norm_num
  refine ⟨_, sendFile_plain _ _ _, ?_, ?_⟩
  · rw [receive_plainFrames_stop poly84320 0 0 (by rw [hcount]; norm_num),
      take_replicate, chunksize]
    norm_num
  · intro heq
    have hlen := congrArg length heq
    rw [length_replicate, length_replicate] at hlen
    norm_num at hlen

/-! ### When the result is right -/

section Integrity

variable (gf : GF256) (spare : Nat) {filebytes : List UInt8}

/-- A frame whose id is outside the table panics. -/
theorem receive_outside (rest : List (List UInt8)) {c : ClientState} {num : Nat}
    (hnum : chunkCount filebytes % 2 ^ 32 = num) (hlen : (c.decodersFor num).length = num)
    {ps : List CodedPiece} (hne : ps ≠ []) (hfit : ∀ p ∈ ps, Fits piececnt piecesize p) :
    receive gf spare true c (ps.map (chunkFrame filebytes num) ++ rest) = none := by
  cases ps with
  | nil => exact absurd rfl hne
  | cons p ps =>
    have hid : num % 2 ^ 32 = num := by
      rw [← hnum, Nat.mod_mod]
    have hout : (c.decodersFor num)[num]? = none := getElem?_eq_none hlen.le
    rw [map_cons, cons_append, receive, chunkFrame,
      processBlock_encFrame _ _ _ (hfit p mem_cons_self), hnum, hid, receiveCoded]
    simp only [hout, bind_eq_bind, bind_none]

/-- Fewer than `2 ^ 32` chunks: the decoded chunks are returned. -/
theorem receive_codedFrames (hnum : chunkCount filebytes < 2 ^ 32) {got : Nat → Bool}
    (hgen : ∀ i < chunkCount filebytes, ∀ p ∈ ps i,
      Genuine gf (chunkPieces filebytes i) piecesize p)
    (hgot : ∀ i < chunkCount filebytes,
      (got i = true ↔ codeSpan gf piececnt ((ps i).map vector) = ⊤)) (id : Int)
    (rest : List (List UInt8)) :
    receive gf spare true .new (codedFrames filebytes ps ++ encodeEND id true :: rest) =
      some (.done (some (decodedBytes filebytes got (chunkCount filebytes)))) := by
  obtain ⟨c', heq, hfile, -⟩ := receive_codedChunks gf spare (Nat.mod_eq_of_lt hnum) hgen hgot
    (encodeEND id true :: rest)
  rw [receive_end, ite_self, hfile] at heq
  exact heq

/-- The decoded chunks are the file only when all of them were decoded. -/
theorem decodedBytes_eq_iff {got : Nat → Bool} :
    decodedBytes filebytes got (chunkCount filebytes) = filebytes ↔
      ∀ i < chunkCount filebytes, got i = true := by
  constructor
  · intro heq i hi
    by_contra hmissing
    have hpos : 0 < (block chunksize i filebytes).length := by
      have hstart := (chunkCount_spec filebytes).2 i hi
      have hsize : 0 < chunksize := by decide
      rw [length_block]
      omega
    have hlt := (length_decodedBytes filebytes got (chunkCount filebytes)).2 i hi
      (Bool.eq_false_iff.mpr hmissing) hpos
    rw [heq, take_chunkCount] at hlt
    exact Nat.lt_irrefl _ hlt
  · intro hall
    rw [decodedBytes_all hall, take_chunkCount]

/-- From `2 ^ 32` chunks on an encoded transfer panics, or it stops before its end. -/
theorem receive_codedFrames_overflow (hnum : ¬ chunkCount filebytes < 2 ^ 32)
    (hne : ∀ i < chunkCount filebytes, ps i ≠ []) (hgen : ∀ i < chunkCount filebytes, ∀ p ∈ ps i,
      Genuine gf (chunkPieces filebytes i) piecesize p) (rest : List (List UInt8)) :
    receive gf spare true .new (codedFrames filebytes ps ++ rest) = none ∨
      ∃ bytes, bytes ≠ filebytes ∧
        receive gf spare true .new (codedFrames filebytes ps ++ rest) =
          some (.done (some bytes)) := by
  classical
  set num := chunkCount filebytes % 2 ^ 32 with hmod
  have hlt : num < chunkCount filebytes :=
    Nat.lt_of_lt_of_le (Nat.mod_lt _ (by decide)) (Nat.not_lt.mp hnum)
  obtain ⟨back, hsplit⟩ := flatMap_range_split (codedChunk filebytes ps) hlt
  obtain ⟨got, hgot⟩ : ∃ got : Nat → Bool, ∀ i < num,
      (got i = true ↔ codeSpan gf piececnt ((ps i).map vector) = ⊤) :=
    ⟨fun i => decide (codeSpan gf piececnt ((ps i).map vector) = ⊤),
      fun _ _ => decide_eq_true_iff⟩
  obtain ⟨c', hrun, hfile, hlen⟩ := receive_codedChunks gf spare hmod.symm
    (fun i hi => hgen i (Nat.lt_trans hi hlt)) hgot (codedChunk filebytes ps num ++ (back ++ rest))
  rw [codedFrames, hsplit, append_assoc, append_assoc]
  split at hrun
  · -- The last decoder of the table completes: the chunks from `num` on are missing.
    refine .inr ⟨_, ?_, hrun⟩
    rw [hfile]
    intro heq
    have hle := (length_decodedBytes filebytes got num).1
    have hbytes := (chunkCount_spec filebytes).2 num hlt
    rw [heq, length_take] at hle
    omega
  · rw [hrun]
    exact .inl (receive_outside gf spare _ hmod.symm hlen (hne num hlt)
      fun p hp => genuine_fits (hgen num hlt p hp))

variable (draw : Nat → Nat → Nat → UInt8)

/-- The encoded mode. Fewer than `2 ^ 32` chunks and spanning vectors are needed. -/
theorem integrity_encoded :
    ∃ frames, sendFile gf true filebytes draw (fun _ _ => .ok) = some frames ∧
      ((receive gf spare true .new frames = some (.done none) ∨
          receive gf spare true .new frames = some (.done (some filebytes))) ↔
        chunkCount filebytes < 2 ^ 32 ∧
          ∀ i < chunkCount filebytes, codeSpan gf piececnt (drawnVectors (draw i)) = ⊤) := by
  classical
  obtain ⟨ps, hps, hsend⟩ := sendFile_encoded gf filebytes draw
  refine ⟨_, hsend, ?_⟩
  have hgen := fun i hi => (hps i hi).2
  by_cases hnum : chunkCount filebytes < 2 ^ 32
  · have hgot : ∀ i < chunkCount filebytes,
        ((fun i => decide (codeSpan gf piececnt (drawnVectors (draw i)) = ⊤)) i = true ↔
          codeSpan gf piececnt ((ps i).map vector) = ⊤) := fun i hi => by
      rw [(hps i hi).1, decide_eq_true_iff]
    have hrun := receive_codedFrames gf spare hnum hgen hgot (chunkCount filebytes - 1)
      (replicate 4 (encodeEND (chunkCount filebytes - 1) true))
    rw [replicate_succ, hrun]
    simp only [some.injEq, Outcome.done.injEq, reduceCtorEq, false_or, hnum, true_and,
      decodedBytes_eq_iff, decide_eq_true_iff]
  · have hne : ∀ i < chunkCount filebytes, ps i ≠ [] := by
      intro i hi hnil
      have hvec := congrArg length (hps i hi).1
      rw [hnil] at hvec
      exact absurd hvec (by simp [drawnVectors, codedpiececnt])
    refine ⟨fun hresult => ?_, fun hcond => absurd hcond.1 hnum⟩
    rcases receive_codedFrames_overflow gf spare hnum hne hgen _ with hpanic | ⟨bytes, hbytes, heq⟩
    · rw [hpanic] at hresult
      simp at hresult
    · rw [heq] at hresult
      simp [hbytes] at hresult

/-- The plain mode. The loop ends early exactly if the chunk number that is written is
neither zero nor the true one. -/
theorem integrity_plain :
    ∃ frames, sendFile gf false filebytes draw (fun _ _ => .ok) = some frames ∧
      ((receive gf spare false .new frames = some (.done none) ∨
          receive gf spare false .new frames = some (.done (some filebytes))) ↔
        (chunkCount filebytes < 2 ^ 32 ∨ 2 ^ 32 ∣ chunkCount filebytes)) := by
  refine ⟨_, sendFile_plain gf filebytes draw, ?_⟩
  cases hnum : chunkCount filebytes % 2 ^ 32 with
  | zero =>
    have hrun := receive_plainFrames_zero gf spare hnum
      (replicate 5 (encodeEND (chunkCount filebytes - 1) false))
    rw [hrun, replicate_succ, receive_end, plainState, take_chunkCount]
    exact ⟨fun _ => .inr (Nat.dvd_of_mod_eq_zero hnum), fun _ => .inr rfl⟩
  | succ num =>
    rw [receive_plainFrames_stop gf spare num hnum]
    have hdvd : ¬ 2 ^ 32 ∣ chunkCount filebytes := by
      intro hdvd
      rw [Nat.mod_eq_zero_of_dvd hdvd] at hnum
      omega
    simp only [some.injEq, Outcome.done.injEq, reduceCtorEq, false_or, hdvd, or_false]
    constructor
    · intro heq
      by_contra hover
      have hlt : num + 1 < chunkCount filebytes := by
        rw [← hnum]
        exact Nat.lt_of_lt_of_le (Nat.mod_lt _ (by decide)) (Nat.not_lt.mp hover)
      have hbytes := (chunkCount_spec filebytes).2 (num + 1) hlt
      have hlen := congrArg length heq
      rw [length_take] at hlen
      omega
    · intro hlt
      rw [Nat.mod_eq_of_lt hlt] at hnum
      rw [← hnum, take_chunkCount]

end Integrity

/-- **Transfer integrity, exactly.** The result of a transfer is `nil` or the file exactly
when, in the encoded mode, the vectors drawn for every chunk span the space and there
are fewer than `2 ^ 32` chunks, and in the plain mode, when the chunk number is below
`2 ^ 32` or zero modulo it. -/
theorem transfer_integrity_iff (gf : GF256) (spare : Nat) (encode : Bool)
    (filebytes : List UInt8) (draw : Nat → Nat → Nat → UInt8) :
    ∃ frames, sendFile gf encode filebytes draw (fun _ _ => .ok) = some frames ∧
      ((receive gf spare encode .new frames = some (.done none) ∨
          receive gf spare encode .new frames = some (.done (some filebytes))) ↔
        if encode then chunkCount filebytes < 2 ^ 32 ∧
          ∀ i < chunkCount filebytes, codeSpan gf piececnt (drawnVectors (draw i)) = ⊤
        else chunkCount filebytes < 2 ^ 32 ∨ 2 ^ 32 ∣ chunkCount filebytes) := by
  cases encode with
  | true =>
    rw [if_pos rfl]
    exact integrity_encoded gf spare draw
  | false =>
    rw [if_neg (by decide)]
    exact integrity_plain gf spare draw

/-- A one-byte file whose vectors are all drawn as zero: its only chunk never completes,
the END frame ends the loop and the empty result is not `nil`. -/
theorem transfer_drops_chunk :
    ∃ frames, sendFile poly84320 true [7] (fun _ _ _ => 0) (fun _ _ => .ok) = some frames ∧
      receive poly84320 0 true .new frames = some (.done (some [])) := by
  obtain ⟨ps, hps, hsend⟩ := sendFile_encoded poly84320 [7] fun _ _ _ => 0
  refine ⟨_, hsend, ?_⟩
  have hzero : codeSpan poly84320 piececnt (drawnVectors fun _ _ => 0) ≤ ⊥ := by
    rw [codeSpan_le_iff]
    intro v hv
    obtain ⟨j, -, rfl⟩ := mem_map.mp hv
    have hreplicate : generateCodingVector piececnt (fun _ => 0) = replicate piececnt 0 := rfl
    rw [hreplicate, toVec_replicate_zero]
    exact zero_mem _
  have hgot : ∀ i < chunkCount [7], ((fun _ => false) i = true ↔
      codeSpan poly84320 piececnt ((ps i).map vector) = ⊤) := by
    intro i hi
    rw [(hps i hi).1]
    refine ⟨fun h => absurd h (by simp), fun htop => ?_⟩
    rw [htop, le_bot_iff] at hzero
    have : Nonempty (Fin piececnt) := ⟨⟨0, by decide⟩⟩
    exact absurd hzero top_ne_bot
  rw [replicate_succ, receive_codedFrames poly84320 0 (by decide) (fun i hi => (hps i hi).2) hgot]
  simp [decodedBytes]

end RlncStreaming.Xnc
