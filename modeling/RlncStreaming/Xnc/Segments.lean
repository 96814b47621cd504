import RlncStreaming.Lib.Blocks
import RlncStreaming.Xnc.Client

/-!
How frames are cut out of the stream: the accumulation loops of `Client`
(`xnc/client.go`) and `handleSession` (`xnc/server.go`).

A `Reader` hands out the bytes of a stream under an arbitrary schedule. As long as
enough bytes are left, `accumulate` returns the next block whatever the schedule is
(`readBlock_full`). At the end of the stream it leaves the loop with a buffer that is
not full, and the caller decodes it all the same (`readBlock_eof`). So the blocks that
are decoded are those of the stream exactly when the stream is not closed before they
are used up (`segmentation_iff`).
-/

namespace RlncStreaming.Xnc

open Kodr Lib List

/-! ### Readers -/

/-- What one call of `stream.Read` does: it hands out bytes, or it fails with an error
other than `io.EOF`, possibly after some bytes. -/
inductive Hand where
  | data (n : Nat)
  | error (n : Nat)
deriving DecidableEq, Repr

inductive ReadErr where
  | eof
  | other
deriving DecidableEq, Repr

/-- A stream as its reader sees it. `rest` is what was not handed out yet, `fin` says
that the stream ends there and `eofWithData` that its last bytes come together with
`io.EOF`. Call number `t` follows `hands t`. -/
structure Reader where
  rest : List UInt8
  fin : Bool
  eofWithData : Bool
  hands : Nat → Hand
  calls : Nat

/-- A stream that carries `s` and hands it out in pieces of the given sizes. -/
def Reader.of (s : List UInt8) (fin eofWithData : Bool) (sizes : Nat → Nat) : Reader :=
  ⟨s, fin, eofWithData, fun t => .data (sizes t), 0⟩

/-- `stream.Read` with a buffer of `k` bytes: the bytes and the error. It is `none` if the
call waits for ever. At least one byte comes without an error. -/
def Reader.read (r : Reader) (k : Nat) : Option (List UInt8 × Option ReadErr × Reader) :=
  match r.hands r.calls with
  | .error n =>
    let n := min n k
    some (r.rest.take n, some .other, { r with rest := r.rest.drop n, calls := r.calls + 1 })
  | .data n =>
    if r.rest = [] then
      if r.fin then some ([], some .eof, { r with calls := r.calls + 1 }) else none
    else
      let n := max 1 (min n k)
      let rest := r.rest.drop n
      let err := if rest = [] ∧ r.fin ∧ r.eofWithData then some .eof else none
      some (r.rest.take n, err, { r with rest, calls := r.calls + 1 })

/-! ### The loops -/

/-- `copy(buf[at:], data)`. -/
def copyAt (buf : List UInt8) (pos : Nat) (data : List UInt8) : List UInt8 :=
  buf.take pos ++ data ++ buf.drop (pos + data.length)

/-- How the accumulation loop ends: a call waits for ever, the calls granted are used up,
or the loop is left with the buffer. -/
inductive Fill where
  | blocked
  | running
  | block (pktE : List UInt8) (r : Reader)

/-- The accumulation loop, for at most `fuel` calls of `Read`. -/
def accumulate : Nat → Reader → Nat → List UInt8 → Fill
  | 0, r, accuRecv, pktE => if accuRecv < pktE.length then .running else .block pktE r
  | fuel + 1, r, accuRecv, pktE =>
    if accuRecv < pktE.length then
      match r.read (pktE.length - accuRecv) with
      | none => .blocked
      | some (data, err, r) =>
        let pktE := copyAt pktE accuRecv data
        match err with
        -- `break`: neither the count nor the fill level is looked at again.
        | some .eof => .block pktE r
        | some .other => accumulate fuel r accuRecv pktE
        | none => accumulate fuel r (accuRecv + data.length) pktE
    else .block pktE r

/-- The accumulation loop on a fresh buffer. -/
def readBlock (fuel size : Nat) (r : Reader) : Fill :=
  accumulate fuel r 0 (List.replicate size 0)

/-- The blocks that `Client` passes to `DecodeXNCPkt`, for at most `fuel` blocks with at
most `fuel` calls of `Read` each. -/
def clientBlocks (gf : GF256) (spare : Nat) (encode : Bool) :
    Nat → Reader → ClientState → List (List UInt8)
  | 0, _, _ => []
  | fuel + 1, r, c =>
    match readBlock (fuel + 1) (frameSize encode) r with
    | .block pktE r =>
      pktE :: match processBlock gf spare encode c pktE with
        | some (.next c) => clientBlocks gf spare encode fuel r c
        | _ => []
    | _ => []

/-- The block, if any, that `handleSession` passes to `DecodeInit`. -/
def initBlocks (fuel : Nat) (r : Reader) : List (List UInt8) :=
  match readBlock fuel initsize r with
  | .block buffer _ => [buffer]
  | _ => []

/-- The blocks of `pkts` up to the one at which `Client` stops. -/
def upToStop (gf : GF256) (spare : Nat) (encode : Bool) :
    ClientState → List (List UInt8) → List (List UInt8)
  | _, [] => []
  | c, pktE :: pkts => pktE :: match processBlock gf spare encode c pktE with
      | some (.next c) => upToStop gf spare encode c pkts
      | _ => []

/-- The complete blocks of `size` bytes of a stream. -/
def completeBlocks (size : Nat) (s : List UInt8) : List (List UInt8) :=
  blocks size (s.length / size) s

/-! ### One call of `Read` -/

/-- `r'` is `r` after `k` bytes. -/
structure Reader.After (r : Reader) (k : Nat) (r' : Reader) : Prop where
  rest : r'.rest = r.rest.drop k
  fin : r'.fin = r.fin
  hands : r'.hands = r.hands

/-- No call fails with another error than `io.EOF`. -/
def Reader.Steady (r : Reader) : Prop := ∀ t, ∃ n, r.hands t = .data n

namespace Reader

theorem After.refl (r : Reader) : r.After 0 r := ⟨rfl, rfl, rfl⟩

theorem After.trans {r r' r'' : Reader} {k l : Nat} (h : r.After k r') (h' : r'.After l r'') :
    r.After (k + l) r'' :=
  ⟨by rw [h'.rest, h.rest, drop_drop], h'.fin.trans h.fin, h'.hands.trans h.hands⟩

theorem After.steady {r r' : Reader} {k : Nat} (h : r.After k r') (hs : r.Steady) : r'.Steady := by
  intro t
  rw [h.hands]
  exact hs t

theorem steady_of (s : List UInt8) (fin eofWithData : Bool) (sizes : Nat → Nat) :
    (Reader.of s fin eofWithData sizes).Steady :=
  fun t => ⟨sizes t, rfl⟩

variable {r : Reader} {k : Nat}

/-- While bytes are left a call returns some of them, with `io.EOF` only if they are the
last ones of a closed stream. -/
theorem read_data (hs : r.Steady) (hk : 0 < k) (hne : r.rest ≠ []) :
    ∃ n err r', r.read k = some (r.rest.take n, err, r') ∧ 0 < n ∧ n ≤ k ∧ r.After n r' ∧
      (err = none ∨ err = some .eof ∧ r'.rest = [] ∧ r.fin = true) := by
  obtain ⟨n, hn⟩ := hs r.calls
  have hread : r.read k = some (r.rest.take (max 1 (min n k)),
      if r.rest.drop (max 1 (min n k)) = [] ∧ r.fin ∧ r.eofWithData then some .eof else none,
      { r with rest := r.rest.drop (max 1 (min n k)), calls := r.calls + 1 }) := by
    rw [read, hn]
    exact if_neg hne
  refine ⟨_, _, _, hread, by omega, by omega, ⟨rfl, rfl, rfl⟩, ?_⟩
  split
  · rename_i h
    exact .inr ⟨rfl, h.1, h.2.1⟩
  · exact .inl rfl

/-- At the end of a closed stream a call returns `io.EOF` alone, and otherwise it waits. -/
theorem read_end (hs : r.Steady) (hend : r.rest = []) :
    (r.fin = false → r.read k = none) ∧
      (r.fin = true → ∃ r', r.read k = some ([], some .eof, r') ∧ r.After 0 r') := by
  obtain ⟨n, hn⟩ := hs r.calls
  constructor
  · intro hfin
    simp [read, hn, hend, hfin]
  · intro hfin
    refine ⟨{ r with calls := r.calls + 1 }, ?_, ⟨rfl, rfl, rfl⟩⟩
    simp [read, hn, hend, hfin]

end Reader

/-! ### The accumulation loop -/

section Accumulate

/-- The buffer holds what was read so far, and zeros. -/
theorem copyAt_filled (filled data : List UInt8) (k : Nat) :
    copyAt (filled ++ replicate k 0) filled.length data =
      filled ++ data ++ replicate (k - data.length) 0 := by
  rw [copyAt, take_left, drop_append, drop_eq_nil_of_le (by omega),
    nil_append, drop_replicate, Nat.add_sub_cancel_left]

/-- One round of the loop while the stream has bytes. -/
theorem accumulate_data {r : Reader} (hs : r.Steady) (fuel : Nat) (filled : List UInt8) {k : Nat}
    (hk : 0 < k) (hne : r.rest ≠ []) :
    ∃ n r', 0 < n ∧ n ≤ k ∧ n ≤ r.rest.length ∧ r.After n r' ∧
      (accumulate (fuel + 1) r filled.length (filled ++ replicate k 0) =
          accumulate fuel r' (filled ++ r.rest.take n).length
            (filled ++ r.rest.take n ++ replicate (k - n) 0) ∨
        n = r.rest.length ∧ r.fin = true ∧
          accumulate (fuel + 1) r filled.length (filled ++ replicate k 0) =
            .block (filled ++ r.rest.take n ++ replicate (k - n) 0) r') := by
  obtain ⟨n, err, r', hread, hn, hnk, hafter, herr⟩ := Reader.read_data hs hk hne
  -- A schedule may offer more than what is left.
  have htake : r.rest.take (min n r.rest.length) = r.rest.take n := take_eq_take_min.symm
  have hlen : (r.rest.take n).length = min n r.rest.length := length_take
  have hpos : 0 < r.rest.length := length_pos_of_ne_nil hne
  have hafter' : r.After (min n r.rest.length) r' := by
    refine ⟨?_, hafter.fin, hafter.hands⟩
    rcases Nat.le_total n r.rest.length with hle | hle
    · rw [Nat.min_eq_left hle, hafter.rest]
    · rw [Nat.min_eq_right hle, hafter.rest, drop_eq_nil_of_le hle, drop_length]
  have hbuf : (filled ++ replicate k (0 : UInt8)).length - filled.length = k := by
    rw [length_append, length_replicate, Nat.add_sub_cancel_left]
  have hlt : filled.length < (filled ++ replicate k (0 : UInt8)).length := by omega
  have hcopy := copyAt_filled filled (r.rest.take n) k
  rw [hlen] at hcopy
  refine ⟨min n r.rest.length, r', by omega, by omega, by omega, hafter', ?_⟩
  rw [htake, accumulate, if_pos hlt, hbuf, hread]
  simp only [hcopy]
  rcases herr with rfl | ⟨rfl, hnil, hfin⟩
  · left
    rw [length_append]
  · right
    rw [hafter.rest, drop_eq_nil_iff] at hnil
    exact ⟨Nat.min_eq_right hnil, hfin, rfl⟩

/-- Enough bytes are left, or the stream is closed: the loop returns the next bytes, under every
schedule, and fills them up with zeros. -/
theorem accumulate_block (fuel : Nat) : ∀ {r : Reader} (filled : List UInt8) {k : Nat}, r.Steady →
    k ≤ fuel → (k ≤ r.rest.length ∨ r.fin = true) →
    ∃ r', accumulate fuel r filled.length (filled ++ replicate k 0) =
        .block (filled ++ r.rest.take k ++ replicate (k - r.rest.length) 0) r' ∧
      (k ≤ r.rest.length → r.After k r') := by
  induction fuel with
  | zero =>
    intro r filled k hs hfuel _
    obtain rfl : k = 0 := by omega
    exact ⟨r, by simp [accumulate], fun _ => .refl r⟩
  | succ fuel ih =>
    intro r filled k hs hfuel hends
    rcases Nat.eq_zero_or_pos k with rfl | hpos
    · exact ⟨r, by simp [accumulate], fun _ => .refl r⟩
    by_cases hne : r.rest = []
    · have hshort : ¬ k ≤ r.rest.length := by
        rw [hne]
        exact Nat.not_le.mpr hpos
      obtain ⟨r', hread, -⟩ := (Reader.read_end (k := k) hs hne).2 (hends.resolve_left hshort)
      refine ⟨r', ?_, fun hk => absurd hk hshort⟩
      rw [accumulate, if_pos (by simp; omega), length_append, length_replicate,
        Nat.add_sub_cancel_left, hread]
      simp only [copyAt_filled filled [] k, hne, length_nil, take_nil]
    obtain ⟨n, r', hn, hnk, hnl, hafter, hround | ⟨rfl, -, hround⟩⟩ :=
      accumulate_data hs fuel filled hpos hne
    · have hleft : r'.rest.length = r.rest.length - n := by
        rw [hafter.rest, length_drop]
      obtain ⟨r'', hrun, hafter'⟩ := ih (filled ++ r.rest.take n) (k := k - n) (hafter.steady hs)
        (by omega) (hends.imp (by omega) hafter.fin.trans)
      refine ⟨r'', ?_, fun hk => ?_⟩
      · rw [hround, hrun, hleft, hafter.rest, append_assoc filled, ← take_add,
          Nat.add_sub_cancel' hnk, Nat.sub_sub_sub_cancel_right hnl]
      have htrans := hafter.trans (hafter' (by omega))
      rwa [Nat.add_sub_cancel' hnk] at htrans
    · -- The last bytes came with `io.EOF`, and the block may be complete by chance.
      refine ⟨r', by rw [hround, take_of_length_le hnk, take_length], fun hk => ?_⟩
      rwa [Nat.le_antisymm hk hnk]

/-- An open stream with too few bytes: the loop waits. -/
theorem accumulate_blocked (fuel : Nat) : ∀ {r : Reader} (filled : List UInt8) {k : Nat}, r.Steady →
    r.fin = false → k ≤ fuel → r.rest.length < k →
    accumulate fuel r filled.length (filled ++ replicate k 0) = .blocked := by
  induction fuel with
  | zero =>
    intro r filled k hs hfin hfuel hk
    omega
  | succ fuel ih =>
    intro r filled k hs hfin hfuel hk
    by_cases hne : r.rest = []
    · rw [accumulate, if_pos (by simp; omega), (Reader.read_end hs hne).1 hfin]
    obtain ⟨n, r', hn, hnk, hnl, hafter, hround | ⟨-, hclosed, -⟩⟩ :=
      accumulate_data hs fuel filled (Nat.zero_lt_of_lt hk) hne
    · rw [hround]
      refine ih _ (hafter.steady hs) (hafter.fin.trans hfin) (by omega) ?_
      rw [hafter.rest, length_drop]
      omega
    · rw [hfin] at hclosed
      cases hclosed

end Accumulate

/-! ### Runs -/

section Runs

variable {gf : GF256} {spare : Nat} {encode : Bool} {r : Reader}

section

variable {fuel size : Nat} (hs : r.Steady)

include hs

theorem readBlock_full (hfuel : size ≤ fuel) (h : size ≤ r.rest.length) :
    ∃ r', readBlock fuel size r = .block (r.rest.take size) r' ∧ r.After size r' :=
  have ⟨r', hrun, hafter⟩ := accumulate_block fuel [] hs hfuel (.inl h)
  ⟨r', by rwa [Nat.sub_eq_zero_of_le h, replicate_zero, append_nil] at hrun, hafter h⟩

theorem readBlock_blocked (hfin : r.fin = false) (hfuel : size ≤ fuel) (h : r.rest.length < size) :
    readBlock fuel size r = .blocked :=
  accumulate_blocked fuel [] hs hfin hfuel h

theorem readBlock_eof (hfin : r.fin = true) (hfuel : size ≤ fuel) (h : r.rest.length < size) :
    ∃ r', readBlock fuel size r = .block (r.rest ++ replicate (size - r.rest.length) 0) r' :=
  have ⟨r', hrun, _⟩ := accumulate_block fuel [] hs hfuel (.inr hfin)
  ⟨r', by rwa [take_of_length_le (Nat.le_of_lt h)] at hrun⟩

end

variable (gf spare) in
/-- Run lemma: over the next `q` complete blocks `Client` decodes those blocks, and then it
goes on from the state that they lead to. -/
theorem clientBlocks_run (q : Nat) : ∀ {r : Reader} (c : ClientState), r.Steady →
    frameSize encode * q ≤ r.rest.length →
    ∀ fuel, frameSize encode ≤ fuel → ∃ r', r.After (frameSize encode * q) r' ∧
      clientBlocks gf spare encode (fuel + q) r c =
        upToStop gf spare encode c (blocks (frameSize encode) q r.rest) ++
          match receive gf spare encode c (blocks (frameSize encode) q r.rest) with
          | some (.next c') => clientBlocks gf spare encode fuel r' c'
          | _ => [] := by
  induction q with
  | zero =>
    intro r c hs _ fuel hfuel
    exact ⟨r, .refl r, rfl⟩
  | succ q ih =>
    intro r c hs hlen fuel hfuel
    rw [Nat.mul_succ] at hlen
    obtain ⟨r₁, hblock, hafter⟩ := readBlock_full hs
      (show frameSize encode ≤ fuel + q + 1 by omega) (by omega)
    have hlen₁ : frameSize encode * q ≤ r₁.rest.length := by
      rw [hafter.rest, length_drop]
      omega
    have hafter_mul : ∀ r', r₁.After (frameSize encode * q) r' →
        r.After (frameSize encode * (q + 1)) r' := by
      intro r' h
      have htrans := hafter.trans h
      rwa [Nat.add_comm, ← Nat.mul_succ] at htrans
    have hunfold : clientBlocks gf spare encode (fuel + (q + 1)) r c =
        r.rest.take (frameSize encode) ::
          match processBlock gf spare encode c (r.rest.take (frameSize encode)) with
          | some (.next c') => clientBlocks gf spare encode (fuel + q) r₁ c'
          | _ => [] := by
      rw [← Nat.add_assoc, clientBlocks, hblock]
    rw [hunfold, blocks_cons, upToStop, receive, ← hafter.rest]
    cases hstep : processBlock gf spare encode c (r.rest.take (frameSize encode)) with
    | none =>
      obtain ⟨r', h, -⟩ := ih c (hafter.steady hs) hlen₁ fuel hfuel
      exact ⟨r', hafter_mul r' h, rfl⟩
    | some o =>
      cases o with
      | done result =>
        obtain ⟨r', h, -⟩ := ih c (hafter.steady hs) hlen₁ fuel hfuel
        exact ⟨r', hafter_mul r' h, rfl⟩
      | next c₁ =>
        obtain ⟨r', h, hrun⟩ := ih c₁ (hafter.steady hs) hlen₁ fuel hfuel
        exact ⟨r', hafter_mul r' h, by simp only [hrun, Option.bind_some, cons_append]⟩

theorem clientBlocks_blocked {fuel : Nat} {c : ClientState} (hs : r.Steady) (hfin : r.fin = false)
    (hfuel : frameSize encode ≤ fuel) (h : r.rest.length < frameSize encode) :
    clientBlocks gf spare encode fuel r c = [] := by
  cases fuel with
  | zero => rfl
  | succ fuel => rw [clientBlocks, readBlock_blocked hs hfin hfuel h]

variable (gf spare) in
/-- At the end of a closed stream `Client` decodes a block that is not in the stream. -/
theorem clientBlocks_eof {fuel : Nat} (c : ClientState) (hs : r.Steady) (hfin : r.fin = true)
    (hfuel : frameSize encode ≤ fuel) (h : r.rest.length < frameSize encode) :
    ∃ pkts, clientBlocks gf spare encode fuel r c =
      (r.rest ++ replicate (frameSize encode - r.rest.length) 0) :: pkts := by
  cases fuel with
  | zero => omega
  | succ fuel =>
    obtain ⟨r', hblock⟩ := readBlock_eof hs hfin hfuel h
    rw [clientBlocks, hblock]
    exact ⟨_, rfl⟩

end Runs

theorem frameSize_pos (encode : Bool) : 0 < frameSize encode := by
  cases encode <;> decide

theorem length_drop_div_lt {size : Nat} (hsize : 0 < size) (s : List UInt8) :
    (s.drop (size * (s.length / size))).length < size := by
  have hmod := Nat.mod_lt s.length hsize
  have hdiv := Nat.div_add_mod s.length size
  rw [length_drop]
  omega

/-- `Client` on a whole stream. -/
theorem clientBlocks_iff (gf : GF256) (spare : Nat) (encode : Bool) {r : Reader} (hs : r.Steady) :
    (∃ enough, ∀ fuel ≥ enough, clientBlocks gf spare encode fuel r .new =
        upToStop gf spare encode .new (completeBlocks (frameSize encode) r.rest)) ↔
      (r.fin = true →
        ¬ ∃ c, receive gf spare encode .new (completeBlocks (frameSize encode) r.rest) =
          some (.next c)) := by
  have hrun := clientBlocks_run gf spare (r.rest.length / frameSize encode) .new hs
    (Nat.mul_div_le _ _)
  constructor
  · rintro ⟨enough, hexact⟩ hfin ⟨c, hc⟩
    obtain ⟨r', hafter, heq⟩ := hrun (frameSize encode + enough) (by omega)
    have hshort : r'.rest.length < frameSize encode := by
      rw [hafter.rest]
      exact length_drop_div_lt (frameSize_pos encode) r.rest
    obtain ⟨pkts, hextra⟩ := clientBlocks_eof gf spare c (hafter.steady hs)
      (hafter.fin.trans hfin) (Nat.le_add_right _ enough) hshort
    rw [completeBlocks] at hc hexact
    rw [hexact _ (Nat.le_add_right_of_le (Nat.le_add_left enough _)), hc] at heq
    simp only [hextra, self_eq_append_right, reduceCtorEq] at heq
  · intro hstop
    refine ⟨frameSize encode + r.rest.length / frameSize encode, fun fuel hfuel => ?_⟩
    obtain ⟨extra, rfl⟩ := Nat.exists_eq_add_of_le hfuel
    obtain ⟨r', hafter, heq⟩ := hrun (frameSize encode + extra) (by omega)
    rw [show frameSize encode + r.rest.length / frameSize encode + extra =
      frameSize encode + extra + r.rest.length / frameSize encode by omega, heq, completeBlocks]
    cases hreceive : receive gf spare encode .new
        (blocks (frameSize encode) (r.rest.length / frameSize encode) r.rest) with
    | none => exact append_nil _
    | some o =>
      cases o with
      | done result => exact append_nil _
      | next c =>
        have hopen : r.fin = false := by
          cases hfin : r.fin with
          | false => rfl
          | true => exact absurd ⟨c, hreceive⟩ (hstop hfin)
        have hshort : r'.rest.length < frameSize encode := by
          rw [hafter.rest]
          exact length_drop_div_lt (frameSize_pos encode) r.rest
        simp only [clientBlocks_blocked (hafter.steady hs) (hafter.fin.trans hopen)
          (Nat.le_add_right _ extra) hshort, append_nil]

/-- `handleSession` on a whole stream. -/
theorem initBlocks_iff {r : Reader} (hs : r.Steady) :
    (∃ enough, ∀ fuel ≥ enough, initBlocks fuel r = (completeBlocks initsize r.rest).take 1) ↔
      (r.fin = true → initsize ≤ r.rest.length) := by
  have hpos : 0 < initsize := by decide
  by_cases hlen : initsize ≤ r.rest.length
  · refine ⟨fun _ _ => hlen, fun _ => ⟨initsize, fun fuel hfuel => ?_⟩⟩
    obtain ⟨r', hblock, -⟩ := readBlock_full hs hfuel hlen
    obtain ⟨q, hq⟩ : ∃ q, r.rest.length / initsize = q + 1 :=
      ⟨_, (Nat.succ_pred_eq_of_pos (Nat.div_pos hlen hpos)).symm⟩
    rw [initBlocks, hblock, completeBlocks, hq, blocks_cons]
    rfl
  have hnone : completeBlocks initsize r.rest = [] := by
    rw [completeBlocks, Nat.div_eq_of_lt (by omega)]
    rfl
  rw [hnone, take_nil]
  constructor
  · rintro ⟨enough, hexact⟩ hfin
    obtain ⟨r', hblock⟩ := readBlock_eof hs hfin (Nat.le_add_right initsize enough)
      (Nat.lt_of_not_le hlen)
    have heq := hexact (initsize + enough) (by omega)
    rw [initBlocks, hblock] at heq
    cases heq
  · intro hopen
    refine ⟨initsize, fun fuel hfuel => ?_⟩
    have hfin : r.fin = false := by
      cases hfin : r.fin with
      | false => rfl
      | true => exact absurd (hopen hfin) hlen
    rw [initBlocks, readBlock_blocked hs hfin hfuel (Nat.lt_of_not_le hlen)]

/-- **Re-segmentation is exact unless the stream ends first**: under every schedule the
blocks that are decoded are the complete blocks of the stream up to the one at which the
loop stops, exactly if the stream stays open or one of its complete blocks makes `Client`
stop, and for the INIT block exactly if the stream stays open or holds one. -/
theorem segmentation_iff (gf : GF256) (spare : Nat) (encode : Bool) (s : List UInt8)
    (fin eofWithData : Bool) (sizes : Nat → Nat) :
    ((∃ enough, ∀ fuel ≥ enough,
        clientBlocks gf spare encode fuel (Reader.of s fin eofWithData sizes) .new =
          upToStop gf spare encode .new (completeBlocks (frameSize encode) s)) ↔
      (fin = true → ¬ ∃ c, receive gf spare encode .new (completeBlocks (frameSize encode) s) =
        some (.next c))) ∧
    ((∃ enough, ∀ fuel ≥ enough, initBlocks fuel (Reader.of s fin eofWithData sizes) =
        (completeBlocks initsize s).take 1) ↔
      (fin = true → initsize ≤ s.length)) :=
  ⟨clientBlocks_iff gf spare encode (Reader.steady_of s fin eofWithData sizes),
    initBlocks_iff (Reader.steady_of s fin eofWithData sizes)⟩

/-- A closed stream of the single byte 7 has no complete block, but `Client` decodes the
byte with zeros behind it, which is an END frame, and returns an empty file. In the same
way `handleSession` takes the single byte 3 for a request. -/
theorem fragment_decoded :
    (∀ fuel ≥ framesizeEnc,
      completeBlocks framesizeEnc [7] = [] ∧
        ∃ pkts, clientBlocks poly84320 0 true fuel (.of [7] true true fun _ => 1) .new =
          (7 :: List.replicate 1052 0) :: pkts) ∧
      processBlock poly84320 0 true .new (7 :: List.replicate 1052 0) = some (.done (some [])) ∧
      ∀ fuel ≥ initsize, completeBlocks initsize [3] = [] ∧
        initBlocks fuel (.of [3] true true fun _ => 1) = [3 :: List.replicate 127 0] := by
  refine ⟨fun fuel hfuel => ⟨rfl, ?_⟩, ?_, fun fuel hfuel => ⟨rfl, ?_⟩⟩
  · exact clientBlocks_eof poly84320 0 .new (Reader.steady_of [7] true true fun _ => 1) rfl hfuel
      (by decide : 1 < frameSize true)
  · have hlen : (7 :: replicate 1052 (0 : UInt8)).length = framesizeEnc := by
      rw [length_cons, length_replicate]
      rfl
    rw [processBlock, decodeXNCPkt_eq (.inl hlen), if_pos (by decide)]
    rfl
  · obtain ⟨r', hblock⟩ := readBlock_eof (Reader.steady_of [3] true true fun _ => 1) rfl hfuel
      (by decide : 1 < initsize)
    rw [initBlocks, hblock]
    rfl

end RlncStreaming.Xnc
