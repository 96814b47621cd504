import RlncStreaming.Quic.SessionStreams
import RlncStreaming.Xnc.Segments

/-!
The read loops of `Client` (`xnc/client.go`) and `handleSession` (`xnc/server.go`) on a stream that
fails for good.

Both loops leave a block at `io.EOF`, however full it is, and go on reading after every other
error. `Client` decodes the block and reads the next one, which is blank and of no known type. So
both loops end after at most two calls that return `io.EOF`, and on a stream that was cancelled or
reset they never do (`transfers_end_iff`).
-/

namespace RlncStreaming.Xnc

open Kodr List

/-! ### One call -/

/-- What a call of `Read` returns: the bytes that it has copied, and the error. -/
structure Return where
  data : List UInt8
  err : Option ReadErr
deriving DecidableEq, Repr

/-- The buffer of an accumulation loop. -/
structure Buffer where
  accuRecv : Nat
  pktE : List UInt8
deriving DecidableEq, Repr

def Buffer.fresh (size : Nat) : Buffer := ⟨0, List.replicate size 0⟩

/-- The accumulation loop after a call: it calls again, or it is left with the block. `Read` is
given the free part of the buffer and copies no more than that. -/
def Buffer.round (b : Buffer) (ret : Return) : Buffer ⊕ List UInt8 :=
  let data := ret.data.take (b.pktE.length - b.accuRecv)
  let pktE := copyAt b.pktE b.accuRecv data
  match ret.err with
  | some .eof => .inr pktE
  | some .other => .inl ⟨b.accuRecv, pktE⟩
  | none =>
    if b.accuRecv + data.length < pktE.length then .inl ⟨b.accuRecv + data.length, pktE⟩
    else .inr pktE

/-- A loop around an accumulation loop: it waits for a call, or it was left. -/
inductive Phase (σ ρ : Type) where
  | reading (s : σ) (b : Buffer)
  | left (result : ρ)
deriving DecidableEq, Repr

def Phase.Left {σ ρ : Type} : Phase σ ρ → Prop
  | .reading _ _ => False
  | .left _ => True

section Loop

variable {σ ρ : Type} (size : Nat) (body : σ → List UInt8 → σ ⊕ ρ)

/-- The loop after a call. -/
def Phase.call : Phase σ ρ → Return → Phase σ ρ
  | .left result, _ => .left result
  | .reading s b, ret =>
    match b.round ret with
    | .inl b => .reading s b
    | .inr pktE =>
      match body s pktE with
      | .inl s => .reading s (.fresh size)
      | .inr result => .left result

/-- The loop after all these calls. -/
def loop (s : σ) (returns : List Return) : Phase σ ρ :=
  returns.foldl (Phase.call size body) (.reading s (.fresh size))

end Loop

/-- What `Client` does with a block. `none` is a panic. -/
def clientBody (gf : GF256) (spare : Nat) (encode : Bool) (c : ClientState) (pktE : List UInt8) :
    ClientState ⊕ Option (Option (List UInt8)) :=
  match processBlock gf spare encode c pktE with
  | none => .inr none
  | some (.done result) => .inr (some result)
  | some (.next c) => .inl c

/-- The receive loop of `Client`. -/
def clientLoop (gf : GF256) (spare : Nat) (encode : Bool) (returns : List Return) :
    Phase ClientState (Option (Option (List UInt8))) :=
  loop (frameSize encode) (clientBody gf spare encode) .new returns

/-- The loop of `handleSession` that reads the request. -/
def initLoop (returns : List Return) : Phase Unit (List UInt8) :=
  loop initsize (fun _ buffer => .inr buffer) () returns

/-- A call on a stream whose `Read` returns nothing but this error. -/
def Return.failed (err : ReadErr) : Return := ⟨[], some err⟩

/-! ### A stream that fails for good -/

section Loop

variable {σ ρ : Type} {size : Nat} {body : σ → List UInt8 → σ ⊕ ρ} {s : σ} {b : Buffer}

theorem copyAt_nil (buf : List UInt8) (pos : Nat) : copyAt buf pos [] = buf := by
  rw [copyAt, append_nil, length_nil, Nat.add_zero, take_append_drop]

theorem round_failed :
    b.round (.failed .other) = .inl b ∧ b.round (.failed .eof) = .inr b.pktE := by
  simp [Buffer.round, Return.failed, copyAt_nil]

theorem calls_other (p : Phase σ ρ) (n : Nat) :
    (replicate n (Return.failed .other)).foldl (Phase.call size body) p = p := by
  induction n with
  | zero => rfl
  | succ n ih =>
    rw [replicate_succ, foldl_cons]
    cases p with
    | left result => exact ih
    | reading s b =>
      rw [Phase.call, round_failed.1]
      exact ih

variable (hblank : ∀ s, ∃ result, body s (replicate size 0) = .inr result)

include hblank

/-- A loop that is left at a blank block is left at the second `io.EOF` at the latest: the first
one ends the block in progress, and the next block is blank. -/
theorem calls_eof (p : Phase σ ρ) :
    ((replicate 2 (Return.failed .eof)).foldl (Phase.call size body) p).Left := by
  have second : ∀ s, ((Phase.reading s (.fresh size)).call size body (.failed .eof)).Left := by
    intro s
    obtain ⟨result, hresult⟩ := hblank s
    rw [Phase.call, round_failed.2]
    simp only [Buffer.fresh, hresult]
    trivial
  rw [replicate_succ, foldl_cons, replicate_one, foldl_cons, foldl_nil]
  cases p with
  | left result => trivial
  | reading s b =>
    rw [Phase.call, round_failed.2]
    cases hbody : body s b.pktE with
    | inl s' =>
      simp only [hbody]
      exact second s'
    | inr result =>
      simp only [hbody]
      trivial

/-- For every prior run and every error that all further calls return. -/
theorem loop_left_iff (s : σ) (returns : List Return) (err : ReadErr) :
    (∃ n, (loop size body s (returns ++ replicate n (.failed err))).Left) ↔
      (loop size body s returns).Left ∨ err = .eof := by
  simp only [loop, foldl_append]
  cases err with
  | other =>
    simp only [calls_other, exists_const, reduceCtorEq, or_false]
  | eof =>
    constructor
    · intro _
      exact .inr rfl
    · intro _
      exact ⟨2, calls_eof hblank _⟩

end Loop

/-- A blank block is of no known type. -/
theorem clientBody_blank (gf : GF256) (spare : Nat) (encode : Bool) (c : ClientState) :
    clientBody gf spare encode c (replicate (frameSize encode) 0) = .inr (some none) := by
  have hlength : (replicate (frameSize encode) (0 : UInt8)).length = framesizeEnc ∨
      (replicate (frameSize encode) (0 : UInt8)).length = framesize := by
    rw [length_replicate, frameSize]
    cases encode with
    | true => exact .inl rfl
    | false => exact .inr rfl
  have hhead : (replicate (frameSize encode) (0 : UInt8)).getD 0 0 = 0 :=
    getD_replicate 0 (frameSize_pos encode)
  rw [clientBody, processBlock, decodeXNCPkt_eq hlength, hhead, if_neg (by decide),
    if_neg (by decide), if_neg (by decide)]
  rfl

/-- **Transfers end at `io.EOF` only.** Whatever the calls before returned, if from some call on all
return the same error and no bytes, the receive loop of `Client` and the read loop of
`handleSession` are left after finitely many more calls just if they were left already or the error
is `io.EOF`. -/
theorem transfers_end_iff (gf : GF256) (spare : Nat) (encode : Bool) (returns : List Return)
    (err : ReadErr) :
    ((∃ n, (clientLoop gf spare encode (returns ++ List.replicate n (.failed err))).Left) ↔
        (clientLoop gf spare encode returns).Left ∨ err = .eof) ∧
      ((∃ n, (initLoop (returns ++ List.replicate n (.failed err))).Left) ↔
        (initLoop returns).Left ∨ err = .eof) := by
  constructor
  · exact loop_left_iff (fun c => ⟨_, clientBody_blank gf spare encode c⟩) .new returns err
  · exact loop_left_iff (fun _ => ⟨_, rfl⟩) () returns err

/-! ### Streams that fail for good -/

/-- An error of the stream as the loops see it: they ask for `io.EOF` only. -/
def ofStream : Quic.ReadError → ReadErr
  | .eof => .eof
  | _ => .other

/-- Every call of `Read` returns this error at once, without bytes, and leaves the stream as it
is. -/
def Dead (s : Quic.Stream) (err : Quic.ReadError) : Prop :=
  ∀ size, s.enter size = .returned s [] (some err)

/-- After `Cancel` or `Reset` with an error. The error of the first failure stays. -/
theorem dead_cancel (s : Quic.Stream) (reason : String) :
    Dead (s.cancel (some reason)) (s.err.getD (.stream reason)) := by
  intro size
  cases herr : s.err with
  | none => simp [Quic.Stream.cancel, Quic.Stream.enter, herr]
  | some e => simp [Quic.Stream.cancel, Quic.Stream.enter, herr]

/-- A stream that was cancelled before a byte arrived keeps both loops running for ever. -/
theorem cancelled_never_ends :
    Dead (Quic.newStream.cancel (some "connection closed")) (.stream "connection closed") ∧
      ∀ n, ¬ (clientLoop poly84320 0 true
          (List.replicate n (.failed (ofStream (.stream "connection closed"))))).Left ∧
        ¬ (initLoop
          (List.replicate n (.failed (ofStream (.stream "connection closed"))))).Left := by
  refine ⟨dead_cancel Quic.newStream _, fun n => ?_⟩
  unfold clientLoop initLoop loop ofStream
  rw [calls_other, calls_other]
  exact ⟨id, id⟩

end RlncStreaming.Xnc
