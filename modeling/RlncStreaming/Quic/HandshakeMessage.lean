import Mathlib.Data.Finmap
import Mathlib.Data.Finset.Sort
import RlncStreaming.Quic.ByteOrder
import RlncStreaming.Quic.Handshake

/-!
Handshake messages (`internal/handshake/handshake_message.go`).

A message is a tag and a map from tags to values; the handshake looks the values up
(`HandshakeMessage.lookup`). On the wire an index stands before the values. It says for each tag
where its value ends, as a 32-bit number, and the length of a value is the difference to the number
before, which may wrap. What is written comes back, and whatever the input is, a bounded part of it
is read and the message returned is bounded (`handshake_message_bounded`).
-/

namespace RlncStreaming.Quic

open List

/-- `map[Tag][]byte` -/
abbrev MessageData := Finmap fun _ : Tag => List UInt8

structure HandshakeMessage where
  tag : Tag
  data : MessageData

def cryptoMaxParams : Nat := 128

def cryptoParameterMaxLength : Nat := 4000

inductive MessageError where
  | eof
  | unexpectedEOF
  | cryptoTooManyEntries
  /-- `CryptoInvalidValueLength`: `value too long`. -/
  | valueTooLong
deriving DecidableEq, Repr

namespace HandshakeMessage

/-- The map that the handlers of the handshake are given. -/
def lookup (h : HandshakeMessage) : TagMap := h.data.lookup

/-- A function that reads from a stream of bytes. An error leaves a stream as well. -/
abbrev Reads := EStateM MessageError (List UInt8)

/-- `io.ReadFull`; if there are too few bytes they are read all the same. -/
def readFull (n : Nat) : Reads (List UInt8) := fun r =>
  if n ≤ r.length then .ok (r.take n) (r.drop n)
  else .error (if r = [] then .eof else .unexpectedEOF) []

/-- `binary.LittleEndian.Uint32` -/
def uint32 (bs : List UInt8) : UInt32 := .ofNat (leValue bs)

/-- The loop over the index, of which `n` entries are left. -/
def readValues : Nat → List UInt8 → UInt32 → MessageData → Reads MessageData
  | 0, _, _, resultMap => pure resultMap
  | n + 1, index, dataStart, resultMap => do
    let tag : Tag := uint32 (index.take 4)
    let dataEnd := uint32 ((index.drop 4).take 4)
    let dataLen := dataEnd - dataStart
    if cryptoParameterMaxLength < dataLen.toNat then throw .valueTooLong
    else
      let data ← readFull dataLen.toNat
      readValues n (index.drop 8) dataEnd (resultMap.insert tag data)

def parseHandshakeMessage : Reads HandshakeMessage := do
  let messageTag := uint32 (← readFull 4)
  let nPairs := (uint32 (← readFull 4)).toNat
  if cryptoMaxParams < nPairs then throw .cryptoTooManyEntries
  else
    let index ← readFull (nPairs * 8)
    let resultMap ← readValues nPairs index 0 ∅
    pure ⟨messageTag, resultMap⟩

def getTagsSorted (h : HandshakeMessage) : List Tag := h.data.keys.sort

/-- The value of a tag, which is empty if there is none. -/
def value (h : HandshakeMessage) (t : Tag) : List UInt8 := (h.lookup t).getD []

/-- The loop of `Write`: the index and the values of some tags, from an offset on. -/
def writeValues (h : HandshakeMessage) : UInt32 → List Tag → List UInt8 × List UInt8
  | _, [] => ([], [])
  | offset, t :: ts =>
    let v := h.value t
    let offset := offset + .ofNat v.length
    let rest := h.writeValues offset ts
    (leBytes 4 t.toNat ++ leBytes 4 offset.toNat ++ rest.1, v ++ rest.2)

def write (h : HandshakeMessage) : List UInt8 :=
  let values := h.writeValues 0 h.getTagsSorted
  leBytes 4 h.tag.toNat ++ leBytes 2 h.data.keys.card ++ leBytes 2 0 ++ values.1 ++ values.2

/-- A map with few tags and short values. -/
def Small (n : Nat) (m : MessageData) : Prop :=
  m.keys.card ≤ n ∧ ∀ t v, m.lookup t = some v → v.length ≤ cryptoParameterMaxLength

section Reads

variable {α β : Type} {m : Reads α} {f : α → Reads β} {bs rest : List UInt8}

theorem bind_of_ok {a : α} (h : m bs = .ok a rest) : (m >>= f) bs = f a rest := by
  change EStateM.bind m f bs = _
  rw [EStateM.bind, h]

theorem bind_of_error {e : MessageError} (h : m bs = .error e rest) :
    (m >>= f) bs = .error e rest := by
  change EStateM.bind m f bs = _
  rw [EStateM.bind, h]

end Reads

/-! ### What is written comes back -/

theorem readFull_append {n : Nat} {bs : List UInt8} (hn : bs.length = n) (rest : List UInt8) :
    readFull n (bs ++ rest) = .ok bs rest := by
  rw [readFull, if_pos (by simp [hn]), take_left' hn, drop_left' hn]

theorem uint32_leBytes (x : UInt32) : uint32 (leBytes 4 x.toNat) = x := by
  rw [uint32, leValue_leBytes, Nat.mod_eq_of_lt (show x.toNat < 256 ^ 4 from x.toNat_lt),
    UInt32.ofNat_toNat]

variable {h : HandshakeMessage}

/-- The offset of the index may wrap. The differences are right all the same. -/
theorem readValues_writeValues {ts : List Tag}
    (hlen : ∀ t ∈ ts, (h.value t).length ≤ cryptoParameterMaxLength) (offset : UInt32)
    (m : MessageData) (rest : List UInt8) :
    readValues ts.length (h.writeValues offset ts).1 offset m
        ((h.writeValues offset ts).2 ++ rest) =
      .ok (ts.foldl (fun m t => m.insert t (h.value t)) m) rest := by
  induction ts generalizing offset m with
  | nil => rfl
  | cons t ts ih =>
    obtain ⟨hfirst, hlen⟩ := forall_mem_cons.mp hlen
    have hdiff : (offset + .ofNat (h.value t).length - offset : UInt32).toNat =
        (h.value t).length := by
      rw [UInt32.add_comm, UInt32.add_sub_cancel, UInt32.toNat_ofNat',
        Nat.mod_eq_of_lt (Nat.lt_of_le_of_lt hfirst (by decide))]
    simp only [length_cons, writeValues, readValues, append_assoc, take_left' (leBytes_length 4 _),
      drop_left' (leBytes_length 4 _), uint32_leBytes, hdiff, if_neg (Nat.not_lt.mpr hfirst)]
    rw [bind_of_ok (readFull_append rfl _)]
    exact ih hlen _ _

theorem lookup_foldl_insert {g : Tag → List UInt8} (ts : List Tag) (m : MessageData) (x : Tag) :
    (ts.foldl (fun m t => m.insert t (g t)) m).lookup x =
      if x ∈ ts then some (g x) else m.lookup x := by
  induction ts generalizing m with
  | nil => rw [foldl_nil, if_neg not_mem_nil]
  | cons t ts ih =>
    rw [foldl_cons, ih]
    by_cases hx : x = t
    · subst hx
      simp [Finmap.lookup_insert]
    · simp [Finmap.lookup_insert_of_ne _ hx, hx]

theorem foldl_getTagsSorted (h : HandshakeMessage) :
    h.getTagsSorted.foldl (fun m t => m.insert t (h.value t)) ∅ = h.data := by
  refine Finmap.ext_lookup fun x => ?_
  have hmem : x ∈ h.getTagsSorted ↔ x ∈ h.data := by
    rw [getTagsSorted, Finset.mem_sort, Finmap.mem_keys]
  rw [lookup_foldl_insert, Finmap.lookup_empty, value, lookup]
  cases hx : h.data.lookup x with
  | none => rw [if_neg fun hin => Finmap.lookup_eq_none.mp hx (hmem.mp hin)]
  | some v => rw [if_pos (hmem.mpr (Finmap.mem_of_lookup_eq_some hx)), Option.getD_some]

theorem length_writeValues (h : HandshakeMessage) (offset : UInt32) (ts : List Tag) :
    (h.writeValues offset ts).1.length = ts.length * 8 := by
  induction ts generalizing offset with
  | nil => rfl
  | cons t ts ih =>
    simp only [writeValues, length_append, leBytes_length, ih, length_cons]
    omega

/-- The number of tags is written with 16 bits and read with 32. -/
theorem leBytes_two_append {n : Nat} (hn : n < 2 ^ 16) :
    leBytes 2 n ++ leBytes 2 0 = leBytes 4 n := by
  have hzero : n / 256 / 256 = 0 := by omega
  simp only [leBytes, hzero]
  rfl

theorem parseHandshakeMessage_write (hsmall : Small cryptoMaxParams h.data) (rest : List UInt8) :
    parseHandshakeMessage (h.write ++ rest) = .ok h rest := by
  have hlen : ∀ t, (h.value t).length ≤ cryptoParameterMaxLength := by
    intro t
    rw [value, lookup]
    cases hv : h.data.lookup t with
    | none => exact Nat.zero_le _
    | some v => exact hsmall.2 t v hv
  have hcard : h.data.keys.card < 2 ^ 16 := Nat.lt_of_le_of_lt hsmall.1 (by decide)
  have hpairs : (uint32 (leBytes 4 h.data.keys.card)).toNat = h.data.keys.card := by
    rw [uint32, leValue_leBytes, UInt32.toNat_ofNat']
    omega
  have htags : h.getTagsSorted.length = h.data.keys.card := Finset.length_sort _
  simp only [parseHandshakeMessage, write, append_assoc]
  rw [← append_assoc (leBytes 2 _), leBytes_two_append hcard,
    bind_of_ok (readFull_append (leBytes_length 4 _) _),
    bind_of_ok (readFull_append (leBytes_length 4 _) _), hpairs,
    if_neg (Nat.not_lt.mpr hsmall.1), ← htags,
    bind_of_ok (readFull_append (h.length_writeValues 0 _) _),
    bind_of_ok (readValues_writeValues (fun t _ => hlen t) 0 ∅ rest), foldl_getTagsSorted,
    uint32_leBytes]
  rfl

/-! ### Any input -/

/-- The stream after a call. -/
def left {α : Type} : EStateM.Result MessageError (List UInt8) α → List UInt8
  | .ok _ r => r
  | .error _ r => r

/-- At most `n` bytes are read, from the front, and what is returned satisfies `P`. -/
def Bounded {α : Type} (n : Nat) (P : α → Prop) (m : Reads α) : Prop :=
  ∀ r, left (m r) <:+ r ∧ r.length ≤ (left (m r)).length + n ∧ ∀ a r', m r = .ok a r' → P a

section Bounded

variable {α β : Type} {n k : Nat} {P : α → Prop} {Q : β → Prop} {m : Reads α} {f : α → Reads β}

theorem Bounded.pure {a : α} (ha : P a) : Bounded n P (Pure.pure a) :=
  fun _ => ⟨suffix_rfl, Nat.le_add_right .., by rintro _ _ ⟨⟩; exact ha⟩

theorem Bounded.throw (e : MessageError) : Bounded n P (throw e) :=
  fun _ => ⟨suffix_rfl, Nat.le_add_right .., nofun⟩

theorem Bounded.bind (hm : Bounded k P m) (hk : k ≤ n) (hf : ∀ a, P a → Bounded (n - k) Q (f a)) :
    Bounded n Q (m >>= f) := by
  intro r
  obtain ⟨hsuffix, hle, ha⟩ := hm r
  cases hr : m r with
  | error e r₁ =>
    rw [hr, left] at hsuffix hle
    rw [bind_of_error hr]
    exact ⟨hsuffix, by rw [left]; omega, nofun⟩
  | ok a r₁ =>
    rw [hr, left] at hsuffix hle
    rw [bind_of_ok hr]
    obtain ⟨hsuffix', hle', hb⟩ := hf a (ha a r₁ hr) r₁
    exact ⟨hsuffix'.trans hsuffix, by omega, hb⟩

end Bounded

theorem readFull_bounded (n : Nat) : Bounded n (fun bs => bs.length = n) (readFull n) := by
  intro r
  by_cases h : n ≤ r.length
  · rw [readFull, if_pos h]
    refine ⟨drop_suffix n r, ?_, ?_⟩
    · rw [left, length_drop]
      omega
    · rintro _ _ ⟨⟩
      exact length_take_of_le h
  · rw [readFull, if_neg h]
    exact ⟨nil_suffix, by rw [left]; omega, nofun⟩

theorem Small.insert {n : Nat} {m : MessageData} (h : Small n m) (t : Tag)
    {v : List UInt8} (hv : v.length ≤ cryptoParameterMaxLength) : Small (n + 1) (m.insert t v) := by
  constructor
  · have hkeys : (m.insert t v).keys = Insert.insert t m.keys := by
      ext x
      rw [Finmap.mem_keys, Finmap.mem_insert, Finset.mem_insert, Finmap.mem_keys]
    rw [hkeys]
    exact (Finset.card_insert_le _ _).trans (Nat.succ_le_succ h.1)
  · intro x w hw
    by_cases hx : x = t
    · subst hx
      rw [Finmap.lookup_insert] at hw
      cases hw
      exact hv
    · rw [Finmap.lookup_insert_of_ne _ hx] at hw
      exact h.2 x w hw

theorem small_empty : Small 0 ∅ := ⟨Nat.le_refl 0, nofun⟩

/-- Run lemma of the loop over the index. -/
theorem readValues_bounded {n k K N : Nat} (index : List UInt8) (dataStart : UInt32)
    {m : MessageData} (hm : Small k m) (hK : k + n = K) (hN : n * cryptoParameterMaxLength ≤ N) :
    Bounded N (Small K) (readValues n index dataStart m) := by
  induction n generalizing index dataStart k m N with
  | zero => exact .pure (hK ▸ hm)
  | succ n ih =>
    rw [Nat.succ_mul] at hN
    rw [readValues]
    split
    · exact .throw _
    rename_i hlen
    rw [Nat.not_lt] at hlen
    exact (readFull_bounded _).bind (by omega) fun data hdata =>
      ih _ _ (hm.insert _ (hdata ▸ hlen)) (by omega) (by omega)

/-- **Handshake messages round-trip within bounds.** A message of at most 128 tags with values of at
most 4000 bytes comes back, and nothing beyond it is read. Whatever the stream is, no more is read
than such a message can take up, and what is returned is one. -/
theorem handshake_message_bounded :
    (∀ h : HandshakeMessage, Small cryptoMaxParams h.data → ∀ rest,
      parseHandshakeMessage (h.write ++ rest) = .ok h rest) ∧
    Bounded (8 + 128 * 8 + 128 * 4000) (fun h => Small cryptoMaxParams h.data)
      parseHandshakeMessage := by
  refine ⟨fun h hsmall => parseHandshakeMessage_write hsmall, ?_⟩
  refine (readFull_bounded 4).bind (by decide) fun tag _ =>
    (readFull_bounded 4).bind (by decide) fun pairs _ => ?_
  simp only
  split
  · exact .throw _
  rename_i hpairs
  rw [Nat.not_lt] at hpairs
  unfold cryptoMaxParams at hpairs
  refine (readFull_bounded _).bind (by omega) fun index _ => (readValues_bounded index 0 small_empty
    (Nat.zero_add _) ?_).bind (Nat.le_refl _) fun m hm => .pure ⟨hm.1.trans hpairs, hm.2⟩
  unfold cryptoParameterMaxLength
  omega

/-- Two tags, one of them without a value. -/
theorem handshake_message_two_tags :
    let h : HandshakeMessage := ⟨tagSTK, (Finmap.insert tagSNO [7, 8, 9] ∅).insert tagPROF []⟩
    parseHandshakeMessage (h.write ++ [5]) = .ok h [5] := by
  have hsmall := (small_empty.insert tagSNO (v := [7, 8, 9]) (by decide)).insert tagPROF (v := [])
    (by decide)
  exact handshake_message_bounded.1 _ ⟨hsmall.1.trans (by decide), hsmall.2⟩ _

end HandshakeMessage

end RlncStreaming.Quic
