import RlncStreaming.Lib.Paths
import RlncStreaming.Xnc.Packet

/-!
The INIT packet (`EncodeInit`, `DecodeInit` of `xnc/xnc.go`) and the file that the
server opens for it (`handleSession` of `xnc/server.go`).

A block of `INITSIZE` bytes has room for a name of `nameRoom` bytes, and neither side
checks this: a longer name makes the encoder write out of range and a larger announced
length makes the decoder slice out of range (`init_format_iff`). The name is joined to
the server's root directory as it is, so the opened path leaves the directory as soon as
the name has more two-dot segments than it makes up for (`requested_path_within_iff`).
-/

namespace RlncStreaming.Xnc

open Lib List Option

/-! ### The packet -/

/-- `XNC_INIT`; the file name is a Go string, that is a sequence of bytes. -/
structure XncInit where
  type : UInt8
  len : Nat
  filename : List UInt8
deriving DecidableEq, Repr

/-- `pkt[5+i] = data.Filename[i]`. -/
def putNameByte (filename : List UInt8) (i : Nat) (pkt : List UInt8) : Option (List UInt8) := do
  let c ← filename[i]?
  if 5 + i < pkt.length then some (pkt.set (5 + i) c) else none

/-- `EncodeInit`. It never returns an error. -/
def encodeInit (data : XncInit) : Option (Except XncError (List UInt8)) := do
  let pkt := data.type :: (putUint32 data.len ++ List.replicate (initsize - 5) 0)
  let pkt ← forUp (putNameByte data.filename) 0 data.len pkt
  return .ok pkt

/-- `DecodeInit`. -/
def decodeInit (data : List UInt8) : Option (Except XncError XncInit) := do
  let type ← data[0]?
  if type ≠ typeInitEnc ∧ type ≠ typeInit then
    return .error .initType
  let len ← (slice data 1 5).bind beUint32
  let filename ← slice data 5 (5 + len)
  return .ok ⟨type, len, filename⟩

/-- The bytes of a block behind its type and length. -/
def nameRoom : Nat := initsize - 5

/-- The block of a name that fits. -/
def initBlock (type : UInt8) (name : List UInt8) : List UInt8 :=
  type :: (putUint32 name.length ++ (name ++ List.replicate (nameRoom - name.length) 0))

/-- The two request types. -/
def InitType (type : UInt8) : Prop := type = typeInitEnc ∨ type = typeInit

instance (type : UInt8) : Decidable (InitType type) := inferInstanceAs (Decidable (_ ∨ _))

/-! ### What the functions compute -/

section Encode

variable (type : UInt8) (name : List UInt8)

/-- The block after `k` bytes of the name were written. -/
def partBlock (k : Nat) : List UInt8 :=
  type :: (putUint32 name.length ++ (name.take k ++ List.replicate (nameRoom - k) 0))

theorem partBlock_length {k : Nat} (hk : k ≤ name.length) (hroom : k ≤ nameRoom) :
    (partBlock type name k).length = initsize := by
  simp only [partBlock, length_cons, length_append, putUint32_length, length_take,
    length_replicate, nameRoom, initsize] at hroom ⊢
  omega

theorem putNameByte_partBlock {k : Nat} (hk : k < name.length) (hroom : k < nameRoom) :
    putNameByte name k (partBlock type name k) = some (partBlock type name (k + 1)) := by
  have hlen := partBlock_length type name (Nat.le_of_lt hk) (Nat.le_of_lt hroom)
  have hin : 5 + k < (partBlock type name k).length := by
    rw [hlen]
    exact Nat.add_lt_of_lt_sub' hroom
  have hrest : nameRoom - k = (nameRoom - (k + 1)) + 1 := by omega
  have htake : (name.take k).length = k := length_take_of_le (Nat.le_of_lt hk)
  simp only [putNameByte, getElem?_eq_getElem hk, bind_eq_bind, bind_some, if_pos hin, some.injEq]
  rw [partBlock, partBlock, hrest, replicate_succ, show 5 + k = 4 + k + 1 by omega,
    set_cons_succ, set_append_right _ _ (by rw [putUint32_length]; omega),
    set_append_right _ _ (by rw [htake, putUint32_length]; omega), htake, putUint32_length,
    show 4 + k - 4 - k = 0 by omega, set_cons_zero, ← take_append_getElem hk,
    append_assoc, singleton_append]

theorem encodeInit_eq (h : name.length ≤ nameRoom) :
    encodeInit ⟨type, name.length, name⟩ = some (.ok (initBlock type name)) := by
  obtain ⟨pkt, hpkt, hinv⟩ := forUp_inv (fun k pkt => pkt = partBlock type name k)
    (putNameByte name) 0 name.length rfl (fun k pkt _ hk hinv =>
      ⟨_, hinv ▸ putNameByte_partBlock type name (by omega) (by omega), rfl⟩)
  have hstart : type :: (putUint32 name.length ++ replicate (initsize - 5) 0) =
      partBlock type name 0 := rfl
  have hend : partBlock type name (0 + name.length) = initBlock type name := by
    rw [Nat.zero_add, partBlock, take_length, initBlock]
  rw [encodeInit, hstart, bind_eq_bind, hpkt, bind_some, hinv, hend]
  rfl

/-- The write behind the last byte of the block. -/
theorem encodeInit_panics (h : nameRoom < name.length) :
    encodeInit ⟨type, name.length, name⟩ = none := by
  have hkeep : ∀ (k : Nat) (pkt pkt' : List UInt8), pkt.length = initsize →
      putNameByte name k pkt = some pkt' → pkt'.length = initsize := by
    intro k pkt pkt' hlen hput
    simp only [putNameByte, bind_eq_bind, bind_eq_some_iff] at hput
    obtain ⟨c, _, hset⟩ := hput
    split at hset
    · cases hset
      rw [length_set, hlen]
    · cases hset
  have hcrash : ∀ pkt : List UInt8, pkt.length = initsize →
      putNameByte name nameRoom pkt = none := by
    intro pkt hlen
    rw [putNameByte, getElem?_eq_getElem h, bind_eq_bind, bind_some, if_neg (by rw [hlen]; decide)]
  have hloop : forUp (putNameByte name) 0 name.length
      (type :: (putUint32 name.length ++ replicate (initsize - 5) 0)) = none :=
    forUp_crash (fun pkt => pkt.length = initsize) hkeep hcrash rfl (Nat.zero_le _) (by omega)
  rw [encodeInit, hloop]
  rfl

theorem initBlock_length (h : name.length ≤ nameRoom) :
    (initBlock type name).length = initsize := by
  rw [← partBlock_length type name (Nat.le_refl _) h, partBlock, take_length, initBlock]

end Encode

theorem decodeInit_eq {data : List UInt8} (hlen : data.length = initsize) :
    decodeInit data =
      if InitType (data.getD 0 0) then
        if field data 1 ≤ nameRoom then
          some (.ok ⟨data.getD 0 0, field data 1, (data.drop 5).take (field data 1)⟩)
        else none
      else some (.error .initType) := by
  have hbytes : initsize = 5 + nameRoom := rfl
  have hhead : data[0]? = some (data.getD 0 0) := by
    rw [getElem?_eq_getElem (by omega), getD_eq_getElem _ _ (by omega)]
  have hfield : (slice data 1 5).bind beUint32 = some (field data 1) :=
    slice_field (by omega : 1 + 4 ≤ data.length)
  simp only [decodeInit, Option.bind_eq_bind, Option.pure_def, hhead, Option.bind_some, hfield]
  by_cases htype : InitType (data.getD 0 0)
  · rw [if_pos htype, if_neg fun hne => htype.elim hne.1 hne.2]
    by_cases hroom : field data 1 ≤ nameRoom
    · rw [if_pos hroom, slice_eq_some (by omega) (by omega), Option.bind_some,
        Nat.add_sub_cancel_left]
    · rw [if_neg hroom, slice, if_neg (by omega), Option.bind_none]
  · rw [if_neg htype, if_pos (not_or.mp htype)]

theorem decodeInit_initBlock {type : UInt8} {name : List UInt8} (htype : InitType type)
    (h : name.length ≤ nameRoom) :
    decodeInit (initBlock type name) = some (.ok ⟨type, name.length, name⟩) := by
  have hfield : field (initBlock type name) 1 = name.length := by
    have hlt : name.length < 2 ^ 32 := Nat.lt_of_le_of_lt h (by decide)
    rw [field, show beUint32 ((initBlock type name).drop 1) = beUint32 (putUint32 name.length) from
      rfl, beUint32_putUint32, getD_some, Nat.mod_eq_of_lt hlt]
  have hdrop : (initBlock type name).drop 5 = name ++ replicate (nameRoom - name.length) 0 := rfl
  rw [decodeInit_eq (initBlock_length type name h), show (initBlock type name).getD 0 0 = type from
    rfl, if_pos htype, hfield, if_pos h, hdrop, take_left]

/-! ### The format -/

/-- Encoding gives an error, or a block from which the same request is decoded. -/
def EncodesWell (type : UInt8) (name : List UInt8) : Prop :=
  ∃ r, encodeInit ⟨type, name.length, name⟩ = some r ∧
    ∀ block, r = .ok block →
      block.length = initsize ∧ decodeInit block = some (.ok ⟨type, name.length, name⟩)

/-- Decoding gives an error, or a name of the announced length. -/
def DecodesWell (block : List UInt8) : Prop :=
  ∃ r, decodeInit block = some r ∧
    ∀ init, r = .ok init → init.len = field block 1 ∧ init.filename.length = init.len

theorem encodesWell_iff (type : UInt8) (name : List UInt8) :
    EncodesWell type name ↔ InitType type ∧ name.length ≤ nameRoom := by
  constructor
  · rintro ⟨r, henc, hblock⟩
    have hroom : name.length ≤ nameRoom := by
      by_contra hlong
      rw [encodeInit_panics type name (by omega)] at henc
      cases henc
    rw [encodeInit_eq type name hroom, some.injEq] at henc
    obtain ⟨hlen, hdec⟩ := hblock _ henc.symm
    refine ⟨?_, hroom⟩
    by_contra htype
    rw [decodeInit_eq hlen, show (initBlock type name).getD 0 0 = type from rfl, if_neg htype]
      at hdec
    cases hdec
  · rintro ⟨htype, hroom⟩
    refine ⟨_, encodeInit_eq type name hroom, ?_⟩
    rintro block ⟨⟩
    exact ⟨initBlock_length type name hroom, decodeInit_initBlock htype hroom⟩

theorem decodesWell_iff {block : List UInt8} (hlen : block.length = initsize) :
    DecodesWell block ↔ (InitType (block.getD 0 0) → field block 1 ≤ nameRoom) := by
  rw [DecodesWell, decodeInit_eq hlen]
  by_cases htype : InitType (block.getD 0 0)
  · by_cases hroom : field block 1 ≤ nameRoom
    · rw [if_pos htype, if_pos hroom]
      refine ⟨fun _ _ => hroom, fun _ => ⟨_, rfl, ?_⟩⟩
      rintro init ⟨⟩
      refine ⟨rfl, length_take_of_le ?_⟩
      rw [length_drop, hlen]
      exact hroom
    · rw [if_pos htype, if_neg hroom]
      exact ⟨fun ⟨_, hnone, _⟩ => absurd hnone (by simp), fun h => absurd (h htype) hroom⟩
  · rw [if_neg htype]
    exact ⟨fun _ h => absurd h htype, fun _ => ⟨_, rfl, fun _ h => absurd h (by simp)⟩⟩

/-- **The INIT format holds exactly for names that fit.** A request survives encoding and
decoding if and only if its type is one of the two request types and its name has at most
`nameRoom` bytes; a block is decoded or refused if and only if it has another type or
announces at most `nameRoom` bytes. -/
theorem init_format_iff (type : UInt8) (name block : List UInt8) :
    (EncodesWell type name ↔ InitType type ∧ name.length ≤ nameRoom) ∧
      (block.length = initsize →
        (DecodesWell block ↔ (InitType (block.getD 0 0) → field block 1 ≤ nameRoom))) :=
  ⟨encodesWell_iff type name, decodesWell_iff⟩

/-- A block that announces five of its bytes. -/
theorem init_format_five : DecodesWell (typeInit :: (putUint32 5 ++ List.replicate 123 97)) :=
  ((init_format_iff typeInit [] (typeInit :: (putUint32 5 ++ replicate 123 97))).2 rfl).mpr
    fun _ => by decide

/-- A name of 124 bytes panics the client, and a block that announces 124 bytes panics the
server. -/
theorem init_format_panics :
    encodeInit ⟨typeInit, 124, List.replicate 124 97⟩ = none ∧
      decodeInit (typeInit :: (putUint32 124 ++ List.replicate 123 97)) = none := by
  decide +kernel

/-! ### The requested file -/

/-- `filepath.Join` on a system with slashes. -/
def filepathJoin (dir name : List UInt8) : List UInt8 := join 47 46 dir name

/-- What `handleSession` hands to `sendFile` for an INIT block: the path to open, and
whether the file is sent encoded. -/
def handleInit (rootDir buffer : List UInt8) : Option (Except XncError (List UInt8 × Bool)) := do
  match ← decodeInit buffer with
  | .error e => return .error e
  | .ok init =>
    return .ok (filepathJoin rootDir init.filename, decide (init.type = typeInitEnc))

/-- The name leaves no directory of `rootDir` that it does not enter again. -/
def Returns (rootDir name : List UInt8) : Prop :=
  (components 47 rootDir).drop ((components 47 rootDir).length - (moves 47 46 name).1) <+:
    (moves 47 46 name).2

instance (rootDir name : List UInt8) : Decidable (Returns rootDir name) :=
  inferInstanceAs (Decidable (_ <+: _))

/-- **The opened path is confined exactly if the name returns.** For every clean absolute
root directory and every block that is accepted, the path that is opened is the root
directory or below it if and only if the requested name enters again every directory of
the root that its two-dot segments left. -/
theorem requested_path_within_iff {rootDir buffer : List UInt8} {init : XncInit}
    (habs : rootDir.head? = some 47) (hclean : clean 47 46 rootDir = rootDir)
    (hinit : decodeInit buffer = some (.ok init)) :
    ∃ path encode, handleInit rootDir buffer = some (.ok (path, encode)) ∧
      (Within 47 rootDir path ↔ Returns rootDir init.filename) := by
  refine ⟨_, _, by rw [handleInit, hinit]; rfl, ?_⟩
  exact within_join_iff habs hclean

/-- The plain name `a/b` in the root directory `/srv`. -/
theorem requested_path_within_srv :
    ∃ path encode,
      handleInit [47, 115, 114, 118] (initBlock typeInit [97, 47, 98]) = some (.ok (path, encode)) ∧
        (Within 47 [47, 115, 114, 118] path ↔ Returns [47, 115, 114, 118] [97, 47, 98]) :=
  requested_path_within_iff rfl (by decide)
    (decodeInit_initBlock (.inr rfl) (by decide))

/-- The name `..` makes the server open the parent of its root directory `/srv`. -/
theorem requested_path_escapes :
    clean 47 46 [47, 115, 114, 118] = [47, 115, 114, 118] ∧
      handleInit [47, 115, 114, 118] (initBlock typeInit [46, 46]) = some (.ok ([47], false)) ∧
      ¬ Within 47 [47, 115, 114, 118] [47] := by
  decide +kernel

end RlncStreaming.Xnc
