import RlncStreaming.Lib.Runs
import RlncStreaming.Quic.ByteOrder
import RlncStreaming.Quic.PathManager

/-!
Sealing packets (`packet_packer.go`, `crypto_setup_client.go`, `crypto_setup_server.go`,
`aesgcm12_aead.go`).

A nonce consists of the IV of the key and the packet number. Packet numbers are counted on
each path separately, while the keys belong to the session, so the nonces under one key
are distinct as long as the key is used on one path only and the numbers do not run out
(`nonces_distinct`). With a second path the same nonce comes again (`nonce_reused`).
-/

namespace RlncStreaming.Quic

open Lib PathManager

/-! ### Nonces -/

/-- The sending half of `aeadAESGCM12`, with the lengths that `NewAEADAESGCM12` checks. -/
structure AeadAESGCM12 where
  myKey : List UInt8
  myIV : List UInt8
  key_length : myKey.length = 16
  iv_length : myIV.length = 4
deriving DecidableEq, Repr

/-- `makeNonce`, for an IV of 4 bytes. -/
def makeNonce (iv : List UInt8) (packetNumber : Nat) : List UInt8 := iv ++ leBytes 8 packetNumber

/-- The nonce determines the IV and the packet number. -/
theorem makeNonce_inj {iv iv' : List UInt8} {n m : Nat} (hiv : iv.length = iv'.length)
    (hn : n < 2 ^ 64) (hm : m < 2 ^ 64) (h : makeNonce iv n = makeNonce iv' m) :
    iv = iv' ∧ n = m := by
  obtain ⟨hleft, hright⟩ := List.append_inj h hiv
  have hmod := leBytes_mod hright
  rw [Nat.mod_eq_of_lt (by omega), Nat.mod_eq_of_lt (by omega)] at hmod
  exact ⟨hleft, hmod⟩

/-! ### Sealers -/

inductive EncryptionLevel where
  | unspecified
  | unencrypted
  | secure
  | forwardSecure
deriving DecidableEq, Repr

inductive Sealer where
  /-- The null AEAD has neither a key nor a nonce. -/
  | null
  | aesgcm12 (aead : AeadAESGCM12)
deriving DecidableEq, Repr

/-- The keys of `cryptoSetupClient` or `cryptoSetupServer`. -/
structure CryptoSetup where
  perspective : Perspective
  secureAEAD : Option AeadAESGCM12
  forwardSecureAEAD : Option AeadAESGCM12
deriving DecidableEq, Repr

namespace CryptoSetup

variable (h : CryptoSetup)

def getSealer : EncryptionLevel × Sealer :=
  match h.perspective, h.forwardSecureAEAD, h.secureAEAD with
  | _, some aead, _ => (.forwardSecure, .aesgcm12 aead)
  | .client, none, some aead => (.secure, .aesgcm12 aead)
  | _, none, _ => (.unencrypted, .null)

def getSealerForCryptoStream : EncryptionLevel × Sealer :=
  match h.perspective, h.secureAEAD with
  | .server, some aead => (.secure, .aesgcm12 aead)
  | _, _ => (.unencrypted, .null)

/-- `GetSealerWithEncryptionLevel`; `none` is an error. -/
def getSealerWithEncryptionLevel : EncryptionLevel → Option Sealer
  | .unencrypted => some .null
  | .secure => h.secureAEAD.map .aesgcm12
  | .forwardSecure => h.forwardSecureAEAD.map .aesgcm12
  | .unspecified => none

end CryptoSetup

/-! ### Packing -/

/-- The entry points of the packet packer. -/
inductive Packing where
  /-- `PackPacket` and `PackPing`; `crypto` says that a frame of the crypto stream waits. -/
  | packet (crypto : Bool)
  | ack
  | connectionClose
  | handshakeRetransmission (level : EncryptionLevel)
deriving DecidableEq, Repr

/-- The sealer that an entry point asks for. -/
def CryptoSetup.sealerFor (h : CryptoSetup) : Packing → Option Sealer
  | .packet crypto => some (if crypto then h.getSealerForCryptoStream.2 else h.getSealer.2)
  | .ack => some h.getSealer.2
  | .connectionClose => some h.getSealer.2
  | .handshakeRetransmission level =>
    if level = .forwardSecure then none else h.getSealerWithEncryptionLevel level

/-- A packet sealed with a key, on the path object `path`. -/
structure SealedPacket where
  aead : AeadAESGCM12
  path : Nat
  packetNumber : Nat
deriving DecidableEq, Repr

def SealedPacket.nonce (p : SealedPacket) : List UInt8 := makeNonce p.aead.myIV p.packetNumber

structure Session where
  pathManager : PathManager
  cryptoSetup : CryptoSetup
  /-- The packets sealed with a key so far. -/
  sealedPackets : List SealedPacket
deriving DecidableEq, Repr

namespace Session

def new (perspective : Perspective) (conn : Conn) : Session :=
  ⟨.setup perspective conn, ⟨perspective, none, none⟩, []⟩

/-- `writeAndSealPacket` from the call of `Seal` on. The result says whether the number of
the header is the one that is popped. -/
def writeAndSealPacket (s : Session) (packetNumber : Nat) (sealer : Sealer) (i : Nat) (pth : Path)
    (num : Option Nat) : Session × Bool :=
  let sealedPackets := match sealer with
    | .null => s.sealedPackets
    | .aesgcm12 aead => s.sealedPackets ++ [⟨aead, i, packetNumber⟩]
  let (popped, generator) := pth.packetNumberGenerator.pop num
  ({ s with pathManager := s.pathManager.setGenerator i generator, sealedPackets },
    popped == packetNumber)

/-- Pack a packet on a path object. The packer may have `nothing` to seal: no frames, or an
error while they are gathered or written. -/
def pack (s : Session) (packing : Packing) (i : Nat) (nothing : Bool)
    (num : Option Nat) : Session :=
  match s.pathManager.objects[i]?, s.cryptoSetup.sealerFor packing with
  | some pth, some sealer =>
    if nothing then s
    else (s.writeAndSealPacket pth.packetNumberGenerator.peek sealer i pth num).1
  | _, _ => s

end Session

/-! ### Runs -/

inductive SessionEvent where
  /-- A key derivation sets `secureAEAD`; it is `nil` after an error. -/
  | setSecureAEAD (aead : Option AeadAESGCM12)
  | setForwardSecureAEAD (aead : Option AeadAESGCM12)
  | createPath (conn : Conn)
  | createPathFromRemote (pathID : UInt8) (conn : Conn)
  | pack (packing : Packing) (i : Nat) (nothing : Bool) (num : Option Nat)
deriving DecidableEq, Repr

namespace Session

def handle (s : Session) : SessionEvent → Session
  | .setSecureAEAD aead => { s with cryptoSetup := { s.cryptoSetup with secureAEAD := aead } }
  | .setForwardSecureAEAD aead =>
    { s with cryptoSetup := { s.cryptoSetup with forwardSecureAEAD := aead } }
  | .createPath conn => { s with pathManager := s.pathManager.createPath conn }
  | .createPathFromRemote pathID conn =>
    match s.pathManager.createPathFromRemote pathID conn with
    | .ok pathManager => { s with pathManager }
    | .error _ => s
  | .pack packing i nothing num => s.pack packing i nothing num

/-- No two packets under one key have the same nonce. -/
def NoncesDistinct (s : Session) : Prop :=
  s.sealedPackets.Pairwise fun p p' => p.aead.myKey = p'.aead.myKey → p.nonce ≠ p'.nonce

/-- The event does not bring a key to a second path, and leaves room in the packet
numbers. -/
def OnOnePath (s : Session) : SessionEvent → Prop
  | .pack packing i _ _ =>
    (∀ pth, s.pathManager.objects[i]? = some pth → pth.packetNumberGenerator.next + 2 < 2 ^ 64) ∧
    ∀ aead, s.cryptoSetup.sealerFor packing = some (.aesgcm12 aead) →
      ∀ p ∈ s.sealedPackets, p.aead.myKey = aead.myKey → p.path = i
  | _ => True

/-- The packets sealed so far have numbers that their paths will not give again. -/
structure Inv (s : Session) : Prop where
  distinct : s.NoncesDistinct
  number_lt : ∀ p ∈ s.sealedPackets, ∃ pth, s.pathManager.objects[p.path]? = some pth ∧
    p.packetNumber < pth.packetNumberGenerator.next
  range : ∀ p ∈ s.sealedPackets, p.packetNumber < 2 ^ 64

variable {s : Session}

/-- Events that seal nothing. -/
theorem Inv.extend (h : s.Inv) {s' : Session} (hsealed : s'.sealedPackets = s.sealedPackets)
    (hpaths : s.pathManager.Extends s'.pathManager) : s'.Inv := by
  refine ⟨?_, fun p hp => ?_, ?_⟩
  · rw [NoncesDistinct, hsealed]
    exact h.distinct
  · rw [hsealed] at hp
    obtain ⟨pth, hpth, hlt⟩ := h.number_lt p hp
    exact ⟨pth, hpaths _ _ hpth, hlt⟩
  · rw [hsealed]
    exact h.range

/-- A packet number is used up. -/
theorem Inv.pop (h : s.Inv) {i : Nat} {pth : Path} (hpth : s.pathManager.objects[i]? = some pth)
    (hroom : pth.packetNumberGenerator.next + 2 < 2 ^ 64) (num : Option Nat) :
    ∀ p ∈ s.sealedPackets, ∃ pth', (s.pathManager.setGenerator i
      (pth.packetNumberGenerator.pop num).2).objects[p.path]? = some pth' ∧
      p.packetNumber < pth'.packetNumberGenerator.next := by
  intro p hp
  obtain ⟨pth', hpth', hlt⟩ := h.number_lt p hp
  by_cases hi : i = p.path
  · subst hi
    rw [hpth] at hpth'
    cases hpth'
    refine ⟨_, setGenerator_self hpth _, Nat.lt_trans hlt ?_⟩
    exact (PacketNumberGenerator.lt_pop_next hroom).1
  · exact ⟨pth', by simpa [PathManager.setGenerator, hi] using hpth', hlt⟩

/-- A sealed packet: its number is new on its path, and other paths do not use the key. -/
theorem Inv.sealed (h : s.Inv) {i : Nat} {pth : Path} {aead : AeadAESGCM12}
    (hpth : s.pathManager.objects[i]? = some pth)
    (hroom : pth.packetNumberGenerator.next + 2 < 2 ^ 64)
    (hone : ∀ p ∈ s.sealedPackets, p.aead.myKey = aead.myKey → p.path = i) (num : Option Nat) :
    (s.writeAndSealPacket pth.packetNumberGenerator.next (.aesgcm12 aead) i pth num).1.Inv := by
  have hold := h.pop hpth hroom num
  constructor
  · refine List.pairwise_append.mpr ⟨h.distinct, List.pairwise_singleton _ _, ?_⟩
    intro p hp p' hp' hkey hnonce
    rw [List.mem_singleton.mp hp'] at hkey hnonce
    obtain ⟨pth', hpth', hlt⟩ := h.number_lt p hp
    rw [hone p hp hkey, hpth] at hpth'
    cases hpth'
    have hiv : p.aead.myIV.length = aead.myIV.length := by rw [p.aead.iv_length, aead.iv_length]
    have hnumber := (makeNonce_inj hiv (h.range p hp) (by simp only; omega) hnonce).2
    simp only at hnumber
    omega
  · intro p hp
    rcases List.mem_append.mp hp with hmem | hmem
    · exact hold p hmem
    rw [List.mem_singleton.mp hmem]
    exact ⟨_, setGenerator_self hpth _, (PacketNumberGenerator.lt_pop_next hroom).1⟩
  · intro p hp
    rcases List.mem_append.mp hp with hmem | hmem
    · exact h.range p hmem
    rw [List.mem_singleton.mp hmem]
    simp only
    omega

/-- Step lemma. -/
theorem handle_inv (h : s.Inv) (event : SessionEvent) (hfit : s.OnOnePath event) :
    (s.handle event).Inv := by
  cases event with
  | setSecureAEAD aead => exact h.extend rfl (.refl _)
  | setForwardSecureAEAD aead => exact h.extend rfl (.refl _)
  | createPath conn => exact h.extend rfl (extends_createPath _)
  | createPathFromRemote pathID conn =>
    rw [handle]
    cases hnew : s.pathManager.createPathFromRemote pathID conn with
    | error e => exact h
    | ok pm => exact h.extend rfl (extends_createPathFromRemote hnew)
  | pack packing i nothing num =>
    obtain ⟨hroom, hone⟩ := hfit
    rw [handle, pack]
    cases hpth : s.pathManager.objects[i]? with
    | none => exact h
    | some pth =>
      cases hsealer : s.cryptoSetup.sealerFor packing with
      | none => exact h
      | some sealer =>
        simp only
        split
        · exact h
        cases sealer with
        | null => exact ⟨h.distinct, h.pop hpth (hroom pth hpth) num, h.range⟩
        | aesgcm12 aead => exact h.sealed hpth (hroom pth hpth) (hone aead hsealer) num

end Session

open Session

/-- **Nonces are distinct while every key stays on one path**: in every run of a session,
however its paths are created and its packets are packed, if no packet is sealed with a key
that another path has used and the packet numbers stay below the 64-bit range. -/
theorem nonces_distinct (perspective : Perspective) (conn : Conn) (events : List SessionEvent)
    (hfit : ∀ before event after, events = before ++ event :: after →
      (run handle (new perspective conn) before).OnOnePath event) :
    (run handle (new perspective conn) events).NoncesDistinct := by
  refine (run_inv OnOnePath (fun _ s => s.Inv) (fun _ s event h hfit => handle_inv h event hfit)
    events [] (new perspective conn) ⟨.nil, ?_, ?_⟩ hfit).distinct
  · exact fun p hp => absurd hp (by simp [new])
  · exact fun p hp => absurd hp (by simp [new])

/-- A key of zeros. -/
def zeroAEAD : AeadAESGCM12 := ⟨List.replicate 16 0, List.replicate 4 0, rfl, rfl⟩

/-- Another key with the same IV. -/
def oneAEAD : AeadAESGCM12 := ⟨List.replicate 16 1, List.replicate 4 0, rfl, rfl⟩

/-- The initial path with the key of the first flight, and a second path with the forward
secure key: packets that differ in the key only may have the same nonce. -/
theorem nonces_distinct_two_paths :
    let s := run handle (new .client ⟨"a", "b"⟩) [.setSecureAEAD (some zeroAEAD),
      .pack (.packet false) 0 false none, .createPath ⟨"c", "b"⟩,
      .setForwardSecureAEAD (some oneAEAD), .pack (.packet false) 1 false none,
      .pack .ack 1 false none, .pack (.handshakeRetransmission .secure) 0 false none]
    s.sealedPackets = [⟨zeroAEAD, 0, 1⟩, ⟨oneAEAD, 1, 1⟩, ⟨oneAEAD, 1, 2⟩,
      ⟨zeroAEAD, 0, 2⟩] ∧ s.NoncesDistinct := by
  refine ⟨by decide, nonces_distinct .client ⟨"a", "b"⟩ _ (AllFit.cons trivial (.cons ?_
    (.cons trivial (.cons trivial (.cons ?_ (.cons ?_ (.cons ?_ .nil)))))))⟩
  all_goals
    constructor
    · rintro pth ⟨⟩
      decide
    · rintro aead ⟨⟩
      decide

/-- A client with one handshake packet and one data packet on its initial path, and then a
PING and a data packet on a new path: both data packets are sealed with the same key and
the same nonce. -/
theorem nonce_reused :
    (run handle (new .client ⟨"a", "b"⟩) [.pack (.packet true) 0 false none,
      .setSecureAEAD (some zeroAEAD), .setForwardSecureAEAD (some zeroAEAD),
      .pack (.packet false) 0 false none, .createPath ⟨"c", "b"⟩,
      .pack (.packet false) 1 false none, .pack (.packet false) 1 false none]).sealedPackets =
        [⟨zeroAEAD, 0, 2⟩, ⟨zeroAEAD, 1, 1⟩, ⟨zeroAEAD, 1, 2⟩] ∧
      (⟨zeroAEAD, 0, 2⟩ : SealedPacket).nonce = (⟨zeroAEAD, 1, 2⟩ : SealedPacket).nonce := by
  decide

end RlncStreaming.Quic
