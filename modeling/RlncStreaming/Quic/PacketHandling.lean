import RlncStreaming.Quic.FrameHandling

/-!
The packets of the peer (`session.go`: `handlePacketImpl` and the case of the run loop that
calls it; `path.go`: `handlePacketImpl`; `path_manager.go`: `createPathFromRemote`;
`crypto_setup_client.go`: the diversification nonce).

A packet that cannot be decrypted leaves the addresses, the packet numbers and the streams
alone. But some of its header is used before: the nonce may close the session of a client,
an unknown path id creates a path or closes the session, and a path that has failed counts
as working again (`forged_packet_effects`). Without these the packet has no effect
(`forged_packet_unaffected_iff`).
-/

namespace RlncStreaming.Quic

open Lib

/-! ### Receiving a packet -/

/-- `protocol.MaxUndecryptablePackets`. -/
def maxUndecryptablePackets : Nat := 10

/-- `UsesTLS`. -/
def usesTLS (version : Int) : Bool := version == 101

/-- `HasRetransmittableFrames`. -/
def hasRetransmittableFrames {σ : Type} (fs : List (Frame σ)) : Bool :=
  fs.any isFrameRetransmittable

/-- `SetCurrentRemoteAddr` on the connection of a path. -/
def PathManager.setCurrentRemoteAddr (i : Nat) (addr : String) (pm : PathManager) : PathManager :=
  { pm with objects := pm.objects.modify i fun pth =>
      { pth with conn := { pth.conn with remoteAddr := addr } } }

/-- The packet number is inferred and stored in the header. -/
def ReceivedPacket.infer (largestRcvd : Nat) (p : ReceivedPacket) : ReceivedPacket :=
  { p with publicHeader := { p.publicHeader with
      packetNumber :=
        inferPacketNumber p.publicHeader.packetNumberLen largestRcvd p.publicHeader.packetNumber } }

/-- What the handling of a packet leaves behind and returns. The packet's header is changed,
too. -/
structure Handled (φ : Type) where
  session : Receiver φ
  packet : ReceivedPacket
  error : Option SessionError

/-- `qErr.ErrorCode == qerr.DecryptionFailure`. -/
def SessionError.isDecryptionFailure : SessionError → Bool
  | .unpack (.decryptionFailure _) => true
  | _ => false

namespace Receiver

variable {φ : Type}

/-- `SetDiversificationNonce`, with the part of `HandleCryptoStream` that takes the nonce. A
second nonce ends the latter, and its error closes the session. The crypto setup with TLS
panics. -/
def setDiversificationNonce (divNonce : List UInt8) (s : Receiver φ) : Option (Receiver φ) :=
  if usesTLS s.version then none
  else if s.diversificationNonce ≠ [] ∧ s.diversificationNonce ≠ divNonce then
    some (s.closeLocal .conflictingDiversificationNonces)
  else some { s with diversificationNonce := divNonce }

/-- The nonce of a packet matters to a client. -/
def takeNonce (divNonce : List UInt8) (s : Receiver φ) : Option (Receiver φ) :=
  if s.pathManager.perspective = .client ∧ divNonce ≠ [] then s.setDiversificationNonce divNonce
  else some s

/-- A packet has arrived, at the given time. -/
def noteActivity (rcvTime : Nat) (s : Receiver φ) : Receiver φ :=
  { s with lastNetworkActivityTime := rcvTime, keepAlivePingSent := false }

/-- The same for a path, which is taken to work. -/
def notePathActivity (i rcvTime : Nat) (s : Receiver φ) : Receiver φ :=
  s.setState i { s.states i with lastNetworkActivityTime := rcvTime, potentiallyFailed := false }

/-- `createPathFromRemote`. -/
def createPathFromRemote (now : Nat) (p : ReceivedPacket) (s : Receiver φ) :
    Except PathError (Receiver φ) :=
  (s.pathManager.createPathFromRemote p.publicHeader.pathID ⟨p.localAddr, p.remoteAddr⟩).map
    fun pathManager => { s with pathManager }.setState s.pathManager.objects.length
      (.setup now s.version)

/-- A server follows the address of its peer. -/
def updateRemoteAddr (i : Nat) (addr : String) (s : Receiver φ) : Receiver φ :=
  if s.pathManager.perspective = .server then
    { s with pathManager := s.pathManager.setCurrentRemoteAddr i addr }
  else s

/-- `tryQueueingUndecryptablePacket`. -/
def tryQueueingUndecryptablePacket (now : Nat) (p : ReceivedPacket) (s : Receiver φ) : Receiver φ :=
  if s.handshakeComplete then s
  else if maxUndecryptablePackets < s.undecryptablePackets.length + 1 then
    { s with receivedTooManyUndecrytablePacketsTime :=
        s.receivedTooManyUndecrytablePacketsTime.or (some now) }
  else { s with undecryptablePackets := s.undecryptablePackets ++ [p] }

section Packets

variable [StreamLayer φ] (openPacket : OpenPacket) (now : Nat) (out : Nat → Outside)

/-- The part of `path.handlePacketImpl` for a packet that was unpacked. -/
def handleUnpacked (i : Nat) (p : ReceivedPacket) (packet : UnpackedPacket) (s : Receiver φ) :
    Option (Handled φ) :=
  let number := p.publicHeader.packetNumber
  let pth := s.states i
  let (result, handler) := pth.receivedPacketHandler.receivedPacket now number
    (hasRetransmittableFrames packet.frames)
  let s := s.setState i { pth with
    lastRcvdPacketNumber := number
    largestRcvdPacketNumber := max pth.largestRcvdPacketNumber number
    receivedPacketHandler := handler }
  match result with
  | .error e => some ⟨s, p, some (.receivedPacket e)⟩
  | .ok () => (s.handleFrames i out packet.frames).map fun handled => ⟨handled.1, p, handled.2⟩

/-- `path.handlePacketImpl`. -/
def handlePathPacket (i : Nat) (p : ReceivedPacket) (s : Receiver φ) : Option (Handled φ) :=
  if (s.states i).isOpen then
    let s := s.notePathActivity i (p.rcvTime.getD (s.states i).lastNetworkActivityTime)
    let p := p.infer (s.states i).largestRcvdPacketNumber
    match unpack (getByteOrder s.version.toNat) openPacket p.raw p.publicHeader.packetNumber
      p.publicHeader.packetNumberLen p.data with
    | .error (.decryptionFailure e) => some ⟨s, p, some (.unpack (.decryptionFailure e))⟩
    | .error e => some ⟨s.updateRemoteAddr i p.remoteAddr, p, some (.unpack e)⟩
    | .ok packet => (s.updateRemoteAddr i p.remoteAddr).handleUnpacked now out i p packet
  else some ⟨s, p, none⟩

/-- `handlePacketImpl` behind the nonce. A session without a path manager cannot create a
path. -/
def handleOnPath (p : ReceivedPacket) (s : Receiver φ) : Option (Handled φ) :=
  match s.paths p.publicHeader.pathID with
  | some i => s.handlePathPacket openPacket now out i p
  | none =>
    if s.managed then
      match s.createPathFromRemote now p with
      | .error e => some ⟨s, p, some (.path e)⟩
      | .ok s' => s'.handlePathPacket openPacket now out s.pathManager.objects.length p
    else none

/-- `handlePacketImpl`. -/
def handlePacketImpl (p : ReceivedPacket) (s : Receiver φ) : Option (Handled φ) :=
  (s.takeNonce p.publicHeader.diversificationNonce).bind fun s =>
    let rcvTime := p.rcvTime.getD now
    (s.noteActivity rcvTime).handleOnPath openPacket now out { p with rcvTime := some rcvTime }

/-- What the run loop does with the error. -/
def afterPacket (handled : Handled φ) : Receiver φ :=
  match handled.error with
  | none => handled.session
  | some e =>
    if e.isDecryptionFailure then
      handled.session.tryQueueingUndecryptablePacket now handled.packet
    else handled.session.closeLocal e

/-- The case of the run loop for a received packet. -/
def receivePacket (p : ReceivedPacket) (s : Receiver φ) : Option (Receiver φ) :=
  (s.handlePacketImpl openPacket now out p).map (afterPacket now)

end Packets

/-! ### Packets that do not authenticate -/

/-- The remote address of the path at a position. -/
def remoteAddr (s : Receiver φ) (i : Nat) : Option String :=
  (s.pathManager.objects[i]?).map fun pth => pth.conn.remoteAddr

/-- The session is as it was, up to times and the nonce of the handshake. -/
structure Unaffected (s s' : Receiver φ) : Prop where
  closed : s'.closed = s.closed
  paths : s'.pathManager.paths = s.pathManager.paths
  potentiallyFailed : ∀ id i, s.paths id = some i →
    (s'.states i).potentiallyFailed = (s.states i).potentiallyFailed
  remoteAddr : ∀ id i, s.paths id = some i → s'.remoteAddr i = s.remoteAddr i
  receivedPacketHandler : ∀ id i, s.paths id = some i →
    (s'.states i).receivedPacketHandler = (s.states i).receivedPacketHandler
  largestRcvdPacketNumber : ∀ id i, s.paths id = some i →
    (s'.states i).largestRcvdPacketNumber = (s.states i).largestRcvdPacketNumber
  streams : s'.streams = s.streams

/-- A nonce that the session passes over, stores or has stored already. -/
def NonceFits (s : Receiver φ) (divNonce : List UInt8) : Prop :=
  s.pathManager.perspective = .client → divNonce ≠ [] →
    usesTLS s.version = false ∧ (s.diversificationNonce = [] ∨ s.diversificationNonce = divNonce)

/-- A path of the session that is closed or has not failed. -/
def PathFits (s : Receiver φ) (id : UInt8) : Prop :=
  ∃ i, s.paths id = some i ∧ ((s.states i).isOpen = false ∨ (s.states i).potentiallyFailed = false)

variable {s s' : Receiver φ} {openPacket : OpenPacket} {now : Nat} {out : Nat → Outside}
  {p : ReceivedPacket}

theorem Unaffected.refl (s : Receiver φ) : s.Unaffected s :=
  ⟨rfl, rfl, fun _ _ _ => rfl, fun _ _ _ => rfl, fun _ _ _ => rfl, fun _ _ _ => rfl, rfl⟩

/-- The nonce and the time of the last packet are not compared. -/
theorem unaffected_noteActivity_iff (stored : List UInt8) (rcvTime : Nat) :
    ({ s with diversificationNonce := stored }.noteActivity rcvTime).Unaffected s' ↔
      s.Unaffected s' :=
  ⟨fun ⟨hclosed, hpaths, hfailed, haddr, hhandler, hlargest, hstreams⟩ =>
      ⟨hclosed, hpaths, hfailed, haddr, hhandler, hlargest, hstreams⟩,
    fun ⟨hclosed, hpaths, hfailed, haddr, hhandler, hlargest, hstreams⟩ =>
      ⟨hclosed, hpaths, hfailed, haddr, hhandler, hlargest, hstreams⟩⟩

/-- Activity on a path is visible only if the path had failed. -/
theorem unaffected_notePathActivity_iff {id : UInt8} {i : Nat} (hi : s.paths id = some i)
    (rcvTime : Nat) :
    s.Unaffected (s.notePathActivity i rcvTime) ↔ (s.states i).potentiallyFailed = false := by
  rw [notePathActivity]
  constructor
  · intro h
    rw [← h.potentiallyFailed id i hi, setState_self]
  intro hfine
  refine ⟨rfl, rfl, ?_, fun _ _ _ => rfl, ?_, ?_, rfl⟩
  all_goals
    intro _ j _
    by_cases hj : j = i
    · simp only [hj, setState_self, hfine]
    · rw [setState_of_ne hj]

theorem takeNonce_of_fits {divNonce : List UInt8} (h : s.NonceFits divNonce) :
    ∃ stored, s.takeNonce divNonce = some { s with diversificationNonce := stored } := by
  rw [takeNonce]
  split
  · next hclient =>
    obtain ⟨htls, hstored⟩ := h hclient.1 hclient.2
    refine ⟨divNonce, ?_⟩
    rw [setDiversificationNonce, htls, if_neg Bool.false_ne_true, if_neg]
    rintro ⟨hne, hconflict⟩
    rcases hstored with hempty | hsame
    · exact hne hempty
    · exact hconflict hsame
  · exact ⟨s.diversificationNonce, rfl⟩

/-- Any other nonce is a panic or closes the session. -/
theorem takeNonce_of_not_fits {divNonce : List UInt8} (h : ¬ s.NonceFits divNonce)
    (htake : s.takeNonce divNonce = some s') :
    s' = s.closeLocal .conflictingDiversificationNonces := by
  rw [takeNonce] at htake
  split at htake
  · rw [setDiversificationNonce] at htake
    split at htake
    · cases htake
    rename_i htls
    split at htake
    · cases htake
      rfl
    rename_i hfits
    refine absurd (fun _ _ => ⟨Bool.eq_false_iff.mpr htls, ?_⟩) h
    by_contra hnot
    exact hfits ⟨fun hempty => hnot (.inl hempty), fun hsame => hnot (.inr hsame)⟩
  · next hclient => exact absurd (fun hpers hne => absurd ⟨hpers, hne⟩ hclient) h

theorem closeLocal_closed (e : SessionError) :
    (s.closeLocal e).closed.isSome = true := by
  rw [closeLocal, close]
  split
  · assumption
  · rfl

/-- A path that the peer opens is a new one; nothing else changes. -/
theorem createPathFromRemote_spec (h : s.createPathFromRemote now p = .ok s') :
    s'.states s.pathManager.objects.length = .setup now s.version ∧
      (s'.paths p.publicHeader.pathID).isSome = true ∧
      s'.handshakeComplete = s.handshakeComplete ∧ s'.closed = s.closed := by
  rw [createPathFromRemote] at h
  cases hcreate : s.pathManager.createPathFromRemote p.publicHeader.pathID
      ⟨p.localAddr, p.remoteAddr⟩ with
  | error e =>
    rw [hcreate] at h
    cases h
  | ok pathManager =>
    rw [hcreate] at h
    cases h
    obtain rfl := PathManager.createPathFromRemote_ok hcreate
    refine ⟨if_pos rfl, ?_, rfl, rfl⟩
    simp only [paths, setState, PathManager.lookup_addPath, if_true, Option.isSome_some]

section Forged

variable [StreamLayer φ] (hforged : ∀ n, ∃ e, openPacket p.data n p.raw = .error e)
  (hcomplete : s.handshakeComplete = true)

include hforged hcomplete

theorem handlePathPacket_forged (i : Nat) :
    (s.handlePathPacket openPacket now out i p).map (afterPacket now) =
      some (if (s.states i).isOpen then
        s.notePathActivity i (p.rcvTime.getD (s.states i).lastNetworkActivityTime) else s) := by
  have hunpack : ∀ o k, ∃ e, unpack o openPacket (p.infer k).raw
      (p.infer k).publicHeader.packetNumber (p.infer k).publicHeader.packetNumberLen
      (p.infer k).data = .error (.decryptionFailure e) := by
    intro o k
    obtain ⟨e, he⟩ := hforged (p.infer k).publicHeader.packetNumber
    exact ⟨e, by simp only [unpack, ReceivedPacket.infer] at he ⊢; rw [he]⟩
  rw [handlePathPacket]
  split
  · simp only
    generalize hnoted : s.notePathActivity i _ = s₁
    have hdone : s₁.handshakeComplete = true := by rw [← hnoted]; exact hcomplete
    obtain ⟨e, he⟩ := hunpack (getByteOrder s₁.version.toNat) (s₁.states i).largestRcvdPacketNumber
    rw [he]
    simp only [Option.map_some, afterPacket, SessionError.isDecryptionFailure,
      tryQueueingUndecryptablePacket, hdone, if_true]
  · rfl

/-- What a packet that does not authenticate does behind the nonce. -/
theorem handleOnPath_forged :
    (s.handleOnPath openPacket now out p).map (afterPacket now) =
      match s.paths p.publicHeader.pathID with
      | some i => some (if (s.states i).isOpen then
          s.notePathActivity i (p.rcvTime.getD (s.states i).lastNetworkActivityTime) else s)
      | none =>
        if s.managed then
          match s.createPathFromRemote now p with
          | .error e => some (s.closeLocal (.path e))
          | .ok s' => some (s'.notePathActivity s.pathManager.objects.length (p.rcvTime.getD now))
        else none := by
  rw [handleOnPath]
  split
  · next i _ => exact handlePathPacket_forged hforged hcomplete i
  split
  · cases hcreate : s.createPathFromRemote now p with
    | error e => rfl
    | ok s' =>
      obtain ⟨hstate, -, hsame, -⟩ := createPathFromRemote_spec hcreate
      simp only
      rw [handlePathPacket_forged hforged (hsame.trans hcomplete), hstate]
      rfl
  · rfl

/-- A session that was closed by the nonce stays closed. -/
theorem handleOnPath_forged_closed (hclosed : s.closed.isSome = true)
    (h : (s.handleOnPath openPacket now out p).map (afterPacket now) = some s') :
    s'.closed.isSome = true := by
  rw [handleOnPath_forged hforged hcomplete] at h
  split at h
  · cases h
    split
    · exact hclosed
    · exact hclosed
  split at h
  · split at h
    · cases h
      exact closeLocal_closed _
    rename_i hcreate
    cases h
    obtain ⟨-, -, -, hsame⟩ := createPathFromRemote_spec hcreate
    rw [notePathActivity, setState, hsame]
    exact hclosed
  · cases h

/-- A packet for an unknown path closes the session or adds a path. -/
theorem handleOnPath_forged_unknown (hpath : s.paths p.publicHeader.pathID = none)
    (h : (s.handleOnPath openPacket now out p).map (afterPacket now) = some s') :
    s'.closed.isSome = true ∨ (s'.paths p.publicHeader.pathID).isSome = true := by
  rw [handleOnPath_forged hforged hcomplete, hpath] at h
  simp only at h
  split at h
  · split at h
    · cases h
      exact .inl (closeLocal_closed _)
    · next hcreate =>
      cases h
      exact .inr (createPathFromRemote_spec hcreate).2.1
  · cases h

theorem handleOnPath_unaffected_iff (hopen : s.closed = none) (now : Nat) (out : Nat → Outside) :
    (∃ s', (s.handleOnPath openPacket now out p).map (afterPacket now) = some s' ∧
      s.Unaffected s') ↔ s.PathFits p.publicHeader.pathID := by
  cases hpath : s.paths p.publicHeader.pathID with
  | some i =>
    rw [handleOnPath_forged hforged hcomplete, hpath]
    have hiff := unaffected_notePathActivity_iff hpath
      (p.rcvTime.getD (s.states i).lastNetworkActivityTime)
    constructor
    · rintro ⟨s', hs', hsame⟩
      refine ⟨i, hpath, ?_⟩
      cases hactive : (s.states i).isOpen with
      | false => exact .inl rfl
      | true =>
        simp only [hactive, if_true, Option.some.injEq] at hs'
        exact .inr (hiff.mp (by rwa [hs']))
    · rintro ⟨j, hj, hfits⟩
      obtain rfl : i = j := Option.some.inj (hpath.symm.trans hj)
      refine ⟨_, rfl, ?_⟩
      split
      · next hactive =>
        refine hiff.mpr (hfits.resolve_left ?_)
        rw [hactive]
        exact Bool.noConfusion
      · exact .refl s
  | none =>
    constructor
    · rintro ⟨s', hs', hsame⟩
      rcases handleOnPath_forged_unknown hforged hcomplete hpath hs' with hclosed | hadded
      · rw [hsame.closed, hopen] at hclosed
        cases hclosed
      · rw [paths, hsame.paths, ← paths, hpath] at hadded
        cases hadded
    · rintro ⟨i, hi, -⟩
      rw [hpath] at hi
      cases hi

end Forged

/-- A packet that does not authenticate has no effect if and only if it brings no new nonce
and comes on a path of the session that has not failed. -/
theorem forged_packet_unaffected_iff [StreamLayer φ] (hopen : s.closed = none)
    (hcomplete : s.handshakeComplete = true)
    (hforged : ∀ n, ∃ e, openPacket p.data n p.raw = .error e) (now : Nat) (out : Nat → Outside) :
    (∃ s', s.receivePacket openPacket now out p = some s' ∧ s.Unaffected s') ↔
      s.NonceFits p.publicHeader.diversificationNonce ∧ s.PathFits p.publicHeader.pathID := by
  rw [receivePacket, handlePacketImpl]
  by_cases hnonce : s.NonceFits p.publicHeader.diversificationNonce
  · obtain ⟨stored, htake⟩ := takeNonce_of_fits hnonce
    have hpath := handleOnPath_unaffected_iff
      (s := { s with diversificationNonce := stored }.noteActivity (p.rcvTime.getD now))
      (p := { p with rcvTime := some (p.rcvTime.getD now) }) hforged hcomplete hopen now out
    simp only [unaffected_noteActivity_iff] at hpath
    rw [htake]
    exact ⟨fun h => ⟨hnonce, hpath.mp h⟩, fun h => hpath.mpr h.2⟩
  constructor
  · rintro ⟨s', hs', hsame⟩
    obtain ⟨handled, hhandled, hafter⟩ := Option.map_eq_some_iff.mp hs'
    obtain ⟨s₁, htake, hpath⟩ := Option.bind_eq_some_iff.mp hhandled
    obtain rfl := takeNonce_of_not_fits hnonce htake
    have hclosed : s'.closed.isSome = true := by
      refine handleOnPath_forged_closed (p := { p with rcvTime := some (p.rcvTime.getD now) })
        hforged ?_ ?_ (Option.map_eq_some_iff.mpr ⟨handled, hpath, hafter⟩)
      · refine Eq.trans ?_ hcomplete
        rw [closeLocal, close]
        split
        · rfl
        · rfl
      · exact closeLocal_closed _
    rw [hsame.closed, hopen] at hclosed
    cases hclosed
  · exact fun hfits => absurd hfits.1 hnonce

end Receiver

/-- A session with its initial path, after the handshake. -/
def established (perspective : Perspective) (version : Int) (stored : List UInt8) : Receiver Unit :=
  { newReceiver perspective version true ⟨"10.0.0.1:443", "10.0.0.2:5000"⟩ 4 [] 0 () with
    handshakeComplete := true
    diversificationNonce := stored }

/-- A packet from anywhere. -/
def strayPacket (pathID : UInt8) (divNonce : List UInt8) : ReceivedPacket where
  remoteAddr := "10.0.0.3:4000"
  publicHeader := ⟨1, pathID, false, false, true, .len1, 1, 0, divNonce⟩
  raw := []
  data := [0]
  rcvTime := none
  localAddr := "10.0.0.1:443"

/-- No packet can be opened. -/
def noKey : OpenPacket := fun _ _ _ => .error "message authentication failed"

/-- A server takes no notice of a packet on its initial path. -/
theorem forged_packet_unaffected_server :
    ∃ s', (established .server 512 []).receivePacket noKey 0 (fun _ => quiet)
        (strayPacket 0 (List.replicate 32 1)) = some s' ∧
      (established .server 512 []).Unaffected s' :=
  (Receiver.forged_packet_unaffected_iff rfl rfl (fun _ => ⟨_, rfl⟩) 0 fun _ => quiet).mpr
    ⟨nofun, 0, rfl, .inr rfl⟩

/-- A path is created, a session closed because of the path id, a failed path revived, a
session closed because of the nonce, and one with TLS crashed. -/
theorem forged_packet_effects :
    (((established .server 512 []).receivePacket noKey 0 (fun _ => quiet)
        (strayPacket 1 [])).map fun s => s.paths 1) = some (some 1) ∧
      (((established .server 512 []).receivePacket noKey 0 (fun _ => quiet)
        (strayPacket 2 [])).map fun s => s.closed) = some (some ⟨.path .evenFromClient, false⟩) ∧
      ((((established .server 512 []).setState 0
          { PathState.setup 0 512 with potentiallyFailed := true }).receivePacket noKey 0
          (fun _ => quiet) (strayPacket 0 [])).map fun s => (s.states 0).potentiallyFailed) =
            some false ∧
      (((established .client 512 (List.replicate 32 1)).receivePacket noKey 0 (fun _ => quiet)
        (strayPacket 0 (List.replicate 32 2))).map fun s => s.closed) =
          some (some ⟨.conflictingDiversificationNonces, false⟩) ∧
      ((established .client 101 []).receivePacket noKey 0 (fun _ => quiet)
        (strayPacket 0 (List.replicate 32 2))).isNone = true := by
  decide

end RlncStreaming.Quic
