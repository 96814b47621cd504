import RlncStreaming.Quic.Handshake

/-!
The encryption levels of a connection (`crypto_setup_client.go`, `crypto_setup_server.go`).

Keys appear while packets are opened and sealed. `Open` tries the keys from the best one downwards
and remembers at which level it has succeeded. The client tries no other key once it has the
forward secure one; the server tries all of them until the first forward secure packet arrives. On
both sides the lowest level that `Open` may still accept only rises, and so does the level of
`GetSealer` (`no_downgrade`).
-/

namespace RlncStreaming.Quic

open Lib EncryptionLevel CryptoSetupClient Sample

/-! ### Levels -/

namespace EncryptionLevel

/-- The value of the constant. -/
def rank : EncryptionLevel → Nat
  | .unspecified => 0
  | .unencrypted => 1
  | .secure => 2
  | .forwardSecure => 3

/-- The best of the levels that are there. -/
def best (forwardSecure secure : Bool) : EncryptionLevel :=
  if forwardSecure then .forwardSecure else if secure then .secure else .unencrypted

theorem best_mono {f s f' s' : Bool} (hf : f = true → f' = true) (hs : s = true → s' = true) :
    (best f s).rank ≤ (best f' s').rank := by
  revert f s f' s'
  decide

end EncryptionLevel

/-- The levels that successful calls of `Open`, and calls of `GetSealer`, have returned. -/
structure LevelTrace where
  opened : List EncryptionLevel
  sealers : List EncryptionLevel

/-- After a secure packet no unencrypted one is accepted, after a forward secure packet none at a
lower level, and the sealers only get better. -/
structure NoDowngrade (t : LevelTrace) : Prop where
  secure : t.opened.Pairwise fun before after => before = .secure → after ≠ .unencrypted
  forwardSecure : t.opened.Pairwise fun before after =>
    before = .forwardSecure → EncryptionLevel.forwardSecure.rank ≤ after.rank
  sealers : t.sealers.Pairwise fun before after => before.rank ≤ after.rank

/-- The levels rise, up to the given one. -/
structure Rising (levels : List EncryptionLevel) (top : EncryptionLevel) : Prop where
  sorted : levels.Pairwise fun before after => before.rank ≤ after.rank
  below : ∀ level ∈ levels, level.rank ≤ top.rank

section Rising

variable {levels : List EncryptionLevel} {top top' level : EncryptionLevel}

theorem rising_nil : Rising [] top :=
  ⟨.nil, fun _ h => absurd h List.not_mem_nil⟩

theorem Rising.raise (h : Rising levels top) (hle : top.rank ≤ top'.rank) : Rising levels top' :=
  ⟨h.sorted, fun level hlevel => Nat.le_trans (h.below level hlevel) hle⟩

theorem Rising.add (h : Rising levels top) (hlow : top.rank ≤ level.rank) :
    Rising (levels ++ [level]) level := by
  constructor
  · rw [List.pairwise_append]
    refine ⟨h.sorted, List.pairwise_singleton _ _, fun before hbefore after hafter => ?_⟩
    rw [List.mem_singleton.mp hafter]
    exact Nat.le_trans (h.below before hbefore) hlow
  · intro l hl
    rcases List.mem_append.mp hl with hl | hl
    · exact Nat.le_trans (h.below l hl) hlow
    · exact Nat.le_of_eq (by rw [List.mem_singleton.mp hl])

theorem noDowngrade_of_rising {t : LevelTrace} (hopened : Rising t.opened top)
    (hsealers : Rising t.sealers top') : NoDowngrade t := by
  constructor
  · apply hopened.sorted.imp
    rintro before after hle rfl rfl
    exact absurd hle (by decide)
  · apply hopened.sorted.imp
    rintro before after hle rfl
    exact hle
  · exact hsealers.sorted

end Rising

/-! ### Ratchets -/

/-- A crypto setup with its trace. -/
structure Leveled (σ : Type) where
  setup : σ
  trace : LevelTrace

namespace Leveled

variable {σ : Type}

def start (setup : σ) : Leveled σ := ⟨setup, ⟨[], []⟩⟩

/-- Record the result of `Open`. -/
def opened (l : Leveled σ) (r : σ × Except String (List UInt8 × EncryptionLevel)) : Leveled σ :=
  match r with
  | (setup, .ok (_, level)) => ⟨setup, { l.trace with opened := l.trace.opened ++ [level] }⟩
  | (setup, .error _) => { l with setup }

/-- Record the result of `GetSealer`. -/
def sealer (l : Leveled σ) (level : EncryptionLevel) : Leveled σ :=
  { l with trace := { l.trace with sealers := l.trace.sealers ++ [level] } }

end Leveled

/-- The lowest level that `Open` accepts and the level of `GetSealer`, in a state that is sound. -/
structure Ratchet (σ : Type) where
  Sound : σ → Prop
  lowest : σ → EncryptionLevel
  sealing : σ → EncryptionLevel

variable {src associatedData : List UInt8} {packetNumber : Nat}

namespace Ratchet

variable {σ : Type} {k : Ratchet σ} {s s' : σ} {l : Leveled σ}

/-- Neither level falls. -/
structure Raises (k : Ratchet σ) (s s' : σ) : Prop where
  sound : k.Sound s'
  lowest : (k.lowest s).rank ≤ (k.lowest s').rank
  sealing : (k.sealing s).rank ≤ (k.sealing s').rank

/-- What `Open` does: the level of a packet that it accepts is the lowest one from then on. -/
def Opens (k : Ratchet σ) (s : σ) : σ × Except String (List UInt8 × EncryptionLevel) → Prop
  | (s', .ok (_, level)) => k.Raises s s' ∧ k.lowest s' = level
  | (s', .error _) => k.Raises s s'

/-- The recorded levels have risen to those of the state. -/
structure Holds (k : Ratchet σ) (l : Leveled σ) : Prop where
  sound : k.Sound l.setup
  opened : Rising l.trace.opened (k.lowest l.setup)
  sealers : Rising l.trace.sealers (k.sealing l.setup)

theorem holds_start (hsound : k.Sound s) : k.Holds (.start s) :=
  ⟨hsound, rising_nil, rising_nil⟩

theorem Raises.refl (hsound : k.Sound s) : k.Raises s s := ⟨hsound, Nat.le_refl _, Nat.le_refl _⟩

theorem Holds.raise (h : k.Holds l) (hraises : k.Raises l.setup s') :
    k.Holds { l with setup := s' } :=
  ⟨hraises.sound, h.opened.raise hraises.lowest, h.sealers.raise hraises.sealing⟩

theorem Holds.openMessage {r : σ × Except String (List UInt8 × EncryptionLevel)} (h : k.Holds l)
    (hopens : k.Opens l.setup r) : k.Holds (l.opened r) := by
  obtain ⟨s', _ | ⟨data, level⟩⟩ := r
  · exact h.raise hopens
  obtain ⟨hraises, rfl⟩ : k.Raises l.setup s' ∧ k.lowest s' = level := hopens
  exact ⟨hraises.sound, h.opened.add hraises.lowest, h.sealers.raise hraises.sealing⟩

/-- The null AEAD is tried only where nothing better has been accepted. -/
theorem opens_openNull {nullAEAD : Opener} (hsound : k.Sound s) (hlow : k.lowest s = .unencrypted) :
    k.Opens s (openNull s nullAEAD src packetNumber associatedData) := by
  unfold openNull
  split
  · exact .refl hsound
  · exact ⟨.refl hsound, hlow⟩

theorem Holds.getSealer (h : k.Holds l) : k.Holds (l.sealer (k.sealing l.setup)) :=
  ⟨h.sound, h.opened, h.sealers.add (Nat.le_refl _)⟩

theorem Holds.noDowngrade (h : k.Holds l) : NoDowngrade l.trace :=
  noDowngrade_of_rising h.opened h.sealers

end Ratchet

/-! ### The client -/

namespace CryptoSetupClient

variable {γ : Type} {p : ClientPrimitives γ} {h h' h'' : CryptoSetupClient γ}

def ratchet : Ratchet (CryptoSetupClient γ) where
  Sound h := h.receivedSecurePacket = true → h.secureAEAD.isSome = true
  lowest h := .best h.forwardSecureAEAD.isSome h.receivedSecurePacket
  sealing h := h.keys.getSealer.1

theorem getSealer_eq_best :
    h.keys.getSealer.1 = .best h.forwardSecureAEAD.isSome h.secureAEAD.isSome := by
  cases hforward : h.forwardSecureAEAD <;> cases hsecure : h.secureAEAD <;>
    simp [keys, CryptoSetup.getSealer, best, hforward, hsecure]

theorem Advances.raises (hadv : Advances h h') (hsound : ratchet.Sound h) :
    ratchet.Raises h h' := by
  constructor
  · intro hreceived
    rw [hadv.received] at hreceived
    exact hadv.secure (hsound hreceived)
  · apply best_mono hadv.forwardSecure
    rw [hadv.received]
    exact id
  · change (h.keys.getSealer.1).rank ≤ (h'.keys.getSealer.1).rank
    rw [getSealer_eq_best, getSealer_eq_best]
    exact best_mono hadv.forwardSecure hadv.secure

/-- Once the forward secure key is there it is the only one; before, the secure key is, from the
first packet on that it has opened. -/
theorem opens_openMessage (hsound : ratchet.Sound h) :
    ratchet.Opens h (h.openMessage src packetNumber associatedData) := by
  unfold openMessage
  split
  · next aead hforward =>
    split
    · exact ⟨.refl hsound, by simp [ratchet, best, hforward]⟩
    · exact .refl hsound
  · next aead hforward hsecure =>
    split
    · refine ⟨⟨fun _ => ?_, best_mono id fun _ => rfl, Nat.le_refl _⟩, ?_⟩
      · simp [hsecure]
      · simp [ratchet, best, hforward]
    · split
      · exact .refl hsound
      rename_i hreceived
      apply Ratchet.opens_openNull hsound
      simp [ratchet, best, hforward, hreceived]
  · next hforward hsecure =>
    -- no secure packet has arrived without a secure key
    have hreceived : ¬ h.receivedSecurePacket = true := fun hr => by
      simpa [hsecure] using hsound hr
    apply Ratchet.opens_openNull hsound
    simp [ratchet, best, hforward, hreceived]

end CryptoSetupClient

inductive ClientEvent where
  /-- `HandleCryptoStream` receives a message or a diversification nonce. -/
  | receive (input : ClientInput)
  /-- `HandleCryptoStream` calls `maybeUpgradeCrypto`, and sends a CHLO if there is no key. -/
  | upgradeOrSend
  | openMessage (src : List UInt8) (packetNumber : Nat) (associatedData : List UInt8)
  | getSealer

namespace ClientEvent

variable {γ : Type}

section

variable (p : ClientPrimitives γ) (l : Leveled (CryptoSetupClient γ))

def step : ClientEvent → Leveled (CryptoSetupClient γ)
  | .receive input => { l with setup := (l.setup.receive p input).1 }
  | .upgradeOrSend => { l with setup := (l.setup.upgradeOrSend p).1 }
  | .openMessage src packetNumber associatedData =>
    l.opened (l.setup.openMessage src packetNumber associatedData)
  | .getSealer => l.sealer l.setup.keys.getSealer.1

/-- Neither `handleSHLOMessage` nor `maybeUpgradeCrypto` fails. -/
def Succeeds : ClientEvent → Prop
  | .receive (.shlo data) => (l.setup.handleSHLOMessage p data).2 = none
  | .upgradeOrSend => (l.setup.maybeUpgradeCrypto p).2 = none
  | _ => True

end

theorem holds_step {p : ClientPrimitives γ} {l : Leveled (CryptoSetupClient γ)}
    {event : ClientEvent} (h : ratchet.Holds l) (hok : Succeeds p l event) :
    ratchet.Holds (step p l event) := by
  cases event with
  | receive input =>
    apply h.raise
    apply CryptoSetupClient.Advances.raises _ h.sound
    apply advances_receive
    rintro data rfl
    exact hok
  | upgradeOrSend => exact h.raise ((advances_upgradeOrSend _).raises h.sound)
  | openMessage src packetNumber associatedData =>
    exact h.openMessage (opens_openMessage h.sound)
  | getSealer => exact h.getSealer

end ClientEvent

/-! ### The server -/

namespace CryptoSetupServer

variable {h : CryptoSetupServer}

def ratchet : Ratchet CryptoSetupServer where
  Sound h := (h.receivedSecurePacket = true → h.secureAEAD.isSome = true) ∧
    (h.receivedForwardSecurePacket = true → h.forwardSecureAEAD.isSome = true)
  lowest h := .best h.receivedForwardSecurePacket h.receivedSecurePacket
  sealing h := h.keys.getSealer.1

theorem getSealer_eq_best :
    h.keys.getSealer.1 = .best h.forwardSecureAEAD.isSome false := by
  cases hforward : h.forwardSecureAEAD <;>
    simp [keys, CryptoSetup.getSealer, best, hforward]

theorem raises_handleCHLO {p : ServerPrimitives} {r : ServerReadings} {sni : String}
    {data : List UInt8} {cryptoData reply : TagMap} {h' : CryptoSetupServer}
    (hok : h.handleCHLO p r sni data cryptoData = (h', .ok reply)) : ratchet.Raises h h' := by
  obtain ⟨diversificationNonce, secure, forwardSecure, rfl⟩ := handleCHLO_ok hok
  refine ⟨⟨fun _ => rfl, fun _ => rfl⟩, Nat.le_refl _, ?_⟩
  change (h.keys.getSealer.1).rank ≤ _
  rw [getSealer_eq_best]
  exact best_mono (fun _ => rfl) id

theorem opens_openSecure (hsound : ratchet.Sound h)
    (hforward : h.receivedForwardSecurePacket = false) :
    ratchet.Opens h (h.openSecure src packetNumber associatedData) := by
  unfold openSecure
  split
  · next hsecure =>
    have hreceived : ¬ h.receivedSecurePacket = true := fun hr => by
      simpa [hsecure] using hsound.1 hr
    apply Ratchet.opens_openNull hsound
    simp [ratchet, best, hforward, hreceived]
  rename_i aead hsecure
  split
  · refine ⟨⟨⟨fun _ => ?_, hsound.2⟩, best_mono id fun _ => rfl, Nat.le_refl _⟩, ?_⟩
    · simp [hsecure]
    · simp [ratchet, best, hforward]
  · split
    · exact .refl hsound
    rename_i hreceived
    apply Ratchet.opens_openNull hsound
    simp [ratchet, best, hforward, hreceived]

/-- Other keys than the forward secure one are tried until it has opened a packet. -/
theorem opens_openMessage (hsound : ratchet.Sound h) :
    ratchet.Opens h (h.openMessage src packetNumber associatedData) := by
  unfold openMessage
  split
  · next hnone =>
    apply opens_openSecure hsound
    apply Bool.eq_false_iff.mpr
    intro hreceived
    simpa [hnone] using hsound.2 hreceived
  rename_i aead hsome
  split
  · refine ⟨⟨⟨hsound.1, fun _ => ?_⟩, best_mono (fun _ => rfl) id, Nat.le_refl _⟩, rfl⟩
    simp [hsome]
  · split
    · exact .refl hsound
    · next hreceived => exact opens_openSecure hsound (Bool.eq_false_iff.mpr hreceived)

end CryptoSetupServer

inductive ServerEvent where
  | handleCHLO (r : ServerReadings) (sni : String) (data : List UInt8) (cryptoData : TagMap)
  | openMessage (src : List UInt8) (packetNumber : Nat) (associatedData : List UInt8)
  | getSealer

namespace ServerEvent

section

variable (p : ServerPrimitives) (l : Leveled CryptoSetupServer)

def step : ServerEvent → Leveled CryptoSetupServer
  | .handleCHLO r sni data cryptoData =>
    { l with setup := (l.setup.handleCHLO p r sni data cryptoData).1 }
  | .openMessage src packetNumber associatedData =>
    l.opened (l.setup.openMessage src packetNumber associatedData)
  | .getSealer => l.sealer l.setup.keys.getSealer.1

/-- `handleCHLO` does not fail. -/
def Succeeds : ServerEvent → Prop
  | .handleCHLO r sni data cryptoData =>
    ∃ reply, (l.setup.handleCHLO p r sni data cryptoData).2 = .ok reply
  | _ => True

end

theorem holds_step {p : ServerPrimitives} {l : Leveled CryptoSetupServer} {event : ServerEvent}
    (h : CryptoSetupServer.ratchet.Holds l) (hok : Succeeds p l event) :
    CryptoSetupServer.ratchet.Holds (step p l event) := by
  cases event with
  | handleCHLO r sni data cryptoData =>
    obtain ⟨reply, hok⟩ := hok
    exact h.raise (CryptoSetupServer.raises_handleCHLO (Prod.ext rfl hok))
  | openMessage src packetNumber associatedData =>
    exact h.openMessage (CryptoSetupServer.opens_openMessage h.sound)
  | getSealer => exact h.getSealer

end ServerEvent

/-! ### Both sides -/

/-- The client is new, or has been filled in from the handshake cache. As long as no key
installation fails, neither side is downgraded, whatever is received, opened and sealed. -/
theorem no_downgrade {γ : Type} (p : ClientPrimitives γ) (client : CryptoSetupClient γ)
    (hclient : client.receivedSecurePacket = false) (q : ServerPrimitives) (connID : Nat)
    (scfg : ServerConfig) (supportedVersions : List Int) (nullAEAD : Opener) :
    (∀ events, AllFit (ClientEvent.step p) (ClientEvent.Succeeds p) (.start client) events →
      NoDowngrade (run (ClientEvent.step p) (.start client) events).trace) ∧
    (∀ events, AllFit (ServerEvent.step q) (ServerEvent.Succeeds q)
        (.start (.new connID scfg supportedVersions nullAEAD)) events →
      NoDowngrade (run (ServerEvent.step q)
        (.start (.new connID scfg supportedVersions nullAEAD)) events).trace) := by
  constructor
  · intro events hfit
    have hstart : ratchet.Holds (.start client) :=
      Ratchet.holds_start fun hreceived => absurd hreceived (Bool.eq_false_iff.mp hclient)
    have hholds := run_inv _ (fun _ => ratchet.Holds)
      (fun _ _ _ => ClientEvent.holds_step) events [] _ hstart hfit
    exact hholds.noDowngrade
  · intro events hfit
    have hstart : CryptoSetupServer.ratchet.Holds
        (.start (.new connID scfg supportedVersions nullAEAD)) :=
      Ratchet.holds_start ⟨nofun, nofun⟩
    have hholds := run_inv _ (fun _ => CryptoSetupServer.ratchet.Holds)
      (fun _ _ _ => ServerEvent.holds_step) events [] _ hstart hfit
    exact hholds.noDowngrade

namespace Sample

/-- The client of a handshake that is resumed from the cache. -/
def cachedClient : CryptoSetupClient (List (List UInt8)) :=
  { CryptoSetupClient.new client "quic.clemente.io" 1 [] (opener 0) with
    certs := [[1]]
    serverConfig := some ⟨[4], List.replicate 8 0, 10, kex, [7]⟩
    nonc := List.replicate 32 0
    serverVerified := true }

def newServer : CryptoSetupServer :=
  .new 1 ⟨kex, fun _ => .ok [1], List.replicate 8 0, [4]⟩ [] (opener 0)

/-- Packets at every level while the client gets its keys; two of them are refused. -/
def clientEvents : List ClientEvent :=
  [.upgradeOrSend, .getSealer, .receive (.divNonce [3]), .upgradeOrSend, .openMessage [0, 8] 1 [],
    .openMessage [1, 8] 2 [], .openMessage [0, 8] 3 [], .getSealer,
    .receive (.shlo (message [(tagPUBS, [9]), (tagVER, [])])), .openMessage [1, 8] 4 [],
    .openMessage [2, 8] 5 [], .getSealer]

def serverEvents : List ServerEvent :=
  [.getSealer, .handleCHLO ⟨some [2], some [3], kex⟩ "quic.clemente.io" [6]
      (message [(tagPUBS, [9]), (tagNONC, List.replicate 32 0), (tagAEAD, [65, 69, 83, 71]),
        (tagKEXS, [67, 50, 53, 53])]),
    .openMessage [0, 8] 1 [], .openMessage [1, 8] 2 [], .openMessage [0, 8] 3 [],
    .openMessage [2, 8] 4 [], .openMessage [1, 8] 5 [], .getSealer]

end Sample

theorem no_downgrade_resumed :
    (NoDowngrade (run (ClientEvent.step client) (.start cachedClient)
        clientEvents).trace ∧
      NoDowngrade (run (ServerEvent.step server) (.start newServer) serverEvents).trace) ∧
    (run (ClientEvent.step client) (.start cachedClient) clientEvents).trace =
      ⟨[.unencrypted, .secure, .forwardSecure], [.unencrypted, .secure, .forwardSecure]⟩ ∧
    (run (ServerEvent.step server) (.start newServer) serverEvents).trace =
      ⟨[.unencrypted, .secure, .forwardSecure], [.unencrypted, .forwardSecure]⟩ := by
  have hboth := no_downgrade client cachedClient rfl server 1
    ⟨kex, fun _ => .ok [1], List.replicate 8 0, [4]⟩ [] (opener 0)
  refine ⟨⟨hboth.1 _ ?_, hboth.2 _ ?_⟩, rfl, rfl⟩
  · exact .cons rfl (.cons trivial (.cons trivial (.cons rfl (.cons trivial (.cons trivial
      (.cons trivial (.cons trivial (.cons rfl (.cons trivial (.cons trivial (.cons trivial
        .nil)))))))))))
  · exact .cons trivial (.cons ⟨_, rfl⟩ (.cons trivial (.cons trivial (.cons trivial
      (.cons trivial (.cons trivial (.cons trivial .nil)))))))

end RlncStreaming.Quic
