import RlncStreaming.Quic.PublicHeader

/-!
The QUIC crypto handshake (`crypto_setup_client.go`, `crypto_setup_server.go`, `cert_manager.go`).

The client sends CHLO messages until it has keys. The server rejects them with REJ messages, which
carry its config, its certificates and a proof, until it finds one that is complete; then both
sides derive the secure keys, and with the SHLO the forward secure ones. Which primitives are used
for all that is left open: the certificates, the key exchange, the key derivation and the opening
of packets are arbitrary functions.
-/

namespace RlncStreaming.Quic

/-! ### Messages and primitives -/

/-- `Tag`. -/
abbrev Tag := UInt32

/-- The data of a handshake message. -/
abbrev TagMap := Tag → Option (List UInt8)

def tagSTK : Tag := 0x4b5453
def tagSNO : Tag := 0x4f4e53
def tagSCFG : Tag := 0x47464353
def tagPROF : Tag := 0x464f5250
def tagCERT : Tag := 0xff545243
def tagPUBS : Tag := 0x53425550
def tagVER : Tag := 0x524556
def tagNONC : Tag := 0x434e4f4e
def tagAEAD : Tag := 0x44414541
def tagKEXS : Tag := 0x5358454b

inductive CryptoError where
  /-- The error of a primitive. -/
  | primitive (reason : String)
  /-- An error of the random number generator. -/
  | random
  /-- `CryptoServerConfigExpired` -/
  | serverConfigExpired
  /-- `CryptoSetup BUG: No OBIT for client nonce available` -/
  | noObitForClientNonce
  /-- `CryptoSetup BUG: A client nonce was already generated` -/
  | clientNonceAlreadyExists
  /-- `Received two different diversification nonces` -/
  | conflictingDiversificationNonces
  /-- `Certificate data invalid` -/
  | certificateDataInvalid
  /-- `ProofInvalid` -/
  | proofInvalid
  /-- `More than 3 rejects` -/
  | tooManyRejects
  /-- `unencrypted SHLO message` -/
  | unencryptedSHLO
  /-- `PUBS` -/
  | pubsNotFound
  /-- `server hello missing version list` -/
  | missingVersionList
  /-- `Downgrade attack detected` -/
  | downgradeAttack
  /-- `InvalidCryptoMessageParameter` -/
  | invalidCryptoMessageParameter
  /-- `InvalidCryptoMessageType` -/
  | invalidCryptoMessageType
  /-- `HandshakeFailed` -/
  | handshakeFailed (reason : String)
  /-- `invalid client nonce length` -/
  | clientNonceLength
  /-- `OBIT not matching` -/
  | obitNotMatching
  /-- `Unsupported AEAD or KEXS` -/
  | unsupported
deriving DecidableEq, Repr

/-- `crypto.KeyExchange`. -/
structure KeyExchange where
  publicKey : List UInt8
  calculateSharedKey : List UInt8 → Except String (List UInt8)

/-- `Open` of an AEAD, for the source, the packet number and the associated data. -/
abbrev Opener := List UInt8 → Nat → List UInt8 → Except String (List UInt8)

/-- `crypto.AEAD`, with an AES-GCM sealer. -/
structure AEAD where
  sealer : AeadAESGCM12
  opener : Opener

/-- `QuicCryptoKeyDerivationFunction`: whether the keys are forward secure, the shared secret, the
nonces, the connection ID, the CHLO, the server config, the leaf certificate, the diversification
nonce and the perspective. -/
abbrev KeyDerivation := Bool → List UInt8 → List UInt8 → Nat → List UInt8 → List UInt8 →
  List UInt8 → List UInt8 → Perspective → Except String AEAD

/-- `SupportedVersions`. -/
def supportedVersions : List Int := [512, 39, 38, 37]

/-- A function that changes a state may fail afterwards; what follows it is then left out. -/
def andThen {σ : Type} (r : σ × Option CryptoError) (f : σ → σ × Option CryptoError) :
    σ × Option CryptoError :=
  match r with
  | (s, some e) => (s, some e)
  | (s, none) => f s

theorem andThen_ok {σ : Type} {r : σ × Option CryptoError} {f : σ → σ × Option CryptoError} {s' : σ}
    (hok : andThen r f = (s', none)) : ∃ s, r = (s, none) ∧ f s = (s', none) := by
  obtain ⟨s, _ | e⟩ := r
  · exact ⟨s, rfl, hok⟩
  · cases hok

/-- The last resort of `Open`, with the null AEAD. -/
def openNull {σ : Type} (s : σ) (nullAEAD : Opener) (src : List UInt8) (packetNumber : Nat)
    (associatedData : List UInt8) : σ × Except String (List UInt8 × EncryptionLevel) :=
  match nullAEAD src packetNumber associatedData with
  | .error e => (s, .error e)
  | .ok data => (s, .ok (data, .unencrypted))

/-! ### Certificates -/

/-- `CertManager`: the certificates that the server has sent are in a state of type `γ`, which
starts without a leaf certificate. `Verify` depends on the clock. -/
structure CertManager (γ : Type) where
  new : γ
  setData : γ → List UInt8 → Except String γ
  getLeafCert : γ → Option (List UInt8)
  verify : γ → Int → String → Option String
  verifyServerProof : γ → List UInt8 → List UInt8 → List UInt8 → Bool
  getLeafCert_new : getLeafCert new = none

/-- The functions of `crypto/x509` and `cert_compression.go` that `certManager` uses, with the
roots of its TLS config. -/
structure X509 (Cert : Type) where
  decompressChain : List UInt8 → Option (List (List UInt8))
  parseCertificate : List UInt8 → Except String Cert
  raw : Cert → List UInt8
  /-- Whether the leaf certificate is valid, with the intermediates, at a time and for a name. -/
  verify : Cert → List Cert → Int → String → Option String
  verifyServerProof : List UInt8 → Cert → List UInt8 → List UInt8 → Bool

/-- `certManager`, whose state is the chain. -/
def certManager {Cert : Type} (x : X509 Cert) (insecureSkipVerify : Bool) :
    CertManager (List Cert) where
  new := []
  setData _ data :=
    match x.decompressChain data with
    | none => .error "Certificate data invalid"
    | some byteChain => byteChain.mapM x.parseCertificate
  getLeafCert chain := chain.head?.map x.raw
  verify chain now hostname :=
    match chain with
    | [] => some "CertManager BUG: No certicifate chain loaded"
    | leafCert :: intermediates =>
      if insecureSkipVerify then none else x.verify leafCert intermediates now hostname
  verifyServerProof chain proof chlo serverConfigData :=
    match chain with
    | [] => false
    | leafCert :: _ => x.verifyServerProof proof leafCert chlo serverConfigData
  getLeafCert_new := rfl

/-! ### The client -/

/-- `serverConfigClient`. -/
structure ServerConfigClient where
  raw : List UInt8
  obit : List UInt8
  expiry : Int
  kex : KeyExchange
  sharedSecret : List UInt8

/-- `cryptoSetupClient`. -/
structure CryptoSetupClient (γ : Type) where
  hostname : String
  connID : Nat
  negotiatedVersions : List Int
  serverConfig : Option ServerConfigClient
  stk : List UInt8
  sno : List UInt8
  nonc : List UInt8
  proof : List UInt8
  chloForSignature : List UInt8
  lastSentCHLO : List UInt8
  certs : γ
  diversificationNonce : List UInt8
  clientHelloCounter : Nat
  serverVerified : Bool
  receivedSecurePacket : Bool
  nullAEAD : Opener
  secureAEAD : Option AEAD
  forwardSecureAEAD : Option AEAD

/-- What the client calls: besides the certificates and the key derivation, `parseServerConfig`
(which draws a key of its own), `SetFromMap` of the connection parameters, and `getTags` with the
encoding and the writing of the CHLO. -/
structure ClientPrimitives (γ : Type) where
  certManager : CertManager γ
  keyDerivation : KeyDerivation
  parseServerConfig : List UInt8 → List UInt8 → Except String ServerConfigClient
  setFromMap : TagMap → Option String
  writeCHLO : CryptoSetupClient γ → Except String (List UInt8)

/-- What the client reads while it handles a REJ message: the clock, a random key for the key
exchange, and the random bytes of a nonce. -/
structure ClientReadings where
  now : Int
  curveKey : List UInt8
  random : Option (List UInt8)

/-- What `HandleCryptoStream` receives. -/
inductive ClientInput where
  | divNonce (divNonce : List UInt8)
  | rej (r : ClientReadings) (data : TagMap)
  | shlo (data : TagMap)
  | otherMessage
  /-- The message cannot be parsed. -/
  | malformed (reason : String)

/-- `protocol.MaxClientHellos`. -/
def maxClientHellos : Nat := 3

namespace CryptoSetupClient

variable {γ : Type}

/-- `NewCryptoSetupClient`. -/
def new (p : ClientPrimitives γ) (hostname : String) (connID : Nat)
    (negotiatedVersions : List Int) (nullAEAD : Opener) : CryptoSetupClient γ :=
  ⟨hostname, connID, negotiatedVersions, none, [], [], [], [], [], [], p.certManager.new, [], 0,
    false, false, nullAEAD, none, none⟩

/-- `generateClientNonce`, for a server config. -/
def generateClientNonce (h : CryptoSetupClient γ) (r : ClientReadings)
    (serverConfig : ServerConfigClient) : CryptoSetupClient γ × Option CryptoError :=
  if h.nonc ≠ [] then (h, some .clientNonceAlreadyExists)
  else if serverConfig.obit.length ≠ 8 then (h, some .noObitForClientNonce)
  else
    match r.random with
    | none => (h, some .random)
    | some random =>
      let seconds := (leBytes 4 (r.now % 2 ^ 32).toNat).reverse
      ({ h with nonc := seconds ++ serverConfig.obit ++ random }, none)

/-- The SCFG tag of a REJ message. -/
def takeServerConfig (p : ClientPrimitives γ) (r : ClientReadings) (h : CryptoSetupClient γ)
    (data : TagMap) : CryptoSetupClient γ × Option CryptoError :=
  match data tagSCFG with
  | none => (h, none)
  | some scfg =>
    match p.parseServerConfig scfg r.curveKey with
    | .error e => ({ h with serverConfig := none }, some (.primitive e))
    | .ok serverConfig =>
      let h := { h with serverConfig := some serverConfig }
      if serverConfig.expiry < r.now then (h, some .serverConfigExpired)
      else if h.nonc = [] then h.generateClientNonce r serverConfig
      else (h, none)

theorem generateClientNonce_fst (h : CryptoSetupClient γ) (r : ClientReadings)
    (serverConfig : ServerConfigClient) :
    ∃ nonc, (h.generateClientNonce r serverConfig).1 = { h with nonc } := by
  unfold generateClientNonce
  split
  · exact ⟨h.nonc, rfl⟩
  split
  · exact ⟨h.nonc, rfl⟩
  split
  · exact ⟨h.nonc, rfl⟩
  · exact ⟨_, rfl⟩

theorem takeServerConfig_fst (p : ClientPrimitives γ) (r : ClientReadings)
    (h : CryptoSetupClient γ) (data : TagMap) :
    ∃ serverConfig nonc, (h.takeServerConfig p r data).1 = { h with serverConfig, nonc } := by
  unfold takeServerConfig
  split
  · exact ⟨h.serverConfig, h.nonc, rfl⟩
  split
  · exact ⟨none, h.nonc, rfl⟩
  rename_i serverConfig _
  simp only
  split
  · exact ⟨some serverConfig, h.nonc, rfl⟩
  split
  · obtain ⟨nonc, hnonc⟩ :=
      generateClientNonce_fst { h with serverConfig := some serverConfig } r serverConfig
    exact ⟨some serverConfig, nonc, hnonc⟩
  · exact ⟨some serverConfig, h.nonc, rfl⟩

/-- The PROF tag of a REJ message. -/
def takeProof (h : CryptoSetupClient γ) (data : TagMap) : CryptoSetupClient γ :=
  match data tagPROF with
  | none => h
  | some proof => { h with proof, chloForSignature := h.lastSentCHLO }

theorem takeProof_eq (h : CryptoSetupClient γ) (data : TagMap) :
    ∃ chloForSignature,
      h.takeProof data = { h with proof := (data tagPROF).getD h.proof, chloForSignature } := by
  unfold takeProof
  split
  · next hnone => exact ⟨h.chloForSignature, by rw [hnone]; rfl⟩
  · next hsome => exact ⟨h.lastSentCHLO, by rw [hsome]; rfl⟩

section

variable (p : ClientPrimitives γ)

/-- The CERT tag of a REJ message. -/
def takeCertificates (r : ClientReadings) (h : CryptoSetupClient γ) (data : TagMap)
    : CryptoSetupClient γ × Option CryptoError :=
  match data tagCERT with
  | none => (h, none)
  | some crt =>
    match p.certManager.setData h.certs crt with
    | .error _ => (h, some .certificateDataInvalid)
    | .ok certs =>
      ({ h with certs },
        match p.certManager.verify certs r.now "quic.clemente.io" with
        | some _ => some .proofInvalid
        | none => none)

theorem takeCertificates_fst (r : ClientReadings) (h : CryptoSetupClient γ) (data : TagMap) :
    ∃ certs, (h.takeCertificates p r data).1 = { h with certs } := by
  unfold takeCertificates
  split
  · exact ⟨h.certs, rfl⟩
  split
  · exact ⟨h.certs, rfl⟩
  · exact ⟨_, rfl⟩

/-- The last part of `handleREJMessage`. -/
def checkProof (h : CryptoSetupClient γ) : CryptoSetupClient γ × Option CryptoError :=
  match h.serverConfig, p.certManager.getLeafCert h.certs with
  | some serverConfig, some _ =>
    if h.proof = [] then (h, none)
    else if p.certManager.verifyServerProof h.certs h.proof h.chloForSignature serverConfig.raw then
      ({ h with serverVerified := true }, none)
    else (h, some .proofInvalid)
  | _, _ => (h, none)

theorem checkProof_fst (h : CryptoSetupClient γ) :
    ∃ serverVerified, (h.checkProof p).1 = { h with serverVerified } := by
  unfold checkProof
  split
  · split
    · exact ⟨h.serverVerified, rfl⟩
    split
    · exact ⟨true, rfl⟩
    · exact ⟨h.serverVerified, rfl⟩
  · exact ⟨h.serverVerified, rfl⟩

/-- `handleREJMessage`. -/
def handleREJMessage (r : ClientReadings) (h : CryptoSetupClient γ) (data : TagMap)
    : CryptoSetupClient γ × Option CryptoError :=
  let h := { h with stk := (data tagSTK).getD h.stk, sno := (data tagSNO).getD h.sno }
  andThen (h.takeServerConfig p r data) fun h =>
    andThen ((h.takeProof data).takeCertificates p r data) (checkProof p)

end

/-- The loop of `validateVersionList`. -/
def matchVersions : List Int → List UInt8 → Bool
  | [], _ => true
  | negotiatedVersion :: versions, b₀ :: b₁ :: b₂ :: b₃ :: verTags =>
    let ver := versionTagToNumber (leValue [b₀, b₁, b₂, b₃])
    let ver := if ver ∈ supportedVersions then ver else -1
    ver == negotiatedVersion && matchVersions versions verTags
  | _ :: _, _ => false

/-- `validateVersionList`. -/
def validateVersionList (h : CryptoSetupClient γ) (verTags : List UInt8) : Bool :=
  if h.negotiatedVersions = [] then true
  else if verTags.length % 4 ≠ 0 ∨ verTags.length / 4 ≠ h.negotiatedVersions.length then false
  else matchVersions h.negotiatedVersions verTags

section

variable (p : ClientPrimitives γ) (h : CryptoSetupClient γ)

/-- `handleSHLOMessage`. Without a server config it crashes, which is an error here. -/
def handleSHLOMessage (data : TagMap) : CryptoSetupClient γ × Option CryptoError :=
  if !h.receivedSecurePacket then (h, some .unencryptedSHLO)
  else
    let h := { h with sno := (data tagSNO).getD h.sno }
    match data tagPUBS, data tagVER with
    | none, _ => (h, some .pubsNotFound)
    | some _, none => (h, some .missingVersionList)
    | some serverPubs, some verTag =>
      if !h.validateVersionList verTag then (h, some .downgradeAttack)
      else
        match h.serverConfig with
        | none => (h, some (.primitive "nil pointer dereference"))
        | some serverConfig =>
          match serverConfig.kex.calculateSharedKey serverPubs with
          | .error e => (h, some (.primitive e))
          | .ok ephermalSharedSecret =>
            let leafCert := (p.certManager.getLeafCert h.certs).getD []
            match p.keyDerivation true ephermalSharedSecret (h.nonc ++ h.sno) h.connID
                h.lastSentCHLO serverConfig.raw leafCert [] .client with
            | .error e => ({ h with forwardSecureAEAD := none }, some (.primitive e))
            | .ok aead =>
              ({ h with forwardSecureAEAD := some aead },
                match p.setFromMap data with
                | some _ => some .invalidCryptoMessageParameter
                | none => none)

/-- A SHLO message changes the server nonce and the forward secure key, which is there unless the
message fails. -/
theorem handleSHLOMessage_fst (data : TagMap) : ∃ sno forwardSecureAEAD,
      (h.handleSHLOMessage p data).1 = { h with sno, forwardSecureAEAD } ∧
        ((h.handleSHLOMessage p data).2 = none → forwardSecureAEAD.isSome = true) := by
  unfold handleSHLOMessage
  split
  · exact ⟨h.sno, h.forwardSecureAEAD, rfl, nofun⟩
  simp only
  split
  · exact ⟨_, h.forwardSecureAEAD, rfl, nofun⟩
  · exact ⟨_, h.forwardSecureAEAD, rfl, nofun⟩
  split
  · exact ⟨_, h.forwardSecureAEAD, rfl, nofun⟩
  split
  · exact ⟨_, h.forwardSecureAEAD, rfl, nofun⟩
  split
  · exact ⟨_, h.forwardSecureAEAD, rfl, nofun⟩
  split
  · exact ⟨_, none, rfl, nofun⟩
  · next aead _ => exact ⟨_, some aead, rfl, fun _ => rfl⟩

/-- `maybeUpgradeCrypto`. -/
def maybeUpgradeCrypto : CryptoSetupClient γ × Option CryptoError :=
  if !h.serverVerified then (h, none)
  else
    let leafCert := (p.certManager.getLeafCert h.certs).getD []
    match h.secureAEAD, h.serverConfig with
    | none, some serverConfig =>
      if serverConfig.sharedSecret ≠ [] ∧ h.nonc ≠ [] ∧ leafCert ≠ [] ∧
          h.diversificationNonce ≠ [] ∧ h.lastSentCHLO ≠ [] then
        match p.keyDerivation false serverConfig.sharedSecret (h.nonc ++ h.sno) h.connID
            h.lastSentCHLO serverConfig.raw leafCert h.diversificationNonce .client with
        | .error e => (h, some (.primitive e))
        | .ok aead => ({ h with secureAEAD := some aead }, none)
      else (h, none)
    | _, _ => (h, none)

/-- A secure key is not replaced. -/
theorem maybeUpgradeCrypto_fst : ∃ secureAEAD, (h.maybeUpgradeCrypto p).1 = { h with secureAEAD } ∧
      (h.secureAEAD.isSome = true → secureAEAD = h.secureAEAD) := by
  unfold maybeUpgradeCrypto
  split
  · exact ⟨h.secureAEAD, rfl, fun _ => rfl⟩
  simp only
  split
  · next hnone _ =>
    split
    · split
      · exact ⟨h.secureAEAD, rfl, fun _ => rfl⟩
      · next aead _ => exact ⟨some aead, rfl, fun hsome => by simp [hnone] at hsome⟩
    · exact ⟨h.secureAEAD, rfl, fun _ => rfl⟩
  · exact ⟨h.secureAEAD, rfl, fun _ => rfl⟩

/-- `sendCHLO`. -/
def sendCHLO : CryptoSetupClient γ × Option CryptoError :=
  let h := { h with clientHelloCounter := h.clientHelloCounter + 1 }
  if maxClientHellos < h.clientHelloCounter then (h, some .tooManyRejects)
  else
    match p.writeCHLO h with
    | .error e => (h, some (.primitive e))
    | .ok chlo => ({ h with lastSentCHLO := chlo }, none)

theorem sendCHLO_fst : ∃ lastSentCHLO clientHelloCounter,
      (h.sendCHLO p).1 = { h with lastSentCHLO, clientHelloCounter } := by
  unfold sendCHLO
  simp only
  split
  · exact ⟨h.lastSentCHLO, _, rfl⟩
  split
  · exact ⟨h.lastSentCHLO, _, rfl⟩
  · exact ⟨_, _, rfl⟩

/-- The part of the loop of `HandleCryptoStream` before it waits. -/
def upgradeOrSend : CryptoSetupClient γ × Option CryptoError :=
  andThen (h.maybeUpgradeCrypto p) fun h =>
    if h.secureAEAD.isNone then h.sendCHLO p else (h, none)

end

section

variable (h : CryptoSetupClient γ) (divNonce : List UInt8)

/-- `HandleCryptoStream` receives a diversification nonce. -/
def takeDivNonce : CryptoSetupClient γ × Option CryptoError :=
  if h.diversificationNonce ≠ [] ∧ h.diversificationNonce ≠ divNonce then
    (h, some .conflictingDiversificationNonces)
  else ({ h with diversificationNonce := divNonce }, none)

theorem takeDivNonce_fst :
    ∃ diversificationNonce, (h.takeDivNonce divNonce).1 = { h with diversificationNonce } := by
  unfold takeDivNonce
  split
  · exact ⟨h.diversificationNonce, rfl⟩
  · exact ⟨divNonce, rfl⟩

end

/-- The part of the loop of `HandleCryptoStream` after it has received something. -/
def receive (p : ClientPrimitives γ) (h : CryptoSetupClient γ) :
    ClientInput → CryptoSetupClient γ × Option CryptoError
  | .divNonce divNonce => h.takeDivNonce divNonce
  | .rej r data => h.handleREJMessage p r data
  | .shlo data => h.handleSHLOMessage p data
  | .otherMessage => (h, some .invalidCryptoMessageType)
  | .malformed reason => (h, some (.handshakeFailed reason))

section Advances

variable {p : ClientPrimitives γ} {h h' h'' : CryptoSetupClient γ}

/-- No key is lost. -/
structure Advances (h h' : CryptoSetupClient γ) : Prop where
  secure : h.secureAEAD.isSome = true → h'.secureAEAD.isSome = true
  forwardSecure : h.forwardSecureAEAD.isSome = true → h'.forwardSecureAEAD.isSome = true
  received : h'.receivedSecurePacket = h.receivedSecurePacket

theorem Advances.refl (h : CryptoSetupClient γ) : Advances h h := ⟨id, id, rfl⟩

theorem Advances.trans (hab : Advances h h') (hbc : Advances h' h'') : Advances h h'' :=
  ⟨fun hs => hbc.secure (hab.secure hs), fun hs => hbc.forwardSecure (hab.forwardSecure hs),
    hbc.received.trans hab.received⟩

theorem Advances.secure_none (hadv : Advances h h') (hnone : h'.secureAEAD = none) :
    h.secureAEAD = none := by
  apply Option.not_isSome_iff_eq_none.mp
  intro hsome
  have hkept := hadv.secure hsome
  rw [hnone] at hkept
  cases hkept

theorem advances_andThen {r : CryptoSetupClient γ × Option CryptoError}
    {f : CryptoSetupClient γ → CryptoSetupClient γ × Option CryptoError} (hr : Advances h r.1)
    (hf : ∀ h, Advances h (f h).1) : Advances h (andThen r f).1 := by
  unfold andThen
  split
  · exact hr
  · exact hr.trans (hf _)

theorem advances_handleREJMessage (r : ClientReadings) (data : TagMap) :
    Advances h (h.handleREJMessage p r data).1 := by
  apply advances_andThen
  · obtain ⟨serverConfig, nonc, heq⟩ := takeServerConfig_fst p r
      { h with stk := (data tagSTK).getD h.stk, sno := (data tagSNO).getD h.sno } data
    rw [heq]
    exact ⟨id, id, rfl⟩
  intro h
  apply advances_andThen
  · obtain ⟨chlo, hproof⟩ := takeProof_eq h data
    obtain ⟨certs, hcerts⟩ := takeCertificates_fst p r (h.takeProof data) data
    rw [hcerts, hproof]
    exact ⟨id, id, rfl⟩
  · intro h
    obtain ⟨serverVerified, heq⟩ := checkProof_fst p h
    rw [heq]
    exact ⟨id, id, rfl⟩

theorem advances_upgradeOrSend (h : CryptoSetupClient γ) : Advances h (h.upgradeOrSend p).1 := by
  apply advances_andThen
  · obtain ⟨secureAEAD, heq, hkept⟩ := maybeUpgradeCrypto_fst p h
    rw [heq]
    refine ⟨fun hsome => ?_, id, rfl⟩
    rw [← hkept hsome] at hsome
    exact hsome
  · intro h
    split
    · obtain ⟨lastSentCHLO, clientHelloCounter, heq⟩ := sendCHLO_fst p h
      rw [heq]
      exact ⟨id, id, rfl⟩
    · exact .refl h

theorem advances_receive {input : ClientInput}
    (hok : ∀ data, input = .shlo data → (h.handleSHLOMessage p data).2 = none) :
    Advances h (h.receive p input).1 := by
  cases input with
  | divNonce divNonce =>
    obtain ⟨nonce, heq⟩ := takeDivNonce_fst h divNonce
    change Advances h (h.takeDivNonce divNonce).1
    rw [heq]
    exact ⟨id, id, rfl⟩
  | rej r data => exact advances_handleREJMessage r data
  | shlo data =>
    obtain ⟨sno, aead, heq, hinstalled⟩ := handleSHLOMessage_fst p h data
    change Advances h (h.handleSHLOMessage p data).1
    rw [heq]
    exact ⟨id, fun _ => hinstalled (hok data rfl), rfl⟩
  | otherMessage => exact .refl h
  | malformed reason => exact .refl h

end Advances

/-- `Open`. -/
def openMessage (h : CryptoSetupClient γ) (src : List UInt8) (packetNumber : Nat)
    (associatedData : List UInt8) :
    CryptoSetupClient γ × Except String (List UInt8 × EncryptionLevel) :=
  match h.forwardSecureAEAD, h.secureAEAD with
  | some aead, _ =>
    match aead.opener src packetNumber associatedData with
    | .ok data => (h, .ok (data, .forwardSecure))
    | .error e => (h, .error e)
  | none, some aead =>
    match aead.opener src packetNumber associatedData with
    | .ok data => ({ h with receivedSecurePacket := true }, .ok (data, .secure))
    | .error e =>
      if h.receivedSecurePacket then (h, .error e)
      else openNull h h.nullAEAD src packetNumber associatedData
  | none, none => openNull h h.nullAEAD src packetNumber associatedData

/-- The keys for sealing. -/
def keys (h : CryptoSetupClient γ) : CryptoSetup :=
  ⟨.client, h.secureAEAD.map AEAD.sealer, h.forwardSecureAEAD.map AEAD.sealer⟩

end CryptoSetupClient

/-! ### The server -/

/-- `ServerConfig`, with its binary representation. -/
structure ServerConfig where
  kex : KeyExchange
  getLeafCert : String → Except String (List UInt8)
  obit : List UInt8
  raw : List UInt8

/-- `cryptoSetupServer`. -/
structure CryptoSetupServer where
  connID : Nat
  scfg : ServerConfig
  diversificationNonce : List UInt8
  supportedVersions : List Int
  nullAEAD : Opener
  secureAEAD : Option AEAD
  forwardSecureAEAD : Option AEAD
  receivedForwardSecurePacket : Bool
  receivedSecurePacket : Bool

/-- What the server calls: the key derivation, and `SetFromMap` and `GetHelloMap` of the
connection parameters. -/
structure ServerPrimitives where
  keyDerivation : KeyDerivation
  setFromMap : TagMap → Option String
  getHelloMap : TagMap → Except String TagMap

/-- What the server draws while it handles a CHLO: two nonces and a key exchange. -/
structure ServerReadings where
  serverNonce : Option (List UInt8)
  diversificationNonce : Option (List UInt8)
  keyExchange : KeyExchange

namespace CryptoSetupServer

/-- `NewCryptoSetup`. -/
def new (connID : Nat) (scfg : ServerConfig) (supportedVersions : List Int) (nullAEAD : Opener) :
    CryptoSetupServer :=
  ⟨connID, scfg, [], supportedVersions, nullAEAD, none, none, false, false⟩

/-- `validateClientNonce`. -/
def validateClientNonce (h : CryptoSetupServer) (nonce : List UInt8) : Option CryptoError :=
  if nonce.length ≠ 32 then some .clientNonceLength
  else if (nonce.drop 4).take 8 ≠ h.scfg.obit then some .obitNotMatching
  else none

/-- The checks of `handleCHLO` before keys are derived. The values are the tags `AESG` and
`C255`. -/
def checkCHLO (h : CryptoSetupServer) (cryptoData : TagMap) : Option CryptoError :=
  match h.validateClientNonce ((cryptoData tagNONC).getD []) with
  | some e => some e
  | none =>
    if cryptoData tagAEAD ≠ some [65, 69, 83, 71] then some .unsupported
    else if cryptoData tagKEXS ≠ some [67, 50, 53, 53] then some .unsupported
    else none

/-- The keys of `handleCHLO`: the secure keys, then the forward secure ones, for the shared
secret, the certificate and the nonce of the server. -/
def deriveKeys (p : ServerPrimitives) (kex : KeyExchange) (h : CryptoSetupServer)
    (sharedSecret cert serverNonce data : List UInt8) (cryptoData : TagMap) :
    CryptoSetupServer × Option CryptoError :=
  let clientNonce := (cryptoData tagNONC).getD []
  match p.keyDerivation false sharedSecret clientNonce h.connID data h.scfg.raw cert
      h.diversificationNonce .server with
  | .error e => ({ h with secureAEAD := none }, some (.primitive e))
  | .ok aead =>
    let h := { h with secureAEAD := some aead }
    match kex.calculateSharedKey ((cryptoData tagPUBS).getD []) with
    | .error e => (h, some (.primitive e))
    | .ok ephermalSharedSecret =>
      match p.keyDerivation true ephermalSharedSecret (clientNonce ++ serverNonce) h.connID data
          h.scfg.raw cert [] .server with
      | .error e => ({ h with forwardSecureAEAD := none }, some (.primitive e))
      | .ok aead => ({ h with forwardSecureAEAD := some aead }, none)

theorem deriveKeys_ok {p : ServerPrimitives} {kex : KeyExchange} {h h' : CryptoSetupServer}
    {sharedSecret cert serverNonce data : List UInt8} {cryptoData : TagMap}
    (hok : h.deriveKeys p kex sharedSecret cert serverNonce data cryptoData = (h', none)) :
    ∃ secure forwardSecure,
      h' = { h with secureAEAD := some secure, forwardSecureAEAD := some forwardSecure } := by
  unfold deriveKeys at hok
  simp only at hok
  split at hok
  · cases hok
  rename_i secure _
  split at hok
  · cases hok
  split at hok
  · cases hok
  rename_i forwardSecure _
  cases hok
  exact ⟨secure, forwardSecure, rfl⟩

/-- The SHLO message. -/
def helloReply (h : CryptoSetupServer) (kex : KeyExchange) (serverNonce : List UInt8)
    (helloMap : TagMap) : TagMap := fun tag =>
  if tag = tagPUBS then some kex.publicKey
  else if tag = tagSNO then some serverNonce
  else if tag = tagVER then
    some (h.supportedVersions.flatMap fun v => leBytes 4 (versionNumberToTag v))
  else helloMap tag

/-- `handleCHLO`, with the data of its reply. -/
def handleCHLO (p : ServerPrimitives) (r : ServerReadings) (h : CryptoSetupServer) (sni : String)
    (data : List UInt8) (cryptoData : TagMap) : CryptoSetupServer × Except CryptoError TagMap :=
  match h.scfg.kex.calculateSharedKey ((cryptoData tagPUBS).getD []), h.scfg.getLeafCert sni,
      r.serverNonce, r.diversificationNonce with
  | .error e, _, _, _ => (h, .error (.primitive e))
  | .ok _, .error e, _, _ => (h, .error (.primitive e))
  | .ok _, .ok _, none, _ => (h, .error .random)
  | .ok _, .ok _, some _, none =>
    ({ h with diversificationNonce := List.replicate 32 0 }, .error .random)
  | .ok sharedSecret, .ok cert, some serverNonce, some diversificationNonce =>
    let h := { h with diversificationNonce }
    match h.checkCHLO cryptoData with
    | some e => (h, .error e)
    | none =>
      match h.deriveKeys p r.keyExchange sharedSecret cert serverNonce data cryptoData with
      | (h, some e) => (h, .error e)
      | (h, none) =>
        match p.setFromMap cryptoData, p.getHelloMap cryptoData with
        | some e, _ => (h, .error (.primitive e))
        | none, .error e => (h, .error (.primitive e))
        | none, .ok helloMap => (h, .ok (h.helloReply r.keyExchange serverNonce helloMap))

/-- A CHLO that is answered with a SHLO installs both keys. -/
theorem handleCHLO_ok {p : ServerPrimitives} {r : ServerReadings} {h h' : CryptoSetupServer}
    {sni : String} {data : List UInt8} {cryptoData reply : TagMap}
    (hok : h.handleCHLO p r sni data cryptoData = (h', .ok reply)) :
    ∃ diversificationNonce secure forwardSecure,
      h' = { h with diversificationNonce, secureAEAD := some secure,
                    forwardSecureAEAD := some forwardSecure } := by
  unfold handleCHLO at hok
  split at hok
  · cases hok
  · cases hok
  · cases hok
  · cases hok
  rename_i diversificationNonce _ _ _ _
  simp only at hok
  split at hok
  · cases hok
  split at hok
  · cases hok
  rename_i hkeys
  obtain ⟨secure, forwardSecure, rfl⟩ := deriveKeys_ok hkeys
  split at hok
  · cases hok
  · cases hok
  cases hok
  exact ⟨diversificationNonce, secure, forwardSecure, rfl⟩

section

variable (h : CryptoSetupServer) (src : List UInt8) (packetNumber : Nat)
  (associatedData : List UInt8)

/-- The part of `Open` after the forward secure key. -/
def openSecure : CryptoSetupServer × Except String (List UInt8 × EncryptionLevel) :=
  match h.secureAEAD with
  | none => openNull h h.nullAEAD src packetNumber associatedData
  | some aead =>
    match aead.opener src packetNumber associatedData with
    | .ok data => ({ h with receivedSecurePacket := true }, .ok (data, .secure))
    | .error e =>
      if h.receivedSecurePacket then (h, .error e)
      else openNull h h.nullAEAD src packetNumber associatedData

/-- `Open`. -/
def openMessage : CryptoSetupServer × Except String (List UInt8 × EncryptionLevel) :=
  match h.forwardSecureAEAD with
  | none => h.openSecure src packetNumber associatedData
  | some aead =>
    match aead.opener src packetNumber associatedData with
    | .ok data => ({ h with receivedForwardSecurePacket := true }, .ok (data, .forwardSecure))
    | .error e =>
      if h.receivedForwardSecurePacket then (h, .error e)
      else h.openSecure src packetNumber associatedData

/-- The keys for sealing. -/
def keys : CryptoSetup :=
  ⟨.server, h.secureAEAD.map AEAD.sealer, h.forwardSecureAEAD.map AEAD.sealer⟩

end

end CryptoSetupServer

/-! ### Sample primitives

For runs on given messages. A key opens the packets that start with its byte, and the only
certificate that is valid is valid for `quic.clemente.io`.
-/

namespace Sample

def opener (b : UInt8) : Opener
  | c :: data, _, _ => if c = b then .ok data else .error "message authentication failed"
  | [], _, _ => .error "message authentication failed"

def sealer : AeadAESGCM12 where
  myKey := List.replicate 16 0
  myIV := List.replicate 4 0
  key_length := List.length_replicate
  iv_length := List.length_replicate

def keyDerivation : KeyDerivation := fun forwardSecure _ _ _ _ _ _ _ _ =>
  .ok ⟨sealer, opener (if forwardSecure then 2 else 1)⟩

def kex : KeyExchange := ⟨[9], fun _ => .ok [7]⟩

def x509 : X509 (List UInt8) where
  decompressChain data := some [data]
  parseCertificate := .ok
  raw := id
  verify leafCert _ _ hostname :=
    if leafCert = [1] ∧ hostname = "quic.clemente.io" then none else some "x509: not valid"
  verifyServerProof proof _ _ _ := proof = [5]

def client : ClientPrimitives (List (List UInt8)) where
  certManager := certManager x509 false
  keyDerivation := keyDerivation
  parseServerConfig raw _ := .ok ⟨raw, List.replicate 8 0, 10, kex, [7]⟩
  setFromMap _ := none
  writeCHLO _ := .ok [6]

def server : ServerPrimitives := ⟨keyDerivation, fun _ => none, fun _ => .ok fun _ => none⟩

/-- A message with some tags. -/
def message (tags : List (Tag × List UInt8)) : TagMap := fun tag => tags.lookup tag

end Sample

end RlncStreaming.Quic
