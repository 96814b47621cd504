import RlncStreaming.Quic.Handshake

/-!
What the client has checked when it derives keys (`crypto_setup_client.go`).

A REJ message may bring a server config, a proof and certificates, all of them or some, and later
ones replace those that are there. `serverVerified` is set once and stays. Even so, whatever is
stored has been checked again: new certificates are verified when they arrive, and the proof
whenever there is all that it needs. There are two gaps. `Verify` is called for
`quic.clemente.io` and not for the name of the server, and an empty proof is not verified but
replaces the one that was. Where they do no harm, keys are derived only for the server that
was dialled (`keys_for_dialled_server`).
-/

namespace RlncStreaming.Quic

open Lib Sample

namespace CryptoSetupClient

variable {γ : Type} {p : ClientPrimitives γ} {h h' : CryptoSetupClient γ}
  {past : List ClientInput} {hostname : String}

/-! ### The loop -/

section

variable (p : ClientPrimitives γ)

/-- The loop of `HandleCryptoStream` from one call of `maybeUpgradeCrypto` to the next: the call,
a CHLO if there are no keys, and what is received then. -/
def iterate (s : CryptoSetupClient γ × Option CryptoError) (input : ClientInput)
    : CryptoSetupClient γ × Option CryptoError :=
  andThen (andThen s (upgradeOrSend p)) fun h => h.receive p input

/-- `maybeUpgradeCrypto` derives the secure keys. -/
def Derives (h : CryptoSetupClient γ) : Prop :=
  h.secureAEAD.isNone = true ∧ (h.maybeUpgradeCrypto p).1.secureAEAD.isSome = true

/-- The chain is the CERT value of a REJ message, and was valid for the name when that arrived. -/
def ChainVerified (inputs : List ClientInput) (certs : γ) (hostname : String) : Prop :=
  ∃ r data crt before, .rej r data ∈ inputs ∧ data tagCERT = some crt ∧
    p.certManager.setData before crt = .ok certs ∧ p.certManager.verify certs r.now hostname = none

/-- The proof is one for the certificates and the server config that are stored. -/
def ProofVerified (h : CryptoSetupClient γ) : Prop :=
  ∃ serverConfig, h.serverConfig = some serverConfig ∧
    p.certManager.verifyServerProof h.certs h.proof h.chloForSignature serverConfig.raw = true

/-- While the loop runs without keys, a chain that is valid for `quic.clemente.io` is valid for the
server that was dialled, too, and no empty proof follows one that was verified. -/
def Fits (s : CryptoSetupClient γ × Option CryptoError) : ClientInput → Prop
  | .rej r data => s.2 = none → s.1.secureAEAD = none →
      (∀ crt certs, data tagCERT = some crt → p.certManager.setData s.1.certs crt = .ok certs →
        p.certManager.verify certs r.now "quic.clemente.io" = none →
          p.certManager.verify certs r.now s.1.hostname = none) ∧
      (s.1.serverVerified = true → data tagPROF ≠ some [])
  | _ => True

end

/-! ### What has been checked -/

theorem ChainVerified.append {inputs : List ClientInput} {certs : γ}
    (hverified : ChainVerified p inputs certs hostname) (more : List ClientInput) :
    ChainVerified p (inputs ++ more) certs hostname := by
  obtain ⟨r, data, crt, before, hmem, hrest⟩ := hverified
  exact ⟨r, data, crt, before, List.mem_append_left more hmem, hrest⟩

/-- The chain has been verified if there is one; so has the proof, once `serverVerified` is set, if
there is all that it needs. -/
structure Checked (p : ClientPrimitives γ) (hostname : String) (inputs : List ClientInput)
    (h : CryptoSetupClient γ) : Prop where
  dialled : h.hostname = hostname
  chain : (p.certManager.getLeafCert h.certs).isSome = true →
    ChainVerified p inputs h.certs hostname
  nonempty : h.serverVerified = true → h.proof ≠ []
  proof : h.serverVerified = true → h.serverConfig.isSome = true →
    (p.certManager.getLeafCert h.certs).isSome = true → ProofVerified p h

theorem checked_new (connID : Nat)
    (negotiatedVersions : List Int) (nullAEAD : Opener) :
    Checked p hostname [] (.new p hostname connID negotiatedVersions nullAEAD) := by
  refine ⟨rfl, fun hleaf => ?_, nofun, nofun⟩
  change (p.certManager.getLeafCert p.certManager.new).isSome = true at hleaf
  rw [p.certManager.getLeafCert_new] at hleaf
  cases hleaf

theorem Checked.append (hchecked : Checked p hostname past h) (input : ClientInput) :
    Checked p hostname (past ++ [input]) h :=
  ⟨hchecked.dialled, fun hleaf => (hchecked.chain hleaf).append [input], hchecked.nonempty,
    hchecked.proof⟩

/-- Keys are derived with a server config and a certificate, from a server that was verified. -/
theorem Derives.ready (hderives : Derives p h) :
    h.serverVerified = true ∧ h.serverConfig.isSome = true ∧
      (p.certManager.getLeafCert h.certs).isSome = true := by
  obtain ⟨hnone, hsome⟩ := hderives
  rw [Option.isNone_iff_eq_none] at hnone
  unfold maybeUpgradeCrypto at hsome
  simp only [hnone] at hsome
  split at hsome
  · simp [hnone] at hsome
  rename_i hverified
  split at hsome
  · next serverConfig _ hconfig =>
    split at hsome
    · next hready =>
      obtain ⟨-, -, hleaf, -⟩ := hready
      refine ⟨by simpa using hverified, by rw [hconfig]; rfl, ?_⟩
      cases hcert : p.certManager.getLeafCert h.certs with
      | none => simp [hcert] at hleaf
      | some leafCert => rfl
    · simp [hnone] at hsome
  · simp [hnone] at hsome

/-! ### REJ messages -/

/-- A chain that is accepted has been verified for `quic.clemente.io`. -/
theorem takeCertificates_ok {r : ClientReadings} {data : TagMap}
    (hok : h.takeCertificates p r data = (h', none)) :
    (data tagCERT = none ∧ h' = h) ∨
      ∃ crt certs, data tagCERT = some crt ∧ p.certManager.setData h.certs crt = .ok certs ∧
        p.certManager.verify certs r.now "quic.clemente.io" = none ∧ h' = { h with certs } := by
  unfold takeCertificates at hok
  split at hok
  · next hnone =>
    cases hok
    exact .inl ⟨hnone, rfl⟩
  rename_i crt hcrt
  split at hok
  · cases hok
  rename_i certs hcerts
  obtain ⟨rfl, herror⟩ := Prod.mk.inj hok
  split at herror
  · cases herror
  · next hverify => exact .inr ⟨crt, certs, hcrt, hcerts, hverify, rfl⟩

/-- The proof is verified with what is stored, unless it is empty. -/
theorem checked_checkProof (hok : h.checkProof p = (h', none)) (hdialled : h.hostname = hostname)
    (hchain : (p.certManager.getLeafCert h.certs).isSome = true →
      ChainVerified p past h.certs hostname)
    (hnonempty : h.serverVerified = true → h.proof ≠ []) :
    Checked p hostname past h' := by
  unfold checkProof at hok
  split at hok
  · next serverConfig leafCert hconfig hleaf =>
    split at hok
    · next hempty =>
      cases hok
      exact ⟨hdialled, hchain, hnonempty, fun hverified => absurd hempty (hnonempty hverified)⟩
    rename_i hproof
    split at hok
    · next hvalid =>
      cases hok
      exact ⟨hdialled, hchain, fun _ => hproof, fun _ _ _ => ⟨serverConfig, hconfig, hvalid⟩⟩
    · cases hok
  · next hmissing =>
    cases hok
    refine ⟨hdialled, hchain, hnonempty, fun _ hconfig hleaf => ?_⟩
    obtain ⟨serverConfig, hconfig⟩ := Option.isSome_iff_exists.mp hconfig
    obtain ⟨leafCert, hleaf⟩ := Option.isSome_iff_exists.mp hleaf
    exact absurd hleaf (hmissing serverConfig leafCert hconfig)

theorem checked_handleREJMessage {r : ClientReadings} {data : TagMap}
    (hchecked : Checked p hostname past h)
    (hchain : ∀ crt certs, data tagCERT = some crt → p.certManager.setData h.certs crt = .ok certs →
      p.certManager.verify certs r.now "quic.clemente.io" = none →
        p.certManager.verify certs r.now h.hostname = none)
    (hempty : h.serverVerified = true → data tagPROF ≠ some [])
    (hok : h.handleREJMessage p r data = (h', none)) :
    Checked p hostname (past ++ [.rej r data]) h' := by
  obtain ⟨h₁, hconfig, hok⟩ := andThen_ok hok
  obtain ⟨h₂, hcerts, hok⟩ := andThen_ok hok
  obtain ⟨serverConfig, nonc, heq⟩ := takeServerConfig_fst p r
    { h with stk := (data tagSTK).getD h.stk, sno := (data tagSNO).getD h.sno } data
  rw [hconfig] at heq
  simp only at heq
  subst heq
  obtain ⟨chlo, hproof⟩ := takeProof_eq
    { h with stk := (data tagSTK).getD h.stk, sno := (data tagSNO).getD h.sno, serverConfig, nonc }
    data
  rw [hproof] at hcerts
  have hnonempty : h.serverVerified = true → (data tagPROF).getD h.proof ≠ [] := by
    intro hverified
    cases htag : data tagPROF with
    | none => exact hchecked.nonempty hverified
    | some proof =>
      rintro rfl
      exact hempty hverified htag
  rcases takeCertificates_ok hcerts with ⟨hnone, rfl⟩ | ⟨crt, certs, htag, hset, hverify, rfl⟩
  · apply checked_checkProof hok hchecked.dialled _ hnonempty
    intro hleaf
    exact (hchecked.chain hleaf).append _
  apply checked_checkProof hok hchecked.dialled _ hnonempty
  intro hleaf
  refine ⟨r, data, crt, h.certs, List.mem_append_right past List.mem_cons_self, htag, hset, ?_⟩
  rw [← hchecked.dialled]
  exact hchain crt certs htag hset hverify

/-! ### Runs -/

/-- Nothing that the checks are about is changed by a CHLO message. -/
theorem upgradeOrSend_ok (hok : h.upgradeOrSend p = (h', none)) :
    ∃ secureAEAD lastSentCHLO clientHelloCounter,
      h' = { h with secureAEAD, lastSentCHLO, clientHelloCounter } := by
  obtain ⟨h₁, hupgrade, hok⟩ := andThen_ok hok
  obtain ⟨secureAEAD, heq, -⟩ := maybeUpgradeCrypto_fst p h
  rw [hupgrade] at heq
  simp only at heq
  subst heq
  split at hok
  · obtain ⟨lastSentCHLO, counter, heq⟩ := sendCHLO_fst p { h with secureAEAD }
    rw [hok] at heq
    exact ⟨secureAEAD, lastSentCHLO, counter, heq⟩
  · cases hok
    exact ⟨secureAEAD, _, _, rfl⟩

/-- Only a REJ message changes it. -/
theorem receive_ok {input : ClientInput} (hrej : ∀ r data, input ≠ .rej r data)
    (hok : h.receive p input = (h', none)) : ∃ diversificationNonce sno forwardSecureAEAD,
      h' = { h with diversificationNonce, sno, forwardSecureAEAD } := by
  cases input with
  | divNonce divNonce =>
    obtain ⟨nonce, heq⟩ := takeDivNonce_fst h divNonce
    change h.takeDivNonce divNonce = (h', none) at hok
    rw [hok] at heq
    exact ⟨nonce, _, _, heq⟩
  | rej r data => exact absurd rfl (hrej r data)
  | shlo data =>
    obtain ⟨sno, aead, heq, -⟩ := handleSHLOMessage_fst p h data
    change h.handleSHLOMessage p data = (h', none) at hok
    rw [hok] at heq
    exact ⟨_, sno, aead, heq⟩
  | otherMessage => cases hok
  | malformed reason => cases hok

/-- One turn of the loop. Without keys after it there were none before, either. -/
theorem checked_turn {h₁ : CryptoSetupClient γ} {input : ClientInput}
    (hinv : h.secureAEAD = none → Checked p hostname past h) (hfits : Fits p (h, none) input)
    (hsend : h.upgradeOrSend p = (h₁, none)) (hreceive : h₁.receive p input = (h', none))
    (hnone : h'.secureAEAD = none) : Checked p hostname (past ++ [input]) h' := by
  have hkept : Advances h₁ (h₁.receive p input).1 := by
    apply advances_receive
    rintro data rfl
    exact congrArg Prod.snd hreceive
  rw [hreceive] at hkept
  have hsent := advances_upgradeOrSend (p := p) h
  rw [hsend] at hsent
  have hnone₁ := hkept.secure_none hnone
  have hchecked := hinv (hsent.secure_none hnone₁)
  obtain ⟨_, _, _, rfl⟩ := upgradeOrSend_ok hsend
  by_cases hrej : ∃ r data, input = .rej r data
  · obtain ⟨r, data, rfl⟩ := hrej
    obtain ⟨hchain, hempty⟩ := hfits rfl (hsent.secure_none hnone₁)
    apply checked_handleREJMessage _ _ _ hreceive
    exacts [{ hchecked with }, hchain, hempty]
  · have hother : ∀ r data, input ≠ .rej r data := fun r data heq => hrej ⟨r, data, heq⟩
    obtain ⟨_, _, _, rfl⟩ := receive_ok hother hreceive
    have hkept := hchecked.append input
    exact { hkept with }

/-- Whenever `maybeUpgradeCrypto` derives the secure keys, the chain that is stored was valid for
the server that was dialled, and the proof that is stored has been verified. -/
theorem keys_for_dialled_server (p : ClientPrimitives γ) (hostname : String) (connID : Nat)
    (negotiatedVersions : List Int) (nullAEAD : Opener) (inputs : List ClientInput)
    (hfits : AllFit (iterate p) (Fits p)
      (.new p hostname connID negotiatedVersions nullAEAD, none) inputs)
    (h : CryptoSetupClient γ)
    (hreached : run (iterate p) (.new p hostname connID negotiatedVersions nullAEAD, none) inputs =
      (h, none))
    (hderives : Derives p h) :
    ChainVerified p inputs h.certs hostname ∧ ProofVerified p h := by
  have hinv := run_inv (Fits p)
    (fun past s => s.2 = none → s.1.secureAEAD = none → Checked p hostname past s.1)
    ?_ inputs [] _ (fun _ _ => checked_new connID negotiatedVersions nullAEAD) hfits
  · rw [hreached] at hinv
    have hchecked := hinv rfl (Option.isNone_iff_eq_none.mp hderives.1)
    obtain ⟨hverified, hconfig, hleaf⟩ := hderives.ready
    exact ⟨hchecked.chain hleaf, hchecked.proof hverified hconfig hleaf⟩
  intro past s input hinv hfit hok hnone
  obtain ⟨h₁, hsend, hreceive⟩ := andThen_ok (Prod.ext rfl hok)
  obtain ⟨h₀, rfl, hsend⟩ := andThen_ok hsend
  exact checked_turn (hinv rfl) hfit hsend hreceive hnone

end CryptoSetupClient

namespace Sample

/-- The state and the error of a new client that dials a server and then receives the inputs. -/
def dial (hostname : String) (inputs : List ClientInput) :
    CryptoSetupClient (List (List UInt8)) × Option CryptoError :=
  run (CryptoSetupClient.iterate client) (.new client hostname 1 [] (opener 0), none) inputs

/-- A REJ message with some tags. -/
def rej (tags : List (Tag × List UInt8)) : ClientInput :=
  .rej ⟨1, [], some (List.replicate 20 0)⟩ (message tags)

/-- A REJ message with all that the client needs, and the nonce. -/
def completeREJ : List ClientInput :=
  [rej [(tagSCFG, [4]), (tagPROF, [5]), (tagCERT, [1])], .divNonce [3]]

/-- Another server config follows, with an empty proof. -/
def replacedConfig : List ClientInput :=
  [rej [(tagSCFG, [4]), (tagPROF, [5]), (tagCERT, [1])], rej [(tagSCFG, [44]), (tagPROF, [])],
    .divNonce [3]]

end Sample

namespace CryptoSetupClient

theorem keys_for_dialled_server_clemente :
    ChainVerified Sample.client Sample.completeREJ [[1]] "quic.clemente.io" ∧
      ProofVerified Sample.client (Sample.dial "quic.clemente.io" Sample.completeREJ).1 := by
  have hfits : AllFit (iterate client) (Fits client)
      (.new client "quic.clemente.io" 1 [] (opener 0), none) completeREJ :=
    .cons (fun _ _ => ⟨fun _ _ _ _ hvalid => hvalid, nofun⟩) (.cons trivial .nil)
  exact keys_for_dialled_server client "quic.clemente.io" 1 [] (opener 0)
    completeREJ hfits (dial "quic.clemente.io" completeREJ).1 rfl ⟨rfl, rfl⟩

/-- Another server gets keys with a certificate for `quic.clemente.io`; and a server config
that nobody has signed is used after an empty proof. -/
theorem keys_for_other_server :
    ((Sample.dial "example.com" Sample.completeREJ).2 = none ∧
      Derives Sample.client (Sample.dial "example.com" Sample.completeREJ).1 ∧
      ¬ ChainVerified Sample.client Sample.completeREJ
        (Sample.dial "example.com" Sample.completeREJ).1.certs "example.com") ∧
    ((Sample.dial "quic.clemente.io" Sample.replacedConfig).2 = none ∧
      Derives Sample.client (Sample.dial "quic.clemente.io" Sample.replacedConfig).1 ∧
      ¬ ProofVerified Sample.client (Sample.dial "quic.clemente.io" Sample.replacedConfig).1) := by
  refine ⟨⟨rfl, ⟨rfl, rfl⟩, ?_⟩, rfl, ⟨rfl, rfl⟩, ?_⟩
  · rintro ⟨r, data, crt, before, -, -, -, hvalid⟩
    change some "x509: not valid" = none at hvalid
    cases hvalid
  · rintro ⟨serverConfig, -, hvalid⟩
    change false = true at hvalid
    cases hvalid

end CryptoSetupClient

end RlncStreaming.Quic
