/-
Every published key verifies every JWT.

* `SharedVault.signingKey`: the key of a deployment, from its signer or from the document that
  is in Vault at the start;
* `SharedVault.Signs`, `SharedVault.Shows`: a JWT that is signed with it, and a document that
  publishes it;
* `yields_vaultProgram`, `yields_mintTokenBody`, `yields_activity`: what the signer, a mint and a
  request return where the signing key is read as it is at the start;
* `handedOut`, `published`: the token or the document that a step of a run answers with;
* `published_key_verifies`: whatever server processes do, the key that any of them publishes
  belongs to the key that every JWT is signed with.
-/
import GofrSec.Calls.Conclusions
import GofrSec.Properties.MintRoute
import GofrSec.Properties.PublicKeys
import GofrSec.Properties.SharedAccess
import GofrSec.Repositories.VaultViews

namespace GofrSec

open Calls

/-! ### Signers -/

/-- The key that the signer holds. -/
def StaticTokenSigner.material (signer : StaticTokenSigner) : LoadedSigningMaterial :=
  { privateKeyPem := signer.privateKeyPem
    publicKeyPem := signer.publicKeyPem
    keyId := signer.keyId }

namespace TokenSigner

/-- The algorithm that a signer signs with. -/
def algorithm : TokenSigner → String
  | .static signer => signer.algorithm
  | .vault signer => signer.algorithm

/-- The signer has been made by its constructor. -/
def Loaded (P : Platform) (C : Crypto) : TokenSigner → Prop
  | .static signer => ∃ keyId, StaticTokenSigner.load P C signer.privateKeyPem signer.algorithm
      signer.issuer keyId = .ok signer
  | .vault _ => True

end TokenSigner

/-- What the signer was asked to sign for a token with this metadata. -/
def TokenMetadataResponse.signing (metadata : TokenMetadataResponse) : SigningRequest :=
  { tokenId := metadata.tokenId
    ownerSub := metadata.ownerSub
    issuedAt := metadata.issuedAt
    expiresAt := metadata.expiresAt }

/-- What the signer was asked to sign for a token with this record. -/
def IssuedTokenRecord.signing (record : IssuedTokenRecord) : SigningRequest :=
  { tokenId := record.tokenId
    ownerSub := record.ownerSub
    issuedAt := record.issuedAt
    expiresAt := record.expiresAt }

lemma signing_toMetadataResponse {record : IssuedTokenRecord} {metadata : TokenMetadataResponse}
    (h : toMetadataResponse record = .ok metadata) : metadata.signing = record.signing := by
  obtain ⟨status, -, hmetadata⟩ := except_bind_eq_ok h
  rw [← Except.ok.inj hmetadata]
  rfl

/-- The JSON web key shows the numbers of a key pair that signs the claims as this JWT, under
its id and algorithm. -/
def Verifies (C : Crypto) (jwk : Doc) (claims : JwtClaims) (raw : String) : Prop :=
  ∃ privateKeyPem publicKeyPem keyId algorithm n e,
    C.publicKeyPem privateKeyPem = .ok publicKeyPem
      ∧ C.rsaPublicNumbers publicKeyPem = .ok (some (n, e))
      ∧ C.jwtEncode claims privateKeyPem algorithm (nonEmpty keyId) = .ok raw
      ∧ jwk.field "kid" = some (.str keyId) ∧ jwk.field "alg" = some (.str algorithm)
      ∧ jwkUint jwk "n" = some n ∧ jwkUint jwk "e" = some e

namespace SharedVault

variable (V : SharedVault)

/-- The key that the deployment signs with. -/
def signingKey : Except PyError LoadedSigningMaterial :=
  match V.deployment.signer with
  | .static signer => .ok signer.material
  | .vault signer =>
      signingMaterial V.platform V.deployment signer (V.start.read signer.vaultPath)

/-- The text is a JWT for the request, signed with the key of the deployment. -/
def Signs (request : SigningRequest) (raw : String) : Prop :=
  ∃ key, V.signingKey = .ok key
    ∧ V.deployment.crypto.jwtEncode (signingClaims V.deployment.signer.issuer request)
      key.privateKeyPem V.deployment.signer.algorithm (nonEmpty key.keyId) = .ok raw

/-- The document publishes the key of the deployment. -/
def Shows (keys : Doc) : Prop :=
  ∃ key, V.signingKey = .ok key
    ∧ keyDocument V.deployment.crypto key.publicKeyPem key.keyId V.deployment.signer.algorithm
      = .ok keys

/-- The signing key is read as it is at the start. -/
def ReadsKey : (i : VaultCall) → i.Res → Prop
  | .readSecret path, d => V.deployment.signer.keyPath = some path → d = V.start.read path
  | _, _ => True

/-- The signer signs with that key and publishes it, and a token is stored as it is. -/
def UsesKey : (c : RepoCall) → c.Res → Prop
  | .signToken request, raw => V.Signs request raw
  | .publicKeyDocument, keys => V.Shows keys
  | .tokenUpsert record, stored => stored = record
  | _, _ => True

variable {V}

omit V in
lemma yields_true {ι α : Type} {ρ : ι → Type} {Can : (i : ι) → ρ i → Prop}
    (p : Prog ι ρ PyError α) : p.Yields Can fun _ => True :=
  (Prog.returns_true p).yields

/-- The signing material that is loaded is the key of the deployment. -/
lemma yields_loadSigningMaterial {signer : VaultTokenSigner}
    (hsigner : V.deployment.signer = .vault signer) :
    (signer.loadSigningMaterial V.platform V.deployment).Yields V.ReadsKey
      fun key => V.signingKey = .ok key := by
  refine (Prog.yields_perform (VaultCall.readSecret signer.vaultPath)).bind fun d hd => ?_
  refine Prog.yields_lift fun key hkey => ?_
  have hpath : V.deployment.signer.keyPath = some signer.vaultPath := by
    rw [hsigner]
    rfl
  rw [signingKey, hsigner]
  show signingMaterial _ _ signer (V.start.read signer.vaultPath) = _
  rw [← hd hpath, hkey]

/-- **A repository call uses the key of the deployment.** -/
theorem yields_vaultProgram (c : RepoCall) :
    (vaultProgram V.platform V.deployment c).Yields V.ReadsKey (V.UsesKey c) := by
  cases c with
  | signToken request =>
      show (V.deployment.signer.signToken V.platform V.deployment request).Yields _ _
      cases hsigner : V.deployment.signer with
      | static signer =>
          refine Prog.yields_lift fun raw hraw => ⟨signer.material, ?_, ?_⟩
          · rw [signingKey, hsigner]
          · rw [hsigner]
            exact hraw
      | vault signer =>
          refine (yields_loadSigningMaterial hsigner).bind fun key hkey => ?_
          refine Prog.yields_lift fun raw hraw => ⟨key, hkey, ?_⟩
          rw [hsigner]
          exact hraw
  | publicKeyDocument =>
      show (V.deployment.signer.publicKeyDocument V.platform V.deployment).Yields _ _
      cases hsigner : V.deployment.signer with
      | static signer =>
          refine Prog.yields_lift fun keys hkeys => ⟨signer.material, ?_, ?_⟩
          · rw [signingKey, hsigner]
          · rw [hsigner]
            exact hkeys
      | vault signer =>
          refine (yields_loadSigningMaterial hsigner).bind fun key hkey => ?_
          refine Prog.yields_lift fun keys hkeys => ⟨key, hkey, ?_⟩
          rw [hsigner]
          exact hkeys
  | tokenUpsert record =>
      show (VaultTokenRepository.upsert V.platform V.deployment record).Yields _ _
      rw [VaultTokenRepository.upsert_eq]
      refine (yields_true _).bind fun previous _ => (yields_true _).bind fun _ _ => ?_
      exact rfl
  | _ => exact yields_true _

/-! ### What a request returns -/

section

variable {α : Type} {A : α → Prop}

lemma yields_audited {body : RepoProg α} {failure : AuditEvent} {success : α → AuditEvent}
    (h : body.Yields V.UsesKey A) : (audited body failure success).Yields V.UsesKey A :=
  h.handle (fun _ ha => (yields_true _).bind fun _ _ => ha) fun _ =>
    (yields_true _).bind fun _ _ => trivial

lemma yields_respond {service : RepoProg α} {statusOf : PyError → Option ℕ} {success : ℕ}
    {body : α → Except PyError Body} {B : Response → Prop} (h : service.Yields V.UsesKey A)
    (hsuccess : ∀ a b, A a → body a = .ok b → B (.success success b))
    (herror : ∀ status detail, B (.error status detail)) :
    (respond service statusOf success body).Yields V.UsesKey B := by
  refine h.handle (fun a ha => Prog.yields_lift fun response hresponse => ?_) fun e => ?_
  · cases hbody : body a with
    | error e =>
        rw [hbody] at hresponse
        cases hresponse
    | ok b =>
        rw [hbody] at hresponse
        rw [← Except.ok.inj hresponse]
        exact hsuccess a b ha hbody
  · dsimp only
    cases statusOf e with
    | some status => exact herror _ _
    | none => trivial

lemma yields_requireAdminIdentity {identity : VerifiedIdentity} {route : RepoProg Response}
    {B : Response → Prop} (h : route.Yields V.UsesKey B)
    (herror : ∀ status detail, B (.error status detail)) :
    (requireAdminIdentity identity route).Yields V.UsesKey B := by
  refine (yields_true _).bind fun member _ => ?_
  cases member with
  | true => exact h
  | false => exact herror _ _

lemma yields_withTokenSigner {app : AppState} {route : RepoProg Response} {B : Response → Prop}
    (h : route.Yields V.UsesKey B) (herror : ∀ status detail, B (.error status detail)) :
    (withTokenSigner app route).Yields V.UsesKey B := by
  rw [withTokenSigner]
  split_ifs
  · exact h
  · exact herror _ _

end

/-- **A mint signs what it stores.** -/
theorem yields_mintTokenBody (P : Platform) (request : MintRequest) (issuedAt : DateTime) :
    (mintTokenBody P request issuedAt).Yields V.UsesKey
      fun minted => V.Signs minted.1.signing minted.2 := by
  refine (yields_true _).bind fun registered _ => ?_
  cases registered with
  | false => trivial
  | true =>
      rw [if_pos rfl]
      refine (yields_true _).bind fun grantedGroups _ => ?_
      split_ifs with hlifetime
      · trivial
      refine (yields_true _).bind fun expiresAt _ => ?_
      refine (Prog.yields_perform (RepoCall.signToken _)).bind fun raw hraw => ?_
      refine (yields_true _).bind fun hash _ => ?_
      refine (Prog.yields_perform (RepoCall.tokenUpsert _)).bind fun record hrecord => ?_
      obtain rfl := hrecord
      exact hraw

/-- The JWT that a mint hands out is signed with the key of the deployment, for the metadata
that comes with it, and what is published is that key. -/
def Vouches (V : SharedVault) : Activity → Outcome → Prop
  | .serve _ (.createToken ..), .response (.success _ (.minted metadata raw)) =>
      V.Signs metadata.signing raw
  | .serve _ .getRuntimePublicKeys, .response (.success _ (.document keys)) => V.Shows keys
  | _, _ => True

/-- **Every activity vouches for what it returns.** -/
theorem yields_activity (P : Platform) (a : Activity) :
    (a.prog P).Yields V.UsesKey (V.Vouches a) := by
  cases a with
  | startUp subjects createdAt grantedAt => exact (yields_true _).bind fun _ _ => trivial
  | serve app q =>
      cases q with
      | createToken identity keycloakSub groups expiresInSeconds tokenId correlationId clock =>
          refine Prog.Yields.bind (A := fun response =>
            V.Vouches (.serve app (.createToken identity keycloakSub groups expiresInSeconds tokenId
              correlationId clock)) (.response response)) ?_ fun _ h => h
          refine yields_requireAdminIdentity (yields_withTokenSigner ?_ fun _ _ => trivial)
            fun _ _ => trivial
          refine yields_respond (A := fun minted => V.Signs minted.record.signing minted.rawToken)
            ?_ (fun minted b hsigns hbody => ?_) fun _ _ => trivial
          · exact (yields_audited (yields_mintTokenBody P _ clock.now)).bind fun _ h => h
          · obtain ⟨metadata, hmetadata, hbody⟩ := except_bind_eq_ok hbody
            rw [← Except.ok.inj hbody]
            show V.Signs metadata.signing minted.rawToken
            rw [signing_toMetadataResponse hmetadata]
            exact hsigns
      | getRuntimePublicKeys =>
          refine Prog.Yields.bind (A := fun response =>
            V.Vouches (.serve app .getRuntimePublicKeys) (.response response)) ?_ fun _ h => h
          refine yields_withTokenSigner ?_ fun _ _ => trivial
          refine yields_respond (Prog.yields_perform RepoCall.publicKeyDocument)
            (fun keys b hshows hbody => ?_) fun _ _ => trivial
          rw [← Except.ok.inj hbody]
          exact hshows
      | _ => exact (yields_true _).bind fun _ _ => trivial

/-! ### Key pairs -/

lemma publicKeyPem_of_signingMaterial {P : Platform} {D : VaultDeployment}
    {signer : VaultTokenSigner} {secret : Option Doc} {key : LoadedSigningMaterial}
    (h : signingMaterial P D signer secret = .ok key) :
    D.crypto.publicKeyPem key.privateKeyPem = .ok key.publicKeyPem := by
  cases secret with
  | none => cases h
  | some d =>
      cases hfield : d.getOrNone "private_key_pem" with
      | str pem =>
          simp only [signingMaterial, hfield] at h
          split_ifs at h with hblank
          obtain ⟨publicKeyPem, hload, hkey⟩ := except_bind_eq_ok h
          rw [← Except.ok.inj hkey]
          exact hload
      | _ => simp only [signingMaterial, hfield, reduceCtorEq] at h

/-- The public key of the deployment is that of its private key. -/
lemma publicKeyPem_signingKey
    (hloaded : V.deployment.signer.Loaded V.platform V.deployment.crypto)
    {key : LoadedSigningMaterial} (h : V.signingKey = .ok key) :
    V.deployment.crypto.publicKeyPem key.privateKeyPem = .ok key.publicKeyPem := by
  rw [signingKey] at h
  cases hsigner : V.deployment.signer with
  | static signer =>
      rw [hsigner] at h hloaded
      obtain ⟨keyId, hload⟩ := hloaded
      obtain ⟨publicKeyPem, hpem, hsame⟩ := except_bind_eq_ok hload
      rw [← Except.ok.inj h, StaticTokenSigner.material, hpem, ← Except.ok.inj hsame]
  | vault signer =>
      rw [hsigner] at h
      exact publicKeyPem_of_signingMaterial h

/-- A document of the deployment has one key, which verifies what the deployment signs. -/
lemma verifies_of_signs (hloaded : V.deployment.signer.Loaded V.platform V.deployment.crypto)
    {request : SigningRequest} {raw : String} {keys : Doc} (hsigns : V.Signs request raw)
    (hshows : V.Shows keys) :
    ∃ jwk, keys = [("keys", .arr [.obj jwk])]
      ∧ Verifies V.deployment.crypto jwk
        (signingClaims V.deployment.signer.issuer request) raw := by
  obtain ⟨key, hkey, hraw⟩ := hsigns
  obtain ⟨_, hsame, hkeys⟩ := hshows
  obtain rfl := Except.ok.inj (hkey.symm.trans hsame)
  obtain ⟨jwk, hjwk, hdocument⟩ := except_bind_eq_ok hkeys
  refine ⟨jwk, (Except.ok.inj hdocument).symm, ?_⟩
  obtain ⟨numbers, hnumbers, hjwk⟩ := except_bind_eq_ok hjwk
  cases numbers with
  | none => cases hjwk
  | some numbers =>
      obtain rfl := Except.ok.inj hjwk
      refine ⟨_, _, _, _, _, _, publicKeyPem_signingKey hloaded hkey, hnumbers, hraw, ?_⟩
      simp [jwkUint, Doc.field, findEntry, Json.asString, readUint_b64urlUint]

/-! ### Runs -/

/-- The signing key is not below the folders of the service, which is left to what is. -/
def KeyApart (V : SharedVault) : Prop :=
  ∀ k, V.deployment.signer.keyPath = some k → ¬ V.deployment.Owns k

/-- The document of the signing key is as it is at the start. -/
def KeepsKey (V : SharedVault) (w : VaultWorld) : Prop :=
  ∀ k, V.deployment.signer.keyPath = some k → w.read k = V.start.read k

/-- Calls within the folders of the service leave the signing key alone. -/
lemma keepsKey_act (hapart : V.KeyApart) {i : VaultCall} {w w' : VaultWorld}
    {r : Except PyError i.Res} (hi : i.Within V.deployment.Owns) (hkeeps : V.KeepsKey w)
    (hact : V.act i w r w') : V.KeepsKey w' ∧ ∀ v, r = .ok v → V.ReadsKey i v := by
  rcases hact with hexec | ⟨-, ⟨e, rfl⟩, rfl⟩
  · have hexec : V.server.exec i w = (r, w') := hexec
    have hsame : (V.server.exec i w).2.SameAt (fun k => V.deployment.signer.keyPath = some k) w :=
      sameAt_exec (fun k hk hkey => hapart k hkey (hi k hk)) w
    rw [hexec] at hsame
    refine ⟨fun k hk => (hsame.read hk).trans (hkeeps k hk), ?_⟩
    rintro v rfl
    cases i with
    | readSecret path =>
        intro hpath
        rw [← hkeeps path hpath]
        exact (Except.ok.inj (congrArg Prod.fst hexec)).symm
    | _ => trivial
  · refine ⟨hkeeps, ?_⟩
    rintro v ⟨⟩

end SharedVault

/-! ### What processes hand out and publish -/

/-- The token that the step hands out: its metadata and the JWT. -/
def handedOut {π : Type} : ServerEvent π → Option (TokenMetadataResponse × String)
  | .finish _ (.serve _ (.createToken ..)) (.ok (.response (.success _ (.minted metadata raw)))) =>
      some (metadata, raw)
  | _ => none

/-- The document that the step publishes. -/
def published {π : Type} : ServerEvent π → Option Doc
  | .finish _ (.serve _ .getRuntimePublicKeys) (.ok (.response (.success _ (.document keys)))) =>
      some keys
  | _ => none

section

variable {π : Type} {V : SharedVault} {e : ServerEvent π}

lemma signs_of_handedOut {metadata : TokenMetadataResponse} {raw : String}
    (h : handedOut e = some (metadata, raw))
    (hvouches : ∀ p a r, e = .finish p a (.ok r) → V.Vouches a r) :
    V.Signs metadata.signing raw := by
  unfold handedOut at h
  split at h
  · obtain ⟨rfl, rfl⟩ := Prod.mk.inj (Option.some.inj h)
    exact hvouches _ _ _ rfl
  · cases h

lemma shows_of_published {keys : Doc} (h : published e = some keys)
    (hvouches : ∀ p a r, e = .finish p a (.ok r) → V.Vouches a r) : V.Shows keys := by
  unfold published at h
  split at h
  · obtain rfl := Option.some.inj h
    exact hvouches _ _ _ rfl
  · cases h

end

variable {π : Type} [DecidableEq π]

/-- **Every published key verifies every JWT.** Let server processes share a Vault, their
client calls interleaved in any way and raising wherever they may, and the signing key lie
outside the folders of the service. Then whatever document any process publishes, and whatever
JWT any process hands out, before or after: the document has one key, under the id and for the
algorithm of that JWT, and it belongs to the private key that signed it, for the claims that the
metadata of the token say. -/
theorem published_key_verifies (V : SharedVault)
    (hloaded : V.deployment.signer.Loaded V.platform V.deployment.crypto)
    (hapart : V.KeyApart) {todo : π → List Activity}
    {S : System π Activity VaultCall VaultCall.Res PyError Outcome VaultWorld}
    (hserves : V.Serves todo S) {e e' : ServerEvent π} (he : e ∈ S.ledger) (he' : e' ∈ S.ledger)
    {metadata : TokenMetadataResponse} {raw : String} {keys : Doc}
    (hminted : handedOut e = some (metadata, raw)) (hpublished : published e' = some keys) :
    ∃ jwk, keys = [("keys", .arr [.obj jwk])]
      ∧ Verifies V.deployment.crypto jwk
        (signingClaims V.deployment.signer.issuer metadata.signing) raw := by
  have hreturns : ∀ p a r, .finish p a (.ok r) ∈ S.ledger → V.Vouches a r :=
    Reachable.yields (I := V.KeepsKey)
      (fun a => Prog.uses_translate (uses_vaultProgram_folders V.platform V.deployment) _)
      (fun i w r w' hi hkeeps hact => SharedVault.keepsKey_act hapart hi hkeeps hact)
      (fun a => (SharedVault.yields_activity V.platform a).translate
        SharedVault.yields_vaultProgram)
      (fun k hk => rfl) hserves
  have hsigns : V.Signs metadata.signing raw :=
    signs_of_handedOut hminted fun p a r heq => hreturns p a r (heq ▸ he)
  have hshows : V.Shows keys :=
    shows_of_published hpublished fun p a r heq => hreturns p a r (heq ▸ he')
  exact SharedVault.verifies_of_signs hloaded hsigns hshows

/-- The signer in memory has loaded its key. -/
lemma loaded_python : (TokenSigner.static .python).Loaded .python .python := by
  refine ⟨some "runtime", ?_⟩
  have hload : Crypto.python.publicKeyPem StaticTokenSigner.python.privateKeyPem
      = .ok runtimePublicKeyPem := if_pos rfl
  rw [StaticTokenSigner.load, hload]
  rfl

/-- A process starts up, `root` creates a group and mints a token of it for `alice`, who has
registered at another one, which publishes the key. -/
def keyedServers : Bool → List Activity
  | true => [.startUp ["root"] newYear.now fun _ => newYear.now,
      .serve ⟨true, 60⟩ (.createGroup (keycloakUser "root") "team" none none newYear),
      .serve ⟨true, 60⟩ (.createToken (keycloakUser "root") "alice" ["team"] none
        teamMint.tokenId none newYear)]
  | false => [.serve ⟨true, 60⟩ (.registerMe (keycloakUser "alice") none newYear),
      .serve ⟨true, 60⟩ .getRuntimePublicKeys]

/-- They take turns, call by call. -/
def keyedServersRun : System Bool Activity VaultCall VaultCall.Res PyError Outcome VaultWorld :=
  SharedVault.python.serveSchedule keyedServers (List.replicate 26 [true, false]).flatten

/-- One hands out a token, the other the key that verifies it. -/
theorem published_key_verifies_keyedServers :
    ∃ metadata raw jwk, keyedServersRun.ledger.filterMap handedOut = [(metadata, raw)]
      ∧ keyedServersRun.ledger.filterMap published = [[("keys", .arr [.obj jwk])]]
      ∧ Verifies .python jwk
        (signingClaims "gofr-sec" metadata.signing) raw := by
  have hserves : SharedVault.python.Serves keyedServers keyedServersRun :=
    SharedVault.python.serves_serveSchedule _ _
  have hapart : SharedVault.python.KeyApart := by
    rintro k ⟨⟩
  have hminted : (keyedServersRun.ledger.filterMap handedOut).length = 1 := by
    decide +kernel
  have hpublished : (keyedServersRun.ledger.filterMap published).length = 1 := by
    decide +kernel
  obtain ⟨⟨metadata, raw⟩, htokens⟩ := List.length_eq_one_iff.mp hminted
  obtain ⟨keys, hkeys⟩ := List.length_eq_one_iff.mp hpublished
  obtain ⟨e, he, htoken⟩ :=
    List.mem_filterMap.mp (htokens ▸ List.mem_singleton_self (metadata, raw))
  obtain ⟨e', he', hkey⟩ := List.mem_filterMap.mp (hkeys ▸ List.mem_singleton_self keys)
  obtain ⟨jwk, rfl, hverifies⟩ := published_key_verifies SharedVault.python loaded_python hapart
    hserves he he' htoken hkey
  exact ⟨metadata, raw, jwk, htokens, hkeys, hverifies⟩

end GofrSec
