/-
A deployment over Vault, and the signer that loads its key from there
(`VaultTokenSigner` of `app/services/token_service.py`).

* `VaultDeployment`: the path layout, the signer, and what the repositories
  take from their environment: the clock and the order of a `set`;
* `VaultTokenSigner.signToken`, `publicKeyDocument`: signing with a key from Vault;
* `TokenSigner.signToken`, `publicKeyDocument`: with the key that the deployment's
  signer has.
-/
import GofrSec.Repositories.VaultClient
import GofrSec.Repositories.VaultCodec
import GofrSec.Repositories.VaultPaths
import GofrSec.Services.Signer

namespace GofrSec

open Calls Text

/-- `VaultTokenSigner`. -/
structure VaultTokenSigner where
  vaultPath : String
  algorithm : String
  issuer : String
  deriving DecidableEq, Repr

/-- The signer of a deployment. -/
inductive TokenSigner where
  | static (signer : StaticTokenSigner)
  | vault (signer : VaultTokenSigner)
  deriving DecidableEq, Repr

/-- A deployment over Vault. -/
structure VaultDeployment where
  paths : VaultPathLayout
  signer : TokenSigner
  crypto : Crypto
  /-- What `datetime.now(timezone.utc)` reads when a document lacks a time. -/
  now : DateTime
  /-- The order in which Python iterates over a `set` of strings. -/
  iterate : List String → List String
  iterate_perm : ∀ l, (iterate l).Perm l

variable (P : Platform) (D : VaultDeployment)

/-! ### Signing with a key from Vault -/

/-- `_LoadedSigningMaterial`. -/
structure LoadedSigningMaterial where
  privateKeyPem : String
  publicKeyPem : String
  keyId : String

/-- What `_load_signing_material` makes of the secret it reads. -/
def signingMaterial (signer : VaultTokenSigner) (secret : Option Doc) :
    Except PyError LoadedSigningMaterial :=
  match secret with
  | none =>
      .error (.signingKeyUnavailable
        ("Signing key secret is missing from Vault: " ++ signer.vaultPath))
  | some secret =>
      let invalid : PyError := .signingKeyUnavailable
        ("Signing key secret is invalid at Vault path: " ++ signer.vaultPath)
      match secret.getOrNone "private_key_pem" with
      | .str privateKeyPem =>
          if strip privateKeyPem = "" then .error invalid
          else do
            let publicKeyPem ← D.crypto.publicKeyPem privateKeyPem
            let keyId := match secret.getOrNone "kid" with
              | .str keyId => if strip keyId = "" then deriveKid P publicKeyPem else keyId
              | _ => deriveKid P publicKeyPem
            return {
              privateKeyPem := privateKeyPem
              publicKeyPem := publicKeyPem
              keyId := keyId }
      | _ => .error invalid

/-- `VaultTokenSigner._load_signing_material`. -/
def VaultTokenSigner.loadSigningMaterial (signer : VaultTokenSigner) :
    VaultProg LoadedSigningMaterial := do
  let secret ← readSecret signer.vaultPath
  Prog.lift (signingMaterial P D signer secret)

/-- `VaultTokenSigner.sign_token`. -/
def VaultTokenSigner.signToken (signer : VaultTokenSigner) (request : SigningRequest) :
    VaultProg String := do
  let material ← signer.loadSigningMaterial P D
  Prog.lift (D.crypto.jwtEncode (signingClaims signer.issuer request) material.privateKeyPem
    signer.algorithm (nonEmpty material.keyId))

/-- `VaultTokenSigner.public_key_document`. -/
def VaultTokenSigner.publicKeyDocument (signer : VaultTokenSigner) : VaultProg Doc := do
  let material ← signer.loadSigningMaterial P D
  Prog.lift (keyDocument D.crypto material.publicKeyPem material.keyId signer.algorithm)

/-- `sign_token` of the deployment's signer. -/
def TokenSigner.signToken (signer : TokenSigner) (request : SigningRequest) : VaultProg String :=
  match signer with
  | .static signer => Prog.lift (signer.signToken D.crypto request)
  | .vault signer => signer.signToken P D request

/-- `public_key_document` of the deployment's signer. -/
def TokenSigner.publicKeyDocument (signer : TokenSigner) : VaultProg Doc :=
  match signer with
  | .static signer => Prog.lift (signer.publicKeyDocument D.crypto)
  | .vault signer => signer.publicKeyDocument P D

end GofrSec
