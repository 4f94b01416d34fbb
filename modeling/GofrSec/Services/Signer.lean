/-
Token signing (`app/services/token_service.py`): the claims of a token, the
published form of a key, and `StaticTokenSigner`.

* `Crypto`: the functions of `cryptography` and `PyJWT` that signing calls;
* `signingClaims`: the claims both signers put into a token;
* `b64urlUint`, `publicKeyToJwk`: a public key as a JSON web key;
* `StaticTokenSigner.load`, `signToken`, `publicKeyDocument`: signing with a key held in
  memory.
-/
import GofrSec.Repositories.Interfaces
import Mathlib.Algebra.Group.Nat.Defs
import Mathlib.Data.List.DropRight
import Mathlib.Data.Nat.Size

namespace GofrSec

/-- The claims of a signed token. -/
structure JwtClaims where
  jti : String
  sub : String
  iss : String
  iat : Int
  nbf : Int
  exp : Option Int
  deriving DecidableEq, Repr

/-- The third-party functions that signing calls. -/
structure Crypto where
  /-- The PEM of the public key of a private key in PEM form:
  `load_pem_private_key(pem.encode("ascii")).public_key().public_bytes(...)`. -/
  publicKeyPem : String → Except PyError String
  /-- `jwt.encode(claims, pem, algorithm=algorithm, headers=headers)`; the
  headers carry the key id if there is one. -/
  jwtEncode : JwtClaims → String → String → Option String → Except PyError String
  /-- `load_pem_public_key(pem.encode("ascii")).public_numbers()`, the modulus and
  the exponent; `none` when the key is not an RSA key. -/
  rsaPublicNumbers : String → Except PyError (Option (ℕ × ℕ))

/-- The claims of a token: both times of issue are the issue time cut to seconds, exactly
so (`DateTime.timestamp`). -/
def signingClaims (issuer : String) (request : SigningRequest) : JwtClaims :=
  { jti := request.tokenId
    sub := request.ownerSub
    iss := issuer
    iat := request.issuedAt.timestamp
    nbf := request.issuedAt.timestamp
    exp := request.expiresAt.map DateTime.timestamp }

/-- `_derive_kid`. -/
def deriveKid (P : Platform) (publicKeyPem : String) : String :=
  String.ofList ((P.sha256 publicKeyPem).toList.take 16)

/-! ### Public keys -/

/-- The alphabet of URL-safe base64. -/
def urlsafeAlphabet : List Char :=
  "ABCDEFGHIJKLMNOPQRSTUVWXYZabcdefghijklmnopqrstuvwxyz0123456789-_".toList

/-- The character of six bits. -/
def urlsafeChar (sextet : ℕ) : Char := urlsafeAlphabet.getD sextet '='

/-- `base64.urlsafe_b64encode(raw)`: four characters for three bytes, the last
ones padded. -/
def urlsafeB64encode : List ℕ → List Char
  | a :: b :: c :: rest =>
      urlsafeChar (a / 4) :: urlsafeChar (a % 4 * 16 + b / 16)
        :: urlsafeChar (b % 16 * 4 + c / 64) :: urlsafeChar (c % 64) :: urlsafeB64encode rest
  | [a, b] =>
      [urlsafeChar (a / 4), urlsafeChar (a % 4 * 16 + b / 16), urlsafeChar (b % 16 * 4), '=']
  | [a] => [urlsafeChar (a / 4), urlsafeChar (a % 4 * 16), '=', '=']
  | [] => []

/-- `value.to_bytes(length, "big")`. -/
def toBytes (value length : ℕ) : List ℕ :=
  (List.range length).reverse.map fun i => value / 256 ^ i % 256

/-- `_b64url_uint`. -/
def b64urlUint (value : ℕ) : String :=
  String.ofList
    ((urlsafeB64encode (toBytes value ((value.size + 7) / 8))).rdropWhile (· == '='))

/-- `_public_key_to_jwk`. -/
def publicKeyToJwk (C : Crypto) (publicKeyPem keyId algorithm : String) :
    Except PyError Doc := do
  match ← C.rsaPublicNumbers publicKeyPem with
  | none =>
      throw (.signingKeyUnavailable "Runtime verification currently requires RSA keys")
  | some (n, e) =>
      return [("kid", .str keyId), ("kty", .str "RSA"), ("alg", .str algorithm),
        ("use", .str "sig"), ("n", .str (b64urlUint n)), ("e", .str (b64urlUint e))]

/-- The document of one key, as both signers publish it. -/
def keyDocument (C : Crypto) (publicKeyPem keyId algorithm : String) : Except PyError Doc := do
  return [("keys", .arr [.obj (← publicKeyToJwk C publicKeyPem keyId algorithm)])]

/-- `StaticTokenSigner`, after its constructor has loaded the key. -/
structure StaticTokenSigner where
  privateKeyPem : String
  publicKeyPem : String
  algorithm : String
  issuer : String
  keyId : String
  deriving DecidableEq, Repr

/-- `StaticTokenSigner.__init__`. -/
def StaticTokenSigner.load (P : Platform) (C : Crypto) (privateKeyPem algorithm issuer : String)
    (keyId : Option String) : Except PyError StaticTokenSigner := do
  let publicKeyPem ← C.publicKeyPem privateKeyPem
  return {
    privateKeyPem := privateKeyPem
    publicKeyPem := publicKeyPem
    algorithm := algorithm
    issuer := issuer
    keyId := (keyId.bind nonEmpty).getD (deriveKid P publicKeyPem) }

/-- `StaticTokenSigner.sign_token`. -/
def StaticTokenSigner.signToken (C : Crypto) (signer : StaticTokenSigner)
    (request : SigningRequest) : Except PyError String :=
  C.jwtEncode (signingClaims signer.issuer request) signer.privateKeyPem signer.algorithm
    (nonEmpty signer.keyId)

/-- `StaticTokenSigner.public_key_document`. -/
def StaticTokenSigner.publicKeyDocument (C : Crypto) (signer : StaticTokenSigner) :
    Except PyError Doc :=
  keyDocument C signer.publicKeyPem signer.keyId signer.algorithm

end GofrSec
