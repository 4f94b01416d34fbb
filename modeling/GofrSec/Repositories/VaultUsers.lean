/-
Vault-backed user profiles (`app/repositories/vault_users.py`).

* `listKnownUserIds`: the users with anything stored below the users root;
* `getRecord`: the `get` that the repositories share;
* `VaultUserRepository.get`, `upsert`, `isRegistered`.
-/
import GofrSec.Repositories.VaultDeployment
import Mathlib.Data.List.Sort
import Mathlib.Data.String.Basic

namespace GofrSec

open Calls Text

variable (P : Platform) (D : VaultDeployment)

/-- `sorted({key.rstrip("/") for key in keys if key.rstrip("/")})`. -/
def userIdsOf (keys : List String) : List String :=
  ((keys.map rstripSlash).filter (· ≠ "")).dedup.insertionSort (· ≤ ·)

/-- `list_known_user_ids`. -/
def listKnownUserIds : VaultProg (List String) := do
  let keys ← listSecrets D.paths.usersRoot
  pure (userIdsOf keys)

/-- What the `get` methods make of the document they read. -/
def decodeRecord {α : Type} (deserialize : Doc → Except PyError α) :
    Option Doc → Except PyError (Option α)
  | none => .ok none
  | some data => do return some (← deserialize data)

/-- The `get` of a repository: read the document of a record and decode it. -/
def getRecord {α : Type} (path : String) (deserialize : Doc → Except PyError α) :
    VaultProg (Option α) := do
  let data ← readSecret path
  Prog.lift (decodeRecord deserialize data)

namespace VaultUserRepository

/-- `VaultUserRepository.get`. -/
def get (keycloakSub : String) : VaultProg (Option UserProfile) :=
  getRecord (D.paths.userProfilePath keycloakSub) (deserializeProfile P D.now)

/-- `VaultUserRepository.upsert`. -/
def upsert (profile : UserProfile) : VaultProg UserProfile := do
  writeSecret (D.paths.userProfilePath profile.keycloakSub) (serializeProfile P profile)
  pure profile

/-- `VaultUserRepository.is_registered`. -/
def isRegistered (keycloakSub : String) : VaultProg Bool :=
  secretExists (D.paths.userProfilePath keycloakSub)

end VaultUserRepository

end GofrSec
