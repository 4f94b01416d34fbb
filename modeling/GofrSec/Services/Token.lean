/-
Token lifecycle (`app/services/token_service.py`): `AdminTokenService.mint_token`,
`get_token`, `revoke_token` and `UserTokenService.list_self_tokens`.

The token id that `uuid4().hex` draws is an argument of `mintToken`.
-/
import GofrSec.Domain.Rules
import GofrSec.Repositories.Interfaces
import Mathlib.Data.List.Sort

namespace GofrSec

open Calls

variable (P : Platform)

/-- `MintedTokenResult`. -/
structure MintedTokenResult where
  record : IssuedTokenRecord
  rawToken : String
  deriving DecidableEq, Repr

/-- The arguments of `mint_token`, with the configured default lifetime and
the token id that the call draws. -/
structure MintRequest where
  ownerSub : String
  groups : List String
  actorSub : String
  correlationId : Option String
  expiresInSeconds : Option Int
  defaultLifetimeSeconds : Int
  tokenId : String
  deriving DecidableEq, Repr

/-- The effective lifetime of a mint. -/
def MintRequest.lifetimeSeconds (request : MintRequest) : Int :=
  request.expiresInSeconds.getD request.defaultLifetimeSeconds

/-- The loop of `_validate_groups`; `seen` holds the names looked up so far. -/
def lookUpGroups (seen : List String) : List String → RepoProg (List String)
  | [] => pure []
  | groupName :: groupNames =>
      if groupName ∈ seen then lookUpGroups seen groupNames
      else do
        match ← groupGet groupName with
        | some group =>
            if group.isActive then
              let uniqueGroups ← lookUpGroups (groupName :: seen) groupNames
              pure (groupName :: uniqueGroups)
            else throw (.groupNotFound ("Unknown group: " ++ groupName))
        | none => throw (.groupNotFound ("Unknown group: " ++ groupName))

/-- `AdminTokenService._validate_groups`. -/
def validateGroups (groups : List String) : RepoProg (List String) := do
  let normalizedGroups ← Prog.lift (ensureRuntimeGroupsAllowed P groups)
  if normalizedGroups = [] then
    throw (.valueError "At least one runtime group is required")
  else lookUpGroups [] normalizedGroups

/-- `hashlib.sha256(raw_token.encode("ascii")).hexdigest()`; the encoding
raises a `UnicodeEncodeError`, a `ValueError`, on a character beyond ASCII. -/
def jwtHash (rawToken : String) : Except PyError String :=
  if rawToken.toList.all fun c => c.toNat < 128 then .ok (P.sha256 rawToken)
  else .error (.valueError "'ascii' codec can't encode character: ordinal not in range(128)")

/-- The `try` block of `AdminTokenService.mint_token`. -/
def mintTokenBody (request : MintRequest) (issuedAt : DateTime) :
    RepoProg (IssuedTokenRecord × String) := do
  let registered ← isRegistered request.ownerSub
  if registered then
    let grantedGroups ← validateGroups P request.groups
    if request.lifetimeSeconds ≤ 0 then
      throw (.valueError "Token expiry must be greater than zero seconds")
    else
      let expiresAt ← Prog.lift (issuedAt.addSeconds request.lifetimeSeconds)
      let rawToken ← signToken
        { tokenId := request.tokenId
          ownerSub := request.ownerSub
          issuedAt := issuedAt
          expiresAt := some expiresAt }
      let hash ← Prog.lift (jwtHash P rawToken)
      let record ← tokenUpsert
        { tokenId := request.tokenId
          ownerSub := request.ownerSub
          grantedGroups := grantedGroups
          status := "active"
          issuedAt := issuedAt
          expiresAt := some expiresAt
          issuedBySub := some request.actorSub
          jwtHash := some hash
          pendingReveal := false
          revokedAt := none }
      pure (record, rawToken)
  else throw (.unregisteredUser ("Unknown target user: " ++ request.ownerSub))

/-- `AdminTokenService.mint_token`. -/
def mintToken (request : MintRequest) (clock : Clock) : RepoProg MintedTokenResult := do
  let minted ← audited (mintTokenBody P request clock.now)
    { eventType := "admin.token.mint"
      actorSub := request.actorSub
      subjectSub := request.ownerSub
      correlationId := request.correlationId
      result := "failure"
      occurredAt := clock.occurred }
    fun minted =>
      { eventType := "admin.token.mint"
        actorSub := request.actorSub
        subjectSub := request.ownerSub
        tokenId := minted.1.tokenId
        correlationId := request.correlationId
        result := "success"
        occurredAt := clock.occurred }
  pure { record := minted.1, rawToken := minted.2 }

/-- `AdminTokenService._get_token_or_raise`. -/
def getTokenOrRaise (tokenId : String) : RepoProg IssuedTokenRecord := do
  match ← tokenGet tokenId with
  | some record => pure record
  | none => throw (.tokenNotFound ("Unknown token: " ++ tokenId))

/-- `AdminTokenService.get_token`. -/
def getToken (tokenId actorSub : String) (correlationId : Option String) (clock : Clock) :
    RepoProg IssuedTokenRecord :=
  audited (getTokenOrRaise tokenId)
    { eventType := "admin.token.inspect"
      actorSub := actorSub
      tokenId := tokenId
      correlationId := correlationId
      result := "failure"
      occurredAt := clock.occurred }
    fun record =>
      { eventType := "admin.token.inspect"
        actorSub := actorSub
        tokenId := tokenId
        subjectSub := record.ownerSub
        correlationId := correlationId
        result := "success"
        occurredAt := clock.occurred }

/-- The revoked copy of a record, built field by field. -/
def revokedRecord (current : IssuedTokenRecord) (revokedAt : DateTime) : IssuedTokenRecord :=
  { tokenId := current.tokenId
    ownerSub := current.ownerSub
    grantedGroups := current.grantedGroups
    status := "revoked"
    issuedAt := current.issuedAt
    expiresAt := current.expiresAt
    issuedBySub := current.issuedBySub
    jwtHash := current.jwtHash
    pendingReveal := current.pendingReveal
    revokedAt := some revokedAt }

/-- The `try` block of `AdminTokenService.revoke_token`. -/
def revokeTokenBody (tokenId : String) (now : DateTime) : RepoProg IssuedTokenRecord := do
  let current ← getTokenOrRaise tokenId
  if current.status = "revoked" then pure current
  else tokenUpsert (revokedRecord current now)

/-- `AdminTokenService.revoke_token`. -/
def revokeToken (tokenId actorSub : String) (correlationId : Option String) (clock : Clock) :
    RepoProg IssuedTokenRecord :=
  audited (revokeTokenBody tokenId clock.now)
    { eventType := "admin.token.revoke"
      actorSub := actorSub
      tokenId := tokenId
      correlationId := correlationId
      result := "failure"
      occurredAt := clock.occurred }
    fun revoked =>
      { eventType := "admin.token.revoke"
        actorSub := actorSub
        tokenId := tokenId
        subjectSub := revoked.ownerSub
        correlationId := correlationId
        result := "success"
        occurredAt := clock.occurred }

/-- `sorted(records, key=lambda record: record.issued_at, reverse=True)`: a
stable sort, the latest first. -/
def sortByIssuedAt (records : List IssuedTokenRecord) : List IssuedTokenRecord :=
  records.insertionSort fun a b => b.issuedAt ≤ a.issuedAt

/-- `UserTokenService.list_self_tokens`. -/
def listSelfTokens (identity : VerifiedIdentity) (correlationId : Option String) (clock : Clock) :
    RepoProg (List IssuedTokenRecord) :=
  audited
    (do
      let records ← tokensForUser identity.subject
      pure (sortByIssuedAt records))
    { eventType := "user.token.list"
      actorSub := identity.subject
      subjectSub := identity.subject
      correlationId := correlationId
      result := "failure"
      occurredAt := clock.occurred }
    fun _ =>
      { eventType := "user.token.list"
        actorSub := identity.subject
        subjectSub := identity.subject
        correlationId := correlationId
        result := "success"
        occurredAt := clock.occurred }

end GofrSec
