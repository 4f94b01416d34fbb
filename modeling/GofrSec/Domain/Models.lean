/-
The domain models of `app/domain/models.py`.

The fields are those of the dataclasses. A field whose Vault decoder passes on
whatever the document holds, without a check, is a `Json` value, `Json.null`
standing for `None`; the other optional fields are an `Option`.
-/
import GofrSec.Domain.Platform
import GofrSec.Json

namespace GofrSec

/-- A GOFR group definition. -/
structure GroupDefinition where
  name : String
  description : Option String
  isSystem : Bool
  isActive : Bool
  createdAt : DateTime
  deriving DecidableEq, Repr

/-- A registered GOFR user keyed by Keycloak sub. -/
structure UserProfile where
  keycloakSub : String
  registeredAt : DateTime
  updatedAt : DateTime
  displayName : Json
  email : Json

/-- A user's membership in a GOFR group. -/
structure UserGroupMembership where
  keycloakSub : String
  groupName : String
  grantedAt : DateTime
  grantedBySub : Json

/-- Canonical metadata for an issued GOFR JWT. -/
structure IssuedTokenRecord where
  tokenId : String
  ownerSub : String
  grantedGroups : List String
  status : String
  issuedAt : DateTime
  expiresAt : Option DateTime
  issuedBySub : Option String
  jwtHash : Option String
  pendingReveal : Bool
  revokedAt : Option DateTime
  deriving DecidableEq, Repr

/-- A runtime authorization request after local signature validation. -/
structure AuthorizationRequest where
  tokenId : String
  ownerSub : Option String
  requestedGroup : Option String
  requestedResource : Option String
  deriving DecidableEq, Repr

/-- A yes-or-no authorization result. -/
structure AuthorizationDecision where
  allowed : Bool
  deriving DecidableEq, Repr

/-- An internal audit record for admin or runtime actions. -/
structure AuditEvent where
  eventType : String
  actorSub : Option String := none
  subjectSub : Option String := none
  groupName : Option String := none
  tokenId : Option String := none
  resource : Option String := none
  correlationId : Option String := none
  result : String
  occurredAt : DateTime
  deriving DecidableEq, Repr

/-- A verified Keycloak identity: its subject and the claims of its token. -/
structure VerifiedIdentity where
  subject : String
  claims : Doc

/-- The readings of the clock that one operation takes: `now` is the value of
`now or utc_now()` and of the timestamps its new records get by default,
`occurred` that of the audit event it appends. -/
structure Clock where
  now : DateTime
  occurred : DateTime
  deriving DecidableEq, Repr

end GofrSec
