/-
Requests and responses of the HTTP API (`app/api/schemas`).

* the response models, with the checks that `pydantic` makes of the fields whose
  values the stores do not constrain: `textField` and `statusField`;
* `Response`: a success with its body, or an `HTTPException`;
* `RuntimeAuthorizationRequest.validateTarget`: the cleaning of a runtime
  authorization request.
-/
import GofrSec.Domain.Rules
import GofrSec.Services.Token
import GofrSec.Services.UserRegistration

namespace GofrSec

open Text

/-- `GroupResponse`. -/
structure GroupResponse where
  name : String
  description : Option String
  isSystem : Bool
  isActive : Bool
  createdAt : DateTime
  deriving DecidableEq, Repr

/-- `GroupMembershipResponse`. -/
structure GroupMembershipResponse where
  keycloakSub : String
  groupName : String
  grantedAt : DateTime
  grantedBySub : Option String
  deriving DecidableEq, Repr

/-- `TokenMetadataResponse`. -/
structure TokenMetadataResponse where
  tokenId : String
  ownerSub : String
  grantedGroups : List String
  status : String
  issuedAt : DateTime
  expiresAt : Option DateTime
  revokedAt : Option DateTime
  issuedBySub : Option String
  deriving DecidableEq, Repr

/-- `MeRegisterResponse`. -/
structure MeRegisterResponse where
  keycloakSub : String
  displayName : Option String
  email : Option String
  registeredAt : DateTime
  updatedAt : DateTime
  registrationStatus : RegistrationStatus
  deriving DecidableEq, Repr

/-- `MeProfileResponse`. -/
structure MeProfileResponse where
  keycloakSub : String
  isRegistered : Bool
  displayName : Option String
  email : Option String
  registeredAt : Option DateTime
  updatedAt : Option DateTime
  groups : List String
  deriving DecidableEq, Repr

/-- `MeTokenResponse`. -/
structure MeTokenResponse where
  tokenId : String
  grantedGroups : List String
  status : String
  issuedAt : DateTime
  expiresAt : Option DateTime
  revokedAt : Option DateTime
  issuedBySub : Option String
  deriving DecidableEq, Repr

/-- The body of a successful response. -/
inductive Body where
  | group (group : GroupResponse)
  | membership (membership : GroupMembershipResponse)
  | token (metadata : TokenMetadataResponse)
  | minted (metadata : TokenMetadataResponse) (issuedToken : String)
  | registration (registration : MeRegisterResponse)
  | profile (profile : MeProfileResponse)
  | tokens (tokens : List MeTokenResponse)
  | decision (allowed : Bool)
  | document (fields : Doc)
  | noContent

/-- What a route answers. -/
inductive Response where
  | success (status : ℕ) (body : Body)
  | error (status : ℕ) (detail : String)

/-- The status code of a response. -/
def Response.code : Response → ℕ
  | .success status _ => status
  | .error status _ => status

/-! ### The fields of a response -/

/-- A field `str | None`. -/
def textField : Json → Except PyError (Option String)
  | .null => .ok none
  | .str s => .ok (some s)
  | _ => .error (.other "ValidationError" "Input should be a valid string")

/-- A field `Literal["active", "revoked"]`. -/
def statusField (status : String) : Except PyError String :=
  if status = "active" ∨ status = "revoked" then .ok status
  else .error (.other "ValidationError" "Input should be 'active' or 'revoked'")

/-- The body of a group. -/
def groupBody (group : GroupDefinition) : Except PyError Body :=
  .ok (.group
    { name := group.name
      description := group.description
      isSystem := group.isSystem
      isActive := group.isActive
      createdAt := group.createdAt })

/-- The body of a membership. -/
def membershipBody (membership : UserGroupMembership) : Except PyError Body := do
  let grantedBySub ← textField membership.grantedBySub
  return .membership
    { keycloakSub := membership.keycloakSub
      groupName := membership.groupName
      grantedAt := membership.grantedAt
      grantedBySub := grantedBySub }

/-- `_to_metadata_response`. -/
def toMetadataResponse (record : IssuedTokenRecord) : Except PyError TokenMetadataResponse := do
  let status ← statusField record.status
  return {
    tokenId := record.tokenId
    ownerSub := record.ownerSub
    grantedGroups := record.grantedGroups
    status := status
    issuedAt := record.issuedAt
    expiresAt := record.expiresAt
    revokedAt := record.revokedAt
    issuedBySub := record.issuedBySub }

/-- The body of a minted token. -/
def mintedBody (minted : MintedTokenResult) : Except PyError Body := do
  return .minted (← toMetadataResponse minted.record) minted.rawToken

/-- The body of a token record. -/
def tokenBody (record : IssuedTokenRecord) : Except PyError Body := do
  return .token (← toMetadataResponse record)

/-- The body of a registration. -/
def registrationBody (result : RegistrationResult) : Except PyError Body := do
  let displayName ← textField result.profile.displayName
  let email ← textField result.profile.email
  return .registration
    { keycloakSub := result.profile.keycloakSub
      displayName := displayName
      email := email
      registeredAt := result.profile.registeredAt
      updatedAt := result.profile.updatedAt
      registrationStatus := result.registrationStatus }

/-- The body of a profile view. -/
def profileBody (view : MeProfileView) : Except PyError Body := do
  let displayName ← textField view.displayName
  let email ← textField view.email
  return .profile
    { keycloakSub := view.keycloakSub
      isRegistered := view.isRegistered
      displayName := displayName
      email := email
      registeredAt := view.registeredAt
      updatedAt := view.updatedAt
      groups := view.groups }

/-- One token of the caller. -/
def meToken (record : IssuedTokenRecord) : Except PyError MeTokenResponse := do
  let status ← statusField record.status
  return {
    tokenId := record.tokenId
    grantedGroups := record.grantedGroups
    status := status
    issuedAt := record.issuedAt
    expiresAt := record.expiresAt
    revokedAt := record.revokedAt
    issuedBySub := record.issuedBySub }

/-- The body of the caller's tokens. -/
def tokensBody (records : List IssuedTokenRecord) : Except PyError Body := do
  return .tokens (← records.mapM meToken)

/-! ### The runtime authorization request -/

/-- `RuntimeAuthorizationRequestSchema`, before its validator. -/
structure RuntimeAuthorizationRequest where
  tokenId : String
  ownerSub : String
  group : Option String
  resource : Option String
  deriving DecidableEq, Repr

/-- `value.strip() if value and value.strip() else None`. -/
def strippedOrNone (value : Option String) : Option String :=
  value.bind fun s => nonEmpty (strip s)

/-- `validate_target`, as the authorization request that the route makes of its
result; the error is the text of the `ValueError`. -/
def RuntimeAuthorizationRequest.validateTarget (payload : RuntimeAuthorizationRequest) :
    Except String AuthorizationRequest :=
  let tokenId := strip payload.tokenId
  let ownerSub := strip payload.ownerSub
  let group := strippedOrNone payload.group
  let resource := strippedOrNone payload.resource
  if tokenId = "" then .error "token_id is required"
  else if ownerSub = "" then .error "owner_sub is required"
  else if group.isSome = resource.isSome then .error "provide exactly one of group or resource"
  else
    .ok
      { tokenId := tokenId
        ownerSub := some ownerSub
        requestedGroup := group
        requestedResource := resource }

end GofrSec
