/-
Self-registration and profile reads (`app/services/user_registration_service.py`):
`UserRegistrationService.register_self` and `get_self_profile`.
-/
import GofrSec.Repositories.Interfaces
import GofrSec.Text
import Mathlib.Data.List.Sort
import Mathlib.Data.String.Basic

namespace GofrSec

open Calls Text

/-- `_string_claim`: a claim that is a string and not blank, or `None`. -/
def stringClaim (claims : Doc) (name : String) : Json :=
  match claims.field name with
  | some (.str value) => if strip value = "" then .null else .str value
  | _ => .null

/-- Whether a registration made a profile or refreshed one. -/
inductive RegistrationStatus where
  | created
  | refreshed
  deriving DecidableEq, Repr

/-- The text of a registration status. -/
def RegistrationStatus.text : RegistrationStatus → String
  | .created => "created"
  | .refreshed => "refreshed"

/-- `RegistrationResult`. -/
structure RegistrationResult where
  profile : UserProfile
  registrationStatus : RegistrationStatus

/-- `MeProfileView`. -/
structure MeProfileView where
  keycloakSub : String
  isRegistered : Bool
  displayName : Json
  email : Json
  registeredAt : Option DateTime
  updatedAt : Option DateTime
  groups : List String

/-- `value or other` of two JSON values. -/
def orElse (value other : Json) : Json := if value.truthy then value else other

/-- The profile that a registration stores, given the one stored before. -/
def refreshedProfile (existing : Option UserProfile) (identity : VerifiedIdentity)
    (timestamp : DateTime) : UserProfile :=
  let displayName := stringClaim identity.claims "name"
  let email := stringClaim identity.claims "email"
  match existing with
  | some old =>
      { keycloakSub := identity.subject
        registeredAt := old.registeredAt
        updatedAt := timestamp
        displayName := orElse displayName old.displayName
        email := orElse email old.email }
  | none =>
      { keycloakSub := identity.subject
        registeredAt := timestamp
        updatedAt := timestamp
        displayName := displayName
        email := email }

/-- `UserRegistrationService.register_self`. The read of the stored profile
stands outside the guarded block. -/
def registerSelf (identity : VerifiedIdentity) (correlationId : Option String) (clock : Clock) :
    RepoProg RegistrationResult := do
  let existing ← profileGet identity.subject
  let registrationStatus :=
    if existing.isNone then RegistrationStatus.created else RegistrationStatus.refreshed
  let savedProfile ← audited (profileUpsert (refreshedProfile existing identity clock.now))
    { eventType := "user.registration"
      actorSub := identity.subject
      subjectSub := identity.subject
      correlationId := correlationId
      result := "failure"
      occurredAt := clock.occurred }
    fun _ =>
      { eventType := "user.registration"
        actorSub := identity.subject
        subjectSub := identity.subject
        correlationId := correlationId
        result := registrationStatus.text
        occurredAt := clock.occurred }
  pure { profile := savedProfile, registrationStatus := registrationStatus }

/-- `UserRegistrationService.get_self_profile`. -/
def getSelfProfile (identity : VerifiedIdentity) : RepoProg MeProfileView := do
  let profile ← profileGet identity.subject
  let memberships ← membershipsForUser identity.subject
  let groups := (memberships.map UserGroupMembership.groupName).insertionSort (· ≤ ·)
  match profile with
  | none =>
      pure
        { keycloakSub := identity.subject
          isRegistered := false
          displayName := .null
          email := .null
          registeredAt := none
          updatedAt := none
          groups := groups }
  | some profile =>
      pure
        { keycloakSub := profile.keycloakSub
          isRegistered := true
          displayName := profile.displayName
          email := profile.email
          registeredAt := some profile.registeredAt
          updatedAt := some profile.updatedAt
          groups := groups }

end GofrSec
