/-
The repository protocols of `app/repositories/interfaces.py`, and the token
signer, as the calls a service makes.

* `RepoCall`: one constructor for each repository method that a service calls,
  for `TokenSigner.sign_token` and `public_key_document`, and for
  `AuditEventRepository.append`;
* `RepoProg`: programs over these calls, the language of the services;
* `audited`: the `try`/`except` frame all services share, which appends one
  audit event for a failure and one for a success.
-/
import GofrSec.Calls.Program
import GofrSec.Domain.Models

namespace GofrSec

open Calls

/-- The arguments of `TokenSigner.sign_token`. -/
structure SigningRequest where
  tokenId : String
  ownerSub : String
  issuedAt : DateTime
  expiresAt : Option DateTime
  deriving DecidableEq, Repr

/-- The repository and signer methods that the services call. -/
inductive RepoCall where
  | profileGet (keycloakSub : String)
  | profileUpsert (profile : UserProfile)
  | isRegistered (keycloakSub : String)
  | groupGet (name : String)
  | groupUpsert (group : GroupDefinition)
  | membershipAdd (membership : UserGroupMembership)
  | membershipRemove (keycloakSub groupName : String)
  | hasMembership (keycloakSub groupName : String)
  | membershipsForUser (keycloakSub : String)
  | countMembers (groupName : String)
  | tokenGet (tokenId : String)
  | tokenUpsert (record : IssuedTokenRecord)
  | tokensForUser (ownerSub : String)
  | signToken (request : SigningRequest)
  | publicKeyDocument
  | auditAppend (event : AuditEvent)

/-- What a call returns. -/
abbrev RepoCall.Res : RepoCall → Type
  | .profileGet _ => Option UserProfile
  | .profileUpsert _ => UserProfile
  | .isRegistered _ => Bool
  | .groupGet _ => Option GroupDefinition
  | .groupUpsert _ => GroupDefinition
  | .membershipAdd _ => UserGroupMembership
  | .membershipRemove _ _ => Bool
  | .hasMembership _ _ => Bool
  | .membershipsForUser _ => List UserGroupMembership
  | .countMembers _ => ℕ
  | .tokenGet _ => Option IssuedTokenRecord
  | .tokenUpsert _ => IssuedTokenRecord
  | .tokensForUser _ => List IssuedTokenRecord
  | .signToken _ => String
  | .publicKeyDocument => Doc
  | .auditAppend _ => Unit

/-- The calls that reach a store or the signer, and that may therefore raise;
the audit sink is kept in the process. -/
def RepoCall.mayFail : RepoCall → Prop
  | .auditAppend _ => False
  | _ => True

/-- Programs over the repository calls. -/
abbrev RepoProg : Type → Type := Prog RepoCall RepoCall.Res PyError

/-- One repository call. -/
abbrev RepoCall.perform (c : RepoCall) : RepoProg c.Res := Prog.perform c

/-- `repository.get(keycloak_sub)` of the user profiles. -/
abbrev profileGet (keycloakSub : String) : RepoProg (Option UserProfile) :=
  RepoCall.perform (.profileGet keycloakSub)

/-- `repository.upsert(profile)`. -/
abbrev profileUpsert (profile : UserProfile) : RepoProg UserProfile :=
  RepoCall.perform (.profileUpsert profile)

/-- `repository.is_registered(keycloak_sub)`. -/
abbrev isRegistered (keycloakSub : String) : RepoProg Bool :=
  RepoCall.perform (.isRegistered keycloakSub)

/-- `repository.get(name)` of the groups. -/
abbrev groupGet (name : String) : RepoProg (Option GroupDefinition) :=
  RepoCall.perform (.groupGet name)

/-- `repository.upsert(group)`. -/
abbrev groupUpsert (group : GroupDefinition) : RepoProg GroupDefinition :=
  RepoCall.perform (.groupUpsert group)

/-- `repository.add(membership)`. -/
abbrev membershipAdd (membership : UserGroupMembership) : RepoProg UserGroupMembership :=
  RepoCall.perform (.membershipAdd membership)

/-- `repository.remove(keycloak_sub, group_name)`. -/
abbrev membershipRemove (keycloakSub groupName : String) : RepoProg Bool :=
  RepoCall.perform (.membershipRemove keycloakSub groupName)

/-- `repository.has_membership(keycloak_sub, group_name)`. -/
abbrev hasMembership (keycloakSub groupName : String) : RepoProg Bool :=
  RepoCall.perform (.hasMembership keycloakSub groupName)

/-- `repository.list_for_user(keycloak_sub)` of the memberships. -/
abbrev membershipsForUser (keycloakSub : String) : RepoProg (List UserGroupMembership) :=
  RepoCall.perform (.membershipsForUser keycloakSub)

/-- `repository.count_members(group_name)`. -/
abbrev countMembers (groupName : String) : RepoProg ℕ :=
  RepoCall.perform (.countMembers groupName)

/-- `repository.get(token_id)` of the tokens. -/
abbrev tokenGet (tokenId : String) : RepoProg (Option IssuedTokenRecord) :=
  RepoCall.perform (.tokenGet tokenId)

/-- `repository.upsert(record)`. -/
abbrev tokenUpsert (record : IssuedTokenRecord) : RepoProg IssuedTokenRecord :=
  RepoCall.perform (.tokenUpsert record)

/-- `repository.list_for_user(owner_sub)` of the tokens. -/
abbrev tokensForUser (ownerSub : String) : RepoProg (List IssuedTokenRecord) :=
  RepoCall.perform (.tokensForUser ownerSub)

/-- `token_signer.sign_token(...)`. -/
abbrev signToken (request : SigningRequest) : RepoProg String :=
  RepoCall.perform (.signToken request)

/-- `token_signer.public_key_document()`. -/
abbrev publicKeyDocument : RepoProg Doc := RepoCall.perform .publicKeyDocument

/-- `audit_repository.append(event)`. -/
abbrev auditAppend (event : AuditEvent) : RepoProg Unit :=
  RepoCall.perform (.auditAppend event)

/-- The frame of a service method: on an exception append `failure` and raise
it again, otherwise append `success` of the result and return it. -/
def audited {α : Type} (body : RepoProg α) (failure : AuditEvent) (success : α → AuditEvent) :
    RepoProg α :=
  body.handle fun
    | .ok a => do
        auditAppend (success a)
        pure a
    | .error e => do
        auditAppend failure
        throw e

/-- `value or None` of a string. -/
def nonEmpty (s : String) : Option String := if s = "" then none else some s

end GofrSec
