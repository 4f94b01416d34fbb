/-
Group and membership management (`app/services/admin_group_service.py`):
`AdminGroupService.create_group`, `add_membership` and `remove_membership`.
-/
import GofrSec.Domain.Rules
import GofrSec.Repositories.Interfaces

namespace GofrSec

open Calls Text

variable (P : Platform)

/-- `AdminGroupService.create_group`. -/
def createGroup (name : String) (description : Option String) (actorSub : String)
    (correlationId : Option String) (clock : Clock) : RepoProg GroupDefinition :=
  let normalizedName := P.lower (strip name)
  audited
    (do
      let validatedName ← Prog.lift (normalizeGroupName P name)
      let reserved ← Prog.lift (isReservedGroup P validatedName)
      if reserved then
        throw (.reservedGroup "The reserved admin group cannot be created via admin APIs")
      else
        let existing ← groupGet validatedName
        if existing.isSome then
          throw (.groupAlreadyExists ("Group already exists: " ++ validatedName))
        else
          let cleanedDescription := description.bind fun d => nonEmpty (strip d)
          groupUpsert
            { name := validatedName
              description := cleanedDescription
              isSystem := false
              isActive := true
              createdAt := clock.now })
    { eventType := "admin.group.create"
      actorSub := actorSub
      groupName := nonEmpty normalizedName
      correlationId := correlationId
      result := "failure"
      occurredAt := clock.occurred }
    fun created =>
      { eventType := "admin.group.create"
        actorSub := actorSub
        groupName := created.name
        correlationId := correlationId
        result := "success"
        occurredAt := clock.occurred }

/-- The group a membership call names: it must exist and be active. -/
def requireActiveGroup (groupName : String) : RepoProg GroupDefinition := do
  match ← groupGet groupName with
  | some group =>
      if group.isActive then pure group
      else throw (.groupNotFound ("Unknown group: " ++ groupName))
  | none => throw (.groupNotFound ("Unknown group: " ++ groupName))

/-- `AdminGroupService._find_membership`. -/
def findMembership (keycloakSub groupName : String) : RepoProg (Option UserGroupMembership) := do
  let memberships ← membershipsForUser keycloakSub
  pure (memberships.find? fun membership => membership.groupName = groupName)

/-- `AdminGroupService.add_membership`. -/
def addMembership (keycloakSub groupName actorSub : String) (correlationId : Option String)
    (clock : Clock) : RepoProg UserGroupMembership :=
  let normalizedGroupName := P.lower (strip groupName)
  audited
    (do
      let validatedGroupName ← Prog.lift (normalizeGroupName P groupName)
      let _ ← requireActiveGroup validatedGroupName
      let registered ← isRegistered keycloakSub
      if registered then
        match ← findMembership keycloakSub validatedGroupName with
        | some existingMembership => pure existingMembership
        | none =>
            membershipAdd
              { keycloakSub := keycloakSub
                groupName := validatedGroupName
                grantedAt := clock.now
                grantedBySub := .str actorSub }
      else throw (.unregisteredUser ("Unknown target user: " ++ keycloakSub)))
    { eventType := "admin.group_membership.add"
      actorSub := actorSub
      subjectSub := keycloakSub
      groupName := nonEmpty normalizedGroupName
      correlationId := correlationId
      result := "failure"
      occurredAt := clock.occurred }
    fun membership =>
      { eventType := "admin.group_membership.add"
        actorSub := actorSub
        subjectSub := keycloakSub
        groupName := membership.groupName
        correlationId := correlationId
        result := "success"
        occurredAt := clock.occurred }

/-- The error of a membership that is not there. -/
def membershipNotFound (keycloakSub groupName : String) : PyError :=
  .groupMembershipNotFound ("Group membership not found: " ++ keycloakSub ++ " -> " ++ groupName)

/-- `AdminGroupService.remove_membership`; it returns the validated group name
that its audit event carries. -/
def removeMembershipBody (keycloakSub groupName : String) : RepoProg String := do
  let validatedGroupName ← Prog.lift (normalizeGroupName P groupName)
  let _ ← requireActiveGroup validatedGroupName
  match ← findMembership keycloakSub validatedGroupName with
  | none => do
      let registered ← isRegistered keycloakSub
      if registered then throw (membershipNotFound keycloakSub validatedGroupName)
      else throw (.unregisteredUser ("Unknown target user: " ++ keycloakSub))
  | some _ => do
      if validatedGroupName = reservedAdminGroup then
        let count ← countMembers reservedAdminGroup
        Prog.lift (ensureAdminMembershipRemains ((count : Int) - 1))
      let removed ← membershipRemove keycloakSub validatedGroupName
      if removed then pure validatedGroupName
      else throw (membershipNotFound keycloakSub validatedGroupName)

/-- `AdminGroupService.remove_membership`. -/
def removeMembership (keycloakSub groupName actorSub : String) (correlationId : Option String)
    (clock : Clock) : RepoProg Unit := do
  let normalizedGroupName := P.lower (strip groupName)
  let _ ← audited (removeMembershipBody P keycloakSub groupName)
    { eventType := "admin.group_membership.remove"
      actorSub := actorSub
      subjectSub := keycloakSub
      groupName := nonEmpty normalizedGroupName
      correlationId := correlationId
      result := "failure"
      occurredAt := clock.occurred }
    fun validatedGroupName =>
      { eventType := "admin.group_membership.remove"
        actorSub := actorSub
        subjectSub := keycloakSub
        groupName := validatedGroupName
        correlationId := correlationId
        result := "success"
        occurredAt := clock.occurred }

end GofrSec
