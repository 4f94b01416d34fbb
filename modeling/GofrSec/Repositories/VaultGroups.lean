/-
Vault-backed groups and memberships (`app/repositories/vault_groups.py`).

All memberships of a user live in one document, `membershipsDoc`, which `add`
and `remove` read, edit and write back whole; `membershipsOf` decodes it and
`countMembers` decodes the documents of all known users.
-/
import GofrSec.Repositories.VaultUsers

namespace GofrSec

open Calls

variable (P : Platform) (D : VaultDeployment)

namespace VaultGroupRepository

/-- `VaultGroupRepository.get`. -/
def get (name : String) : VaultProg (Option GroupDefinition) :=
  getRecord (D.paths.groupDefinitionPath name) (deserializeGroup P D.now)

/-- `VaultGroupRepository.upsert`. -/
def upsert (group : GroupDefinition) : VaultProg GroupDefinition := do
  writeSecret (D.paths.groupDefinitionPath group.name) (serializeGroup P group)
  pure group

end VaultGroupRepository

/-- The items of a list that are dictionaries. -/
def dictItems (items : List Json) : List Doc :=
  items.filterMap fun
    | .obj fields => some fields
    | _ => none

/-- What `_load_memberships` makes of the document it reads. -/
def membershipsOf (now : DateTime) : Option Doc → Except PyError (List UserGroupMembership)
  | none => .ok []
  | some [] => .ok []
  | some data =>
      match (data.field "memberships").getD (.arr []) with
      | .arr items => (dictItems items).mapM (deserializeMembership P now)
      | _ => .ok []

/-- `sorted(memberships, key=lambda membership: membership.group_name)`. -/
def sortByGroupName (memberships : List UserGroupMembership) : List UserGroupMembership :=
  memberships.insertionSort fun a b => a.groupName ≤ b.groupName

/-- The document that holds the memberships of a user. -/
def membershipsDoc (keycloakSub : String) (memberships : List UserGroupMembership) : Doc :=
  [("keycloak_sub", .str keycloakSub),
    ("memberships", .arr ((sortByGroupName memberships).map fun membership =>
      .obj (serializeMembership P membership)))]

namespace VaultGroupMembershipRepository

/-- `VaultGroupMembershipRepository._load_memberships`. -/
def loadMemberships (keycloakSub : String) : VaultProg (List UserGroupMembership) := do
  let data ← readSecret (D.paths.userGroupsPath keycloakSub)
  Prog.lift (membershipsOf P D.now data)

/-- `VaultGroupMembershipRepository._store_memberships`. -/
def storeMemberships (keycloakSub : String) (memberships : List UserGroupMembership) :
    VaultProg Unit :=
  match memberships with
  | [] => do let _ ← deleteSecret (D.paths.userGroupsPath keycloakSub)
  | _ => writeSecret (D.paths.userGroupsPath keycloakSub) (membershipsDoc P keycloakSub memberships)

/-- `VaultGroupMembershipRepository.add`. -/
def add (membership : UserGroupMembership) : VaultProg UserGroupMembership := do
  let loaded ← loadMemberships P D membership.keycloakSub
  let others := loaded.filter fun existing => existing.groupName ≠ membership.groupName
  storeMemberships P D membership.keycloakSub (others ++ [membership])
  pure membership

/-- `VaultGroupMembershipRepository.remove`. -/
def remove (keycloakSub groupName : String) : VaultProg Bool := do
  let memberships ← loadMemberships P D keycloakSub
  let updated := memberships.filter fun membership => membership.groupName ≠ groupName
  if updated.length = memberships.length then pure false
  else do
    storeMemberships P D keycloakSub updated
    pure true

/-- `VaultGroupMembershipRepository.has_membership`. -/
def hasMembership (keycloakSub groupName : String) : VaultProg Bool := do
  let memberships ← loadMemberships P D keycloakSub
  pure (memberships.any fun membership => membership.groupName = groupName)

/-- `VaultGroupMembershipRepository.list_for_user`. -/
def listForUser (keycloakSub : String) : VaultProg (List UserGroupMembership) :=
  loadMemberships P D keycloakSub

/-- The loop of `list_for_group` over the known users. -/
def membersAmong (groupName : String) : List String → VaultProg (List UserGroupMembership)
  | [] => pure []
  | keycloakSub :: subs => do
      let memberships ← loadMemberships P D keycloakSub
      let rest ← membersAmong groupName subs
      pure (memberships.filter (fun membership => membership.groupName = groupName) ++ rest)

/-- `VaultGroupMembershipRepository.list_for_group`. -/
def listForGroup (groupName : String) : VaultProg (List UserGroupMembership) := do
  let subs ← listKnownUserIds D
  membersAmong P D groupName subs

/-- `VaultGroupMembershipRepository.count_members`. -/
def countMembers (groupName : String) : VaultProg ℕ := do
  let members ← listForGroup P D groupName
  pure members.length

end VaultGroupMembershipRepository

end GofrSec
