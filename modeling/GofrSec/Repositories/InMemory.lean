/-
The in-memory repositories (`app/repositories/in_memory.py`): one dictionary
for each kind of record, and the list of audit events.

`MemoryStores.exec` answers every repository call as the methods do.
-/
import GofrSec.Services.Signer

namespace GofrSec

open Calls

/-- The state of the in-memory repository bundle. -/
structure MemoryStores where
  profiles : Dict String UserProfile
  groups : Dict String GroupDefinition
  memberships : Dict (String × String) UserGroupMembership
  tokens : Dict String IssuedTokenRecord
  events : List AuditEvent

namespace MemoryStores

/-- The state of a fresh bundle. -/
def empty : MemoryStores := ⟨.empty, .empty, .empty, .empty, []⟩

/-- `InMemoryGroupMembershipRepository.list_for_user`. -/
def listForUser (s : MemoryStores) (keycloakSub : String) : List UserGroupMembership :=
  s.memberships.values.filter fun membership => membership.keycloakSub = keycloakSub

/-- `InMemoryGroupMembershipRepository.list_for_group`. -/
def listForGroup (s : MemoryStores) (groupName : String) : List UserGroupMembership :=
  s.memberships.values.filter fun membership => membership.groupName = groupName

/-- `InMemoryTokenRepository.list_for_user`. -/
def tokensForUser (s : MemoryStores) (ownerSub : String) : List IssuedTokenRecord :=
  s.tokens.values.filter fun record => record.ownerSub = ownerSub

variable (C : Crypto) (signer : StaticTokenSigner)

/-- The repository methods on the in-memory state. -/
def exec : Exec RepoCall RepoCall.Res PyError MemoryStores
  | .profileGet sub, s => (.ok (s.profiles.get sub), s)
  | .profileUpsert profile, s =>
      (.ok profile, { s with profiles := s.profiles.set profile.keycloakSub profile })
  | .isRegistered sub, s => (.ok (s.profiles.get sub).isSome, s)
  | .groupGet name, s => (.ok (s.groups.get name), s)
  | .groupUpsert group, s => (.ok group, { s with groups := s.groups.set group.name group })
  | .membershipAdd membership, s =>
      (.ok membership,
        { s with memberships :=
            s.memberships.set (membership.keycloakSub, membership.groupName) membership })
  | .membershipRemove sub group, s =>
      (.ok (s.memberships.get (sub, group)).isSome,
        { s with memberships := s.memberships.erase (sub, group) })
  | .hasMembership sub group, s => (.ok (s.memberships.get (sub, group)).isSome, s)
  | .membershipsForUser sub, s => (.ok (s.listForUser sub), s)
  | .countMembers group, s => (.ok (s.listForGroup group).length, s)
  | .tokenGet id, s => (.ok (s.tokens.get id), s)
  | .tokenUpsert record, s => (.ok record, { s with tokens := s.tokens.set record.tokenId record })
  | .tokensForUser owner, s => (.ok (s.tokensForUser owner), s)
  | .signToken request, s => (signer.signToken C request, s)
  | .publicKeyDocument, s => (signer.publicKeyDocument C, s)
  | .auditAppend event, s => (.ok (), { s with events := s.events ++ [event] })

end MemoryStores

end GofrSec
