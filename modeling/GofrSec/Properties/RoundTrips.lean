/-
The Vault codecs lose nothing.

* `ReadsBack`: what a method wrote, the reading method finds, in every state and after any
  storing call that returned;
* `codecs_lossless`: every record decodes from its document, and is read back.
-/
import GofrSec.Services.VaultTokenRuns

namespace GofrSec

open Calls VaultServer

variable {P : Platform} {D : VaultDeployment} {server : VaultServer} {faults : Prop}
  {w : VaultWorld}

/-- Whenever `store` returns, `read` then answers with a value of which `V` holds, and
leaves the documents alone. -/
def ReadsBack {α β : Type} (server : VaultServer) (faults : Prop) (store : VaultProg α)
    (read : VaultProg β) (V : β → Prop) : Prop :=
  ∀ w r w', store.Runs (server.act faults) w (.ok r) w' →
    ∃ v, read.run server.exec w' = (.ok v, w') ∧ V v

/-- One rule for all: what is so after every run of `store` that returns is read back. -/
lemma readsBack_of_wp {α β : Type} {store : VaultProg α} {read : VaultProg β} {V : β → Prop}
    (h : ∀ w, store.wp (server.act faults).contract (fun r w' => ∀ a, r = .ok a →
      ∃ v, read.run server.exec w' = (.ok v, w') ∧ V v) w) :
    ReadsBack server faults store read V :=
  fun w r _w' hrun => (Prog.wp_contract_iff _ _ _).mp (h w) _ _ hrun r rfl

/-- A record that is written at the path that is read, in a form that decodes to it. -/
lemma readsBack_write {α : Type} {path : String} {data : Doc}
    {deserialize : Doc → Except PyError α} {a : α} (h : deserialize data = .ok a) :
    ReadsBack server faults (do writeSecret path data; pure a) (getRecord path deserialize)
      fun v => v = some a := by
  refine readsBack_of_wp fun w => (Prog.wp_bind _ _ _ _).mpr ((wp_writeSecret _ _ _).mpr ⟨?_, ?_⟩)
  · intro _ _
    rw [run_getRecord, VaultWorld.read_write_self, decodeRecord, h]
    exact ⟨_, rfl, rfl⟩
  · rintro - e _ ⟨⟩

/-- A token record is read back although its upsert goes on to write index entries. -/
lemma readsBack_token (record : IssuedTokenRecord) :
    ReadsBack server faults (VaultTokenRepository.upsert P D record)
      (VaultTokenRepository.get P D record.tokenId) fun v => v = some record := by
  refine readsBack_of_wp fun w => Prog.wp_mono (fun r w' hends a hr => ?_)
    (wp_upsert_ends record)
  rcases hends.tokenPath with hread | ⟨-, e, he⟩
  · rw [VaultTokenRepository.get, run_getRecord, hread, decodeRecord,
      deserializeToken_serializeToken]
    exact ⟨_, rfl, rfl⟩
  · cases hr.symm.trans he

/-- A membership is read back among those of its user. -/
lemma readsBack_membership (m : UserGroupMembership) :
    ReadsBack server faults (VaultGroupMembershipRepository.add P D m)
      (VaultGroupMembershipRepository.listForUser P D m.keycloakSub) fun ms => m ∈ ms := by
  refine readsBack_of_wp fun w => ?_
  rw [VaultGroupMembershipRepository.add, Prog.wp_bind, wp_loadMemberships]
  refine ⟨?_, by rintro - e _ ⟨⟩⟩
  cases membershipsOf P D.now (w.read (D.paths.userGroupsPath m.keycloakSub)) with
  | error e => rintro _ ⟨⟩
  | ok loaded =>
      rw [Prog.onReturn_ok, Prog.wp_bind, wp_storeMemberships]
      refine ⟨fun _ _ => ?_, by rintro - e _ ⟨⟩⟩
      rw [VaultGroupMembershipRepository.listForUser, run_loadMemberships, read_putMemberships,
        if_pos rfl, membershipsOf_stored]
      refine ⟨_, rfl, (sortByGroupName_perm _).mem_iff.mpr ?_⟩
      exact List.mem_append_right _ (List.mem_singleton_self m)

/-- **The Vault codecs lose nothing.** Every record of the four kinds decodes from its
document to itself, whatever the clock reads for a missing time; and from every state of
Vault, also when calls may raise, an upsert that returns is read back as it was written. -/
theorem codecs_lossless (P : Platform) (D : VaultDeployment) (server : VaultServer)
    (faults : Prop) :
    (∀ now (record : IssuedTokenRecord),
        deserializeToken P now (serializeToken P record) = .ok record)
      ∧ (∀ now (profile : UserProfile),
        deserializeProfile P now (serializeProfile P profile) = .ok profile)
      ∧ (∀ now (group : GroupDefinition),
        deserializeGroup P now (serializeGroup P group) = .ok group)
      ∧ (∀ now (m : UserGroupMembership),
        deserializeMembership P now (serializeMembership P m) = .ok m)
      ∧ (∀ record : IssuedTokenRecord,
        ReadsBack server faults (VaultTokenRepository.upsert P D record)
          (VaultTokenRepository.get P D record.tokenId) fun v => v = some record)
      ∧ (∀ profile : UserProfile,
        ReadsBack server faults (VaultUserRepository.upsert P D profile)
          (VaultUserRepository.get P D profile.keycloakSub) fun v => v = some profile)
      ∧ (∀ group : GroupDefinition,
        ReadsBack server faults (VaultGroupRepository.upsert P D group)
          (VaultGroupRepository.get P D group.name) fun v => v = some group)
      ∧ ∀ m : UserGroupMembership,
        ReadsBack server faults (VaultGroupMembershipRepository.add P D m)
          (VaultGroupMembershipRepository.listForUser P D m.keycloakSub) fun ms => m ∈ ms :=
  ⟨fun _ => deserializeToken_serializeToken, fun _ => deserializeProfile_serializeProfile,
    fun _ => deserializeGroup_serializeGroup, fun _ => deserializeMembership_serializeMembership,
    readsBack_token,
    fun profile => readsBack_write (deserializeProfile_serializeProfile profile),
    fun group => readsBack_write (deserializeGroup_serializeGroup group), readsBack_membership⟩

end GofrSec
