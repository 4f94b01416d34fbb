/-
The repository calls over Vault.

* `vaultProgram`: every call of a service, as the program of Vault client calls
  that the repository method makes;
* `RepoCall.Writes`, `uses_vaultProgram`: the paths that these calls can write to
  or delete; none of them but the audit sink's own appends an event
  (`uses_vaultProgram_of_mayFail`);
* `strict_vaultProgram`: no call of a service returns once a client call of it
  has raised.
-/
import GofrSec.Calls.Failing
import GofrSec.Repositories.VaultGroups
import GofrSec.Repositories.VaultTokens

namespace GofrSec

open Calls

variable (P : Platform) (D : VaultDeployment)

/-- The Vault-backed repositories, the signer and the audit sink. -/
def vaultProgram : (c : RepoCall) → VaultProg c.Res
  | .profileGet keycloakSub => VaultUserRepository.get P D keycloakSub
  | .profileUpsert profile => VaultUserRepository.upsert P D profile
  | .isRegistered keycloakSub => VaultUserRepository.isRegistered D keycloakSub
  | .groupGet name => VaultGroupRepository.get P D name
  | .groupUpsert group => VaultGroupRepository.upsert P D group
  | .membershipAdd membership => VaultGroupMembershipRepository.add P D membership
  | .membershipRemove keycloakSub groupName =>
      VaultGroupMembershipRepository.remove P D keycloakSub groupName
  | .hasMembership keycloakSub groupName =>
      VaultGroupMembershipRepository.hasMembership P D keycloakSub groupName
  | .membershipsForUser keycloakSub => VaultGroupMembershipRepository.listForUser P D keycloakSub
  | .countMembers groupName => VaultGroupMembershipRepository.countMembers P D groupName
  | .tokenGet tokenId => VaultTokenRepository.get P D tokenId
  | .tokenUpsert record => VaultTokenRepository.upsert P D record
  | .tokensForUser ownerSub => VaultTokenRepository.listForUser P D ownerSub
  | .signToken request => D.signer.signToken P D request
  | .publicKeyDocument => D.signer.publicKeyDocument P D
  | .auditAppend event => VaultCall.perform (.auditAppend event)

/-! ### The documents that a repository call can change -/

/-- The paths that a repository call may write to or delete. -/
def RepoCall.Writes (L : VaultPathLayout) : RepoCall → String → Prop
  | .profileUpsert profile, k => k = L.userProfilePath profile.keycloakSub
  | .groupUpsert group, k => k = L.groupDefinitionPath group.name
  | .membershipAdd membership, k => k = L.userGroupsPath membership.keycloakSub
  | .membershipRemove keycloakSub _, k => k = L.userGroupsPath keycloakSub
  | .tokenUpsert record, k => k = L.tokenPath record.tokenId
      ∨ (∃ u t, k = L.userTokenPath u t) ∨ ∃ g t, k = L.groupTokenPath g t
  | _, _ => False

/-- The client call changes no path but those allowed. -/
def VaultCall.Within (allowed : String → Prop) (i : VaultCall) : Prop :=
  ∀ k, i.target = some k → allowed k

/-- The client call goes to Vault, and changes no path but those allowed. -/
def VaultCall.Visits (allowed : String → Prop) (i : VaultCall) : Prop :=
  i.mayFail ∧ i.Within allowed

section

variable {P D} {allowed : String → Prop}

lemma within_of_target_none {i : VaultCall} (h : i.target = none) : i.Within allowed :=
  fun _ hk => nomatch h.symm.trans hk

lemma visits_of_target_none {i : VaultCall} (hi : i.mayFail) (h : i.target = none) :
    i.Visits allowed := ⟨hi, within_of_target_none h⟩

lemma uses_readSecret (path : String) : (readSecret path).Uses (VaultCall.Visits allowed) :=
  (Prog.uses_perform _).mpr (visits_of_target_none trivial rfl)

lemma uses_writeSecret {path : String} (h : allowed path) (data : Doc) :
    (writeSecret path data).Uses (VaultCall.Visits allowed) :=
  (Prog.uses_perform _).mpr ⟨trivial, fun _ hk => Option.some.inj hk ▸ h⟩

lemma uses_deleteSecret {path : String} (h : allowed path) :
    (deleteSecret path).Uses (VaultCall.Visits allowed) :=
  (Prog.uses_perform _).mpr ⟨trivial, fun _ hk => Option.some.inj hk ▸ h⟩

lemma uses_getRecord {α : Type} (path : String) (deserialize : Doc → Except PyError α) :
    (getRecord path deserialize).Uses (VaultCall.Visits allowed) :=
  (uses_readSecret path).bind fun _ => Prog.uses_lift _

lemma uses_loadMemberships (u : String) :
    (VaultGroupMembershipRepository.loadMemberships P D u).Uses (VaultCall.Visits allowed) :=
  (uses_readSecret _).bind fun _ => Prog.uses_lift _

lemma uses_storeMemberships {u : String} (h : allowed (D.paths.userGroupsPath u))
    (ms : List UserGroupMembership) :
    (VaultGroupMembershipRepository.storeMemberships P D u ms).Uses
      (VaultCall.Visits allowed) := by
  cases ms with
  | nil => exact (uses_deleteSecret h).bind fun _ => Prog.uses_pure _
  | cons m ms => exact uses_writeSecret h _

lemma uses_membersAmong (g : String) (us : List String) :
    (VaultGroupMembershipRepository.membersAmong P D g us).Uses (VaultCall.Visits allowed) := by
  induction us with
  | nil => trivial
  | cons u us ih => exact (uses_loadMemberships u).bind fun _ => ih.bind fun _ => Prog.uses_pure _

lemma uses_recordsOf (keys : List String) :
    (VaultTokenRepository.recordsOf P D keys).Uses (VaultCall.Visits allowed) := by
  induction keys with
  | nil => trivial
  | cons key keys ih =>
      rw [VaultTokenRepository.recordsOf]
      split_ifs
      · exact ih
      · exact (uses_getRecord _ _).bind fun _ => ih.bind fun _ => Prog.uses_pure _

/-- The calls of an upsert on the indexes change index entries only. -/
lemma within_indexUpdates {previous : Option IssuedTokenRecord} {record : IssuedTokenRecord}
    {i : VaultCall} (hi : i ∈ indexUpdates D previous record) :
    i.Within fun k => (∃ u t, k = D.paths.userTokenPath u t)
      ∨ ∃ g t, k = D.paths.groupTokenPath g t := by
  intro k hk
  simp only [indexUpdates, List.mem_append, List.mem_map, List.mem_singleton] at hi
  rcases hi with ((hi | ⟨g, -, rfl⟩) | rfl) | ⟨g, -, rfl⟩
  · cases previous with
    | none => simp [ownerChange] at hi
    | some old =>
        rw [ownerChange] at hi
        split_ifs at hi with hne
        · rw [List.mem_singleton.mp hi] at hk
          exact Or.inl ⟨_, _, (Option.some.inj hk).symm⟩
        · simp at hi
  · exact Or.inr ⟨g, _, (Option.some.inj hk).symm⟩
  · exact Or.inl ⟨_, _, (Option.some.inj hk).symm⟩
  · exact Or.inr ⟨g, _, (Option.some.inj hk).symm⟩

lemma uses_upsert (record : IssuedTokenRecord) :
    (VaultTokenRepository.upsert P D record).Uses
      (VaultCall.Visits ((RepoCall.tokenUpsert record).Writes D.paths)) := by
  rw [VaultTokenRepository.upsert_eq]
  refine (uses_getRecord _ _).bind fun previous => ?_
  refine (Prog.uses_performAll fun i hi => ?_).bind fun _ => Prog.uses_pure _
  rcases List.mem_cons.mp hi with rfl | hi
  · exact ⟨trivial, fun k hk => Or.inl (Option.some.inj hk).symm⟩
  · refine ⟨?_, fun k hk => Or.inr (within_indexUpdates hi k hk)⟩
    obtain ⟨k, hk⟩ := Option.isSome_iff_exists.mp (isSome_target_indexUpdates D hi)
    exact VaultCall.mayFail_of_target hk

lemma uses_loadSigningMaterial (signer : VaultTokenSigner) :
    (signer.loadSigningMaterial P D).Uses (VaultCall.Visits allowed) :=
  (uses_readSecret _).bind fun _ => Prog.uses_lift _

variable (P D) in
/-- **A repository call goes to Vault, and changes no document but its own.** -/
theorem uses_vaultProgram_of_mayFail {c : RepoCall} (hc : c.mayFail) :
    (vaultProgram P D c).Uses (VaultCall.Visits (c.Writes D.paths)) := by
  cases c with
  | profileGet u => exact uses_getRecord _ _
  | profileUpsert profile =>
      refine Prog.Uses.bind (uses_writeSecret ?_ _) fun _ => Prog.uses_pure _
      exact rfl
  | isRegistered u => exact (Prog.uses_perform _).mpr (visits_of_target_none trivial rfl)
  | groupGet g => exact uses_getRecord _ _
  | groupUpsert group =>
      refine Prog.Uses.bind (uses_writeSecret ?_ _) fun _ => Prog.uses_pure _
      exact rfl
  | membershipAdd m =>
      refine Prog.Uses.bind (uses_loadMemberships _) fun ms => ?_
      refine Prog.Uses.bind (uses_storeMemberships ?_ _) fun _ => Prog.uses_pure _
      exact rfl
  | membershipRemove u g =>
      refine Prog.Uses.bind (uses_loadMemberships _) fun ms => ?_
      dsimp only
      split_ifs
      · exact Prog.uses_pure _
      · refine Prog.Uses.bind (uses_storeMemberships ?_ _) fun _ => Prog.uses_pure _
        exact rfl
  | hasMembership u g => exact (uses_loadMemberships _).bind fun _ => Prog.uses_pure _
  | membershipsForUser u => exact uses_loadMemberships _
  | countMembers g =>
      have hlisting : (listKnownUserIds D).Uses
          (VaultCall.Visits ((RepoCall.countMembers g).Writes D.paths)) :=
        Prog.Uses.bind ((Prog.uses_perform _).mpr (visits_of_target_none trivial rfl))
          fun _ => Prog.uses_pure _
      exact (hlisting.bind fun _ => uses_membersAmong g _).bind fun _ => Prog.uses_pure _
  | tokenGet t => exact uses_getRecord _ _
  | tokenUpsert record => exact uses_upsert record
  | tokensForUser u =>
      exact Prog.Uses.bind ((Prog.uses_perform _).mpr (visits_of_target_none trivial rfl))
        fun keys => uses_recordsOf keys
  | signToken request =>
      show (D.signer.signToken P D request).Uses _
      cases D.signer with
      | static signer => exact Prog.uses_lift _
      | vault signer => exact (uses_loadSigningMaterial signer).bind fun _ => Prog.uses_lift _
  | publicKeyDocument =>
      show (D.signer.publicKeyDocument P D).Uses _
      cases D.signer with
      | static signer => exact Prog.uses_lift _
      | vault signer => exact (uses_loadSigningMaterial signer).bind fun _ => Prog.uses_lift _
  | auditAppend event => exact hc.elim

variable (P D) in
/-- **A repository call changes no document but its own.** -/
theorem uses_vaultProgram (c : RepoCall) :
    (vaultProgram P D c).Uses (VaultCall.Within (c.Writes D.paths)) := by
  by_cases hc : c.mayFail
  · exact (uses_vaultProgram_of_mayFail P D hc).mono fun _ h => h.2
  · cases c with
    | auditAppend event => exact (Prog.uses_perform _).mpr (within_of_target_none rfl)
    | _ => exact absurd trivial hc

/-! ### Client calls that raise -/

lemma strict_getRecord {α : Type} (path : String) (deserialize : Doc → Except PyError α) :
    (getRecord path deserialize).Strict :=
  (Prog.strict_perform (VaultCall.readSecret path)).bind fun _ => Prog.strict_lift _

lemma strict_loadMemberships (u : String) :
    (VaultGroupMembershipRepository.loadMemberships P D u).Strict :=
  (Prog.strict_perform (VaultCall.readSecret _)).bind fun _ => Prog.strict_lift _

lemma strict_storeMemberships (u : String) (ms : List UserGroupMembership) :
    (VaultGroupMembershipRepository.storeMemberships P D u ms).Strict := by
  cases ms with
  | nil => exact (Prog.strict_perform (VaultCall.deleteSecret _)).bind fun _ => Prog.strict_pure _
  | cons m ms => exact Prog.strict_perform (VaultCall.writeSecret _ _)

lemma strict_membersAmong (g : String) (us : List String) :
    (VaultGroupMembershipRepository.membersAmong P D g us).Strict := by
  induction us with
  | nil => trivial
  | cons u us ih =>
      exact (strict_loadMemberships u).bind fun _ => ih.bind fun _ => Prog.strict_pure _

lemma strict_recordsOf (keys : List String) :
    (VaultTokenRepository.recordsOf P D keys).Strict := by
  induction keys with
  | nil => trivial
  | cons key keys ih =>
      rw [VaultTokenRepository.recordsOf]
      split_ifs
      · exact ih
      · exact (strict_getRecord _ _).bind fun _ => ih.bind fun _ => Prog.strict_pure _

lemma strict_loadSigningMaterial (signer : VaultTokenSigner) :
    (signer.loadSigningMaterial P D).Strict :=
  (Prog.strict_perform (VaultCall.readSecret _)).bind fun _ => Prog.strict_lift _

variable (P D) in
/-- **A repository call does not return once a client call of it has raised.** -/
theorem strict_vaultProgram (c : RepoCall) : (vaultProgram P D c).Strict := by
  cases c with
  | profileGet u => exact strict_getRecord _ _
  | profileUpsert profile =>
      exact (Prog.strict_perform (VaultCall.writeSecret _ _)).bind fun _ => Prog.strict_pure _
  | isRegistered u => exact Prog.strict_perform (VaultCall.secretExists _)
  | groupGet g => exact strict_getRecord _ _
  | groupUpsert group =>
      exact (Prog.strict_perform (VaultCall.writeSecret _ _)).bind fun _ => Prog.strict_pure _
  | membershipAdd m =>
      refine (strict_loadMemberships _).bind fun loaded => ?_
      exact (strict_storeMemberships _ _).bind fun _ => Prog.strict_pure _
  | membershipRemove u g =>
      refine (strict_loadMemberships _).bind fun loaded => ?_
      dsimp only
      split_ifs
      · exact Prog.strict_pure _
      · exact (strict_storeMemberships _ _).bind fun _ => Prog.strict_pure _
  | hasMembership u g => exact (strict_loadMemberships _).bind fun _ => Prog.strict_pure _
  | membershipsForUser u => exact strict_loadMemberships _
  | countMembers g =>
      have hlisting : (listKnownUserIds D).Strict :=
        (Prog.strict_perform (VaultCall.listSecrets _)).bind fun _ => Prog.strict_pure _
      exact (hlisting.bind fun _ => strict_membersAmong g _).bind fun _ => Prog.strict_pure _
  | tokenGet t => exact strict_getRecord _ _
  | tokenUpsert record =>
      show (VaultTokenRepository.upsert P D record).Strict
      rw [VaultTokenRepository.upsert_eq]
      refine (strict_getRecord _ _).bind fun previous => ?_
      exact (Prog.strict_performAll _).bind fun _ => Prog.strict_pure _
  | tokensForUser u =>
      exact (Prog.strict_perform (VaultCall.listSecrets _)).bind fun keys => strict_recordsOf keys
  | signToken request =>
      show (D.signer.signToken P D request).Strict
      cases D.signer with
      | static signer => exact Prog.strict_lift _
      | vault signer => exact (strict_loadSigningMaterial signer).bind fun _ => Prog.strict_lift _
  | publicKeyDocument =>
      show (D.signer.publicKeyDocument P D).Strict
      cases D.signer with
      | static signer => exact Prog.strict_lift _
      | vault signer => exact (strict_loadSigningMaterial signer).bind fun _ => Prog.strict_lift _
  | auditAppend event => exact Prog.strict_perform (VaultCall.auditAppend event)

end

end GofrSec
