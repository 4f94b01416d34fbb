/-
The memberships documents of a shared Vault.

* `SharedVault.memberships`, `SharedVault.hasMembership`: what `_load_memberships`
  and `has_membership` make of the document of a user;
* `hasMembership_put`: what the document that `add` and `remove` write back
  changes, when it was made from the one that it replaces;
* `secure_loadMemberships`, `secure_storeMemberships`: the read and the write that
  `add` and `remove` consist of, amid the steps of other processes.
-/
import GofrSec.Services.Frames
import GofrSec.Services.Processes

namespace GofrSec

open Calls Protocol VaultPathLayout

/-- Whether a list of memberships has one in the group. -/
def inGroup (g : String) (ms : List UserGroupMembership) : Bool :=
  ms.any fun m => m.groupName = g

namespace SharedVault

variable (V : SharedVault)

/-- What `_load_memberships(u)` makes of the document of the user. -/
def memberships (w : VaultWorld) (u : String) : Except PyError (List UserGroupMembership) :=
  membershipsOf V.platform V.deployment.now (w.read (V.paths.userGroupsPath u))

/-- `has_membership(u, g)`, while no other process moves. -/
def hasMembership (w : VaultWorld) (u g : String) : Except PyError Bool :=
  ((vaultProgram V.platform V.deployment (.hasMembership u g)).run V.server.exec w).1

variable {V} {w w' : VaultWorld} {u v g : String}

lemma hasMembership_eq : V.hasMembership w u g = (V.memberships w u).map (inGroup g) := by
  rw [hasMembership, vaultProgram, VaultGroupMembershipRepository.hasMembership, Prog.run_bind,
    VaultGroupMembershipRepository.loadMemberships, Prog.run_bind, Prog.run_perform]
  simp only [VaultServer.exec, Prog.onReturn_ok, Prog.run_lift]
  show _ = Except.map (inGroup g) (membershipsOf _ _ _)
  cases membershipsOf V.platform V.deployment.now (w.read (V.paths.userGroupsPath u)) <;> rfl

lemma hasMembership_of_memberships {ms : List UserGroupMembership}
    (h : V.memberships w u = .ok ms) : V.hasMembership w u g = .ok (inGroup g ms) := by
  rw [hasMembership_eq, h]
  rfl

lemma hasMembership_congr
    (h : w'.read (V.paths.userGroupsPath u) = w.read (V.paths.userGroupsPath u)) :
    V.hasMembership w' u g = V.hasMembership w u g := by
  rw [hasMembership_eq, hasMembership_eq, memberships, h, memberships]

/-- The documents after one has been put in its place. -/
lemma memberships_put (ms : List UserGroupMembership) :
    V.memberships (w.putMemberships V.platform V.paths u ms) v
      = if v = u then .ok (sortByGroupName ms) else V.memberships w v := by
  rw [memberships, read_putMemberships]
  by_cases huv : v = u
  · rw [if_pos huv, if_pos (congrArg _ huv), membershipsOf_stored]
  · rw [if_neg huv, if_neg fun h => huv (userGroupsPath_inj h), memberships]

end SharedVault

section

variable {V : SharedVault} {w : VaultWorld} {u g : String} {loaded ms : List UserGroupMembership}

lemma inGroup_iff : inGroup g ms = true ↔ ∃ m ∈ ms, m.groupName = g := by
  simp [inGroup]

lemma inGroup_sort (g : String) (ms : List UserGroupMembership) :
    inGroup g (sortByGroupName ms) = inGroup g ms := by
  rw [Bool.eq_iff_iff, inGroup_iff, inGroup_iff]
  simp only [(sortByGroupName_perm ms).mem_iff]

/-- Without its entries in `g`, a list has the same in every other group. -/
lemma inGroup_filter {g' : String} (h : g' ≠ g) (ms : List UserGroupMembership) :
    inGroup g' (ms.filter fun m => m.groupName ≠ g) = inGroup g' ms := by
  rw [Bool.eq_iff_iff, inGroup_iff, inGroup_iff]
  simp only [List.mem_filter, decide_eq_true_eq]
  constructor
  · rintro ⟨m, ⟨hm, -⟩, rfl⟩
    exact ⟨m, hm, rfl⟩
  · rintro ⟨m, hm, rfl⟩
    exact ⟨m, ⟨hm, h⟩, rfl⟩

lemma inGroup_append (ms ms' : List UserGroupMembership) :
    inGroup g (ms ++ ms') = (inGroup g ms || inGroup g ms') :=
  List.any_append

/-- A document made from the one that it replaces, with another answer for `g`
alone, changes no other answer. -/
lemma hasMembership_put (hloaded : V.memberships w u = .ok loaded)
    (hms : ∀ g', g' ≠ g → inGroup g' ms = inGroup g' loaded) {u' g' : String}
    (hne : (u', g') ≠ (u, g)) :
    V.hasMembership (w.putMemberships V.platform V.paths u ms) u' g' = V.hasMembership w u' g' := by
  rw [SharedVault.hasMembership_eq, SharedVault.hasMembership_eq, SharedVault.memberships_put]
  by_cases hu : u' = u
  · have hg : g' ≠ g := fun hg => hne (by rw [hu, hg])
    rw [if_pos hu, hu, hloaded]
    show Except.ok (inGroup g' (sortByGroupName ms)) = Except.ok (inGroup g' loaded)
    rw [inGroup_sort, hms g' hg]
  · rw [if_neg hu]

lemma hasMembership_put_self :
    V.hasMembership (w.putMemberships V.platform V.paths u ms) u g = .ok (inGroup g ms) := by
  rw [SharedVault.hasMembership_eq, SharedVault.memberships_put, if_pos rfl]
  show Except.ok (inGroup g (sortByGroupName ms)) = _
  rw [inGroup_sort]

end

/-! ### Client calls that leave the documents alone -/

/-- The client call has no memberships document as its target. -/
def KeepsMemberships (V : SharedVault) (i : VaultCall) : Prop :=
  ∀ u, i.target ≠ some (V.paths.userGroupsPath u)

/-- A repository call that neither adds nor removes a membership nor stores a
token leaves the memberships documents alone. -/
lemma keepsMemberships_of_writes {V : SharedVault} {c : RepoCall} {i : VaultCall}
    (hi : i.Within (c.Writes V.paths)) (hadd : ∀ m, c ≠ .membershipAdd m)
    (hremove : ∀ u g, c ≠ .membershipRemove u g) (htoken : ∀ record, c ≠ .tokenUpsert record) :
    KeepsMemberships V i := by
  intro u htarget
  have hwrites := hi _ htarget
  cases c with
  | profileUpsert profile => exact userProfilePath_ne_userGroupsPath _ u hwrites.symm
  | groupUpsert group =>
      exact ne_of_area (by decide) (under_userGroupsPath u) (under_groupDefinitionPath _) hwrites
  | membershipAdd m => exact hadd m rfl
  | membershipRemove u' g => exact hremove u' g rfl
  | tokenUpsert record => exact htoken record rfl
  | _ => exact hwrites

/-! ### The read and the write of a document -/

section

variable {π : Type} {V : SharedVault} {Runs : π → Op → Prop}
  {Ok Guar : VaultLedger π → VaultEvent π → Prop} {p : π} {o : Op} {L : VaultLedger π}
  {A : VaultLedger π → Prop} {u : String}

/-- `_load_memberships`, from a stable precondition to a stable postcondition. -/
lemma secure_loadMemberships
    {Q : Except PyError (List UserGroupMembership) → VaultLedger π → Prop}
    (hA : (V.protocol Runs Ok Guar).Stable p A) (hQ : ∀ r, (V.protocol Runs Ok Guar).Stable p (Q r))
    (h : A L)
    (hread : ∀ L' r, A L' → (∀ found, r = .ok found →
        found = (V.after L').read (V.paths.userGroupsPath u)) →
      Guar L' (.call p o (.readSecret (V.paths.userGroupsPath u)) r (V.after L'))
        ∧ Q (r.bind (membershipsOf V.platform V.deployment.now))
          (.call p o (.readSecret (V.paths.userGroupsPath u)) r (V.after L') :: L')) :
    (V.protocol Runs Ok Guar).Secure p o
      (VaultGroupMembershipRepository.loadMemberships V.platform V.deployment u) Q L := by
  refine (secure_bind _).mpr ?_
  have hperform : (V.protocol Runs Ok Guar).Secure p o (readSecret (V.paths.userGroupsPath u))
      (fun r L' => Q (r.bind (membershipsOf V.platform V.deployment.now)) L') L := by
    refine secure_perform_of hA (fun r => hQ _) h fun L' r w' hL' hact _ => ?_
    obtain ⟨rfl, hfound⟩ := act_readSecret hact
    exact hread L' r hL' hfound
  refine hperform.mono fun r L' hpost => ?_
  cases r with
  | ok found => exact secure_done_of (hQ _) hpost
  | error e => exact fun L'' henv => (hQ _).env hpost henv

/-- `_store_memberships`: the document is written or, for no memberships, deleted,
in one call. -/
lemma secure_storeMemberships {ms : List UserGroupMembership}
    {Q : Except PyError Unit → VaultLedger π → Prop}
    (hA : (V.protocol Runs Ok Guar).Stable p A) (hQ : ∀ r, (V.protocol Runs Ok Guar).Stable p (Q r))
    (h : A L)
    (hwrite : ∀ L' (i : VaultCall) (r : Except PyError i.Res) w', A L' →
      i.target = some (V.paths.userGroupsPath u) →
      (∀ e, r = .error e → w' = V.after L') →
      (∀ a, r = .ok a → w' = (V.after L').putMemberships V.platform V.paths u ms) →
      Ok L' (.call p o i r w') →
      Guar L' (.call p o i r w') ∧ Q (r.map fun _ => ()) (.call p o i r w' :: L')) :
    (V.protocol Runs Ok Guar).Secure p o
      (VaultGroupMembershipRepository.storeMemberships V.platform V.deployment u ms) Q L := by
  cases ms with
  | nil =>
      refine (secure_bind _).mpr ?_
      have hperform : (V.protocol Runs Ok Guar).Secure p o
          (deleteSecret (V.paths.userGroupsPath u)) (fun r L' => Q (r.map fun _ => ()) L') L := by
        refine secure_perform_of hA (fun r => hQ _) h fun L' r w' hL' hact hok => ?_
        refine hwrite L' (.deleteSecret (V.paths.userGroupsPath u)) r w' hL' rfl ?_ ?_ hok
        · rintro e rfl
          exact act_error hact
        · rintro a rfl
          exact (act_ok hact).2
      refine hperform.mono fun r L' hpost => ?_
      cases r with
      | ok _ => exact fun L'' henv => (hQ _).env hpost henv
      | error e => exact fun L'' henv => (hQ _).env hpost henv
  | cons m ms =>
      refine secure_perform_of hA hQ h fun L' r w' hL' hact hok => ?_
      have hdone := hwrite L' (.writeSecret (V.paths.userGroupsPath u)
        (membershipsDoc V.platform u (m :: ms))) r w' hL' rfl ?_ ?_ hok
      · cases r with
        | ok _ => exact hdone
        | error e => exact hdone
      · rintro e rfl
        exact act_error hact
      · rintro a rfl
        exact (act_ok hact).2

end

end GofrSec
