/-
What any sequence of `add` and `remove` calls keeps of the membership documents.

* `MembershipEdit`: the two calls that change memberships, and their programs;
* `GroupsDocument`: the document of a user is absent, or it holds the user's own
  memberships, at least one, by strictly increasing group names;
* `MembershipEdit.Does`: what a call that returns has changed;
* `membershipDocuments`: over any sequence of calls, with or without failures,
  every user's document is such a one, and every call does just that.
-/
import GofrSec.Calls.Session
import GofrSec.Repositories.Storage
import GofrSec.SortedBy

namespace GofrSec

open Calls VaultServer VaultPathLayout

/-- A call that changes the memberships. -/
inductive MembershipEdit where
  | add (membership : UserGroupMembership)
  | remove (keycloakSub groupName : String)

/-- What such a call returns. -/
inductive EditResult where
  | added (membership : UserGroupMembership)
  | removed (found : Bool)

/-- The user whose memberships are changed. -/
def MembershipEdit.subject : MembershipEdit → String
  | .add membership => membership.keycloakSub
  | .remove keycloakSub _ => keycloakSub

/-- The call on the repository over Vault. -/
def MembershipEdit.program (P : Platform) (D : VaultDeployment) :
    MembershipEdit → VaultProg EditResult
  | .add membership => EditResult.added <$> VaultGroupMembershipRepository.add P D membership
  | .remove keycloakSub groupName =>
      EditResult.removed <$> VaultGroupMembershipRepository.remove P D keycloakSub groupName

/-- What `list_for_user(u)` answers. -/
def listAt (P : Platform) (D : VaultDeployment) (server : VaultServer) (w : VaultWorld)
    (u : String) : Except PyError (List UserGroupMembership) :=
  ((VaultGroupMembershipRepository.listForUser P D u).run server.exec w).1

/-- The document at the groups path of `u`: absent if there are no memberships `ms`, and
otherwise these, which are of `u` and stand by increasing group names. -/
structure GroupsDocument (P : Platform) (D : VaultDeployment) (w : VaultWorld) (u : String)
    (ms : List UserGroupMembership) : Prop where
  sorted : SortedBy UserGroupMembership.groupName ms
  own : ∀ m ∈ ms, m.keycloakSub = u
  read_eq : w.read (D.paths.userGroupsPath u) =
    if ms = [] then none
    else some [("keycloak_sub", .str u),
      ("memberships", .arr (ms.map fun m => .obj (serializeMembership P m)))]

/-- What a call that returns does to the list of its user. -/
def MembershipEdit.Does (P : Platform) (D : VaultDeployment) (server : VaultServer)
    (w : VaultWorld) : MembershipEdit → EditResult → VaultWorld → Prop
  | .add m, r, w' => r = .added m ∧ ∃ old before after,
      listAt P D server w m.keycloakSub = .ok old
        ∧ (old.filter fun x => x.groupName ≠ m.groupName) = before ++ after
        ∧ Between UserGroupMembership.groupName m.groupName before after
        ∧ listAt P D server w' m.keycloakSub = .ok (before ++ m :: after)
  | .remove u g, r, w' => ∃ old, listAt P D server w u = .ok old ∧
      ((r = .removed true ∧ ∃ before m after, old = before ++ m :: after ∧ m.groupName = g
          ∧ listAt P D server w' u = .ok (before ++ after))
        ∨ r = .removed false ∧ (∀ m ∈ old, m.groupName ≠ g) ∧ w' = w)

variable {P : Platform} {D : VaultDeployment} {server : VaultServer} {faults : Prop}
  {w w' : VaultWorld} {u g : String} {ms : List UserGroupMembership}

/-! ### One document -/

lemma listAt_eq (server : VaultServer) (w : VaultWorld) (u : String) :
    listAt P D server w u = membershipsOf P D.now (w.read (D.paths.userGroupsPath u)) := by
  rw [listAt, VaultGroupMembershipRepository.listForUser, run_loadMemberships]

namespace GroupsDocument

/-- A list that is sorted to such memberships is stored as their document. -/
lemma of_perm {stored : List UserGroupMembership}
    (hsorted : SortedBy UserGroupMembership.groupName ms) (hown : ∀ m ∈ ms, m.keycloakSub = u)
    (hperm : stored.Perm ms)
    (hread : w.read (D.paths.userGroupsPath u) = storedMemberships P u stored) :
    GroupsDocument P D w u ms := by
  refine ⟨hsorted, hown, ?_⟩
  have hsort : sortByGroupName stored = ms := hsorted.insertionSort_eq hperm
  cases stored with
  | nil =>
      rw [hread, if_pos hperm.nil_eq.symm]
      rfl
  | cons m rest =>
      have hne : ms ≠ [] := fun hnil => List.cons_ne_nil m rest (List.perm_nil.mp (hnil ▸ hperm))
      rw [hread, if_neg hne, storedMemberships, membershipsDoc, hsort]

lemma read_stored (h : GroupsDocument P D w u ms) :
    w.read (D.paths.userGroupsPath u) = storedMemberships P u ms := by
  have hsort : sortByGroupName ms = ms := h.sorted.insertionSort_eq (.refl ms)
  rw [h.read_eq]
  cases ms with
  | nil => rfl
  | cons m rest =>
      rw [if_neg (List.cons_ne_nil m rest), storedMemberships, membershipsDoc, hsort]

/-- The document is read back as its memberships. -/
lemma listAt_eq (h : GroupsDocument P D w u ms) (server : VaultServer) :
    listAt P D server w u = .ok ms := by
  have hsort : sortByGroupName ms = ms := h.sorted.insertionSort_eq (.refl ms)
  rw [GofrSec.listAt_eq, h.read_stored, membershipsOf_stored, hsort]

/-- Writing the list of another user leaves the document as it is. -/
lemma of_read_eq (h : GroupsDocument P D w u ms)
    (hread : w'.read (D.paths.userGroupsPath u) = w.read (D.paths.userGroupsPath u)) :
    GroupsDocument P D w' u ms :=
  ⟨h.sorted, h.own, hread.trans h.read_eq⟩

end GroupsDocument

/-- Every user has such a document. -/
def GroupsDocuments (P : Platform) (D : VaultDeployment) (w : VaultWorld) : Prop :=
  ∀ u, ∃ ms, GroupsDocument P D w u ms

/-- The documents after the list of one user has been written. -/
lemma GroupsDocuments.put (h : GroupsDocuments P D w) (server : VaultServer)
    {stored : List UserGroupMembership}
    (hsorted : SortedBy UserGroupMembership.groupName ms) (hown : ∀ m ∈ ms, m.keycloakSub = u)
    (hperm : stored.Perm ms) :
    GroupsDocuments P D (w.putMemberships P D.paths u stored)
      ∧ listAt P D server (w.putMemberships P D.paths u stored) u = .ok ms := by
  have hself : GroupsDocument P D (w.putMemberships P D.paths u stored) u ms :=
    .of_perm hsorted hown hperm (by rw [read_putMemberships, if_pos rfl])
  refine ⟨fun v => ?_, hself.listAt_eq server⟩
  by_cases hv : v = u
  · exact ⟨ms, hv ▸ hself⟩
  · obtain ⟨old, hold⟩ := h v
    refine ⟨old, hold.of_read_eq ?_⟩
    rw [read_putMemberships, if_neg fun heq => hv (userGroupsPath_inj heq)]

/-! ### One call -/

/-- What a call leaves: such documents again, of other users the same, and it has returned and
done what it does, or it has raised and changed nothing. -/
structure MembershipEdit.Leaves (P : Platform) (D : VaultDeployment) (server : VaultServer)
    (faults : Prop) (w : VaultWorld) (edit : MembershipEdit) (r : Except PyError EditResult)
    (w' : VaultWorld) : Prop where
  documents : GroupsDocuments P D w'
  frame : ∀ k, k ≠ D.paths.userGroupsPath edit.subject → w'.read k = w.read k
  outcome : (∃ v, r = .ok v ∧ edit.Does P D server w v w') ∨ faults ∧ (∃ e, r = .error e) ∧ w' = w

/-- A call that raises has changed nothing. -/
lemma leaves_error (h : GroupsDocuments P D w) (edit : MembershipEdit) (hf : faults)
    (e : PyError) : edit.Leaves P D server faults w (.error e) w :=
  ⟨h, fun _ _ => rfl, Or.inr ⟨hf, ⟨e, rfl⟩, rfl⟩⟩

/-- The documents other than the one that is written. -/
lemma read_putMemberships_of_ne (ms : List UserGroupMembership) {k : String}
    (hk : k ≠ D.paths.userGroupsPath u) :
    (w.putMemberships P D.paths u ms).read k = w.read k := by
  rw [read_putMemberships, if_neg hk]

lemma wp_add_edit (h : GroupsDocuments P D w) (m : UserGroupMembership) :
    (MembershipEdit.program P D (.add m)).wp (server.act faults).contract
      (MembershipEdit.Leaves P D server faults w (.add m)) w := by
  obtain ⟨old, hold⟩ := h m.keycloakSub
  have hload := hold.listAt_eq server
  have hothers := hold.sorted.filter fun x => x.groupName ≠ m.groupName
  obtain ⟨before, after, heq, hplace⟩ := hothers.split (k := m.groupName) fun x hx => by
    simpa using (List.mem_filter.mp hx).2
  rw [heq] at hothers
  have hown : ∀ x ∈ before ++ m :: after, x.keycloakSub = m.keycloakSub := by
    intro x hx
    rcases List.mem_append.mp hx with hx | hx
    · exact hold.own x (List.mem_filter.mp (heq ▸ List.mem_append_left after hx)).1
    · rcases List.mem_cons.mp hx with rfl | hx
      · rfl
      · exact hold.own x (List.mem_filter.mp (heq ▸ List.mem_append_right before hx)).1
  have hperm : (before ++ after ++ [m]).Perm (before ++ m :: after) := by
    rw [List.append_assoc]
    exact List.perm_append_comm.append_left before
  obtain ⟨hdocs, hlist⟩ := h.put server (hothers.insert hplace) hown hperm
  rw [MembershipEdit.program, Prog.wp_map, VaultGroupMembershipRepository.add, Prog.wp_bind,
    wp_loadMemberships, ← listAt_eq server, hload]
  refine ⟨?_, fun hf e => leaves_error h _ hf e⟩
  rw [Prog.onReturn_ok, heq, Prog.wp_bind, wp_storeMemberships]
  refine ⟨?_, fun hf e => leaves_error h _ hf e⟩
  exact ⟨hdocs, fun k hk => read_putMemberships_of_ne _ hk,
    Or.inl ⟨_, rfl, rfl, old, before, after, hload, heq, hplace, hlist⟩⟩

lemma wp_remove_edit (h : GroupsDocuments P D w) (u g : String) :
    (MembershipEdit.program P D (.remove u g)).wp (server.act faults).contract
      (MembershipEdit.Leaves P D server faults w (.remove u g)) w := by
  obtain ⟨old, hold⟩ := h u
  have hload := hold.listAt_eq server
  rw [MembershipEdit.program, Prog.wp_map, VaultGroupMembershipRepository.remove, Prog.wp_bind,
    wp_loadMemberships, ← listAt_eq server, hload]
  refine ⟨?_, fun hf e => leaves_error h _ hf e⟩
  rw [Prog.onReturn_ok]
  dsimp only
  split_ifs with hlen
  · -- nothing was filtered out
    have hnone : ∀ m ∈ old, m.groupName ≠ g := by
      have hself := List.Sublist.eq_of_length List.filter_sublist hlen
      simpa using List.filter_eq_self.mp hself
    exact ⟨h, fun _ _ => rfl, Or.inl ⟨_, rfl, old, hload, Or.inr ⟨rfl, hnone, rfl⟩⟩⟩
  · obtain ⟨m, hm, hgroup⟩ : ∃ m ∈ old, m.groupName = g := by
      by_contra hnone
      push Not at hnone
      exact hlen (congrArg List.length (List.filter_eq_self.mpr (by simpa using hnone)))
    obtain ⟨before, after, hcut, hrest⟩ := hold.sorted.cut hm
    rw [hgroup] at hrest
    have hsorted := hold.sorted.filter fun x => x.groupName ≠ g
    rw [hrest] at hsorted
    have hown : ∀ x ∈ before ++ after, x.keycloakSub = u :=
      fun x hx => hold.own x (List.mem_filter.mp (hrest ▸ hx)).1
    obtain ⟨hdocs, hlist⟩ := h.put server hsorted hown (.refl _)
    rw [hrest, Prog.wp_bind, wp_storeMemberships]
    refine ⟨?_, fun hf e => leaves_error h _ hf e⟩
    exact ⟨hdocs, fun k hk => read_putMemberships_of_ne _ hk,
      Or.inl ⟨_, rfl, old, hload, Or.inl ⟨rfl, before, m, after, hcut, hgroup, hlist⟩⟩⟩

/-- **One call.** -/
lemma leaves_of_runs (h : GroupsDocuments P D w) {edit : MembershipEdit}
    {r : Except PyError EditResult}
    (hrun : (edit.program P D).Runs (server.act faults) w r w') :
    edit.Leaves P D server faults w r w' := by
  refine (Prog.wp_contract_iff _ _ _).mp ?_ r w' hrun
  cases edit with
  | add m => exact wp_add_edit h m
  | remove u g => exact wp_remove_edit h u g

/-! ### Any sequence of calls -/

/-- A store without membership documents. -/
lemma groupsDocuments_of_none (h : ∀ u, w.read (D.paths.userGroupsPath u) = none) :
    GroupsDocuments P D w :=
  fun u => ⟨[], List.Pairwise.nil, by simp, h u⟩

lemma groupsDocuments_of_session {w₀ : VaultWorld}
    (hempty : ∀ u, w₀.read (D.paths.userGroupsPath u) = none)
    {h : History MembershipEdit PyError EditResult}
    (hsession : Session (server.act faults) (MembershipEdit.program P D) w₀ h w) :
    GroupsDocuments P D w := by
  induction hsession with
  | start => exact groupsDocuments_of_none hempty
  | step _ hrun ih => exact (leaves_of_runs ih hrun).documents

/-- **The representation invariant.** From a store without membership documents, after any
sequence of `add` and `remove` calls, failures or not: every user's document is absent or
holds the user's memberships, by strictly increasing group names; and every further call
keeps that, changes no document of another user, and does to the list of its own what it is
to do. -/
theorem membershipDocuments {w₀ : VaultWorld}
    (hempty : ∀ u, w₀.read (D.paths.userGroupsPath u) = none)
    {h : History MembershipEdit PyError EditResult}
    (hsession : Session (server.act faults) (MembershipEdit.program P D) w₀ h w) :
    (∀ u, ∃ ms, GroupsDocument P D w u ms ∧ listAt P D server w u = .ok ms)
      ∧ ∀ (edit : MembershipEdit) r w', (edit.program P D).Runs (server.act faults) w r w' →
          edit.Leaves P D server faults w r w' ∧ ∀ u, u ≠ edit.subject →
            w'.read (D.paths.userGroupsPath u) = w.read (D.paths.userGroupsPath u) := by
  have hdocs := groupsDocuments_of_session hempty hsession
  constructor
  · intro u
    obtain ⟨ms, hms⟩ := hdocs u
    exact ⟨ms, hms, hms.listAt_eq server⟩
  · intro edit r w' hrun
    have hleaves := leaves_of_runs hdocs hrun
    exact ⟨hleaves, fun u hu => hleaves.frame _ fun heq => hu (userGroupsPath_inj heq)⟩

/-- Two memberships of a user, newest first. -/
def opsAfterStaff : List MembershipEdit :=
  [.add ⟨"alice", "ops", VaultDeployment.python.now, .null⟩,
    .add ⟨"alice", "staff", VaultDeployment.python.now, .null⟩]

/-- The store after both calls. -/
def opsStaffStored : VaultWorld :=
  (play VaultServer.inOrder.exec (MembershipEdit.program .python .python) .empty opsAfterStaff).2

/-- The calls with what they returned. -/
def opsStaffHistory : History MembershipEdit PyError EditResult :=
  (play VaultServer.inOrder.exec (MembershipEdit.program .python .python) .empty
    opsAfterStaff).1.map fun m => (m.op, m.outcome)

lemma opsStaff_session : Session VaultServer.inOrder.exec.graph
    (MembershipEdit.program .python .python) .empty opsStaffHistory opsStaffStored :=
  (play_trace _ _).session

lemma map_fst_opsStaffHistory : opsStaffHistory.map Prod.fst = opsAfterStaff := by
  rw [opsStaffHistory, List.map_map]
  exact map_op_play _ _

/-- The groups of the user stand in order, although they came in the other one. -/
theorem membershipDocuments_opsStaff :
    ∃ ms, GroupsDocument .python .python opsStaffStored "alice" ms
      ∧ ms.map (·.groupName) = ["ops", "staff"] := by
  have hsession : Session (VaultServer.inOrder.act False)
      (MembershipEdit.program .python .python) .empty opsStaffHistory opsStaffStored :=
    opsStaff_session.mono fun _ _ _ _ hexec => Or.inl hexec
  obtain ⟨ms, hms, hlist⟩ := (membershipDocuments (fun _ => rfl) hsession).1 "alice"
  have hnames : ((listAt .python .python .inOrder opsStaffStored "alice").toOption.map
      (List.map (·.groupName))) = some ["ops", "staff"] := by decide +kernel
  rw [hlist] at hnames
  exact ⟨ms, hms, Option.some.inj hnames⟩

end GofrSec
