/-
The two views of membership over Vault: `has_membership` goes to the document of one
subject, `list_for_group` goes through the users that a listing shows.

* `Stands`: by the calls alone, whether a subject is a member;
* `ViewsAgree`: the listing holds the members, each once, and counts them;
* `slashless_of_userIds`: a listing shows no subject with a slash in it;
* `viewsAgree_iff`: after any sequence of calls the views agree on a group exactly
  when no member of it has a slash in its subject.
-/
import GofrSec.Properties.MembershipDocuments

namespace GofrSec

open Calls Text VaultServer VaultPathLayout

/-- By the calls, the newest first, whether `u` is a member of `g`: whether the last of them
about the two was an `add`. -/
def Stands (u g : String) : List MembershipEdit → Prop
  | [] => False
  | .add m :: edits => m.keycloakSub = u ∧ m.groupName = g ∨ Stands u g edits
  | .remove u' g' :: edits => ¬ (u' = u ∧ g' = g) ∧ Stands u g edits

/-- What `has_membership(u, g)` answers. -/
def hasAt (P : Platform) (D : VaultDeployment) (server : VaultServer) (w : VaultWorld)
    (u g : String) : Except PyError Bool :=
  ((VaultGroupMembershipRepository.hasMembership P D u g).run server.exec w).1

/-- `list_for_group(g)` returns one membership in `g` for each subject that has it, and no
other, and `count_members(g)` their number. -/
def ViewsAgree (P : Platform) (D : VaultDeployment) (server : VaultServer) (w : VaultWorld)
    (g : String) : Prop :=
  ∃ ms, ((VaultGroupMembershipRepository.listForGroup P D g).run server.exec w).1 = .ok ms
    ∧ (∀ m ∈ ms, m.groupName = g) ∧ (ms.map (·.keycloakSub)).Nodup
    ∧ (∀ u, u ∈ ms.map (·.keycloakSub) ↔ hasAt P D server w u g = .ok true)
    ∧ ((VaultGroupMembershipRepository.countMembers P D g).run server.exec w).1 = .ok ms.length

variable {P : Platform} {D : VaultDeployment} {server : VaultServer} {faults : Prop}
  {w w' : VaultWorld} {u g : String} {edits : List MembershipEdit}
  {ms : List UserGroupMembership}

/-! ### The documents, by the calls -/

/-- The documents hold the memberships that stand by the calls. -/
def HoldStanding (P : Platform) (D : VaultDeployment) (w : VaultWorld)
    (edits : List MembershipEdit) : Prop :=
  ∀ u, ∃ ms, GroupsDocument P D w u ms ∧ ∀ g, (∃ m ∈ ms, m.groupName = g) ↔ Stands u g edits

/-- A call is about no other subject. -/
lemma stands_cons_of_ne {edit : MembershipEdit} (hu : u ≠ edit.subject) :
    Stands u g (edit :: edits) ↔ Stands u g edits := by
  cases edit with
  | add m =>
      rw [Stands]
      exact or_iff_right fun h => hu h.1.symm
  | remove u' g' =>
      rw [Stands]
      exact and_iff_right fun h => hu h.1.symm

/-- A list after a call holds what stands then. -/
lemma holds_of_does {edit : MembershipEdit} {v : EditResult} {old new : List UserGroupMembership}
    (hdoes : edit.Does P D server w v w') (hold : listAt P D server w edit.subject = .ok old)
    (hnew : listAt P D server w' edit.subject = .ok new)
    (hsorted : SortedBy UserGroupMembership.groupName old)
    (hstands : ∀ g, (∃ m ∈ old, m.groupName = g) ↔ Stands edit.subject g edits) (g : String) :
    (∃ m ∈ new, m.groupName = g) ↔ Stands edit.subject g (edit :: edits) := by
  cases edit with
  | add m =>
      obtain ⟨-, old', before, after, hold', hfilter, -, hnew'⟩ := hdoes
      obtain rfl := Except.ok.inj (hold.symm.trans hold')
      obtain rfl := Except.ok.inj (hnew.symm.trans hnew')
      have hothers : ∀ x, x ∈ before ++ after ↔ x ∈ old ∧ x.groupName ≠ m.groupName := by
        intro x
        rw [← hfilter, List.mem_filter, decide_eq_true_eq]
      rw [Stands, ← hstands g]
      constructor
      · rintro ⟨x, hx, hg⟩
        rcases List.mem_append.mp hx with hx | hx
        · exact Or.inr ⟨x, ((hothers x).mp (List.mem_append_left _ hx)).1, hg⟩
        · rcases List.mem_cons.mp hx with rfl | hx
          · exact Or.inl ⟨rfl, hg⟩
          · exact Or.inr ⟨x, ((hothers x).mp (List.mem_append_right _ hx)).1, hg⟩
      · rintro (⟨-, hg⟩ | ⟨x, hx, hg⟩)
        · exact ⟨m, by simp, hg⟩
        · by_cases hsame : x.groupName = m.groupName
          · exact ⟨m, by simp, hsame.symm.trans hg⟩
          · have hmem := (hothers x).mpr ⟨hx, hsame⟩
            exact ⟨x, by simp only [List.mem_append, List.mem_cons] at hmem ⊢; tauto, hg⟩
  | remove u g' =>
      obtain ⟨old', hold', hcases⟩ := hdoes
      obtain rfl := Except.ok.inj (hold.symm.trans hold')
      rw [Stands, ← hstands g]
      rcases hcases with ⟨-, before, m, after, rfl, hg', hnew'⟩ | ⟨-, hnone, rfl⟩
      · obtain rfl := Except.ok.inj (hnew.symm.trans hnew')
        have hne := hsorted.key_ne
        constructor
        · rintro ⟨x, hx, hg⟩
          refine ⟨fun h => hne x hx (hg.trans (h.2.symm.trans hg'.symm)), x, ?_, hg⟩
          simp only [List.mem_append, List.mem_cons] at hx ⊢
          tauto
        · rintro ⟨hother, x, hx, hg⟩
          refine ⟨x, ?_, hg⟩
          have hxm : x ≠ m := fun h => hother ⟨rfl, hg'.symm.trans (h ▸ hg)⟩
          simp only [List.mem_append, List.mem_cons] at hx ⊢
          tauto
      · obtain rfl := Except.ok.inj (hnew.symm.trans hold)
        refine ⟨?_, fun h => h.2⟩
        rintro ⟨x, hx, hg⟩
        exact ⟨fun h => hnone x hx (hg.trans h.2.symm), x, hx, hg⟩

lemma HoldStanding.step (h : HoldStanding P D w edits) {edit : MembershipEdit}
    {r : Except PyError EditResult}
    (hrun : (edit.program P D).Runs server.exec.graph w r w') :
    HoldStanding P D w' (edit :: edits) := by
  have hdocs : GroupsDocuments P D w := fun u => ⟨_, (h u).choose_spec.1⟩
  have hleaves : edit.Leaves P D server False w r w' :=
    leaves_of_runs hdocs (hrun.mono fun _ _ _ _ hexec => Or.inl hexec)
  obtain ⟨v, -, hdoes⟩ := hleaves.outcome.resolve_right fun h => h.1
  intro u
  by_cases hu : u = edit.subject
  · obtain ⟨old, hold, hstands⟩ := h edit.subject
    obtain ⟨new, hnew⟩ := hleaves.documents edit.subject
    rw [hu]
    exact ⟨new, hnew, fun g => holds_of_does hdoes (hold.listAt_eq _) (hnew.listAt_eq _)
      hold.sorted hstands g⟩
  · obtain ⟨ms, hms, hstands⟩ := h u
    refine ⟨ms, hms.of_read_eq (hleaves.frame _ fun heq => hu (userGroupsPath_inj heq)), ?_⟩
    exact fun g => (hstands g).trans (stands_cons_of_ne hu).symm

lemma holdStanding_of_session {w₀ : VaultWorld}
    (hempty : ∀ u, w₀.read (D.paths.userGroupsPath u) = none)
    {h : History MembershipEdit PyError EditResult}
    (hsession : Session server.exec.graph (MembershipEdit.program P D) w₀ h w) :
    HoldStanding P D w (h.map Prod.fst) := by
  induction hsession with
  | start => exact fun u => ⟨[], ⟨List.Pairwise.nil, by simp, hempty u⟩, by simp [Stands]⟩
  | step _ hrun ih => exact ih.step hrun

/-- What stands has been added. -/
lemma exists_of_stands (h : Stands u g edits) : ∃ edit ∈ edits, edit.subject = u := by
  induction edits with
  | nil => exact h.elim
  | cons edit edits ih =>
      by_cases hu : u = edit.subject
      · exact ⟨edit, List.mem_cons_self, hu.symm⟩
      · obtain ⟨edit', hmem, hsubject⟩ := ih ((stands_cons_of_ne hu).mp h)
        exact ⟨edit', List.mem_cons_of_mem _ hmem, hsubject⟩

/-! ### The listing -/

/-- The users that a listing of the users root shows. -/
abbrev knownUsers (D : VaultDeployment) (server : VaultServer) (w : VaultWorld) : List String :=
  userIdsOf (server.arrange (w.names D.paths.usersRoot))

lemma nodup_knownUsers : (knownUsers D server w).Nodup :=
  (List.perm_insertionSort _ _).nodup_iff.mpr (List.nodup_dedup _)

/-- A listing shows the first segment of a path, in which there is no slash. -/
lemma slashless_of_userIds (hu : u ∈ knownUsers D server w) : '/' ∉ u.toList := by
  rw [knownUsers, userIdsOf, List.mem_insertionSort, List.mem_dedup, List.mem_filter] at hu
  obtain ⟨hname, hne⟩ := hu
  obtain ⟨name, hmem, rfl⟩ := List.mem_map.mp hname
  obtain ⟨k, d, -, hnext⟩ := VaultWorld.mem_names.mp (mem_arrange.mp hmem)
  rcases nextSegment_eq_some hnext with ⟨hslash, -⟩ | ⟨v, t, hslash, rfl, -⟩
  · rwa [rstripSlash_of_slashless hslash]
  · by_cases hv : v = ""
    · subst hv
      exact absurd hne (by decide)
    · rwa [IsSegment.rstripSlash_folder ⟨hv, hslash⟩]

/-- A subject that is one segment is listed when it has a memberships document. -/
lemma mem_knownUsers (hu : IsSegment u) {d : Doc}
    (hd : w.read (D.paths.userGroupsPath u) = some d) : u ∈ knownUsers D server w := by
  have hname : u ++ "/" ∈ w.names D.paths.usersRoot :=
    VaultWorld.mem_names.mpr ⟨_, d, hd, nextSegment_below_below hu.2⟩
  rw [knownUsers, userIdsOf, List.mem_insertionSort, List.mem_dedup, List.mem_filter]
  refine ⟨List.mem_map.mpr ⟨u ++ "/", mem_arrange.mpr hname, hu.rstripSlash_folder⟩, ?_⟩
  simpa using hu.1

/-! ### What the two views answer -/

lemma hasAt_eq (h : GroupsDocument P D w u ms) :
    hasAt P D server w u g = .ok (ms.any fun m => m.groupName = g) := by
  have hload := h.listAt_eq server
  rw [listAt_eq] at hload
  rw [hasAt, run_hasMembership, hload]
  rfl

lemma run_listForGroup (server : VaultServer) {load : String → List UserGroupMembership}
    (hload : ∀ u, GroupsDocument P D w u (load u)) (g : String) :
    (VaultGroupMembershipRepository.listForGroup P D g).run server.exec w
      = (.ok ((knownUsers D server w).flatMap fun u => (load u).filter fun m => m.groupName = g),
          w) := by
  refine run_eq_of_wp ?_
  rw [VaultGroupMembershipRepository.listForGroup, Prog.wp_bind, listKnownUserIds, Prog.wp_bind,
    wp_listSecrets]
  refine ⟨?_, fun hf => hf.elim⟩
  rw [Prog.onReturn_ok, Prog.wp_pure, Prog.onReturn_ok]
  refine wp_membersAmong (fun u _ => ?_) ⟨rfl, rfl⟩ fun hf => hf.elim
  rw [← listAt_eq server]
  exact (hload u).listAt_eq server

/-- The subject of each listed membership: of each known user the user, if a member. -/
lemma map_keycloakSub_listed {load : String → List UserGroupMembership}
    (hload : ∀ u, GroupsDocument P D w u (load u)) (g : String) (us : List String) :
    ((us.flatMap fun u => (load u).filter fun m => m.groupName = g).map (·.keycloakSub))
      = us.filter fun u => (load u).any fun m => m.groupName = g := by
  induction us with
  | nil => rfl
  | cons u us ih =>
      rw [List.flatMap_cons, List.map_append, ih]
      by_cases hany : ∃ m ∈ load u, m.groupName = g
      · obtain ⟨m, hm, rfl⟩ := hany
        have hyes : ((load u).any fun m' => m'.groupName = m.groupName) = true :=
          List.any_eq_true.mpr ⟨m, hm, decide_eq_true rfl⟩
        rw [(hload u).sorted.filter_eq hm, List.filter_cons, if_pos hyes, List.map_singleton,
          (hload u).own m hm, List.singleton_append]
      · have hnone : (load u).filter (fun m => m.groupName = g) = [] :=
          List.filter_eq_nil_iff.mpr fun m hm hg => hany ⟨m, hm, of_decide_eq_true hg⟩
        rw [hnone, List.filter_cons, if_neg (by simpa using hany)]
        rfl

/-- **Both views**, by the documents: they agree on a group if each of its members is listed. -/
lemma viewsAgree_iff_listed {load : String → List UserGroupMembership}
    (hload : ∀ u, GroupsDocument P D w u (load u)) (g : String) :
    ViewsAgree P D server w g
      ↔ ∀ u, (∃ m ∈ load u, m.groupName = g) → u ∈ knownUsers D server w := by
  have hlist := run_listForGroup server hload g
  have hhas : ∀ u, hasAt P D server w u g = .ok true ↔ ∃ m ∈ load u, m.groupName = g := by
    intro u
    rw [hasAt_eq (hload u), Except.ok.injEq, List.any_eq_true]
    simp
  have hsubs := map_keycloakSub_listed hload g (knownUsers D server w)
  constructor
  · rintro ⟨ms, hms, -, -, hmem, -⟩ u hu
    rw [hlist] at hms
    obtain rfl := Except.ok.inj hms
    have hin := (hmem u).mpr ((hhas u).mpr hu)
    rw [hsubs] at hin
    exact (List.mem_filter.mp hin).1
  · intro hall
    refine ⟨_, by rw [hlist], ?_, ?_, ?_, ?_⟩
    · intro m hm
      obtain ⟨u, -, hm⟩ := List.mem_flatMap.mp hm
      exact of_decide_eq_true (List.mem_filter.mp hm).2
    · rw [hsubs]
      exact nodup_knownUsers.filter _
    · intro u
      rw [hsubs, List.mem_filter, hhas, List.any_eq_true]
      simp only [decide_eq_true_eq]
      exact ⟨fun h => h.2, fun h => ⟨hall u h, h⟩⟩
    · rw [VaultGroupMembershipRepository.countMembers, Prog.run_bind, hlist]
      rfl

/-! ### Any sequence of calls -/

/-- **The views of a group agree exactly when no member has a slash in its subject.** The
store has no membership documents to begin with, and the calls that follow, in any order and
number, are about subjects that are not blank. -/
theorem viewsAgree_iff {w₀ : VaultWorld}
    (hempty : ∀ u, w₀.read (D.paths.userGroupsPath u) = none)
    {h : History MembershipEdit PyError EditResult}
    (hsession : Session server.exec.graph (MembershipEdit.program P D) w₀ h w)
    (hadmitted : ∀ edit ∈ h.map Prod.fst, strip edit.subject ≠ "") (g : String) :
    ViewsAgree P D server w g ↔ ∀ u, Stands u g (h.map Prod.fst) → '/' ∉ u.toList := by
  choose load hload hstands using holdStanding_of_session hempty hsession
  rw [viewsAgree_iff_listed hload g]
  constructor
  · intro hall u hu
    exact slashless_of_userIds (hall u ((hstands u g).mpr hu))
  · intro hall u hu
    have hstand := (hstands u g).mp hu
    obtain ⟨edit, hedit, hsubject⟩ := exists_of_stands hstand
    have hne : u ≠ "" := by
      rintro rfl
      exact hadmitted edit hedit (by rw [hsubject]; decide)
    obtain ⟨m, hm, -⟩ := hu
    have hread := (hload u).read_eq
    rw [if_neg (List.ne_nil_of_mem hm)] at hread
    exact mem_knownUsers ⟨hne, hall u hstand⟩ hread

/-- The views of "ops" agree after the calls `opsAfterStaff`. -/
theorem viewsAgree_opsAfterStaff :
    ViewsAgree .python .python .inOrder opsStaffStored "ops" := by
  refine (viewsAgree_iff (fun _ => rfl) opsStaff_session ?_ "ops").mpr ?_
  · rw [map_fst_opsStaffHistory]
    exact List.forall_mem_cons.mpr ⟨by decide, List.forall_mem_cons.mpr ⟨by decide, by simp⟩⟩
  · rw [map_fst_opsStaffHistory]
    rintro u (⟨rfl, -⟩ | ⟨rfl, -⟩ | ⟨⟨⟩⟩)
    · decide
    · decide

/-- A subject that is no single path segment. -/
def slashAdmin : MembershipEdit :=
  .add ⟨"realm/alice", "admin", VaultDeployment.python.now, .null⟩

/-- The store after the subject has been made an administrator. -/
def slashAdminStored : VaultWorld :=
  ((slashAdmin.program .python .python).run VaultServer.inOrder.exec .empty).2

/-- `has_membership` finds the only administrator, and `count_members` counts none. -/
theorem views_disagree_slashAdmin :
    Session VaultServer.inOrder.exec.graph (MembershipEdit.program .python .python) .empty
        [(slashAdmin, ((slashAdmin.program .python .python).run
          VaultServer.inOrder.exec .empty).1)] slashAdminStored
      ∧ strip slashAdmin.subject ≠ ""
      ∧ hasAt .python .python .inOrder slashAdminStored "realm/alice" "admin" = .ok true
      ∧ ¬ ViewsAgree .python .python .inOrder slashAdminStored "admin" := by
  have hhas : hasAt .python .python .inOrder slashAdminStored "realm/alice" "admin" = .ok true := by
    decide +kernel
  have hcount : ((VaultGroupMembershipRepository.countMembers .python .python "admin").run
      VaultServer.inOrder.exec slashAdminStored).1 = .ok 0 := by decide +kernel
  refine ⟨.step .start ((Prog.runs_graph_iff _).mpr rfl), by decide +kernel, hhas, ?_⟩
  rintro ⟨ms, -, -, -, hmem, hlength⟩
  obtain rfl := List.length_eq_zero_iff.mp (Except.ok.inj (hlength.symm.trans hcount))
  exact absurd ((hmem "realm/alice").mpr hhas) (by simp)

end GofrSec
