/-
A start-up plan that is cut off, and started again until it completes.

* `StartUp`: a start-up, by its configured subjects and the readings of its clock;
  `SameSubjects`: two that are configured with the same set of subjects;
* `withGrant`, `SameButTimes`: the stores after two start-ups are the same, but for the
  times of what they have added;
* `Advanced`: what any number of start-ups, cut off or not, have added so far;
* `bootstrap_restartable`: whatever was cut off before, a start-up that completes leaves
  the stores as one that was never interrupted does, and all that was there as it was.
-/
import GofrSec.Properties.Restart
import GofrSec.Repositories.Reached
import GofrSec.SortedBy

namespace GofrSec

open Calls Text VaultServer VaultPathLayout

/-- A start-up of the service. -/
structure StartUp where
  subjects : List String
  createdAt : DateTime
  grantedAt : String → DateTime

/-- `apply_plan` of what is configured. -/
def StartUp.program (startUp : StartUp) : RepoProg BootstrapPlan :=
  applyPlan startUp.subjects startUp.createdAt startUp.grantedAt

/-- `u` is configured, up to blanks around it. -/
def StartUp.Configures (startUp : StartUp) (u : String) : Prop :=
  u ≠ "" ∧ ∃ subject ∈ startUp.subjects, strip subject = u

/-- The set of the stripped subjects that are not blank is the same. -/
def SameSubjects (a b : StartUp) : Prop := ∀ u, a.Configures u ↔ b.Configures u

/-- The membership that a start-up adds. -/
def adminGrant (u : String) (time : DateTime) : UserGroupMembership :=
  { keycloakSub := u
    groupName := "admin"
    grantedAt := time
    grantedBySub := .null }

/-- The memberships of a user with another time of the grant of `admin`. -/
def grantedAdminAt (time : DateTime) (ms : List UserGroupMembership) : List UserGroupMembership :=
  ms.map fun m => if m.groupName = "admin" then { m with grantedAt := time } else m

/-- The groups and memberships of two states are the same, but for the creation time of an
`admin` group and the times of `admin` memberships that were not there in the state `s`. -/
structure SameButTimes (P : Platform) (st : Storage) (s t t' : st.State) : Prop where
  groups : ∀ g, g ≠ "admin" → st.groupAt P t' g = st.groupAt P t g
  admin : st.groupAt P t' "admin" = st.groupAt P t "admin" ∨ st.groupAt P s "admin" = .ok none
    ∧ ∃ group time, st.groupAt P t "admin" = .ok (some group)
      ∧ st.groupAt P t' "admin" = .ok (some { group with createdAt := time })
  memberships : ∀ u, st.membershipsAt P t' u = st.membershipsAt P t u ∨
    ¬ st.HasMembership P s u "admin" ∧ ∃ ms time, st.membershipsAt P t u = .ok ms
      ∧ st.membershipsAt P t' u = .ok (grantedAdminAt time ms)

/-- `u` has exactly one membership of `admin`. -/
def GrantedOnce (P : Platform) (st : Storage) (t : st.State) (u : String) : Prop :=
  ∃ ms m, st.membershipsAt P t u = .ok ms ∧ (ms.filter fun x => x.groupName = "admin") = [m]

/-- What was there in the state `s` is there in the state `t`, and nothing else but an
`admin` group that was missing, and a membership in it of each subject that had none. -/
structure KeepsAll (P : Platform) (st : Storage) (startUp : StartUp) (s t : st.State) : Prop where
  groups : ∀ g, (g ≠ "admin" ∨ ∃ group, st.groupAt P s g = .ok (some group)) →
    st.groupAt P t g = st.groupAt P s g
  others : ∀ u, (startUp.Configures u → st.HasMembership P s u "admin") →
    st.membershipsAt P t u = st.membershipsAt P s u
  memberships : ∀ u ms, st.membershipsAt P s u = .ok ms →
    ∃ ms', st.membershipsAt P t u = .ok ms' ∧ (∀ m ∈ ms, m ∈ ms')
      ∧ ∀ m ∈ ms', m ∈ ms ∨ ∃ time, m = adminGrant u time

/-! ### The calls of a plan -/

variable {P : Platform} {st : Storage} {s t t' : st.State} {faults : Prop}

/-- The calls that a plan makes. -/
def RepoCall.InPlan : RepoCall → Prop
  | .groupGet _ => True
  | .groupUpsert _ => True
  | .hasMembership _ _ => True
  | .membershipAdd _ => True
  | _ => False

/-- Over Vault an addition stores the list of the user with the membership in it. -/
lemma run_membershipAdd {D : VaultDeployment} (server : VaultServer) {w : VaultWorld}
    {m : UserGroupMembership} {ms : List UserGroupMembership}
    (hload : membershipsOf P D.now (w.read (D.paths.userGroupsPath m.keycloakSub)) = .ok ms) :
    (VaultGroupMembershipRepository.add P D m).run server.exec w
      = (.ok m, w.putMemberships P D.paths m.keycloakSub
          ((ms.filter fun x => x.groupName ≠ m.groupName) ++ [m])) := by
  refine run_eq_of_wp ?_
  rw [VaultGroupMembershipRepository.add, Prog.wp_bind, wp_loadMemberships, hload]
  refine ⟨?_, fun hf => hf.elim⟩
  rw [Prog.onReturn_ok, Prog.wp_bind, wp_storeMemberships]
  exact ⟨⟨rfl, rfl⟩, fun hf => hf.elim⟩

/-- A call of a plan is made as a whole, or raises without effect. -/
lemma Storage.act_inPlan {c : RepoCall} (hc : c.InPlan) {r : Except PyError c.Res}
    (h : st.act P faults c t r t') :
    st.exec P c t = (r, t') ∨ faults ∧ (∃ e, r = .error e) ∧ t' = t := by
  cases st with
  | memory C signer => exact h.imp id fun h => ⟨h.1.1, h.2⟩
  | vault D server =>
      have hraises : faults → ∀ e : PyError, (vaultProgram P D c).run server.exec t = (.error e, t)
          ∨ faults ∧ (∃ e', Except.error e = (.error e' : Except PyError c.Res)) ∧ t = t :=
        fun hf e => Or.inr ⟨hf, ⟨e, rfl⟩, rfl⟩
      refine (Prog.wp_contract_iff _ (fun r t' => (vaultProgram P D c).run server.exec t = (r, t')
        ∨ faults ∧ (∃ e, r = .error e) ∧ t' = t) t).mp ?_ r t' h
      cases c with
      | groupGet g => exact (wp_getRecord _ _ _).mpr ⟨Or.inl (run_getRecord _ _), hraises⟩
      | groupUpsert group =>
          exact (Prog.wp_bind _ _ _ _).mpr ((wp_writeSecret _ _ _).mpr ⟨Or.inl rfl, hraises⟩)
      | hasMembership u g =>
          have hrun : (vaultProgram P D (.hasMembership u g)).run server.exec t
              = ((membershipsOf P D.now (t.read (D.paths.userGroupsPath u))).map
                  fun ms => ms.any fun m => m.groupName = g, t) := run_hasMembership u g
          refine (Prog.wp_bind _ _ _ _).mpr ((wp_loadMemberships _ _).mpr ⟨?_, hraises⟩)
          cases hload : membershipsOf P D.now (t.read (D.paths.userGroupsPath u)) with
          | error e =>
              rw [hload] at hrun
              exact Or.inl hrun
          | ok ms =>
              rw [hload] at hrun
              exact Or.inl hrun
      | membershipAdd m =>
          refine (Prog.wp_bind _ _ _ _).mpr ((wp_loadMemberships _ _).mpr ⟨?_, hraises⟩)
          cases hload : membershipsOf P D.now (t.read (D.paths.userGroupsPath m.keycloakSub)) with
          | error e =>
              refine Or.inl ?_
              show (VaultGroupMembershipRepository.add P D m).run server.exec t = _
              rw [VaultGroupMembershipRepository.add, Prog.run_bind, run_loadMemberships, hload]
              rfl
          | ok ms =>
              exact (Prog.wp_bind _ _ _ _).mpr ((wp_storeMemberships _ _ _).mpr
                ⟨Or.inl (run_membershipAdd server hload), hraises⟩)
      | _ => exact hc.elim

/-- The list of a user with one membership more: it goes to the end of a dictionary, or to
its place in a sorted document. -/
def Storage.withGrant (st : Storage) (ms : List UserGroupMembership) (m : UserGroupMembership) :
    List UserGroupMembership :=
  match st with
  | .memory _ _ => ms ++ [m]
  | .vault _ _ => sortByGroupName (ms ++ [m])

/-- A group that is stored is the only change. -/
lemma Storage.exec_groupUpsert (group : GroupDefinition) :
    ∃ t', st.exec P (.groupUpsert group) t = (.ok group, t')
      ∧ (∀ g, st.groupAt P t' g = if g = group.name then .ok (some group) else st.groupAt P t g)
      ∧ ∀ u, st.membershipsAt P t' u = st.membershipsAt P t u := by
  cases st with
  | memory C signer =>
      refine ⟨_, rfl, fun g => ?_, fun _ => rfl⟩
      show Except.ok ((t.groups.set group.name group).get g) = _
      rw [Dict.get_set]
      split_ifs <;> rfl
  | vault D server =>
      refine ⟨VaultWorld.write t (D.paths.groupDefinitionPath group.name) (serializeGroup P group),
        rfl, fun g => ?_, fun u => ?_⟩
      · rw [groupAt_vault, groupAt_vault]
        split_ifs with hg
        · subst hg
          rw [VaultWorld.read_write_self, decodeRecord, deserializeGroup_serializeGroup]
          rfl
        · rw [VaultWorld.read_write_of_ne _ _ fun h => hg (groupDefinitionPath_inj h)]
      · rw [membershipsAt_vault, membershipsAt_vault, VaultWorld.read_write_of_ne]
        exact ne_of_area (by decide) (under_userGroupsPath u) (under_groupDefinitionPath _)

/-- So is a membership that is added, in the list of its user. -/
lemma Storage.exec_membershipAdd {m : UserGroupMembership} {ms : List UserGroupMembership}
    (hlist : st.membershipsAt P t m.keycloakSub = .ok ms)
    (hnew : (st.exec P (.hasMembership m.keycloakSub m.groupName) t).1 = .ok false)
    (hnone : ∀ x ∈ ms, x.groupName ≠ m.groupName) :
    ∃ t', st.exec P (.membershipAdd m) t = (.ok m, t')
      ∧ (∀ g, st.groupAt P t' g = st.groupAt P t g)
      ∧ st.membershipsAt P t' m.keycloakSub = .ok (st.withGrant ms m)
      ∧ ∀ u, u ≠ m.keycloakSub → st.membershipsAt P t' u = st.membershipsAt P t u := by
  cases st with
  | memory C signer =>
      have hget : t.memberships.get (m.keycloakSub, m.groupName) = none :=
        Option.isSome_eq_false_iff.mp (Except.ok.inj hnew) |> Option.isNone_iff_eq_none.mp
      have hvalues := Dict.values_set_of_get_none m hget
      have hfilter : ∀ u, (t.memberships.set (m.keycloakSub, m.groupName) m).values.filter
          (fun x => x.keycloakSub = u)
            = t.listForUser u ++ [m].filter fun x => x.keycloakSub = u := by
        intro u
        rw [hvalues, List.filter_append]
        rfl
      refine ⟨_, rfl, fun _ => rfl, ?_, fun u hu => ?_⟩
      · refine congrArg Except.ok ((hfilter _).trans ?_)
        rw [List.filter_cons_of_pos (by simp), List.filter_nil, Except.ok.inj hlist]
        rfl
      · refine congrArg Except.ok ((hfilter u).trans ?_)
        rw [List.filter_cons_of_neg (by simpa using hu.symm), List.filter_nil, List.append_nil]
  | vault D server =>
      rw [membershipsAt_vault] at hlist
      have hfilter : (ms.filter fun x => x.groupName ≠ m.groupName) = ms :=
        List.filter_eq_self.mpr (by simpa using hnone)
      have hrun := run_membershipAdd server hlist
      rw [hfilter] at hrun
      refine ⟨_, hrun, fun g => ?_, ?_, fun u hu => ?_⟩
      · rw [groupAt_vault, groupAt_vault, read_putMemberships, if_neg]
        exact ne_of_area (by decide) (under_groupDefinitionPath g) (under_userGroupsPath _)
      · rw [membershipsAt_vault, read_putMemberships, if_pos rfl, membershipsOf_stored]
        rfl
      · rw [membershipsAt_vault, membershipsAt_vault, read_putMemberships, if_neg]
        exact fun h => hu (userGroupsPath_inj h)

lemma mem_withGrant {ms : List UserGroupMembership} {m x : UserGroupMembership} :
    x ∈ st.withGrant ms m ↔ x ∈ ms ∨ x = m := by
  cases st with
  | memory C signer => simp [Storage.withGrant]
  | vault D server => simp [Storage.withGrant, (sortByGroupName_perm _).mem_iff]

/-- In a state in order `has_membership` agrees with the list of the user. -/
lemma Storage.Orderly.hasMembership_iff (h : st.Orderly P t) {u : String}
    {ms : List UserGroupMembership} (hlist : st.membershipsAt P t u = .ok ms) (g : String) :
    st.HasMembership P t u g ↔ ∃ m ∈ ms, m.groupName = g := by
  obtain ⟨ms', hlist', -, hhas⟩ := h.membershipsAt u
  obtain rfl := Except.ok.inj (hlist.symm.trans hlist')
  rw [HasMembership, hhas, Except.ok.injEq, List.any_eq_true]
  simp only [decide_eq_true_eq]

/-! ### What start-ups have added so far -/

/-- What start-ups of the same subjects have added to the state `s` when the state is `t`:
nothing, or an `admin` group, and memberships in it of subjects that had none. -/
structure Advanced (P : Platform) (st : Storage) (startUp : StartUp) (s t : st.State) :
    Prop where
  orderly : st.Orderly P t
  groups : ∀ g, g ≠ "admin" → st.groupAt P t g = st.groupAt P s g
  admin : st.groupAt P t "admin" = st.groupAt P s "admin" ∨ st.groupAt P s "admin" = .ok none
    ∧ ∃ time, st.groupAt P t "admin" = .ok (some (buildReservedAdminGroup time))
  memberships : ∀ u, st.membershipsAt P t u = st.membershipsAt P s u ∨ startUp.Configures u
    ∧ ∃ ms time, st.membershipsAt P s u = .ok ms ∧ (∀ m ∈ ms, m.groupName ≠ "admin")
      ∧ st.membershipsAt P t u = .ok (st.withGrant ms (adminGrant u time))

namespace Advanced

variable {startUp : StartUp}

lemma refl (h : st.Orderly P s) : Advanced P st startUp s s :=
  ⟨h, fun _ _ => rfl, Or.inl rfl, fun _ => Or.inl rfl⟩

/-- The group is defined where it is missing. -/
lemma define (h : Advanced P st startUp s t) (hmissing : st.groupAt P t "admin" = .ok none)
    (time : DateTime) : ∃ t', st.exec P (.groupUpsert (buildReservedAdminGroup time)) t
        = (.ok (buildReservedAdminGroup time), t')
      ∧ Advanced P st startUp s t'
      ∧ st.groupAt P t' "admin" = .ok (some (buildReservedAdminGroup time)) := by
  obtain ⟨t', hexec, hgroups, hmemberships⟩ :=
    Storage.exec_groupUpsert (P := P) (t := t) (buildReservedAdminGroup time)
  have hadmin : st.groupAt P t' "admin" = .ok (some (buildReservedAdminGroup time)) := by
    rw [hgroups]
    exact if_pos rfl
  refine ⟨t', hexec, ⟨h.orderly.call (Storage.act_of_graph _ _ _ _ hexec), ?_, ?_, ?_⟩, hadmin⟩
  · intro g hg
    rw [hgroups, ← h.groups g hg]
    exact if_neg hg
  · refine Or.inr ⟨?_, time, hadmin⟩
    rcases h.admin with hsame | ⟨hnone, -⟩
    · rw [← hsame, hmissing]
    · exact hnone
  · intro u
    rw [hmemberships]
    exact h.memberships u

/-- A subject that is no admin is made one. -/
lemma grant (h : Advanced P st startUp s t) {u : String} (hu : startUp.Configures u)
    (hnew : (st.exec P (.hasMembership u "admin") t).1 = .ok false) (time : DateTime) :
    ∃ t', st.exec P (.membershipAdd (adminGrant u time)) t = (.ok (adminGrant u time), t')
      ∧ Advanced P st startUp s t' ∧ st.HasMembership P t' u "admin"
      ∧ (∀ v, st.HasMembership P t v "admin" → st.HasMembership P t' v "admin")
      ∧ st.groupAt P t' "admin" = st.groupAt P t "admin" := by
  obtain ⟨ms, hlist, -, -⟩ := h.orderly.membershipsAt u
  have hnot : ¬ st.HasMembership P t u "admin" := by
    rw [Storage.HasMembership, hnew]
    rintro ⟨⟩
  have hnone : ∀ m ∈ ms, m.groupName ≠ "admin" := fun m hm hadmin =>
    hnot ((h.orderly.hasMembership_iff hlist "admin").mpr ⟨m, hm, hadmin⟩)
  obtain ⟨t', hexec, hgroups, hself, hothers⟩ := Storage.exec_membershipAdd
    (m := adminGrant u time) hlist hnew hnone
  have horderly : st.Orderly P t' := h.orderly.call (Storage.act_of_graph _ _ _ _ hexec)
  have hhas : st.HasMembership P t' u "admin" :=
    (horderly.hasMembership_iff hself "admin").mpr ⟨_, mem_withGrant.mpr (Or.inr rfl), rfl⟩
  refine ⟨t', hexec, ⟨horderly, ?_, ?_, fun v => ?_⟩, hhas, fun v hv => ?_, hgroups _⟩
  · intro g hg
    rw [hgroups, h.groups g hg]
  · rw [hgroups]
    exact h.admin
  · by_cases hv : v = u
    · subst hv
      rcases h.memberships v with hsame | ⟨-, ms₀, time₀, -, -, hgranted⟩
      · exact Or.inr ⟨hu, ms, time, hsame.symm.trans hlist, hnone, hself⟩
      · -- it would be an admin already
        obtain rfl := Except.ok.inj (hlist.symm.trans hgranted)
        exact absurd rfl (hnone _ (mem_withGrant.mpr (Or.inr rfl)))
    · rw [hothers v hv]
      exact h.memberships v
  · by_cases hvu : v = u
    · rw [hvu]
      exact hhas
    · obtain ⟨ms', hlist', -, -⟩ := h.orderly.membershipsAt v
      rw [h.orderly.hasMembership_iff hlist'] at hv
      exact (horderly.hasMembership_iff ((hothers v hvu).trans hlist') "admin").mpr hv

end Advanced

/-! ### One start-up -/

variable {startUp : StartUp}

/-- A call of a plan, whether or not it raises. -/
lemma wp_inPlan {c : RepoCall} (hc : c.InPlan) {Q : Except PyError c.Res → st.State → Prop}
    {v : c.Res} {t₁ : st.State} (hexec : st.exec P c t = (.ok v, t₁)) (hok : Q (.ok v) t₁)
    (hraises : faults → ∀ e, Q (.error e) t) :
    (RepoCall.perform c).wp (st.act P faults).contract Q t := by
  refine (Prog.wp_perform _ _ _).mpr ⟨trivial, fun r t' hact => ?_⟩
  rcases Storage.act_inPlan hc hact with hrun | ⟨hf, ⟨e, rfl⟩, rfl⟩
  · obtain ⟨rfl, rfl⟩ := Prod.mk.inj (hexec.symm.trans hrun)
    exact hok
  · exact hraises hf e

/-- How the loop over the subjects `us` ends, from the state `t`. -/
structure LoopEnds (P : Platform) (st : Storage) (faults : Prop) (startUp : StartUp)
    (s t : st.State) (us : List String) (r : Except PyError Unit) (t' : st.State) : Prop where
  advanced : Advanced P st startUp s t'
  defined : st.groupAt P t' "admin" = st.groupAt P t "admin"
  kept : ∀ u, st.HasMembership P t u "admin" → st.HasMembership P t' u "admin"
  granted : r = .ok () → ∀ u ∈ us, st.HasMembership P t' u "admin"
  raises : ∀ e, r = .error e → faults

/-- The loop goes on after a subject that is an admin now. -/
lemma LoopEnds.cons {u : String} {us : List String} {t₁ : st.State} {r : Except PyError Unit}
    (h : LoopEnds P st faults startUp s t₁ us r t') (hu : st.HasMembership P t₁ u "admin")
    (hkept : ∀ v, st.HasMembership P t v "admin" → st.HasMembership P t₁ v "admin")
    (hdefined : st.groupAt P t₁ "admin" = st.groupAt P t "admin") :
    LoopEnds P st faults startUp s t (u :: us) r t' where
  advanced := h.advanced
  defined := h.defined.trans hdefined
  kept := fun v hv => h.kept v (hkept v hv)
  granted := fun hr v hv => by
    rcases List.mem_cons.mp hv with rfl | hv
    · exact h.kept v hu
    · exact h.granted hr v hv
  raises := h.raises

lemma wp_loopEnds {grantedAt : String → DateTime} {us : List String}
    (hus : ∀ u ∈ us, startUp.Configures u) (h : Advanced P st startUp s t) :
    (ensureAdminMembers grantedAt us).wp (st.act P faults).contract
      (LoopEnds P st faults startUp s t us) t := by
  induction us generalizing t with
  | nil => exact ⟨h, rfl, fun _ => id, fun _ _ hv => absurd hv List.not_mem_nil, by rintro _ ⟨⟩⟩
  | cons u us ih =>
      have hraises : faults → ∀ e, LoopEnds P st faults startUp s t (u :: us) (.error e) t :=
        fun hf e => ⟨h, rfl, fun _ => id, by rintro ⟨⟩, fun _ _ => hf⟩
      have hrest := fun v hv => hus v (List.mem_cons_of_mem _ hv)
      obtain ⟨ms, hlist, -, hhas⟩ := h.orderly.membershipsAt u
      have hexec : st.exec P (.hasMembership u "admin") t
          = (.ok (ms.any fun m => m.groupName = "admin"), t) :=
        Prod.ext (hhas "admin")
          (Storage.read_exec (c := .hasMembership u "admin") ⟨id, trivial⟩ t)
      refine (Prog.wp_bind _ _ _ _).mpr (wp_inPlan (c := .hasMembership u "admin") trivial hexec
        ?_ hraises)
      rw [Prog.onReturn_ok]
      cases hmember : ms.any fun m => m.groupName = "admin" with
      | true =>
          have hu : st.HasMembership P t u "admin" := (hhas "admin").trans (congrArg _ hmember)
          exact Prog.wp_mono (fun r t' hends => hends.cons hu (fun _ => id) rfl) (ih hrest h)
      | false =>
          obtain ⟨t₁, hadd, hadvanced, hu, hkept, hdefined⟩ := h.grant (hus u List.mem_cons_self)
            ((hhas "admin").trans (congrArg _ hmember)) (grantedAt u)
          refine (Prog.wp_bind _ _ _ _).mpr (wp_inPlan (c := .membershipAdd _) trivial hadd ?_
            hraises)
          exact Prog.wp_mono (fun r t' hends => hends.cons hu hkept hdefined)
            (ih hrest hadvanced)

/-- How a start-up ends: everything is as it was, or has been added, and if the start-up
completes, all of it. -/
structure StartUpEnds (P : Platform) (st : Storage) (faults : Prop) (startUp : StartUp)
    (s : st.State) (r : Except PyError BootstrapPlan) (t : st.State) : Prop where
  advanced : Advanced P st startUp s t
  completes : ∀ plan, r = .ok plan → (∃ group, st.groupAt P t "admin" = .ok (some group))
    ∧ ∀ u, startUp.Configures u → st.HasMembership P t u "admin"
  raises : ∀ e, r = .error e → faults

/-- **A start-up of the same subjects** goes on where those before it have ended. -/
lemma wp_startUpEnds (faults : Prop) {a : StartUp} (hsame : SameSubjects a startUp)
    (h : Advanced P st startUp s t) :
    a.program.wp (st.act P faults).contract (StartUpEnds P st faults startUp s) t := by
  have hraises : faults → ∀ e, StartUpEnds P st faults startUp s (.error e) t :=
    fun hf e => ⟨h, by rintro _ ⟨⟩, fun _ _ => hf⟩
  -- the loop over the subjects, once the group is defined
  have hloop : ∀ t₁ group, Advanced P st startUp s t₁ →
      st.groupAt P t₁ "admin" = .ok (some group) →
      (do
        ensureAdminMembers a.grantedAt (normalizeSubjects a.subjects)
        pure (buildPlan a.subjects a.createdAt) : RepoProg BootstrapPlan).wp
          (st.act P faults).contract (StartUpEnds P st faults startUp s) t₁ := by
    intro t₁ group h₁ hgroup
    have hconfigured : ∀ u ∈ normalizeSubjects a.subjects, startUp.Configures u :=
      fun u hu => (hsame u).mp (mem_normalizeSubjects.mp hu)
    refine (Prog.wp_bind _ _ _ _).mpr (Prog.wp_mono ?_ (wp_loopEnds hconfigured h₁))
    intro r t' hends
    cases r with
    | error e => exact ⟨hends.advanced, by rintro _ ⟨⟩, fun _ _ => hends.raises e rfl⟩
    | ok _ =>
        refine ⟨hends.advanced, fun _ _ => ⟨⟨group, hends.defined.trans hgroup⟩, ?_⟩,
          by rintro _ ⟨⟩⟩
        exact fun u hu => hends.granted rfl u (mem_normalizeSubjects.mpr ((hsame u).mpr hu))
  obtain ⟨found, hfound⟩ := h.orderly.groupAt_admin
  have hget : st.exec P (.groupGet "admin") t = (.ok found, t) :=
    Prod.ext hfound (Storage.read_exec (c := .groupGet "admin") ⟨id, trivial⟩ t)
  simp only [StartUp.program, applyPlan, buildPlan, ensureReservedGroups, bind_assoc]
  refine (Prog.wp_bind _ _ _ _).mpr (wp_inPlan (c := .groupGet "admin") trivial hget ?_ hraises)
  rw [Prog.onReturn_ok]
  cases found with
  | some group => exact hloop t group h hfound
  | none =>
      obtain ⟨t₁, hupsert, hadvanced, hgroup⟩ := h.define hfound a.createdAt
      refine (Prog.wp_bind _ _ _ _).mpr ((Prog.wp_bind _ _ _ _).mpr
        (wp_inPlan (c := .groupUpsert _) trivial hupsert ?_ hraises))
      exact hloop t₁ _ hadvanced hgroup

/-! ### Any number of start-ups -/

/-- Start-ups of the same subjects, whichever calls raise, add only what they are to. -/
lemma advanced_of_session {attempts : History StartUp PyError BootstrapPlan}
    (hreached : st.Reached P s) (hsession : Session (st.act P True) StartUp.program s attempts t)
    (hsame : ∀ a ∈ attempts.map Prod.fst, SameSubjects a startUp) :
    Advanced P st startUp s t := by
  induction hsession with
  | start => exact .refl hreached.orderly
  | @step attempts t t' a r _ hrun ih =>
      have hbefore := ih fun b hb => hsame b (List.mem_cons_of_mem _ hb)
      have hwp := wp_startUpEnds True (hsame a List.mem_cons_self) hbefore
      exact ((Prog.wp_contract_iff _ _ _).mp hwp r t' hrun).advanced

/-- Without failures a start-up completes. -/
lemma startUpEnds_run (startUp : StartUp) (hreached : st.Reached P s) :
    StartUpEnds P st False startUp s (startUp.program.run (st.exec P) s).1
      (startUp.program.run (st.exec P) s).2 := by
  have hself : SameSubjects startUp startUp := fun _ => Iff.rfl
  have hwp := wp_startUpEnds False hself (Advanced.refl hreached.orderly)
  exact (Prog.wp_contract_iff _ _ _).mp hwp _ _ (Storage.runs_of_run False _ s)

/-- The time of a grant is the only difference that another time makes. -/
lemma grantedAdminAt_withGrant {ms : List UserGroupMembership}
    (hnone : ∀ m ∈ ms, m.groupName ≠ "admin") (u : String) (time time' : DateTime) :
    grantedAdminAt time' (st.withGrant ms (adminGrant u time))
      = st.withGrant ms (adminGrant u time') := by
  have happend : grantedAdminAt time' (ms ++ [adminGrant u time])
      = ms ++ [adminGrant u time'] := by
    rw [grantedAdminAt, List.map_append]
    refine congrArg₂ _ ?_ rfl
    exact (List.map_congr_left fun m hm => if_neg (hnone m hm)).trans (List.map_id ms)
  cases st with
  | memory C signer => exact happend
  | vault D server =>
      have hkey : ∀ m : UserGroupMembership,
          (if m.groupName = "admin" then { m with grantedAt := time' } else m).groupName
            = m.groupName := by
        intro m
        split_ifs <;> rfl
      rw [Storage.withGrant, Storage.withGrant, ← happend]
      refine List.map_insertionSort _ _ _ _ fun a _ b _ => ?_
      rw [hkey, hkey]

/-- Two states that start-ups have completed are the same, but for the times. -/
lemma sameButTimes_of_ends {a b : Prop} {plan plan' : BootstrapPlan} (horderly : st.Orderly P s)
    (h : StartUpEnds P st a startUp s (.ok plan) t)
    (h' : StartUpEnds P st b startUp s (.ok plan') t') : SameButTimes P st s t t' where
  groups := fun g hg => (h'.advanced.groups g hg).trans (h.advanced.groups g hg).symm
  admin := by
    obtain ⟨⟨group, hgroup⟩, -⟩ := h.completes plan rfl
    obtain ⟨⟨group', hgroup'⟩, -⟩ := h'.completes plan' rfl
    rcases h.advanced.admin with hsame | ⟨hnone, time, hnew⟩
    · rcases h'.advanced.admin with hsame' | ⟨hnone', -⟩
      · exact Or.inl (hsame'.trans hsame.symm)
      · rw [hgroup, hnone'] at hsame
        cases hsame
    · rcases h'.advanced.admin with hsame' | ⟨-, time', hnew'⟩
      · rw [hgroup', hnone] at hsame'
        cases hsame'
      · exact Or.inr ⟨hnone, _, time', hnew, hnew'⟩
  memberships := by
    intro u
    -- a subject that a completed start-up has left without the membership had it before
    have hcontra : ∀ {c : Prop} {p : BootstrapPlan} {t₁ : st.State} {ms},
        StartUpEnds P st c startUp s (.ok p) t₁ → startUp.Configures u →
        st.membershipsAt P t₁ u = .ok ms → ¬ ∀ m ∈ ms, m.groupName ≠ "admin" := by
      intro c p t₁ ms hends hu hlist hnone
      have hhas := (hends.completes p rfl).2 u hu
      rw [hends.advanced.orderly.hasMembership_iff hlist] at hhas
      obtain ⟨m, hm, hadmin⟩ := hhas
      exact hnone m hm hadmin
    rcases h.advanced.memberships u with hsame | ⟨hu, ms, time, hlist, hnone, hnew⟩
    · rcases h'.advanced.memberships u with hsame' | ⟨hu, ms, time, hlist, hnone, -⟩
      · exact Or.inl (hsame'.trans hsame.symm)
      · exact absurd hnone (hcontra h hu (hsame.trans hlist))
    · rcases h'.advanced.memberships u with hsame' | ⟨-, ms', time', hlist', -, hnew'⟩
      · exact absurd hnone (hcontra h' hu (hsame'.trans hlist))
      · obtain rfl := Except.ok.inj (hlist.symm.trans hlist')
        refine Or.inr ⟨fun hhas => ?_, _, time', hnew, ?_⟩
        · rw [horderly.hasMembership_iff hlist] at hhas
          obtain ⟨m, hm, hadmin⟩ := hhas
          exact hnone m hm hadmin
        · rw [grantedAdminAt_withGrant hnone, hnew']

/-- What start-ups add takes nothing away. -/
lemma keepsAll_of_advanced (horderly : st.Orderly P s) (h : Advanced P st startUp s t) :
    KeepsAll P st startUp s t where
  groups := by
    intro g hg
    by_cases hadmin : g = "admin"
    · subst hadmin
      obtain ⟨group, hgroup⟩ := hg.resolve_left fun h => h rfl
      rcases h.admin with hsame | ⟨hnone, -⟩
      · exact hsame
      · rw [hgroup] at hnone
        cases hnone
    · exact h.groups g hadmin
  others := by
    intro u hu
    rcases h.memberships u with hsame | ⟨hconfigured, ms, time, hlist, hnone, -⟩
    · exact hsame
    · obtain ⟨m, hm, hadmin⟩ := (horderly.hasMembership_iff hlist "admin").mp (hu hconfigured)
      exact absurd hadmin (hnone m hm)
  memberships := by
    intro u ms hlist
    rcases h.memberships u with hsame | ⟨-, ms', time, hlist', -, hnew⟩
    · exact ⟨ms, hsame.trans hlist, fun m hm => hm, fun m hm => Or.inl hm⟩
    · obtain rfl := Except.ok.inj (hlist.symm.trans hlist')
      refine ⟨_, hnew, fun m hm => mem_withGrant.mpr (Or.inl hm), fun m hm => ?_⟩
      exact (mem_withGrant.mp hm).imp id fun h => ⟨time, h⟩

/-- **Start-ups can be repeated.** From any state that repository calls can reach, on either
backend, let start-ups of the same set of subjects be cut off at any calls, any number of
times, and then one complete. The groups and memberships are then those that a single
start-up leaves that is never interrupted, but for the times of what was added; each
subject is an admin exactly once; and nothing that was there before has changed. -/
theorem bootstrap_restartable (P : Platform) (st : Storage) {s t : st.State}
    {startUp last : StartUp} {attempts : History StartUp PyError BootstrapPlan}
    {plan : BootstrapPlan} (hreached : st.Reached P s)
    (hsession : Session (st.act P True) StartUp.program s ((last, .ok plan) :: attempts) t)
    (hsame : ∀ a ∈ last :: attempts.map Prod.fst, SameSubjects a startUp) :
    let out := startUp.program.run (st.exec P) s
    (∃ plan', out.1 = .ok plan') ∧ SameButTimes P st s out.2 t
      ∧ (∀ u, startUp.Configures u → GrantedOnce P st t u) ∧ KeepsAll P st startUp s t := by
  intro out
  have horderly := hreached.orderly
  have huninterrupted : StartUpEnds P st False startUp s out.1 out.2 :=
    startUpEnds_run startUp hreached
  obtain ⟨plan', hplan'⟩ : ∃ plan', out.1 = .ok plan' := by
    cases hout : out.1 with
    | ok plan' => exact ⟨plan', rfl⟩
    | error e => exact (huninterrupted.raises e hout).elim
  rw [hplan'] at huninterrupted
  -- the attempts, and then the start-up that completes
  obtain ⟨t₁, hbefore, hrun⟩ : ∃ t₁, Session (st.act P True) StartUp.program s attempts t₁
      ∧ last.program.Runs (st.act P True) t₁ (.ok plan) t := by
    cases hsession with
    | step hbefore hrun => exact ⟨_, hbefore, hrun⟩
  have hadvanced : Advanced P st startUp s t₁ := advanced_of_session hreached hbefore
    fun a ha => hsame a (List.mem_cons_of_mem _ ha)
  have hends : StartUpEnds P st True startUp s (.ok plan) t :=
    (Prog.wp_contract_iff _ _ _).mp
      (wp_startUpEnds True (hsame last List.mem_cons_self) hadvanced) _ _ hrun
  refine ⟨⟨plan', hplan'⟩, sameButTimes_of_ends horderly huninterrupted hends, fun u hu => ?_,
    keepsAll_of_advanced horderly hends.advanced⟩
  obtain ⟨ms, hlist, hown, -⟩ := hends.advanced.orderly.membershipsAt u
  have hhas := (hends.completes plan rfl).2 u hu
  rw [hends.advanced.orderly.hasMembership_iff hlist] at hhas
  obtain ⟨m, hm, hadmin⟩ := hhas
  have honly : (ms.filter fun x => x.groupName = m.groupName) = [m] :=
    filter_key_eq hown.nodup hm
  rw [hadmin] at honly
  exact ⟨ms, m, hlist, honly⟩

/-- The start-up of "root" and "eve" on New Year's day. -/
def rootEve : StartUp := ⟨["root", "eve"], newYear.now, fun _ => newYear.now⟩

/-- The same subjects in another order, with a blank one, with blanks around and twice. -/
def eveRoot : StartUp := ⟨[" eve ", "root", " ", "root"], newYear.now, fun _ => newYear.now⟩

lemma sameSubjects_eveRoot : SameSubjects eveRoot rootEve := by
  have hnormal : normalizeSubjects eveRoot.subjects = ["eve", "root"]
      ∧ normalizeSubjects rootEve.subjects = ["root", "eve"] := by decide +kernel
  intro u
  show _ ∧ _ ↔ _ ∧ _
  rw [← mem_normalizeSubjects, ← mem_normalizeSubjects, hnormal.1, hnormal.2]
  simp [or_comm]

/-- What the start-up of "root" and "eve" leaves when Vault refuses to store the memberships
of "eve". -/
def cutOffAtEve : Except PyError BootstrapPlan × VaultWorld :=
  rootEve.program.run (refusingExec .python .python .inOrder
    (VaultDeployment.python.paths.userGroupsPath "eve")) .empty

/-- It is cut off, and the other start-up then leaves what it would have left. -/
theorem bootstrap_restartable_eve :
    let st := Storage.vault .python .inOrder
    let t := (eveRoot.program.run (st.exec .python) cutOffAtEve.2).2
    cutOffAtEve.1.isOk = false
      ∧ SameButTimes .python st .empty (rootEve.program.run (st.exec .python) .empty).2 t
      ∧ GrantedOnce .python st t "eve" := by
  intro st t
  have hcut : rootEve.program.Runs (st.act .python True) VaultWorld.empty cutOffAtEve.1
      cutOffAtEve.2 := runs_refusing _ _
  have hlast : (eveRoot.program.run (st.exec .python) cutOffAtEve.2).1
      = .ok (buildPlan eveRoot.subjects newYear.now) := by decide +kernel
  have hsame : ∀ a ∈ [eveRoot, rootEve], SameSubjects a rootEve := by
    intro a ha
    simp only [List.mem_cons, List.not_mem_nil, or_false] at ha
    rcases ha with rfl | rfl
    · exact sameSubjects_eveRoot
    · exact fun _ => Iff.rfl
  obtain ⟨-, hsameTimes, honce, -⟩ := bootstrap_restartable .python st (.fresh fresh_vaultEmpty)
    (.step (.step .start hcut) (Storage.runs_of_run_fst hlast)) hsame
  refine ⟨by decide +kernel, hsameTimes, honce "eve" ⟨by decide, "eve", by decide, ?_⟩⟩
  decide +kernel

end GofrSec
