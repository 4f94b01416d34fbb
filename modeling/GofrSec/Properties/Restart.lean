/-
What a restart does to manual changes of the admins.

* `RestartKeeps`: applying the start-up plan once more leaves the groups and the
  memberships as they are;
* `restart_keeps_iff`: in every state that operations reach after a completed
  plan, this holds exactly when every configured subject is an admin there;
* `restart_regrants`: a configured subject whose admin membership was taken away
  on purpose gets it back.
-/
import GofrSec.Services.VaultTokenRuns

namespace GofrSec

open Calls

variable {P : Platform} {st : Storage} {s : st.State}

/-- Applying the plan again leaves the groups and the memberships alone. -/
def RestartKeeps (P : Platform) (st : Storage) (s : st.State) (subjects : List String)
    (createdAt : DateTime) (grantedAt : String → DateTime) : Prop :=
  let s' := ((applyPlan subjects createdAt grantedAt).run (st.exec P) s).2
  (∀ g, st.groupAt P s' g = st.groupAt P s g)
    ∧ ∀ u, st.membershipsAt P s' u = st.membershipsAt P s u

/-! ### A plan that finds nothing to do -/

/-- The loop over subjects that are admins already. -/
lemma run_ensureAdminMembers (grantedAt : String → DateTime) {subs : List String}
    (h : ∀ u ∈ subs, st.HasMembership P s u "admin") :
    (ensureAdminMembers grantedAt subs).run (st.exec P) s = (.ok (), s) := by
  induction subs with
  | nil => rfl
  | cons u subs ih =>
      have hu : st.exec P (.hasMembership u reservedAdminGroup) s = (.ok true, s) :=
        Prod.ext (h u List.mem_cons_self)
          (Storage.read_exec (c := .hasMembership u reservedAdminGroup) ⟨id, trivial⟩ s)
      rw [ensureAdminMembers, Prog.run_bind, Prog.run_perform, hu]
      exact ih fun v hv => h v (List.mem_cons_of_mem _ hv)

/-- A plan whose group is defined and whose subjects are admins changes nothing
at all. -/
lemma run_applyPlan_of_admins {subjects : List String} (createdAt : DateTime)
    (grantedAt : String → DateTime) {group : GroupDefinition}
    (hgroup : st.groupAt P s "admin" = .ok (some group))
    (hadmins : ∀ u ∈ normalizeSubjects subjects, st.HasMembership P s u "admin") :
    ((applyPlan subjects createdAt grantedAt).run (st.exec P) s).2 = s := by
  have hget : st.exec P (.groupGet reservedAdminGroup) s = (.ok (some group), s) :=
    Prod.ext hgroup (Storage.read_exec (c := .groupGet reservedAdminGroup) ⟨id, trivial⟩ s)
  have hreserved : (ensureReservedGroups [buildReservedAdminGroup createdAt]).run (st.exec P) s
      = (.ok (), s) := by
    rw [ensureReservedGroups, Prog.run_bind, Prog.run_perform,
      show (buildReservedAdminGroup createdAt).name = reservedAdminGroup from rfl, hget]
    rfl
  have hmembers := run_ensureAdminMembers grantedAt hadmins
  simp only [applyPlan, buildPlan]
  rw [Prog.run_bind, hreserved, Prog.onReturn_ok, Prog.run_bind, hmembers]
  rfl

/-! ### Restarts in reachable states -/

/-- **When a restart keeps manual changes.** Complete a start-up plan on empty
stores, run any operations without storage failures, and apply the same plan
again: the groups and the memberships stay as they are exactly when every
configured subject is an admin at that moment. -/
theorem restart_keeps_iff (P : Platform) (st : Storage) {s₀ s₁ s : st.State} {h : OpHistory}
    {subjects : List String} {createdAt createdAt' : DateTime}
    {grantedAt grantedAt' : String → DateTime} {plan : BootstrapPlan} (hfresh : st.Fresh s₀)
    (hplan : (applyPlan subjects createdAt grantedAt).run (st.exec P) s₀ = (.ok plan, s₁))
    (hsession : Session (st.exec P).graph (Op.prog P) s₁ h s)
    (hops : ValidOps False (h.map Prod.fst)) :
    RestartKeeps P st s subjects createdAt' grantedAt'
      ↔ ∀ u ∈ normalizeSubjects subjects, st.HasMembership P s u "admin" := by
  -- the first plan defines the group
  have hrun₁ : (applyPlan subjects createdAt grantedAt).Runs (st.act P False) s₀ (.ok plan) s₁ :=
    ((Prog.runs_graph_iff _).mpr hplan).mono Storage.act_of_graph
  obtain ⟨reg₁, hrep₁, hstart⟩ := Prog.Runs.refine
    (Storage.implements (R := runRegime False False) (Storage.signsIn_runRegime st))
    (Storage.represents_fresh hfresh)
    (applyPlan_effect subjects createdAt grantedAt fun h => h.elim) hrun₁
  obtain ⟨⟨group, hgroup₁⟩, -⟩ := hstart.completes plan rfl
  have hsound₁ : reg₁.Sound (runRegime False False) := by
    intro t record hfind
    rw [hstart.tokens] at hfind
    exact nomatch hfind
  -- and operations keep the definition
  obtain ⟨reg, hrep, -, hgroup⟩ := runs_invariant False False
    (fun _ reg => reg.groups.find "admin" = some group) (ValidOps False)
    (fun _ _ hos => hos.tail) (fun _ _ hos => hos.head)
    (fun o h reg r reg' _ _ hkept heffect => heffect.change.group_kept hkept)
    hrep₁ hsound₁ hgroup₁ (Storage.session_of_exec hsession) hops
  constructor
  · -- the second plan completes and leaves every subject an admin
    rintro ⟨-, hkeeps⟩ u hu
    obtain ⟨reg', hrep', hagain⟩ := Prog.Runs.refine
      (Storage.implements (R := runRegime False False) (Storage.signsIn_runRegime st)) hrep
      (applyPlan_effect subjects createdAt' grantedAt' fun h => h.elim)
      (Storage.runs_of_run False (applyPlan subjects createdAt' grantedAt') s)
    have hok : ∃ plan', ((applyPlan subjects createdAt' grantedAt').run (st.exec P) s).1
        = .ok plan' := by
      cases hout : ((applyPlan subjects createdAt' grantedAt').run (st.exec P) s).1 with
      | ok plan' => exact ⟨plan', rfl⟩
      | error e => exact (hagain.raises e hout).elim
    obtain ⟨plan', hout⟩ := hok
    obtain ⟨m, hm⟩ := (hagain.completes plan' hout).2 u hu
    obtain ⟨l, hl, hlists⟩ := Storage.membershipsAt_lists hrep u
    obtain ⟨l', hl', hlists'⟩ := Storage.membershipsAt_lists hrep' u
    obtain rfl : l' = l := Except.ok.inj (hl'.symm.trans ((hkeeps u).trans hl))
    have hkey : m.pair = (u, "admin") := reg'.memberships.key_eq _ _ hm
    have hmem : m ∈ l' := hlists'.mem hm (congrArg Prod.fst hkey)
    refine (Storage.hasMembership_iff hrep).mpr ⟨m, ?_⟩
    rw [← hkey]
    exact ((hlists.2 m).mp hmem).1
  · -- nothing is missing, so the second plan only reads
    intro hadmins
    have hread : st.groupAt P s "admin" = .ok (some group) := by
      rw [Storage.groupAt_eq hrep, hgroup]
    have hsame := run_applyPlan_of_admins createdAt' grantedAt' hread hadmins
    simp only [RestartKeeps, hsame, implies_true, and_self]

/-- Nothing was taken from `root` in `teamWork`, so a restart after it keeps
everything. -/
theorem restart_keeps_teamWork :
    let st := Storage.vault .python .inOrder
    let s₁ := (rootPlan.run (st.exec .python) VaultWorld.empty).2
    let s := (play (st.exec .python) (Op.prog .python) s₁ teamWork).2
    RestartKeeps .python st s ["root"] newYear.now fun _ => newYear.now := by
  intro st s₁ s
  have hplan : rootPlan.run (st.exec .python) VaultWorld.empty
      = (.ok (buildPlan ["root"] newYear.now), s₁) := Prod.ext (by decide +kernel) rfl
  have hroot : (st.exec .python (.hasMembership "root" "admin") s).1 = .ok true := by
    decide +kernel
  refine (restart_keeps_iff .python st fresh_vaultEmpty hplan (play_trace s₁ teamWork).session
    (by rw [map_fst_play]; exact validOps_teamWork.mono fun h => h.elim)).mpr fun u hu => ?_
  obtain rfl : u = "root" := by simpa using (show u ∈ ["root"] from hu)
  exact hroot

/-- `bob` registers, `root` makes him an admin, and he takes `root` out of the
group; the newest operation stands first. -/
def handover : List Op :=
  [.removeMembership "root" "admin" "bob" none newYear,
    .addMembership "bob" "admin" "root" none newYear,
    .registerSelf (keycloakUser "bob") none newYear]

/-- After `handover`, all of whose operations succeed, a restart with `root` as
the configured subject makes `root` an admin again. -/
theorem restart_regrants :
    let st := Storage.vault .python .inOrder
    let s₁ := (rootPlan.run (st.exec .python) VaultWorld.empty).2
    let run := play (st.exec .python) (Op.prog .python) s₁ handover
    st.Fresh VaultWorld.empty ∧ (rootPlan.run (st.exec .python) VaultWorld.empty).1.isOk
      ∧ Trace (st.exec .python).graph (Op.prog .python) s₁ run.1 run.2
      ∧ (run.1.all fun moment => moment.outcome.isOk)
      ∧ ¬ st.HasMembership .python run.2 "root" "admin"
      ∧ ¬ RestartKeeps .python st run.2 ["root"] newYear.now fun _ => newYear.now := by
  intro st s₁ run
  have hremoved : ¬ (st.exec .python (.hasMembership "root" "admin") run.2).1 = .ok true := by
    decide +kernel
  refine ⟨⟨fun _ _ _ => rfl, rfl⟩, by decide +kernel, play_trace s₁ handover,
    by decide +kernel, hremoved, ?_⟩
  · rintro ⟨-, hkeeps⟩
    have hbefore : (st.membershipsAt .python run.2 "root").toOption.map List.length = some 0 := by
      decide +kernel
    have hafter : (st.membershipsAt .python (rootPlan.run (st.exec .python) run.2).2
        "root").toOption.map List.length = some 1 := by
      decide +kernel
    have hsame : st.membershipsAt .python (rootPlan.run (st.exec .python) run.2).2 "root"
        = st.membershipsAt .python run.2 "root" := hkeeps "root"
    rw [hsame, hbefore] at hafter
    exact absurd hafter (by decide)

end GofrSec
