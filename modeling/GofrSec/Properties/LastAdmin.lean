/-
At least one admin remains.

* `AdminKept`: the `admin` group has its definition and a member; every
  operation keeps this (`adminKept_step`), and a completed start-up plan on
  empty stores establishes it (`adminKept_applyPlan`);
* `removeMembership_admin`: without failures, the removal of an admin is
  refused exactly when no other admin is there, and otherwise takes away that
  one membership;
* `last_admin_safety`: both, after every run from empty stores on either
  backend, whichever storage calls raise.
-/
import GofrSec.Services.Runs

namespace GofrSec

open Calls Text

variable {P : Platform} {R : Regime} {reg reg' : Registry} {o : Op} {createdAt : DateTime}

/-- The `admin` group is defined as at start-up, and somebody is in it. -/
def AdminKept (createdAt : DateTime) (reg : Registry) : Prop :=
  reg.groups.find "admin" = some (buildReservedAdminGroup createdAt) ∧ ∃ u, reg.IsAdmin u

/-- Some admin remains after every operation: only a removal takes one away, and
it does so only while it sees another. -/
lemma Op.Change.admin_remains (h : o.Change P R reg reg') (hplain : R.plain)
    (hadmin : ∃ u, reg.IsAdmin u) : ∃ u, reg'.IsAdmin u := by
  obtain ⟨u, m, hm⟩ := hadmin
  have hu := h.membership u "admin"
  cases hfind : reg'.memberships.find (u, "admin") with
  | some m' => exact ⟨u, m', hfind⟩
  | none =>
      rw [hfind] at hu
      generalize hout : (none : Option UserGroupMembership) = out at hu
      cases hu with
      | kept => exact nomatch hout.trans hm
      | planned _ _ _ => exact nomatch hout
      | added _ _ => exact nomatch hout
      | removed _ _ hguard =>
          -- the guard saw another admin, whose membership stays
          obtain ⟨v, hne, m', hm'⟩ := hguard rfl hplain
          have hv := h.membership v "admin"
          refine ⟨v, m', ?_⟩
          rw [← hm']
          generalize reg'.memberships.find (v, "admin") = out' at hv
          cases hv with
          | kept => rfl
          | removed _ _ _ => exact absurd rfl hne

/-- **Every operation keeps the admin group and some admin.** -/
theorem adminKept_step (h : o.Change P R reg reg') (hplain : R.plain)
    (hkept : AdminKept createdAt reg) : AdminKept createdAt reg' :=
  ⟨h.group_kept hkept.1, h.admin_remains hplain hkept.2⟩

/-- A completed start-up plan with a subject establishes both. -/
lemma adminKept_applyPlan {subjects : List String} {grantedAt : String → DateTime}
    {plan : BootstrapPlan} (hsubjects : normalizeSubjects subjects ≠ [])
    (h : ApplyPlanEffect R .empty subjects createdAt grantedAt (.ok plan) reg) :
    AdminKept createdAt reg := by
  obtain ⟨⟨group, hgroup⟩, hadmins⟩ := h.completes plan rfl
  refine ⟨?_, ?_⟩
  · rcases h.groups with heq | ⟨-, heq⟩
    · rw [heq] at hgroup
      exact nomatch hgroup
    · rw [heq]
      exact Keyed.find_insert_self _ _
  · obtain ⟨u, hu⟩ := List.exists_mem_of_ne_nil _ hsubjects
    exact ⟨u, hadmins u hu⟩

/-! ### Removing an admin -/

/-- The last-admin guard, while storage does not fail. -/
theorem removeMembership_admin {st : Storage} {s : st.State} {faults : Prop}
    (hrep : st.Represents P (runRegime faults True) s reg)
    (hkept : AdminKept createdAt reg) {u g : String} (hg : normalizeGroupName P g = .ok "admin")
    (hu : st.HasMembership P s u "admin") (actorSub : String) (correlationId : Option String)
    (clock : Clock) :
    let out := (removeMembership P u g actorSub correlationId clock).run (st.exec P) s
    ((∃ e, out.1 = .error e ∧ e.className = "LastAdminRemovalError")
        ↔ ∀ v, st.HasMembership P s v "admin" → v = u)
      ∧ ((∃ v, v ≠ u ∧ st.HasMembership P s v "admin") → out.1 = .ok ()
        ∧ ∀ v g', st.HasMembership P out.2 v g'
          ↔ st.HasMembership P s v g' ∧ (v, g') ≠ (u, "admin")) := by
  intro out
  have hrun := Storage.runs_of_run (P := P) False
    (removeMembership P u g actorSub correlationId clock) s
  obtain ⟨reg', hrep', heffect⟩ := Prog.Runs.refine
    (Storage.implements (R := runRegime False True) (Storage.signsIn_runRegime st))
    (Storage.represents_mono hrep id id) (removeMembership_effect u g actorSub correlationId clock)
    hrun
  change RemoveMembershipEffect P (runRegime False True) reg u g out.1 reg' at heffect
  change st.Represents P (runRegime False True) out.2 reg' at hrep'
  simp only [Storage.hasMembership_iff hrep, Storage.hasMembership_iff hrep'] at hu ⊢
  have hactive : reg.Active "admin" := ⟨_, hkept.1, rfl⟩
  cases hout : out.1 with
  | error e =>
      rw [hout] at heffect
      obtain ⟨-, hfaults | hlast⟩ := heffect
      · exact hfaults.elim
      · obtain ⟨-, honly, rfl⟩ := hlast "admin" hg hactive hu trivial
        refine ⟨⟨fun _ => honly, fun _ => ⟨_, rfl, rfl⟩⟩, ?_⟩
        rintro ⟨v, hne, hv⟩
        exact absurd (honly v hv) hne
  | ok _ =>
      rw [hout] at heffect
      obtain ⟨n, hn, -, hguard, hagrees⟩ := heffect
      obtain rfl : n = "admin" := Except.ok.inj (hn.symm.trans hg)
      obtain ⟨v, hne, hv⟩ := hguard rfl trivial
      refine ⟨⟨?_, fun honly => absurd (honly v hv) hne⟩, fun _ => ⟨rfl, fun w g' => ?_⟩⟩
      · rintro ⟨e, he, -⟩
        exact nomatch he
      have hmemberships : reg'.memberships = reg.memberships.remove (u, "admin") :=
        hagrees.memberships
      rw [Registry.Member, Registry.Member, hmemberships, Keyed.find_remove]
      by_cases hkey : (w, g') = (u, "admin")
      · simp [hkey]
      · simp [hkey]

/-- **Last-admin safety.** Start from empty stores and complete a start-up plan
with at least one subject. After every later run of operations on plain
subjects, on either backend and with storage failures wherever they strike, the
`admin` group is defined as the plan defined it and has a member. And while
storage does not fail, the removal of an admin raises `LastAdminRemovalError`
exactly when there is no other admin, and otherwise takes away that one
membership. -/
theorem last_admin_safety (P : Platform) (st : Storage) (faults : Prop) {s₀ s₁ s : st.State}
    {h : OpHistory} {subjects : List String} {createdAt : DateTime}
    {grantedAt : String → DateTime} {plan : BootstrapPlan} (hfresh : st.Fresh s₀)
    (hsubjects : ∃ subject ∈ subjects, strip subject ≠ "")
    (hplain : ∀ u ∈ normalizeSubjects subjects, IsSegment u)
    (hplan : (applyPlan subjects createdAt grantedAt).Runs (st.act P faults) s₀ (.ok plan) s₁)
    (hsession : Session (st.act P faults) (Op.prog P) s₁ h s)
    (hops : ValidOps True (h.map Prod.fst)) :
    st.groupAt P s "admin" = .ok (some (buildReservedAdminGroup createdAt))
      ∧ (∃ u, st.HasMembership P s u "admin")
      ∧ ∀ u g actorSub correlationId clock, normalizeGroupName P g = .ok "admin" →
        st.HasMembership P s u "admin" →
        let out := (removeMembership P u g actorSub correlationId clock).run (st.exec P) s
        ((∃ e, out.1 = .error e ∧ e.className = "LastAdminRemovalError")
            ↔ ∀ v, st.HasMembership P s v "admin" → v = u)
          ∧ ((∃ v, v ≠ u ∧ st.HasMembership P s v "admin") → out.1 = .ok ()
            ∧ ∀ v g', st.HasMembership P out.2 v g'
              ↔ st.HasMembership P s v g' ∧ (v, g') ≠ (u, "admin")) := by
  have hne : normalizeSubjects subjects ≠ [] := by
    obtain ⟨subject, hmem, hblank⟩ := hsubjects
    exact List.ne_nil_of_mem (mem_normalizeSubjects.mpr ⟨hblank, subject, hmem, rfl⟩)
  -- the first plan
  obtain ⟨reg₁, hrep₁, hstart⟩ := Prog.Runs.refine
    (Storage.implements (R := runRegime faults True) (Storage.signsIn_runRegime st))
    (Storage.represents_fresh hfresh)
    (applyPlan_effect subjects createdAt grantedAt fun _ => hplain) hplan
  have hsound₁ : reg₁.Sound (runRegime faults True) := by
    intro t record hfind
    rw [hstart.tokens] at hfind
    exact nomatch hfind
  -- the run after it
  obtain ⟨reg, hrep, -, hkept⟩ := runs_invariant faults True (fun _ reg => AdminKept createdAt reg)
    (ValidOps True) (fun _ _ hos => hos.tail) (fun _ _ hos => hos.head)
    (fun o h reg r reg' _ _ hkept heffect => adminKept_step heffect.change trivial hkept)
    hrep₁ hsound₁ (adminKept_applyPlan hne hstart) hsession hops
  refine ⟨?_, ?_, fun u g actorSub correlationId clock hg hu => ?_⟩
  · rw [Storage.groupAt_eq hrep, hkept.1]
  · obtain ⟨u, hu⟩ := hkept.2
    exact ⟨u, (Storage.hasMembership_iff hrep).mpr hu⟩
  · exact removeMembership_admin hrep hkept hg hu actorSub correlationId clock

/-- `alice` registers, becomes an admin besides `root`, and is none any more; the newest
operation stands first. -/
def adminWork : List Op :=
  [.removeMembership "alice" " Admin " "root" none newYear,
    .addMembership "alice" "admin" "root" none newYear,
    .registerSelf (keycloakUser "alice") none newYear]

lemma validOps_adminWork : ValidOps True adminWork := by
  intro o ho
  simp only [adminWork, List.mem_cons, List.not_mem_nil, or_false] at ho
  rcases ho with rfl | rfl | rfl
  · exact trivial
  · exact fun _ => by decide
  · exact fun _ => by decide

/-- After that work over Vault `root` is the only admin, and the removal of `root` is
refused; before `alice` was removed there were two, and her removal succeeded. -/
theorem last_admin_safety_adminWork :
    let st := Storage.vault .python .inOrder
    let s₁ := (rootPlan.run (st.exec .python) VaultWorld.empty).2
    let before := (play (st.exec .python) (Op.prog .python) s₁ adminWork.tail).2
    let s := (play (st.exec .python) (Op.prog .python) s₁ adminWork).2
    st.groupAt .python s "admin" = .ok (some (buildReservedAdminGroup newYear.now))
      ∧ ((removeMembership .python "alice" " Admin " "root" none newYear).run (st.exec .python)
          before).1 = .ok ()
      ∧ (∃ e, ((removeMembership .python "root" "admin" "root" none newYear).run (st.exec .python)
          s).1 = .error e ∧ e.className = "LastAdminRemovalError")
      ∧ ∀ v, st.HasMembership .python s v "admin" → v = "root" := by
  intro st s₁ before s
  have hplan : (rootPlan.run (st.exec .python) VaultWorld.empty).1
      = .ok (buildPlan ["root"] newYear.now) := by decide +kernel
  have hnormal : normalizeGroupName .python " Admin " = .ok "admin" := by decide +kernel
  have hadmin : normalizeGroupName .python "admin" = .ok "admin" :=
    normalizeGroupName_self _ (by decide)
  have halice : st.HasMembership .python before "alice" "admin" := by
    show (st.exec .python (.hasMembership "alice" "admin") before).1 = .ok true
    decide +kernel
  have hroot : st.HasMembership .python before "root" "admin" := by
    show (st.exec .python (.hasMembership "root" "admin") before).1 = .ok true
    decide +kernel
  have hlast : st.HasMembership .python s "root" "admin" := by
    show (st.exec .python (.hasMembership "root" "admin") s).1 = .ok true
    decide +kernel
  have hrefused : ((removeMembership .python "root" "admin" "root" none newYear).run
      (st.exec .python) s).1.toOption.isNone := by decide +kernel
  obtain ⟨-, -, hbefore⟩ := last_admin_safety .python st True fresh_vaultEmpty
    ⟨"root", List.mem_cons_self, by decide⟩ (by decide) (Storage.runs_of_run_fst hplan)
    (Storage.session_of_exec (play_trace s₁ adminWork.tail).session)
    (by rw [map_fst_play]; exact validOps_adminWork.tail)
  obtain ⟨hgroup, -, hafter⟩ := last_admin_safety .python st True fresh_vaultEmpty
    ⟨"root", List.mem_cons_self, by decide⟩ (by decide) (Storage.runs_of_run_fst hplan)
    (Storage.session_of_exec (play_trace s₁ adminWork).session)
    (by rw [map_fst_play]; exact validOps_adminWork)
  have hremoved := (hbefore "alice" " Admin " "root" none newYear hnormal halice).2
    ⟨"root", by decide, hroot⟩
  obtain ⟨honly, hother⟩ := hafter "root" "admin" "root" none newYear hadmin hlast
  have hall : ∀ v, st.HasMembership .python s v "admin" → v = "root" := by
    intro v hv
    by_contra hne
    rw [(hother ⟨v, hne, hv⟩).1] at hrefused
    cases hrefused
  exact ⟨hgroup, hremoved.1, honly.mpr hall, hall⟩

end GofrSec
