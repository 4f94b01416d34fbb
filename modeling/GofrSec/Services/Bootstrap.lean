/-
First-boot bootstrap (`app/services/bootstrap_service.py`):
`_normalize_subjects`, `BootstrapService.build_plan` and `apply_plan`.

`mem_normalizeSubjects` and `nodup_normalizeSubjects` say what the cleaned
list of subjects holds: the stripped non-blank ones, each once.
-/
import GofrSec.Domain.Rules
import GofrSec.Repositories.Interfaces

namespace GofrSec

open Calls Text

/-- The loop of `_normalize_subjects`; `seen` holds the subjects so far. -/
def normalizeSubjectsFrom (seen : List String) : List String → List String
  | [] => []
  | subject :: subjects =>
      let value := strip subject
      if value ≠ "" ∧ value ∉ seen then
        value :: normalizeSubjectsFrom (value :: seen) subjects
      else normalizeSubjectsFrom seen subjects

/-- `_normalize_subjects`. -/
def normalizeSubjects (subjects : List String) : List String := normalizeSubjectsFrom [] subjects

/-- `BootstrapPlan`. -/
structure BootstrapPlan where
  reservedGroups : List GroupDefinition
  trustedAdminSubs : List String
  deriving DecidableEq, Repr

/-- `BootstrapService.build_plan`; `createdAt` is the reading of the clock. -/
def buildPlan (trustedAdminSubs : List String) (createdAt : DateTime) : BootstrapPlan :=
  { reservedGroups := [buildReservedAdminGroup createdAt]
    trustedAdminSubs := normalizeSubjects trustedAdminSubs }

/-- The first loop of `apply_plan`: define the reserved groups that are missing. -/
def ensureReservedGroups : List GroupDefinition → RepoProg Unit
  | [] => pure ()
  | group :: groups => do
      let existing ← groupGet group.name
      if existing.isNone then
        let _ ← groupUpsert group
      ensureReservedGroups groups

/-- The second loop of `apply_plan`: grant `admin` to the subjects that lack
it; `grantedAt` gives the reading of the clock for each grant. -/
def ensureAdminMembers (grantedAt : String → DateTime) : List String → RepoProg Unit
  | [] => pure ()
  | keycloakSub :: subs => do
      let member ← hasMembership keycloakSub reservedAdminGroup
      if !member then
        let _ ← membershipAdd
          { keycloakSub := keycloakSub
            groupName := reservedAdminGroup
            grantedAt := grantedAt keycloakSub
            grantedBySub := .null }
      ensureAdminMembers grantedAt subs

/-- `BootstrapService.apply_plan`. -/
def applyPlan (trustedAdminSubs : List String) (createdAt : DateTime)
    (grantedAt : String → DateTime) : RepoProg BootstrapPlan := do
  let plan := buildPlan trustedAdminSubs createdAt
  ensureReservedGroups plan.reservedGroups
  ensureAdminMembers grantedAt plan.trustedAdminSubs
  pure plan

/-! ### The cleaned list of subjects -/

lemma mem_normalizeSubjectsFrom {seen subjects : List String} {u : String} :
    u ∈ normalizeSubjectsFrom seen subjects
      ↔ u ≠ "" ∧ u ∉ seen ∧ ∃ s ∈ subjects, strip s = u := by
  induction subjects generalizing seen with
  | nil => simp [normalizeSubjectsFrom]
  | cons s subjects ih =>
      rw [normalizeSubjectsFrom]
      split_ifs with h
      · simp only [List.mem_cons, ih, not_or, exists_eq_or_imp]
        constructor
        · rintro (rfl | ⟨hne, ⟨_, hseen⟩, hex⟩)
          · exact ⟨h.1, h.2, Or.inl rfl⟩
          · exact ⟨hne, hseen, Or.inr hex⟩
        · rintro ⟨hne, hseen, hex⟩
          by_cases hu : u = strip s
          · exact Or.inl hu
          · exact Or.inr ⟨hne, ⟨hu, hseen⟩, hex.resolve_left fun h0 => hu h0.symm⟩
      · simp only [ih, List.mem_cons, exists_eq_or_imp]
        constructor
        · rintro ⟨hne, hseen, hex⟩
          exact ⟨hne, hseen, Or.inr hex⟩
        · rintro ⟨hne, hseen, rfl | hex⟩
          · exact absurd ⟨hne, hseen⟩ h
          · exact ⟨hne, hseen, hex⟩

/-- The cleaned list holds the stripped non-blank subjects. -/
lemma mem_normalizeSubjects {subjects : List String} {u : String} :
    u ∈ normalizeSubjects subjects ↔ u ≠ "" ∧ ∃ s ∈ subjects, strip s = u := by
  simp [normalizeSubjects, mem_normalizeSubjectsFrom]

/-- The cleaned list holds each subject once. -/
lemma nodup_normalizeSubjects (subjects : List String) : (normalizeSubjects subjects).Nodup := by
  have key : ∀ subjects seen, (normalizeSubjectsFrom seen subjects).Nodup := by
    intro subjects
    induction subjects with
    | nil => intro seen; exact List.nodup_nil
    | cons s subjects ih =>
        intro seen
        rw [normalizeSubjectsFrom]
        split_ifs with h
        · refine List.nodup_cons.mpr ⟨fun hmem => ?_, ih _⟩
          exact (mem_normalizeSubjectsFrom.mp hmem).2.1 (by simp)
        · exact ih _
  exact key subjects []

end GofrSec
