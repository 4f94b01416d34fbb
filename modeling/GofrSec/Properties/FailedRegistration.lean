/-
What a registration leaves that fails.

* `registerFailing`: a registration of which one repository call, if any, is made to
  raise;
* `AtomicFailure`: it has raised, every profile is as it was, and one event of the
  failure was appended;
* `failedRegistration_iff`: of all the ways to fail, this is so of just one, that the
  upsert raises after a stored profile, or none, has been read.
-/
import GofrSec.Calls.Failing
import GofrSec.Services.VaultTokenRuns

namespace GofrSec

open Calls

/-- A registration from the state `s`, of which the call numbered `n`, counted from zero,
raises `e` without taking effect; none does if there is no number. -/
def registerFailing (P : Platform) (st : Storage) (s : st.State) (identity : VerifiedIdentity)
    (correlationId : Option String) (clock : Clock) (n : Option ℕ) (e : PyError) :
    Except PyError RegistrationResult × st.State :=
  let out := (registerSelf identity correlationId clock).run ((st.exec P).failing e) (s, n)
  (out.1, out.2.1)

/-- The registration has raised, the profiles are as they were, and exactly one event was
appended, of a failure of this registration. -/
structure AtomicFailure (P : Platform) (st : Storage) (s : st.State) (identity : VerifiedIdentity)
    (correlationId : Option String) (out : Except PyError RegistrationResult × st.State) :
    Prop where
  raised : ∃ e, out.1 = .error e
  profiles : ∀ u, st.profileAt P out.2 u = st.profileAt P s u
  event : ∃ event, st.events out.2 = st.events s ++ [event]
    ∧ event.eventType = "user.registration" ∧ event.result = "failure"
    ∧ event.subjectSub = some identity.subject ∧ event.correlationId = correlationId

variable {P : Platform} {st : Storage} {s : st.State}

namespace Storage

/-- A read of a profile leaves the stores alone. -/
lemma exec_profileGet (u : String) : st.exec P (.profileGet u) s = (st.profileAt P s u, s) :=
  Prod.ext rfl (read_exec (c := .profileGet u) ⟨id, trivial⟩ s)

/-- An upsert of a profile returns it, and appends no event. -/
lemma exec_profileUpsert (profile : UserProfile) :
    ∃ s', st.exec P (.profileUpsert profile) s = (.ok profile, s')
      ∧ st.events s' = st.events s := by
  cases st with
  | memory C signer => exact ⟨_, rfl, rfl⟩
  | vault D server => exact ⟨_, rfl, rfl⟩

/-- An append of an event adds it, and leaves the profiles alone. -/
lemma exec_auditAppend (event : AuditEvent) :
    ∃ s', st.exec P (.auditAppend event) s = (.ok (), s')
      ∧ st.events s' = st.events s ++ [event]
      ∧ ∀ u, st.profileAt P s' u = st.profileAt P s u := by
  cases st with
  | memory C signer => exact ⟨_, rfl, rfl, fun _ => rfl⟩
  | vault D server =>
      refine ⟨_, rfl, rfl, fun u => ?_⟩
      rw [profileAt_vault, profileAt_vault]
      rfl

end Storage

variable {identity : VerifiedIdentity} {correlationId : Option String} {clock : Clock}
  {e : PyError}

/-- Without a new event the failure was not audited. -/
lemma not_atomicFailure_of_events {out : Except PyError RegistrationResult × st.State}
    (h : st.events out.2 = st.events s) :
    ¬ AtomicFailure P st s identity correlationId out := by
  rintro ⟨-, -, event, hevents, -⟩
  have hlength := congrArg List.length (h.symm.trans hevents)
  simp at hlength

/-- A registration ends where its read of the stored profile raises. -/
lemma registerFailing_unread {n : Option ℕ}
    (hread : n = some 0 ∨ ∃ e', st.profileAt P s identity.subject = .error e') :
    ∃ e', registerFailing P st s identity correlationId clock n e = (.error e', s) := by
  rw [registerFailing, registerSelf, Prog.run_bind, Prog.run_perform]
  rcases n with _ | _ | n
  · obtain ⟨e', he'⟩ := hread.resolve_left (by simp)
    simp only [Exec.failing, Storage.exec_profileGet, he']
    exact ⟨e', rfl⟩
  · exact ⟨e, rfl⟩
  · obtain ⟨e', he'⟩ := hread.resolve_left (by simp)
    simp only [Exec.failing, Storage.exec_profileGet, he']
    exact ⟨e', rfl⟩

/-- The frame appends the event of a failure of its only call. -/
lemma run_audited_failing {failure : AuditEvent} {c : RepoCall} {success : c.Res → AuditEvent}
    {s' : st.State} (happend : st.exec P (.auditAppend failure) s = (.ok (), s')) :
    (audited (RepoCall.perform c) failure success).run ((st.exec P).failing e) (s, some 0)
      = (.error e, s', none) := by
  rw [audited, Prog.run_handle, Prog.run_perform]
  simp only [Exec.failing, Prog.run_bind, Prog.run_perform, happend]
  rfl

/-- When the append of an event of success raises, it leaves what the call has done. -/
lemma run_audited_append_failing {failure : AuditEvent} {c : RepoCall} {v : c.Res}
    {success : c.Res → AuditEvent} {s' : st.State} (hcall : st.exec P c s = (.ok v, s')) :
    (audited (RepoCall.perform c) failure success).run ((st.exec P).failing e) (s, some 1)
      = (.error e, s', none) := by
  rw [audited, Prog.run_handle, Prog.run_perform]
  simp only [Exec.failing, hcall]
  rw [Prog.run_bind, Prog.run_perform]
  rfl

/-- The event that a registration appends. -/
def registrationEvent (identity : VerifiedIdentity) (correlationId : Option String)
    (clock : Clock) (result : String) : AuditEvent :=
  { eventType := "user.registration"
    actorSub := identity.subject
    subjectSub := identity.subject
    correlationId := correlationId
    result := result
    occurredAt := clock.occurred }

/-- The status that a registration reports. -/
def statusOf (existing : Option UserProfile) : RegistrationStatus :=
  if existing.isNone then .created else .refreshed

/-- A registration reads, and then upserts in the frame. -/
lemma registerSelf_eq (identity : VerifiedIdentity) (correlationId : Option String)
    (clock : Clock) : registerSelf identity correlationId clock = (do
      let existing ← profileGet identity.subject
      let saved ← audited (profileUpsert (refreshedProfile existing identity clock.now))
        (registrationEvent identity correlationId clock "failure")
        fun _ => registrationEvent identity correlationId clock (statusOf existing).text
      pure { profile := saved, registrationStatus := statusOf existing }) := rfl

/-- After a read the guarded call and the append are run with the failures that are left. -/
lemma registerFailing_of_found {existing : Option UserProfile} {n : ℕ} {e' : PyError}
    {s' : st.State} (hread : st.profileAt P s identity.subject = .ok existing)
    (hrun : (audited (profileUpsert (refreshedProfile existing identity clock.now))
        (registrationEvent identity correlationId clock "failure")
        fun _ => registrationEvent identity correlationId clock (statusOf existing).text).run
      ((st.exec P).failing e) (s, some n) = (.error e', s', none)) :
    registerFailing P st s identity correlationId clock (some (n + 1)) e = (.error e', s') := by
  rw [registerFailing, registerSelf_eq, Prog.run_bind, Prog.run_perform]
  simp only [Exec.failing, Storage.exec_profileGet, hread, Prog.onReturn_ok, Prog.run_bind, hrun]
  rfl

/-- **The failures of a registration.** Of every state, also one with a stored profile that
cannot be decoded, and every call that raises: a failed registration is atomic and audited
exactly when the call that raises is the upsert, after a read that did not. -/
theorem failedRegistration_iff (P : Platform) (st : Storage) (s : st.State)
    (identity : VerifiedIdentity) (correlationId : Option String) (clock : Clock)
    (n : Option ℕ) (e : PyError)
    (hfails : (∃ k, k < 3 ∧ n = some k)
      ∨ ∃ e', st.profileAt P s identity.subject = .error e') :
    AtomicFailure P st s identity correlationId
        (registerFailing P st s identity correlationId clock n e)
      ↔ n = some 1 ∧ ∃ profile, st.profileAt P s identity.subject = .ok profile := by
  constructor
  · intro hatomic
    -- a read that raises leaves the log as it is
    have hread : ¬ (n = some 0 ∨ ∃ e', st.profileAt P s identity.subject = .error e') := by
      intro hread
      obtain ⟨e', hout⟩ : ∃ e', registerFailing P st s identity correlationId clock n e
          = (.error e', s) := registerFailing_unread hread
      exact not_atomicFailure_of_events (by rw [hout]) hatomic
    obtain ⟨hzero, hfound⟩ := not_or.mp hread
    obtain ⟨existing, hexisting⟩ : ∃ x, st.profileAt P s identity.subject = .ok x := by
      cases hprofile : st.profileAt P s identity.subject with
      | ok x => exact ⟨x, rfl⟩
      | error e' => exact absurd ⟨e', hprofile⟩ hfound
    refine ⟨?_, existing, hexisting⟩
    obtain ⟨k, hk, rfl⟩ := hfails.resolve_right hfound
    by_contra hne
    obtain rfl : k = 2 := by
      have hk0 : k ≠ 0 := fun h => hzero (by rw [h])
      have hk1 : k ≠ 1 := fun h => hne (by rw [h])
      omega
    -- the append of the event of success raises after the profile was stored
    obtain ⟨s', hupsert, hevents⟩ := Storage.exec_profileUpsert (P := P) (s := s)
      (refreshedProfile existing identity clock.now)
    rw [registerFailing_of_found hexisting (run_audited_append_failing hupsert)] at hatomic
    exact not_atomicFailure_of_events hevents hatomic
  · rintro ⟨rfl, existing, hexisting⟩
    obtain ⟨s', happend, hevents, hprofiles⟩ := Storage.exec_auditAppend (P := P) (s := s)
      (registrationEvent identity correlationId clock "failure")
    rw [registerFailing_of_found hexisting (run_audited_failing happend)]
    exact ⟨⟨e, rfl⟩, hprofiles, _, hevents, rfl, rfl, rfl, rfl⟩

/-- A connection that is refused. -/
def refused : PyError := .other "ConnectionError" "connection refused"

/-- When the upsert of a first registration raises, nothing but the event remains. -/
theorem failedRegistration_upsert :
    AtomicFailure .python (.memory .python .python) .empty (keycloakUser "alice") none
      (registerFailing .python (.memory .python .python) .empty (keycloakUser "alice") none
        newYear (some 1) refused) :=
  (failedRegistration_iff .python (.memory .python .python) .empty (keycloakUser "alice") none
    newYear (some 1) refused (Or.inl ⟨1, by decide, rfl⟩)).mpr ⟨rfl, none, rfl⟩

/-- A Vault in which the profile of "alice" has lost the field of its subject. -/
def damagedProfile : VaultWorld :=
  VaultWorld.empty.write (VaultDeployment.python.paths.userProfilePath "alice")
    [("display_name", .str "Alice")]

/-- Neither a refused read of the profile nor a document that cannot be decoded is audited. -/
theorem unread_registration_unaudited :
    ¬ AtomicFailure .python (.vault .python .inOrder) .empty (keycloakUser "alice") none
        (registerFailing .python (.vault .python .inOrder) .empty (keycloakUser "alice") none
          newYear (some 0) refused)
      ∧ (∃ e, (Storage.vault .python .inOrder).profileAt .python damagedProfile "alice"
          = .error e)
      ∧ ¬ AtomicFailure .python (.vault .python .inOrder) damagedProfile (keycloakUser "alice")
        none (registerFailing .python (.vault .python .inOrder) damagedProfile
          (keycloakUser "alice") none newYear none refused) := by
  refine ⟨not_atomicFailure_of_events (by decide +kernel), ⟨_, rfl⟩,
    not_atomicFailure_of_events (by decide +kernel)⟩

end GofrSec
