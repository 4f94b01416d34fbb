/-
The audit log, apart from the stores.

* `auditLog`: the contract of the repository calls on the log alone: an append
  returns and adds its event, every other call leaves the log as it is, whatever it
  answers or raises, and an upsert returns the record that it was given;
* `Storage.logs`: both backends implement it, from every state; `Storage.exec_fst_append`: no
  answer depends on the log;
* `wp_audited_log`: the frame of a service method adds one event.
-/
import GofrSec.Repositories.Storage
import GofrSec.Services.Frames

namespace GofrSec

open Calls

/-- The events that a call adds to the log. -/
def RepoCall.appended : RepoCall → List AuditEvent
  | .auditAppend event => [event]
  | _ => []

/-- The answer of a call that returns what it was given. -/
def RepoCall.Echoes : (c : RepoCall) → c.Res → Prop
  | .groupUpsert group, v => v = group
  | .membershipAdd membership, v => v = membership
  | .tokenUpsert record, v => v = record
  | _, _ => True

/-- What the calls do to the audit log. -/
def auditLog : Contract RepoCall RepoCall.Res PyError (List AuditEvent) where
  pre _ _ := True
  post c log r log' := log' = log ++ c.appended ∧ (¬ c.mayFail → r.isOk)
    ∧ ∀ v, r = .ok v → c.Echoes v

lemma RepoCall.appended_of_mayFail {c : RepoCall} (hc : c.mayFail) : c.appended = [] := by
  cases c with
  | auditAppend event => exact hc.elim
  | _ => rfl

section

variable {α : Type} {log : List AuditEvent}

/-- One call that appends nothing. -/
lemma wp_log {c : RepoCall} (hc : c.mayFail)
    {Q : Except PyError c.Res → List AuditEvent → Prop}
    (h : ∀ r, (∀ v, r = .ok v → c.Echoes v) → Q r log) :
    (RepoCall.perform c).wp auditLog Q log := by
  refine (Prog.wp_perform _ _ _).mpr ⟨trivial, ?_⟩
  rintro r log' ⟨rfl, -, hecho⟩
  rw [RepoCall.appended_of_mayFail hc, List.append_nil]
  exact h r hecho

/-- A part of an operation that appends nothing, and what it returns. -/
lemma wp_log_of_uses {p : RepoProg α} {V : α → Prop} (hp : p.Uses RepoCall.mayFail)
    (hret : p.Returns V) {Q : Except PyError α → List AuditEvent → Prop}
    (h : ∀ r, (∀ a, r = .ok a → V a) → Q r log) : p.wp auditLog Q log := by
  have hwp : p.wp auditLog (fun r log' => log' = log ∧ ∀ a, r = .ok a → V a) log := by
    refine Prog.wp_of_uses_returns (fun c log₁ hc hlog => ⟨trivial, ?_⟩) hp hret rfl
    rintro r log₂ ⟨rfl, -, -⟩
    rw [RepoCall.appended_of_mayFail hc, List.append_nil, hlog]
  refine Prog.wp_mono ?_ hwp
  rintro r log' ⟨rfl, hr⟩
  exact h r hr

/-- The event that the frame of a service method appends. -/
def frameEvent (failure : AuditEvent) (success : α → AuditEvent) : Except PyError α → AuditEvent
  | .ok a => success a
  | .error _ => failure

/-- The frame of a service method adds one event. -/
lemma wp_audited_log {body : RepoProg α} {failure : AuditEvent} {success : α → AuditEvent}
    {Q : Except PyError α → List AuditEvent → Prop}
    (h : body.wp auditLog
      (fun r log' => log' = log ∧ Q r (log ++ [frameEvent failure success r])) log) :
    (audited body failure success).wp auditLog Q log := by
  have happend : ∀ (event : AuditEvent) (r : Except PyError α), Q r (log ++ [event]) →
      (auditAppend event).wp auditLog (fun r' log' => r' = .ok () ∧ Q r log') log := by
    intro event r hQ
    refine (Prog.wp_perform _ _ _).mpr ⟨trivial, ?_⟩
    rintro (e | u) log' ⟨rfl, hok, -⟩
    · exact nomatch hok id
    · exact ⟨rfl, hQ⟩
  rw [audited, Prog.wp_handle]
  refine Prog.wp_mono ?_ h
  rintro (e | a) log' ⟨rfl, hQ⟩
  · refine (Prog.wp_bind _ _ _ _).mpr (Prog.wp_mono ?_ (happend _ _ hQ))
    rintro _ log₂ ⟨rfl, hQ'⟩
    exact hQ'
  · refine (Prog.wp_bind _ _ _ _).mpr (Prog.wp_mono ?_ (happend _ _ hQ))
    rintro _ log₂ ⟨rfl, hQ'⟩
    exact hQ'

end

/-! ### The two backends -/

namespace Storage

variable {P : Platform} {faults : Prop}

/-- What a repository call over Vault returns of a record that it was given. -/
lemma returns_vaultProgram (D : VaultDeployment) (c : RepoCall) :
    (vaultProgram P D c).Returns c.Echoes := by
  cases c with
  | groupUpsert group => exact Prog.Returns.bind (Prog.returns_true _) fun _ _ => rfl
  | membershipAdd membership =>
      refine Prog.Returns.bind (Prog.returns_true _) fun _ _ => ?_
      exact Prog.Returns.bind (Prog.returns_true _) fun _ _ => rfl
  | tokenUpsert record =>
      show (VaultTokenRepository.upsert P D record).Returns _
      rw [VaultTokenRepository.upsert_eq]
      refine Prog.Returns.bind (Prog.returns_true _) fun _ _ => ?_
      exact Prog.Returns.bind (Prog.returns_true _) fun _ _ => rfl
  | _ => exact Prog.returns_true _

/-- A client call that goes over the network leaves the audit events alone. -/
lemma events_of_act {server : VaultServer} {i : VaultCall} (hi : i.mayFail) {w w' : VaultWorld}
    {r : Except PyError i.Res} (h : server.act faults i w r w') : w'.events = w.events := by
  rcases h with h | ⟨-, -, rfl⟩
  · have hexec : server.exec i w = (r, w') := h
    obtain rfl : i.effect w = w' := by rw [← VaultServer.exec_snd server i w, hexec]
    cases i with
    | auditAppend event => exact hi.elim
    | _ => rfl
  · rfl

/-- No answer depends on what has been audited. -/
lemma exec_fst_append (st : Storage) (c : RepoCall) (s : st.State) (event : AuditEvent) :
    (st.exec P c (st.exec P (.auditAppend event) s).2).1 = (st.exec P c s).1 := by
  cases st with
  | memory C signer => cases c <;> rfl
  | vault D server =>
      by_cases hc : c.mayFail
      · have hmap : ∀ (i : VaultCall) (w : VaultWorld), i.mayFail →
            server.exec i (w.append event)
              = ((server.exec i w).1, (server.exec i w).2.append event) := by
          intro i w hi
          cases i with
          | auditAppend event => exact hi.elim
          | _ => rfl
        have hrun := (uses_vaultProgram_of_mayFail P D hc).run_map
          (fun i w hi => hmap i w hi.1) s
        exact (congrArg Prod.fst hrun :)
      · cases c with
        | auditAppend event => rfl
        | _ => exact absurd trivial hc

/-- **Both backends keep the log**, from every state. -/
theorem logs (st : Storage) :
    Prog.Implements (fun (s : st.State) log => st.events s = log) (st.act P faults) auditLog := by
  rintro c s log rfl - r s' hact
  cases st with
  | memory C signer =>
      rcases hact with hexec | ⟨⟨-, hc⟩, ⟨e, rfl⟩, rfl⟩
      · have hout : MemoryStores.exec C signer c s = (r, s') := hexec
        obtain ⟨rfl, rfl⟩ := Prod.mk.inj hout.symm
        refine ⟨_, rfl, ?_⟩
        cases c with
        | auditAppend event => exact ⟨rfl, fun _ => rfl, fun _ _ => trivial⟩
        | groupUpsert group =>
            exact ⟨(List.append_nil _).symm, fun _ => rfl, fun _ h => (Except.ok.inj h).symm⟩
        | membershipAdd membership =>
            exact ⟨(List.append_nil _).symm, fun _ => rfl, fun _ h => (Except.ok.inj h).symm⟩
        | tokenUpsert record =>
            exact ⟨(List.append_nil _).symm, fun _ => rfl, fun _ h => (Except.ok.inj h).symm⟩
        | _ => exact ⟨(List.append_nil _).symm, fun h => absurd trivial h, fun _ _ => trivial⟩
      · refine ⟨_, rfl, ?_, fun h => absurd hc h, fun _ h => nomatch h⟩
        rw [RepoCall.appended_of_mayFail hc, List.append_nil]
  | vault D server =>
      have hrun : (vaultProgram P D c).Runs (server.act faults) s r s' := hact
      refine ⟨_, rfl, ?_⟩
      by_cases hc : c.mayFail
      · refine ⟨?_, fun h => absurd hc h, fun v hv => ?_⟩
        · rw [RepoCall.appended_of_mayFail hc, List.append_nil]
          exact hrun.keeps (uses_vaultProgram_of_mayFail P D hc)
            (fun i w r w' hi hact => events_of_act hi.1 hact)
        · rw [hv] at hrun
          exact (returns_vaultProgram D c).of_runs hrun
      · cases c with
        | auditAppend event =>
            obtain ⟨r', w', hact, hdone⟩ := hrun
            rcases hact with hexec | ⟨⟨-, hf⟩, -, -⟩
            · obtain ⟨rfl, rfl⟩ := Prod.mk.inj (show _ = (r', w') from hexec).symm
              obtain ⟨rfl, rfl⟩ := hdone
              exact ⟨rfl, fun _ => rfl, fun _ _ => trivial⟩
            · exact hf.elim
        | _ => exact absurd trivial hc

end Storage

end GofrSec
