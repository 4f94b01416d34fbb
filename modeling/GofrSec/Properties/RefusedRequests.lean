/-
Refused requests leave no trace.

* `RaisesOfClient`: the client calls that fail raise exceptions of the client;
* `harmlessAt`: the activity that a process runs after a number of others was a request that
  only looks, or was answered with an error;
* `refused_requests_erased`: any such activities can be dropped from a concurrent run; all
  other activities make the same calls with the same answers and outcomes, and leave the same
  documents.
-/
import GofrSec.Calls.Erasure
import GofrSec.Properties.SharedAccess
import GofrSec.Services.Refusals

namespace GofrSec

open Calls

/-! ### Documents -/

/-- The two Vaults hold the same documents. -/
def VaultWorld.SameSecrets (w w' : VaultWorld) : Prop := w'.secrets = w.secrets

/-- Calls depend on the documents alone, and those without a target leave them as they
are. -/
lemma unwinds_secrets (server : VaultServer) (faults : Prop) :
    Unwinds VaultWorld.SameSecrets (server.act faults) (server.act faults) (fun _ => True)
      fun i => i.target = none := by
  have hexec : ∀ (i : VaultCall) (w w' : VaultWorld), w.SameSecrets w' →
      (server.exec i w').1 = (server.exec i w).1
        ∧ (server.exec i w).2.SameSecrets (server.exec i w').2 := by
    rintro i ⟨secrets, events⟩ ⟨_, events'⟩ rfl
    cases i <;> exact ⟨rfl, rfl⟩
  refine ⟨fun i w w' r w₁ _ h hact => ?_, fun i w w' r w₁ hi h hact => ?_⟩
  · rcases hact with hrun | ⟨hmay, herror, rfl⟩
    · have hrun : server.exec i w = (r, w₁) := hrun
      obtain ⟨hout, hsame⟩ := hexec i w w' h
      rw [hrun] at hout hsame
      exact ⟨(server.exec i w').2, Or.inl (Prod.ext hout rfl), hsame⟩
    · exact ⟨w', Or.inr ⟨hmay, herror, rfl⟩, h⟩
  · rcases hact with hrun | ⟨-, -, rfl⟩
    · have hrun : server.exec i w = (r, w₁) := hrun
      have hw₁ : w₁ = i.effect w := by
        rw [← server.exec_snd, hrun]
      have hsecrets : (i.effect w).secrets = w.secrets := by
        cases i with
        | writeSecret path data => cases hi
        | deleteSecret path => cases hi
        | _ => rfl
      rw [VaultWorld.SameSecrets, hw₁, hsecrets]
      exact h
    · exact h

/-! ### What the calls of an activity have written -/

section

variable {π : Type} {L : ServerLedger π}

/-- A client call that fails raises an exception of the client. -/
def RaisesOfClient : ServerEvent π → Prop
  | .call _ _ _ r _ => ∀ e, r = .error e → e.OfClient
  | .finish _ _ _ => True

/-- One of the calls writes or deletes a document. -/
def wrote : ServerLedger π → Bool
  | [] => false
  | .call _ _ i _ _ :: L => i.target.isSome || wrote L
  | .finish _ _ _ :: L => wrote L

lemma traced_wrote (h : ∀ e ∈ L, RaisesOfClient e) : Traced vaultNoise false L (wrote L) := by
  induction L with
  | nil => rfl
  | cons e L ih =>
      have hrest := ih fun e' he' => h e' (List.mem_cons_of_mem _ he')
      cases e with
      | call p a i r w =>
          refine ⟨wrote L, hrest, h _ List.mem_cons_self, fun hwrote => ?_⟩
          rw [wrote, Bool.or_eq_true] at hwrote
          exact hwrote.symm
      | finish p a r => exact hrest

lemma target_of_not_wrote (h : wrote L = false) {p : π} {a : Activity} {i : VaultCall}
    {r : Except PyError i.Res} {w : VaultWorld} (hmem : .call p a i r w ∈ L) :
    i.target = none := by
  induction L with
  | nil => cases hmem
  | cons e L ih =>
      cases e with
      | call p' a' i' r' w' =>
          rw [wrote, Bool.or_eq_false_iff] at h
          rcases List.mem_cons.mp hmem with heq | hmem
          · cases heq
            simpa using h.1
          · exact ih h.2 hmem
      | finish p' a' r' =>
          rcases List.mem_cons.mp hmem with heq | hmem
          · cases heq
          · exact ih h hmem

end

variable {π : Type} [DecidableEq π] {L : ServerLedger π}

/-! ### Erasing -/

/-- The activity that the process ended after `n` others was harmless. -/
def harmlessAt (p : π) (n : ℕ) : ServerLedger π → Bool
  | [] => false
  | .call _ _ _ _ _ :: L => harmlessAt p n L
  | .finish q a r :: L => (q = p && ended p L == n && a.harmless r) || harmlessAt p n L

lemma exists_of_harmlessAt {p : π} {n : ℕ} (h : harmlessAt p n L = true) :
    ∃ L₂ a r L₁, L = L₂ ++ .finish p a r :: L₁ ∧ ended p L₁ = n ∧ a.harmless r = true := by
  induction L with
  | nil => cases h
  | cons e L ih =>
      have hrest : harmlessAt p n L = true → ∃ L₂ a r L₁, e :: L = L₂ ++ .finish p a r :: L₁
          ∧ ended p L₁ = n ∧ a.harmless r = true := by
        intro h
        obtain ⟨L₂, a, r, L₁, rfl, hn, hharmless⟩ := ih h
        exact ⟨e :: L₂, a, r, L₁, rfl, hn, hharmless⟩
      cases e with
      | call q a i r w => exact hrest h
      | finish q a r =>
          rw [harmlessAt, Bool.or_eq_true] at h
          rcases h with h | h
          · simp only [Bool.and_eq_true, decide_eq_true_eq, beq_iff_eq] at h
            obtain ⟨⟨rfl, hn⟩, hharmless⟩ := h
            exact ⟨[], a, r, L, rfl, hn, hharmless⟩
          · exact hrest h

/-- The calls of harmless activities write nothing. -/
lemma quiet_of_harmless {V : SharedVault} {todo : π → List Activity}
    {S : System π Activity VaultCall VaultCall.Res PyError Outcome VaultWorld}
    (hserves : V.Serves todo S) (hclient : ∀ e ∈ S.ledger, RaisesOfClient e)
    {drop : π → ℕ → Bool} (hdrop : ∀ p n, drop p n = true → harmlessAt p n S.ledger = true) :
    Meets (fun L e => drop e.process (ended e.process L) = true →
      e.IsOf fun i => i.target = none) S.ledger := by
  have hprog : ∀ a, (V.carryOut a).wp vaultNoise (fun r b => a.harmless r = true → b = false)
      false := by
    intro a
    refine Prog.wp_translate (fun c b _ => ?_) (unnoticed_activity a)
    exact noise_vaultProgram V.platform V.deployment c b
  intro L₂ e L₁ hL hdropped
  cases e with
  | finish p a r => trivial
  | call p a i r w =>
      obtain ⟨A, a', r', L', hA, hended, hharmless⟩ := exists_of_harmlessAt (hdrop p _ hdropped)
      have hmem : .call p a i r w ∈ ongoing p L' :=
        mem_ongoing_of_ended (hL.symm.trans hA) hended.symm
      have hconcludes := (Reachable.concludes hprog hserves).1 A _ L' hA
      have htraced : Traced vaultNoise false (ongoing p L') (wrote (ongoing p L')) := by
        refine traced_wrote fun e he => hclient e ?_
        rw [hA]
        exact List.mem_append_right A (List.mem_cons_of_mem _ (mem_of_mem_ongoing he))
      exact target_of_not_wrote (hconcludes _ htraced hharmless) hmem

/-- **Refused requests leave no trace.** Let server processes share a Vault, their client
calls interleaved in any way, and raising exceptions of the client wherever they may. Drop any
requests that only look, or that were answered with an error. Then everything else can be done
as before: each activity makes the same calls, with the same answers, and ends the same; and
the documents that are left are the same. -/
theorem refused_requests_erased (V : SharedVault) {todo : π → List Activity}
    {S : System π Activity VaultCall VaultCall.Res PyError Outcome VaultWorld}
    (hserves : V.Serves todo S) (hclient : ∀ e ∈ S.ledger, RaisesOfClient e)
    {drop : π → ℕ → Bool} (hdrop : ∀ p n, drop p n = true → harmlessAt p n S.ledger = true) :
    ∃ T : System π Activity VaultCall VaultCall.Res PyError Outcome VaultWorld,
      V.Serves (fun p => without (drop p) 0 (todo p)) T
        ∧ List.Forall₂ (Event.Alike VaultWorld.SameSecrets) (kept drop S.ledger) T.ledger
        ∧ (V.documents T.ledger).secrets = (V.documents S.ledger).secrets := by
  obtain ⟨T, hT, herased⟩ := Reachable.erase (unwinds_secrets V.server V.faults)
    (show V.start.SameSecrets V.start from rfl) hserves (quiet_of_harmless hserves hclient hdrop)
  exact ⟨T, hT, herased.ledger, herased.now⟩

/-- A process starts up and is asked twice to create a group; at the other one `alice` looks at
her profile, asks for a group, and registers. -/
def refusingServers : Bool → List Activity
  | true => [.startUp ["root"] newYear.now fun _ => newYear.now,
      .serve ⟨true, 60⟩ (.createGroup (keycloakUser "root") "blue" none none newYear),
      .serve ⟨true, 60⟩ (.createGroup (keycloakUser "root") "blue" none none newYear)]
  | false => [.serve ⟨true, 60⟩ (.getMe (keycloakUser "alice")),
      .serve ⟨true, 60⟩ (.createGroup (keycloakUser "alice") "red" none none newYear),
      .serve ⟨true, 60⟩ (.registerMe (keycloakUser "alice") none newYear)]

/-- They take turns, call by call. -/
def refusingRun : System Bool Activity VaultCall VaultCall.Res PyError Outcome VaultWorld :=
  SharedVault.python.serveSchedule refusingServers (List.replicate 20 [true, false]).flatten

/-- The second creation is refused, `alice` is no admin, and a look at a profile only looks. -/
def refusedOnes : Bool → ℕ → Bool
  | true, n => n == 2
  | false, n => n == 0 || n == 1

/-- No call has failed. -/
def answered : ServerEvent π → Bool
  | .call _ _ _ (.ok _) _ => true
  | .call _ _ _ (.error _) _ => false
  | .finish _ _ _ => true

omit [DecidableEq π] in
lemma raisesOfClient_of_answered {e : ServerEvent π} (h : answered e = true) :
    RaisesOfClient e := by
  cases e with
  | call p a i r w =>
      cases r with
      | ok v =>
          intro e he
          cases he
      | error e => cases h
  | finish p a r => trivial

/-- Without them the group and the profile are there as well. -/
theorem refused_requests_erased_refusingServers :
    ∃ T : System Bool Activity VaultCall VaultCall.Res PyError Outcome VaultWorld,
      SharedVault.python.Serves (fun p => without (refusedOnes p) 0 (refusingServers p)) T
        ∧ (kept refusedOnes refusingRun.ledger).length = T.ledger.length
        ∧ ((SharedVault.python.documents T.ledger).read
          (SharedVault.python.paths.groupDefinitionPath "blue")).isSome
        ∧ ((SharedVault.python.documents T.ledger).read
          (SharedVault.python.paths.userProfilePath "alice")).isSome := by
  have hserves : SharedVault.python.Serves refusingServers refusingRun :=
    SharedVault.python.serves_serveSchedule _ _
  have hanswered : ∀ e ∈ refusingRun.ledger, answered e = true := by
    decide +kernel
  have hdrop : ∀ p n, refusedOnes p n = true → harmlessAt p n refusingRun.ledger = true := by
    intro p n h
    cases p with
    | true =>
        obtain rfl : n = 2 := by simpa [refusedOnes] using h
        decide +kernel
    | false =>
        rcases (by simpa [refusedOnes] using h : n = 0 ∨ n = 1) with rfl | rfl
        · decide +kernel
        · decide +kernel
  obtain ⟨T, hT, hledger, hsame⟩ := refused_requests_erased SharedVault.python hserves
    (fun e he => raisesOfClient_of_answered (hanswered e he)) hdrop
  refine ⟨T, hT, hledger.length_eq, ?_, ?_⟩
  · rw [VaultWorld.read, hsame]
    decide +kernel
  · rw [VaultWorld.read, hsame]
    decide +kernel

end GofrSec
