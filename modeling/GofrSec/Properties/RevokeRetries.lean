/-
Revoking a token again after an attempt that failed.

* `SaysRevoked`, `IndexRevoked`, `RevokedEverywhere`: a document, the index entries of a
  record, and all of its documents say that it is revoked;
* `Holds`: the canonical record is there, with the owner and the groups of its mint;
* `revoke_step`: what one attempt keeps, and what its return is worth;
* `revoked_everywhere_iff`: after any attempts, a return means revoked everywhere exactly
  when the record was not revoked before, or its index entries were.
-/
import GofrSec.Services.VaultTokenRuns

namespace GofrSec

open Calls

/-- The document at a path has the status `revoked`. -/
def SaysRevoked (w : VaultWorld) (path : String) : Prop :=
  ∃ d, w.read path = some d ∧ d.field "status" = some (.str "revoked")

/-- The index entries of a record say that it is revoked. -/
def IndexRevoked (L : VaultPathLayout) (w : VaultWorld) (record : IssuedTokenRecord) : Prop :=
  SaysRevoked w (L.userTokenPath record.ownerSub record.tokenId)
    ∧ ∀ g ∈ record.grantedGroups, SaysRevoked w (L.groupTokenPath g record.tokenId)

/-- The canonical document and all index entries of a record say that it is revoked. -/
def RevokedEverywhere (L : VaultPathLayout) (w : VaultWorld) (record : IssuedTokenRecord) :
    Prop :=
  SaysRevoked w (L.tokenPath record.tokenId) ∧ IndexRevoked L w record

/-- The canonical record is there, with the id, the owner and the groups that it was minted
with. -/
def Holds (P : Platform) (L : VaultPathLayout) (w : VaultWorld) (record : IssuedTokenRecord) :
    Prop :=
  ∃ current, w.read (L.tokenPath record.tokenId) = some (serializeToken P current)
    ∧ current.tokenId = record.tokenId ∧ current.ownerSub = record.ownerSub
    ∧ current.grantedGroups = record.grantedGroups

/-- An attempt to revoke a token. -/
structure RevokeAttempt where
  actorSub : String
  correlationId : Option String
  clock : Clock

/-- What an attempt does. -/
def RevokeAttempt.prog (t : String) (attempt : RevokeAttempt) : RepoProg IssuedTokenRecord :=
  revokeToken t attempt.actorSub attempt.correlationId attempt.clock

variable {P : Platform} {D : VaultDeployment} {server : VaultServer} {faults : Prop}
  {w w' : VaultWorld} {record current : IssuedTokenRecord}

/-- A stored record has its status. -/
lemma saysRevoked_serializeToken {path : String}
    (h : w.read path = some (serializeToken P current)) :
    SaysRevoked w path ↔ current.status = "revoked" := by
  constructor
  · rintro ⟨d, hd, hstatus⟩
    obtain rfl := Option.some.inj (h.symm.trans hd)
    exact Json.str.inj (Option.some.inj hstatus)
  · intro hstatus
    refine ⟨_, h, ?_⟩
    rw [← hstatus]
    rfl

/-- A full upsert of a revoked record leaves it revoked everywhere. -/
lemma revokedEverywhere_upsert {previous : Option IssuedTokenRecord}
    (hold : ∀ old ∈ previous, old.tokenId = record.tokenId) (hstatus : record.status = "revoked") :
    RevokedEverywhere D.paths (VaultCall.effects (upsertCalls P D previous record) w) record := by
  have hcanonical : (VaultCall.effects (upsertCalls P D previous record) w).read
      (D.paths.tokenPath record.tokenId) = some (serializeToken P record) :=
    (read_upsert_tokenPath (fun i hi => hi) _ w).trans (if_pos rfl)
  refine ⟨(saysRevoked_serializeToken hcanonical).mpr hstatus, ?_, fun g hg => ?_⟩
  · refine ⟨_, (read_upsert_userTokenPath hold _ w).trans (if_pos rfl), ?_⟩
    rw [← hstatus]
    rfl
  · refine ⟨_, (read_upsert_groupTokenPath g w).trans (if_pos hg), ?_⟩
    rw [← hstatus]
    rfl

/-- **One attempt** keeps the canonical record in place; and when it returns, the record is
revoked everywhere exactly if it was not revoked before, or its index entries were. -/
theorem revoke_step {attempt : RevokeAttempt} {r : Except PyError IssuedTokenRecord}
    (hholds : Holds P D.paths w record)
    (hrun : (attempt.prog record.tokenId).Runs ((Storage.vault D server).act P faults) w r w') :
    Holds P D.paths w' record
      ∧ ∀ v, r = .ok v → (RevokedEverywhere D.paths w' record
        ↔ ¬ SaysRevoked w (D.paths.tokenPath record.tokenId) ∨ IndexRevoked D.paths w record) := by
  obtain ⟨current, hread, hid, howner, hgroups⟩ := hholds
  have hdecode : decodeRecord (deserializeToken P D.now)
      (w.read (D.paths.tokenPath record.tokenId)) = .ok (some current) := by
    rw [hread, decodeRecord, deserializeToken_serializeToken]
    rfl
  have hstays : Holds P D.paths w record := ⟨current, hread, hid, howner, hgroups⟩
  obtain ⟨event, w₁, rfl, hends⟩ := revokeToken_vault hdecode hrun
  cases hends with
  | unread => exact ⟨hstays, by rintro _ ⟨⟩⟩
  | already hstatus =>
      refine ⟨hstays, fun v _ => ⟨fun h => Or.inr h.2, fun h => ?_⟩⟩
      have hmarked := (saysRevoked_serializeToken hread).mpr hstatus
      exact ⟨hmarked, h.resolve_left fun hnot => hnot hmarked⟩
  | upserted hstatus hends =>
      have hid' : (revokedRecord current attempt.clock.now).tokenId = record.tokenId := hid
      have hpath := hends.tokenPath
      rw [hid'] at hpath
      refine ⟨?_, fun v hv => ?_⟩
      · rcases hpath with hwritten | ⟨rfl, -⟩
        · exact ⟨_, hwritten, hid, howner, hgroups⟩
        · exact hstays
      · obtain rfl := hv
        cases hends with
        | @done previous hprevious =>
            rw [hid', hdecode] at hprevious
            obtain rfl := Except.ok.inj hprevious
            have hold : ∀ old ∈ some current,
                old.tokenId = (revokedRecord current attempt.clock.now).tokenId := by
              intro old hmem
              rw [← Option.some.inj hmem]
              rfl
            have hnot : ¬ SaysRevoked w (D.paths.tokenPath record.tokenId) :=
              fun h => hstatus ((saysRevoked_serializeToken hread).mp h)
            refine iff_of_true ?_ (Or.inl hnot)
            obtain ⟨hcanonical, huser, hgroup⟩ :=
              revokedEverywhere_upsert (P := P) (D := D) (w := w) hold rfl
            rw [hid'] at hcanonical
            refine ⟨hcanonical, ?_, fun g hg => ?_⟩
            · rw [← hid, ← howner]
              exact huser
            · rw [← hgroups] at hg
              rw [← hid]
              exact hgroup g hg

/-- A mint that returns leaves its record in place. -/
lemma holds_of_minted {request : MintRequest} {clock : Clock} {minted : MintedTokenResult}
    (hrun : (mintToken P request clock).Runs ((Storage.vault D server).act P faults) w
      (.ok minted) w') : Holds P D.paths w' minted.record := by
  obtain ⟨event, w₁, rfl, hends⟩ := mintToken_vault hrun
  generalize hout : Except.ok minted = out at hends
  cases hends with
  | unprepared => exact nomatch hout
  | @upserted record raw r w₁ hid howner hends =>
      cases r with
      | error e => exact nomatch hout
      | ok stored =>
          obtain rfl := Except.ok.inj hout
          rcases hends.tokenPath with hwritten | ⟨-, e, herror⟩
          · cases hends with
            | done => exact ⟨_, hwritten, rfl, rfl, rfl⟩
          · exact nomatch herror

/-- Attempts keep the canonical record in place. -/
lemma holds_of_attempts {h : History RevokeAttempt PyError IssuedTokenRecord}
    (hholds : Holds P D.paths w record)
    (hsession : Session ((Storage.vault D server).act P faults)
      (RevokeAttempt.prog record.tokenId) w h w') : Holds P D.paths w' record := by
  induction hsession with
  | start => exact hholds
  | step _ hrun ih => exact (revoke_step ih hrun).1

/-- **When a return of `revoke_token` means revoked everywhere.** Over Vault, from every
state: a token is minted, and then any attempts to revoke it are made one after another,
in each of which any call of the client may raise. Whenever an attempt returns, the
canonical record, the index entry of the owner and those of all granted groups are
revoked exactly when, before that attempt, the canonical record was not revoked or the
index entries were. -/
theorem revoked_everywhere_iff (P : Platform) (D : VaultDeployment) (server : VaultServer)
    {w₀ w₁ w₂ w₃ : VaultWorld} {request : MintRequest} {clock : Clock}
    {minted : MintedTokenResult} {h : History RevokeAttempt PyError IssuedTokenRecord}
    {attempt : RevokeAttempt} {revoked : IssuedTokenRecord}
    (hmint : (mintToken P request clock).Runs ((Storage.vault D server).act P True) w₀
      (.ok minted) w₁)
    (hattempts : Session ((Storage.vault D server).act P True)
      (RevokeAttempt.prog minted.record.tokenId) w₁ h w₂)
    (hreturn : (attempt.prog minted.record.tokenId).Runs ((Storage.vault D server).act P True) w₂
      (.ok revoked) w₃) :
    RevokedEverywhere D.paths w₃ minted.record
      ↔ ¬ SaysRevoked w₂ (D.paths.tokenPath minted.record.tokenId)
        ∨ IndexRevoked D.paths w₂ minted.record := by
  have hholds := holds_of_attempts (holds_of_minted hmint) hattempts
  exact (revoke_step hholds hreturn).2 revoked rfl

/-! ### An attempt after a failure -/

/-- `root` revokes the token of `teamDay`. -/
def rootAttempt : RevokeAttempt :=
  { actorSub := "root"
    correlationId := none
    clock := newYear }

/-- The Vault after the mint of `teamDay`. -/
def teamMinted : VaultWorld :=
  ((mintToken .python teamMint newYear).run ((Storage.vault .python .inOrder).exec .python)
    teamSetUp).2

/-- The Vault after an attempt whose write to the index entry of `alice` raised. -/
def teamHalfRevoked : VaultWorld :=
  ((rootAttempt.prog teamMint.tokenId).run
    (refusingExec .python .python .inOrder
      (VaultDeployment.python.paths.userTokenPath "alice" teamMint.tokenId)) teamMinted).2

lemma teamMint_run : (mintToken .python teamMint newYear).Runs
    ((Storage.vault .python .inOrder).act .python True) teamSetUp
    (.ok { record := teamRecord, rawToken := "e30.e30.c2ln" }) teamMinted :=
  Storage.runs_of_run_fst (by decide +kernel)

/-- After a failed attempt a second one returns, and the index entry of the owner is still
active. -/
theorem revoke_after_failure :
    (rootAttempt.prog teamMint.tokenId).Runs ((Storage.vault .python .inOrder).act .python True)
        teamMinted (.error (.other "VaultError" "permission denied")) teamHalfRevoked
      ∧ ∃ revoked w, (rootAttempt.prog teamMint.tokenId).Runs
          ((Storage.vault .python .inOrder).act .python True) teamHalfRevoked (.ok revoked) w
        ∧ ¬ RevokedEverywhere VaultDeployment.python.paths w teamRecord := by
  have hfails : (rootAttempt.prog teamMint.tokenId).Runs
      ((Storage.vault .python .inOrder).act .python True) teamMinted _ _ :=
    runs_refusing (VaultDeployment.python.paths.userTokenPath "alice" teamMint.tokenId) _
  have hraised : ((rootAttempt.prog teamMint.tokenId).run
      (refusingExec .python .python .inOrder
        (VaultDeployment.python.paths.userTokenPath "alice" teamMint.tokenId)) teamMinted).1
      = .error (.other "VaultError" "permission denied") := by decide +kernel
  rw [hraised] at hfails
  refine ⟨hfails, ?_⟩
  have hreturns : ((rootAttempt.prog teamMint.tokenId).run
      ((Storage.vault .python .inOrder).exec .python) teamHalfRevoked).1
      = .ok (revokedRecord teamRecord newYear.now) := by decide +kernel
  refine ⟨_, _, Storage.runs_of_run_fst hreturns, ?_⟩
  rintro ⟨-, ⟨d, hd, hstatus⟩, -⟩
  have hstale : ((((rootAttempt.prog teamMint.tokenId).run
      ((Storage.vault .python .inOrder).exec .python) teamHalfRevoked).2.read
      (VaultDeployment.python.paths.userTokenPath "alice" teamMint.tokenId)).bind
        fun d => (d.field "status").bind Json.asString) = some "active" := by decide +kernel
  have hread : (((rootAttempt.prog teamMint.tokenId).run
      ((Storage.vault .python .inOrder).exec .python) teamHalfRevoked).2.read
      (VaultDeployment.python.paths.userTokenPath "alice" teamMint.tokenId)) = some d := hd
  rw [hread, Option.bind_some, hstatus] at hstale
  exact absurd (Option.some.inj hstale) (by decide)

/-- The Vault after an attempt whose write of the canonical record raised. -/
def teamUnrevoked : VaultWorld :=
  ((rootAttempt.prog teamMint.tokenId).run
    (refusingExec .python .python .inOrder
      (VaultDeployment.python.paths.tokenPath teamMint.tokenId)) teamMinted).2

/-- A first attempt raises before it has changed the canonical record, and a second one, which
returns, leaves the token of `teamDay` revoked everywhere. -/
theorem revoked_everywhere_teamMint :
    (rootAttempt.prog teamMint.tokenId).Runs ((Storage.vault .python .inOrder).act .python True)
        teamMinted (.error (.other "VaultError" "permission denied")) teamUnrevoked
      ∧ ∃ w, (rootAttempt.prog teamMint.tokenId).Runs
          ((Storage.vault .python .inOrder).act .python True) teamUnrevoked
          (.ok (revokedRecord teamRecord newYear.now)) w
        ∧ RevokedEverywhere VaultDeployment.python.paths w teamRecord := by
  have hfails : (rootAttempt.prog teamMint.tokenId).Runs
      ((Storage.vault .python .inOrder).act .python True) teamMinted _ teamUnrevoked :=
    runs_refusing (VaultDeployment.python.paths.tokenPath teamMint.tokenId) _
  have hraised : ((rootAttempt.prog teamMint.tokenId).run
      (refusingExec .python .python .inOrder
        (VaultDeployment.python.paths.tokenPath teamMint.tokenId)) teamMinted).1
      = .error (.other "VaultError" "permission denied") := by decide +kernel
  rw [hraised] at hfails
  have hreturns : ((rootAttempt.prog teamMint.tokenId).run
      ((Storage.vault .python .inOrder).exec .python) teamUnrevoked).1
      = .ok (revokedRecord teamRecord newYear.now) := by decide +kernel
  have hrun : (rootAttempt.prog teamMint.tokenId).Runs
      ((Storage.vault .python .inOrder).act .python True) teamUnrevoked _ _ :=
    Storage.runs_of_run_fst hreturns
  have hattempts : Session ((Storage.vault .python .inOrder).act .python True)
      (RevokeAttempt.prog teamMint.tokenId) teamMinted
      [(rootAttempt, .error (.other "VaultError" "permission denied"))] teamUnrevoked :=
    .step .start hfails
  refine ⟨hfails, _, hrun, (revoked_everywhere_iff .python .python .inOrder teamMint_run hattempts
    hrun).mpr (Or.inl ?_)⟩
  rintro ⟨d, hd, hstatus⟩
  have hactive : ((teamUnrevoked.read
      (VaultDeployment.python.paths.tokenPath teamMint.tokenId)).bind
        fun d => (d.field "status").bind Json.asString) = some "active" := by decide +kernel
  have hread : teamUnrevoked.read (VaultDeployment.python.paths.tokenPath teamMint.tokenId)
      = some d := hd
  rw [hread, Option.bind_some, hstatus] at hactive
  exact absurd (Option.some.inj hactive) (by decide)

end GofrSec
