/-
What a mint that raises leaves in Vault.

* `LeftBehind`: a canonical record and some of its index entries, beside documents of
  other tokens that are as they were;
* `vaultRecorded`: the repository calls, with a record of the client calls that they make;
  `CutShort`: on record, a call after the write of the canonical record raised;
* `failed_mint`: a mint that raises leaves every document as it was, or it was cut short
  and has left the record that it had prepared behind;
* `mint_left_behind`: when the write of the user's index entry raises, the mint raises and
  the canonical record stays.
-/
import GofrSec.Services.MintOutcomes

namespace GofrSec

open Calls VaultPathLayout

variable {P : Platform} {D : VaultDeployment} {server : VaultServer} {faults : Prop}
  {w w' : VaultWorld} {record : IssuedTokenRecord}

/-- The canonical record is stored, and what else has changed are index entries of its id. -/
structure LeftBehind (P : Platform) (D : VaultDeployment) (w w' : VaultWorld)
    (record : IssuedTokenRecord) : Prop where
  canonical : w'.read (D.paths.tokenPath record.tokenId) = some (serializeToken P record)
  others : ∀ t, t ≠ record.tokenId → w'.read (D.paths.tokenPath t) = w.read (D.paths.tokenPath t)
  users : ∀ u t, w'.read (D.paths.userTokenPath u t) ≠ none →
    w.read (D.paths.userTokenPath u t) ≠ none
      ∨ D.paths.userTokenPath u t = D.paths.userTokenPath record.ownerSub record.tokenId
  groups : ∀ g t, w'.read (D.paths.groupTokenPath g t) ≠ none →
    w.read (D.paths.groupTokenPath g t) ≠ none
      ∨ ∃ h ∈ record.grantedGroups,
          D.paths.groupTokenPath g t = D.paths.groupTokenPath h record.tokenId
  kept : w.read (D.paths.tokenPath record.tokenId) = none →
    w.read (D.paths.userTokenPath record.ownerSub record.tokenId) = none →
    (∀ g ∈ record.grantedGroups, w.read (D.paths.groupTokenPath g record.tokenId) = none) →
    ∀ k d, w.read k = some d → w'.read k = some d

/-- Without a previous record, the calls on the indexes write the entries of the record, and
delete none. -/
lemma target_indexUpdates_none {i : VaultCall} (hi : i ∈ indexUpdates D none record) {k : String}
    (htarget : i.target = some k) :
    k = D.paths.userTokenPath record.ownerSub record.tokenId ∨
      ∃ g ∈ record.grantedGroups, k = D.paths.groupTokenPath g record.tokenId := by
  simp only [indexUpdates, ownerChange, List.nil_append, List.mem_append, List.mem_map,
    List.mem_singleton] at hi
  rcases hi with (⟨g, hg, rfl⟩ | rfl) | ⟨g, hg, rfl⟩
  · obtain ⟨⟨old, hold, -⟩, -⟩ := mem_staleGroups.mp hg
    cases hold
  · exact Or.inl (Option.some.inj htarget).symm
  · exact Or.inr ⟨g, hg, (Option.some.inj htarget).symm⟩

/-- The first calls of an upsert, up to one on the indexes. -/
lemma leftBehind_of_calls {previous : Option IssuedTokenRecord} {ds : List VaultCall}
    (hprevious : decodeRecord (deserializeToken P D.now)
      (w.read (D.paths.tokenPath record.tokenId)) = .ok previous)
    (hds : ∀ i ∈ ds, i ∈ indexUpdates D previous record) :
    LeftBehind P D w (VaultCall.effects ds (w.write (D.paths.tokenPath record.tokenId)
      (serializeToken P record))) record where
  canonical := (read_upsert_tokenPath hds _ w).trans (if_pos rfl)
  others t ht := (read_upsert_tokenPath hds t w).trans (if_neg ht)
  users u t hentry := by
    obtain ⟨d, hd⟩ := Option.ne_none_iff_exists'.mp hentry
    rcases VaultCall.exists_of_read_effects hd with ⟨d', hd'⟩ | ⟨data, hdata⟩
    · rw [w.read_write_of_ne _
        (ne_of_area (by decide) (under_userTokenPath u t) (under_tokenPath _))] at hd'
      exact Or.inl fun hnone => nomatch hd'.symm.trans hnone
    · exact Or.inr (user_of_write_indexUpdates (hds _ hdata))
  groups g t hentry := by
    obtain ⟨d, hd⟩ := Option.ne_none_iff_exists'.mp hentry
    rcases VaultCall.exists_of_read_effects hd with ⟨d', hd'⟩ | ⟨data, hdata⟩
    · rw [w.read_write_of_ne _
        (ne_of_area (by decide) (under_groupTokenPath g t) (under_tokenPath _))] at hd'
      exact Or.inl fun hnone => nomatch hd'.symm.trans hnone
    · exact Or.inr (group_of_write_indexUpdates (hds _ hdata))
  kept htoken huser hgroups k d hk := by
    rw [htoken] at hprevious
    obtain rfl := Except.ok.inj hprevious
    have hindex : ∀ i ∈ ds, i.target ≠ some k := by
      intro i hi htarget
      rcases target_indexUpdates_none (hds i hi) htarget with rfl | ⟨g, hg, rfl⟩
      · exact nomatch hk.symm.trans huser
      · exact nomatch hk.symm.trans (hgroups g hg)
    have hne : k ≠ D.paths.tokenPath record.tokenId := by
      rintro rfl
      exact nomatch hk.symm.trans htoken
    rw [VaultCall.read_effects _ hindex, w.read_write_of_ne _ hne, hk]

/-! ### Recorded runs -/

/-- A client call and its answer. -/
abbrev VaultAnswered : Type := Answered VaultCall VaultCall.Res PyError

variable (P D server faults) in
/-- The repository calls over Vault, with a record of the client calls that they make. -/
def vaultRecorded : Act RepoCall RepoCall.Res PyError (VaultWorld × List VaultAnswered) :=
  fun c => (vaultProgram P D c).Runs (server.act faults).recording

section

variable {α : Type} {p : RepoProg α} {r : Except PyError α}

/-- A recorded run is a run. -/
lemma runs_of_recorded {x x' : VaultWorld × List VaultAnswered}
    (h : p.Runs (vaultRecorded P D server faults) x r x') :
    p.Runs ((Storage.vault D server).act P faults) x.1 r x'.1 :=
  (Prog.runs_translate_iff (vaultProgram P D) p).mp
    ((Prog.runs_translate_iff (vaultProgram P D) p).mpr h).of_recording

/-- Every run can be recorded. -/
lemma exists_record (h : p.Runs ((Storage.vault D server).act P faults) w r w') :
    ∃ record, p.Runs (vaultRecorded P D server faults) (w, []) r (w', record) := by
  obtain ⟨record, hrecord⟩ := ((Prog.runs_translate_iff (vaultProgram P D) p).mpr h).recorded []
  exact ⟨record, (Prog.runs_translate_iff (vaultProgram P D) p).mp hrecord⟩

end

variable (P D record) in
/-- On record, the canonical record was written, and a later call raised `e`. -/
def CutShort (e : PyError) (calls : List VaultAnswered) : Prop :=
  ∃ before between i after, calls = before
    ++ ⟨.writeSecret (D.paths.tokenPath record.tokenId) (serializeToken P record), .ok ()⟩
      :: (between ++ ⟨i, .error e⟩ :: after)

lemma CutShort.append {e : PyError} {calls : List VaultAnswered} (h : CutShort P D record e calls)
    (later : List VaultAnswered) : CutShort P D record e (calls ++ later) := by
  obtain ⟨before, between, i, after, rfl⟩ := h
  exact ⟨before, between, i, after ++ later, by simp⟩

variable (P D) in
/-- What is left when a mint raises `e` as it stores its record. -/
def StoppedAt (w : VaultWorld) (record : IssuedTokenRecord) (e : PyError)
    (x : VaultWorld × List VaultAnswered) : Prop :=
  (∀ k, x.1.read k = w.read k) ∨ LeftBehind P D w x.1 record ∧ CutShort P D record e x.2

/-- The calls of an upsert, one of which raised. -/
lemma stoppedAt_of_calls {previous : Option IssuedTokenRecord} {e : PyError}
    {x x' : VaultWorld × List VaultAnswered}
    (hprevious : decodeRecord (deserializeToken P D.now)
      (x.1.read (D.paths.tokenPath record.tokenId)) = .ok previous)
    (hrun : (Prog.performAll (upsertCalls P D previous record)).Runs
      (server.act faults).recording x (.error e) x') : StoppedAt P D x.1 record e x' := by
  obtain ⟨answered, i, js, w₁, hcalls, hok, hdone, hraised, hlog⟩ :=
    Prog.runs_recording_performAll hrun
  have hworld : x'.1 = VaultCall.effects (answered.map Sigma.fst) x.1 := by
    refine (act_error hraised).trans ((Prog.wp_contract_iff _ (fun r w' => r = .ok () →
      w' = VaultCall.effects (answered.map Sigma.fst) x.1) _).mp ?_ _ _ hdone rfl)
    exact VaultServer.wp_performAll (fun _ => rfl) (by rintro _ _ _ _ _ _ ⟨⟩)
  cases answered with
  | nil =>
      refine Or.inl fun k => ?_
      rw [hworld]
      rfl
  | cons first answered =>
      -- the write of the canonical record has returned
      obtain ⟨first, r₀⟩ := first
      rw [List.map_cons, List.cons_append, upsertCalls, List.cons.injEq] at hcalls
      obtain ⟨rfl, hindex⟩ := hcalls
      have hr₀ : r₀ = .ok () := by
        have hfirst := hok _ List.mem_cons_self
        cases r₀ with
        | ok _ => rfl
        | error e => cases hfirst
      refine Or.inr ⟨?_, x.2, answered, i, [], ?_⟩
      · rw [hworld]
        refine leftBehind_of_calls hprevious fun i hi => ?_
        rw [hindex]
        exact List.mem_append_left _ hi
      · rw [hlog, hr₀, List.append_assoc]
        rfl

/-- An upsert that raises. -/
lemma wp_upsert_recorded (record : IssuedTokenRecord) (x : VaultWorld × List VaultAnswered) :
    (tokenUpsert record).wp (vaultRecorded P D server faults).contract
      (fun r x' => ∀ e, r = .error e → StoppedAt P D x.1 record e x') x := by
  refine (Prog.wp_perform _ _ _).mpr ⟨trivial, ?_⟩
  rintro r x' hrun e rfl
  have hupsert : (VaultTokenRepository.upsert P D record).Runs (server.act faults).recording x
      (.error e) x' := hrun
  rw [VaultTokenRepository.upsert_eq] at hupsert
  obtain ⟨r₁, x₁, hget, hrest⟩ := (Prog.runs_handle_iff _ _).mp hupsert
  have hread : x₁.1 = x.1 ∧ ∀ previous, r₁ = .ok previous →
      decodeRecord (deserializeToken P D.now) (x₁.1.read (D.paths.tokenPath record.tokenId))
        = .ok previous := by
    refine (Prog.wp_contract_iff (VaultTokenRepository.get P D record.tokenId) (fun r w' =>
      w' = x.1 ∧ ∀ previous, r = .ok previous → decodeRecord (deserializeToken P D.now)
        (w'.read (D.paths.tokenPath record.tokenId)) = .ok previous) x.1).mp ?_ _ _
      hget.of_recording
    refine (wp_getRecord _ _ _).mpr ⟨⟨rfl, fun _ h => h⟩, fun _ _ => ⟨rfl, ?_⟩⟩
    rintro _ ⟨⟩
  cases r₁ with
  | error e =>
      obtain ⟨-, rfl⟩ := hrest
      exact Or.inl fun k => by rw [hread.1]
  | ok previous =>
      obtain ⟨r₂, x₂, hcalls, hlast⟩ := (Prog.runs_handle_iff _ _).mp hrest
      cases r₂ with
      | ok _ => cases hlast.1
      | error e₂ =>
          obtain ⟨heq, rfl⟩ := hlast
          obtain rfl := Except.error.inj heq
          rw [← hread.1]
          exact stoppedAt_of_calls (hread.2 previous rfl) hcalls

/-- The append of an audit event goes on record. -/
lemma wp_append_recorded (event : AuditEvent) (x : VaultWorld × List VaultAnswered) :
    (auditAppend event).wp (vaultRecorded P D server faults).contract
      (fun r x' => r = .ok () ∧ x' = (x.1.append event, x.2 ++ [⟨.auditAppend event, .ok ()⟩]))
      x := by
  refine (Prog.wp_perform _ _ _).mpr ⟨trivial, fun r x' hrun => ?_⟩
  obtain ⟨hact, hrecord⟩ := Prog.runs_perform_iff.mp hrun
  obtain rfl := act_auditAppend hact
  exact ⟨rfl, Prod.ext (act_ok hact).2 hrecord⟩

/-- The preparation of a mint leaves the documents alone; if it returns, it ends in its
last exit. -/
lemma prepareMint_recorded {request : MintRequest} {issuedAt : DateTime}
    {r : Except PyError (IssuedTokenRecord × String)} {x x' : VaultWorld × List VaultAnswered}
    (hrun : (prepareMint P request issuedAt).Runs (vaultRecorded P D server faults) x r x') :
    x'.1 = x.1 ∧ ∀ prepared, r = .ok prepared →
      MintPrepared P (.vault D server) x.1 request issuedAt (.ok prepared) := by
  have hplain := runs_of_recorded hrun
  refine ⟨?_, ?_⟩
  · exact ((Prog.wp_contract_iff _ _ _).mp (wp_vault_reads (uses_prepareMint (fun _ h => h) _ _)
      (Prog.returns_true _)) _ _ hplain).1
  · rintro prepared rfl
    have hwp : (prepareMint P request issuedAt).wp
        ((Storage.vault D server).exec P).graph.contract (fun r w => w = x.1
          ∧ MintPrepared P (.vault D server) x.1 request issuedAt r) x.1 :=
      wp_prepareMint request issuedAt
    have hends := (Prog.wp_graph_iff _ _ _).mp hwp
    rw [Storage.run_of_ok (strict_prepareMint _ _) hplain] at hends
    exact hends.2

variable (P D server) in
/-- What is left when the mint of a request raises `e`. -/
def MintStopped (w : VaultWorld) (request : MintRequest) (issuedAt : DateTime) (e : PyError)
    (x : VaultWorld × List VaultAnswered) : Prop :=
  (∀ k, x.1.read k = w.read k) ∨ ∃ (record : IssuedTokenRecord) (raw : String),
    MintPrepared P (.vault D server) w request issuedAt (.ok (record, raw))
      ∧ LeftBehind P D w x.1 record ∧ CutShort P D record e x.2

/-- An audit event is no document, and comes last on record. -/
lemma MintStopped.append {request : MintRequest} {issuedAt : DateTime} {e : PyError}
    {x : VaultWorld × List VaultAnswered} (h : MintStopped P D server w request issuedAt e x)
    (event : AuditEvent) : MintStopped P D server w request issuedAt e
      (x.1.append event, x.2 ++ [⟨.auditAppend event, .ok ()⟩]) := by
  rcases h with hsame | ⟨record, raw, hprepared, hbehind, hcut⟩
  · exact Or.inl hsame
  · obtain ⟨hcanonical, hothers, husers, hgroups, hkept⟩ := hbehind
    exact Or.inr ⟨record, raw, hprepared, ⟨hcanonical, hothers, husers, hgroups, hkept⟩,
      hcut.append _⟩

/-- **What a failed mint leaves.** Let `mint_token` raise, from any state and with any
arguments, whichever of its client calls raise. The calls that it made are on some record, with
their answers, and whatever they were: every document is as it was; or a call after the write of
the canonical record raised the very exception, and the record that the mint had prepared, with
the groups, times, issuer and hash that a successful mint returns, has stayed with some of
its index entries. Of other ids no canonical record has changed and no index entry is new,
and no document at all has changed that was there before, if none of the id was. -/
theorem failed_mint {request : MintRequest} {clock : Clock} {e : PyError}
    (hrun : (mintToken P request clock).Runs ((Storage.vault D server).act P faults) w
      (.error e) w') :
    (∃ calls, (mintToken P request clock).Runs (vaultRecorded P D server faults) (w, [])
        (.error e) (w', calls))
      ∧ ∀ calls, (mintToken P request clock).Runs (vaultRecorded P D server faults) (w, [])
        (.error e) (w', calls) →
        (∀ k, w'.read k = w.read k) ∨ ∃ (record : IssuedTokenRecord) (raw : String),
          MintPrepared P (.vault D server) w request clock.now (.ok (record, raw))
            ∧ LeftBehind P D w w' record ∧ CutShort P D record e calls := by
  refine ⟨exists_record hrun, fun calls hrecorded => ?_⟩
  have hwp : (mintToken P request clock).wp (vaultRecorded P D server faults).contract
      (fun r x => ∀ e, r = .error e → MintStopped P D server w request clock.now e x)
      (w, []) := by
    refine (Prog.wp_bind _ _ _ _).mpr (wp_audited_of_append ?_)
    rw [mintTokenBody_eq]
    refine (Prog.wp_bind _ _ _ _).mpr ((Prog.wp_contract_iff _ _ _).mpr fun r x₁ hprepare => ?_)
    obtain ⟨hsame, hprepared⟩ := prepareMint_recorded hprepare
    cases r with
    | error e =>
        refine fun event => Prog.wp_mono (fun r x' hr => ⟨hr.1, ?_⟩) (wp_append_recorded event x₁)
        rintro _ ⟨⟩
        rw [hr.2]
        exact MintStopped.append (Or.inl fun k => by rw [hsame]) event
    | ok prepared =>
        refine (Prog.wp_bind _ _ _ _).mpr (Prog.wp_mono (fun r x₂ hstopped => ?_)
          (wp_upsert_recorded prepared.1 x₁))
        cases r with
        | ok record =>
            refine fun event => Prog.wp_mono (fun r x' hr => ⟨hr.1, ?_⟩)
              (wp_append_recorded event x₂)
            rintro _ ⟨⟩
        | error e =>
            have hleft : MintStopped P D server w request clock.now e x₂ := by
              have hstored := hstopped e rfl
              rw [hsame] at hstored
              rcases hstored with hunchanged | ⟨hbehind, hcut⟩
              · exact Or.inl hunchanged
              · exact Or.inr ⟨prepared.1, prepared.2, hprepared prepared rfl, hbehind, hcut⟩
            refine fun event => Prog.wp_mono (fun r x' hr => ⟨hr.1, ?_⟩)
              (wp_append_recorded event x₂)
            rintro _ ⟨⟩
            rw [hr.2]
            exact hleft.append event
  exact (Prog.wp_contract_iff _ _ _).mp hwp _ _ hrecorded e rfl

/-! ### A failure at the index entry of the user -/

/-- The Vault after the mint of `teamDay` whose write to the index entry of `alice` raised. -/
def teamHalfMinted : VaultWorld :=
  ((mintToken .python teamMint newYear).run
    (refusingExec .python .python .inOrder
      (VaultDeployment.python.paths.userTokenPath "alice" teamMint.tokenId)) teamSetUp).2

lemma teamMint_fails : (mintToken .python teamMint newYear).Runs
    ((Storage.vault .python .inOrder).act .python True) teamSetUp
    (.error (.other "VaultError" "permission denied")) teamHalfMinted := by
  have hfails : (mintToken .python teamMint newYear).Runs
      ((Storage.vault .python .inOrder).act .python True) teamSetUp _ _ :=
    runs_refusing (VaultDeployment.python.paths.userTokenPath "alice" teamMint.tokenId) _
  have hraised : ((mintToken .python teamMint newYear).run
      (refusingExec .python .python .inOrder
        (VaultDeployment.python.paths.userTokenPath "alice" teamMint.tokenId)) teamSetUp).1
      = .error (.other "VaultError" "permission denied") := by decide +kernel
  rw [hraised] at hfails
  exact hfails

lemma read_teamSetUp :
    teamSetUp.read (VaultDeployment.python.paths.tokenPath teamMint.tokenId) = none := by
  decide +kernel

lemma isSome_teamHalfMinted :
    (teamHalfMinted.read (VaultDeployment.python.paths.tokenPath teamMint.tokenId)).isSome := by
  decide +kernel

/-- The mint raises, and there is a canonical record that was not there before. -/
theorem mint_left_behind :
    (mintToken .python teamMint newYear).Runs
        ((Storage.vault .python .inOrder).act .python True) teamSetUp
        (.error (.other "VaultError" "permission denied")) teamHalfMinted
      ∧ teamSetUp.read (VaultDeployment.python.paths.tokenPath teamMint.tokenId) = none
      ∧ (teamHalfMinted.read (VaultDeployment.python.paths.tokenPath teamMint.tokenId)).isSome := by
  exact ⟨teamMint_fails, read_teamSetUp, isSome_teamHalfMinted⟩

/-- What this mint leaves behind, as it is on record. -/
theorem failed_mint_teamMint :
    ∃ (calls : List VaultAnswered) (record : IssuedTokenRecord) (raw : String),
      (mintToken .python teamMint newYear).Runs (vaultRecorded .python .python .inOrder True)
          (teamSetUp, []) (.error (.other "VaultError" "permission denied"))
          (teamHalfMinted, calls)
        ∧ MintPrepared .python (.vault .python .inOrder) teamSetUp teamMint newYear.now
          (.ok (record, raw))
        ∧ LeftBehind .python .python teamSetUp teamHalfMinted record
        ∧ CutShort .python .python record (.other "VaultError" "permission denied") calls := by
  obtain ⟨⟨calls, hrun⟩, hleft⟩ := failed_mint teamMint_fails
  rcases hleft calls hrun with hsame | ⟨record, raw, hprepared, hbehind, hcut⟩
  · have hthere := isSome_teamHalfMinted
    rw [hsame, read_teamSetUp] at hthere
    cases hthere
  · exact ⟨calls, record, raw, hrun, hprepared, hbehind, hcut⟩

end GofrSec
