/-
What minting and revoking leave in Vault, when any call of the client may raise.

* `Storage.read_exec`: a call that reads leaves the state alone;
* `wp_vault`, `wp_vault_reads`, `wp_vault_audited`: the rules of a repository call over
  Vault, of one that reads, and of the frame that audits;
* `UpsertEnds`, `MintEnds`, `RevokeEnds`: how an upsert, a mint and a revocation end, with
  the documents that they leave;
* `mintToken_vault`, `revokeToken_vault`: they end so;
* `VaultServer.refusing`, `runs_refusing`: the runs in which the writes to one path raise.
-/
import GofrSec.Repositories.TokenIndex
import GofrSec.Repositories.VaultSpecs
import GofrSec.Services.Frames
import GofrSec.Services.Runs

namespace GofrSec

open Calls

variable {P : Platform} {D : VaultDeployment} {server : VaultServer} {faults : Prop}
  {w : VaultWorld}

/-! ### Repository calls -/

/-- A repository call over Vault, by the program that it makes. -/
lemma wp_vault {c : RepoCall} {Q : Except PyError c.Res → VaultWorld → Prop}
    (h : (vaultProgram P D c).wp (server.act faults).contract Q w) :
    (RepoCall.perform c).wp ((Storage.vault D server).act P faults).contract Q w := by
  refine (Prog.wp_perform _ _ _).mpr ⟨trivial, fun r w' hact => ?_⟩
  exact (Prog.wp_contract_iff _ _ _).mp h r w' hact

/-- The append of an audit event returns. -/
lemma wp_vault_append (event : AuditEvent) {Q : Except PyError Unit → VaultWorld → Prop}
    (h : Q (.ok ()) (w.append event)) :
    (auditAppend event).wp ((Storage.vault D server).act P faults).contract Q w :=
  wp_vault (c := .auditAppend event) ((VaultServer.wp_auditAppend event _).mpr h)

/-- The frame of a service method appends its event. -/
lemma wp_vault_audited {α : Type} {body : RepoProg α} {failure : AuditEvent}
    {success : α → AuditEvent} {Q : Except PyError α → VaultWorld → Prop}
    (h : body.wp ((Storage.vault D server).act P faults).contract
      (fun r w' => ∀ event, Q r (w'.append event)) w) :
    (audited body failure success).wp ((Storage.vault D server).act P faults).contract Q w := by
  refine wp_audited_of_append (Prog.wp_mono (fun r w' hQ event => ?_) h)
  exact wp_vault_append event ⟨rfl, hQ event⟩

/-- A call that reads leaves the documents alone, whether or not it raises. -/
lemma act_reads {c : RepoCall} (hc : c.Reads) {r : Except PyError c.Res} {w' : VaultWorld}
    (h : (Storage.vault D server).act P faults c w r w') : w' = w := by
  have hrun : (vaultProgram P D c).Runs (server.act faults) w r w' := h
  have hnone : ∀ k, ¬ c.Writes D.paths k := by
    intro k hk
    cases c with
    | profileUpsert profile => exact hc.1 trivial
    | groupUpsert group => exact hc.1 trivial
    | membershipAdd m => exact hc.1 trivial
    | membershipRemove u g => exact hc.1 trivial
    | tokenUpsert record => exact hc.1 trivial
    | _ => exact hk
  refine hrun.keeps (f := id) (uses_vaultProgram_of_mayFail P D hc.2)
    fun i w₁ r₁ w₂ hi hact => ?_
  rcases hact with hexec | ⟨-, -, rfl⟩
  · have heffect : i.effect w₁ = w₂ := by
      rw [← VaultServer.exec_snd server i w₁, show server.exec i w₁ = (r₁, w₂) from hexec]
    cases i with
    | writeSecret path data => exact absurd (hi.2 path rfl) (hnone path)
    | deleteSecret path => exact absurd (hi.2 path rfl) (hnone path)
    | auditAppend event => exact hi.1.elim
    | _ => exact heffect.symm
  · rfl

/-- On either backend such a call leaves the state alone. -/
lemma Storage.read_exec {st : Storage} {c : RepoCall} (hc : c.Reads) (s : st.State) :
    (st.exec P c s).2 = s := by
  cases st with
  | memory C signer =>
      obtain ⟨hstores, hfail⟩ := hc
      cases c with
      | auditAppend event => exact hfail.elim
      | profileUpsert profile => exact absurd trivial hstores
      | groupUpsert group => exact absurd trivial hstores
      | membershipAdd m => exact absurd trivial hstores
      | membershipRemove u g => exact absurd trivial hstores
      | tokenUpsert record => exact absurd trivial hstores
      | _ => rfl
  | vault D server => exact act_reads hc (@Storage.act_of_exec P (.vault D server) False c s)

/-- A part of an operation that reads leaves the documents alone, and returns what it
returns whatever is read. -/
lemma wp_vault_reads {α : Type} {p : RepoProg α} {V : α → Prop} (hp : p.Uses RepoCall.Reads)
    (hret : p.Returns V) :
    p.wp ((Storage.vault D server).act P faults).contract
      (fun r w' => w' = w ∧ ∀ a, r = .ok a → V a) w := by
  refine Prog.wp_of_uses_returns (fun c w₁ hc hw => ⟨trivial, fun r w₂ hact => ?_⟩) hp hret rfl
  rw [act_reads hc hact, hw]

/-! ### An upsert -/

/-- How the upsert of a record ends: before it writes anything, after some of its calls,
or with all of them made. -/
inductive UpsertEnds (P : Platform) (D : VaultDeployment) (w : VaultWorld)
    (record : IssuedTokenRecord) : Except PyError IssuedTokenRecord → VaultWorld → Prop
  | unread {e : PyError} : UpsertEnds P D w record (.error e) w
  | stopped {previous : Option IssuedTokenRecord} {ds es : List VaultCall} {c : VaultCall}
      {e : PyError} : decodeRecord (deserializeToken P D.now)
        (w.read (D.paths.tokenPath record.tokenId)) = .ok previous →
      upsertCalls P D previous record = ds ++ c :: es →
        UpsertEnds P D w record (.error e) (VaultCall.effects ds w)
  | done {previous : Option IssuedTokenRecord} : decodeRecord (deserializeToken P D.now)
        (w.read (D.paths.tokenPath record.tokenId)) = .ok previous →
      UpsertEnds P D w record (.ok record)
        (VaultCall.effects (upsertCalls P D previous record) w)

/-- An upsert ends so, in every state. -/
lemma wp_upsert_ends (record : IssuedTokenRecord) :
    (VaultTokenRepository.upsert P D record).wp (server.act faults).contract
      (UpsertEnds P D w record) w := by
  cases hprevious : decodeRecord (deserializeToken P D.now)
      (w.read (D.paths.tokenPath record.tokenId)) with
  | ok previous =>
      exact wp_upsertToken hprevious (.done hprevious)
        fun _ ds c es hsplit e => .stopped hprevious hsplit
  | error e =>
      rw [VaultTokenRepository.upsert_eq, Prog.wp_bind, VaultTokenRepository.get, wp_getRecord,
        hprevious]
      exact ⟨.unread, fun _ _ => .unread⟩

/-- The canonical document that an upsert leaves: its own, or what was there. -/
lemma UpsertEnds.tokenPath {record : IssuedTokenRecord} {r : Except PyError IssuedTokenRecord}
    {w' : VaultWorld} (h : UpsertEnds P D w record r w') :
    w'.read (D.paths.tokenPath record.tokenId) = some (serializeToken P record)
      ∨ w' = w ∧ ∃ e, r = .error e := by
  cases h with
  | unread => exact Or.inr ⟨rfl, _, rfl⟩
  | @stopped previous ds es c e hprevious hsplit =>
      cases ds with
      | nil => exact Or.inr ⟨rfl, _, rfl⟩
      | cons d ds =>
          rw [upsertCalls, List.cons_append, List.cons.injEq] at hsplit
          obtain ⟨rfl, hds⟩ := hsplit
          have hindex : ∀ i ∈ ds, i ∈ indexUpdates D previous record := by
            intro i hi
            rw [hds]
            exact List.mem_append_left _ hi
          exact Or.inl ((read_upsert_tokenPath hindex _ w).trans (if_pos rfl))
  | @done previous hprevious =>
      exact Or.inl ((read_upsert_tokenPath (fun i hi => hi) _ w).trans (if_pos rfl))

/-! ### A mint and a revocation -/

/-- How a mint ends: it raises before it has stored anything, or it ends as the upsert of
the record that it has prepared. -/
inductive MintEnds (P : Platform) (D : VaultDeployment) (w : VaultWorld)
    (request : MintRequest) : Except PyError MintedTokenResult → VaultWorld → Prop
  | unprepared {e : PyError} : MintEnds P D w request (.error e) w
  | upserted {record : IssuedTokenRecord} {raw : String} {r : Except PyError IssuedTokenRecord}
      {w₁ : VaultWorld} : record.tokenId = request.tokenId → record.ownerSub = request.ownerSub →
      UpsertEnds P D w record r w₁ →
        MintEnds P D w request (r.map fun stored => { record := stored, rawToken := raw }) w₁

/-- How a revocation ends, on the record that it finds: it raises before it has stored
anything, it finds the token revoked, or it ends as the upsert of the revoked record. -/
inductive RevokeEnds (P : Platform) (D : VaultDeployment) (w : VaultWorld)
    (current : IssuedTokenRecord) (now : DateTime) :
    Except PyError IssuedTokenRecord → VaultWorld → Prop
  | unread {e : PyError} : RevokeEnds P D w current now (.error e) w
  | already : current.status = "revoked" → RevokeEnds P D w current now (.ok current) w
  | upserted {r : Except PyError IssuedTokenRecord} {w₁ : VaultWorld} :
      current.status ≠ "revoked" → UpsertEnds P D w (revokedRecord current now) r w₁ →
        RevokeEnds P D w current now r w₁

/-- A mint raises before it has stored anything, or it ends as the upsert of the active
record that it has prepared. -/
lemma wp_mintToken_upserts {request : MintRequest} {clock : Clock} :
    (mintToken P request clock).wp ((Storage.vault D server).act P faults).contract
      (fun r w' => ∃ event w₁, w' = w₁.append event ∧ ((∃ e, r = .error e) ∧ w₁ = w ∨
        ∃ (record : IssuedTokenRecord) (raw : String) (r₁ : Except PyError IssuedTokenRecord),
          record.tokenId = request.tokenId ∧ record.ownerSub = request.ownerSub
            ∧ record.status = "active" ∧ UpsertEnds P D w record r₁ w₁
            ∧ r = r₁.map fun stored => { record := stored, rawToken := raw })) w := by
  refine (Prog.wp_bind _ _ _ _).mpr (wp_vault_audited ?_)
  rw [mintTokenBody_eq]
  refine (Prog.wp_bind _ _ _ _).mpr (Prog.wp_mono ?_
    (wp_vault_reads (uses_prepareMint (fun _ h => h) request clock.now)
      (returns_prepareMint request clock.now)))
  rintro (e | prepared) w₁ ⟨rfl, hprepared⟩
  · exact fun event => ⟨event, w₁, rfl, Or.inl ⟨⟨e, rfl⟩, rfl⟩⟩
  · obtain ⟨hid, howner, hstatus, -⟩ := hprepared prepared rfl
    refine (Prog.wp_bind _ _ _ _).mpr (wp_vault (c := .tokenUpsert prepared.1)
      (Prog.wp_mono ?_ (wp_upsert_ends prepared.1)))
    intro r₁ w₂ hends
    cases r₁ with
    | error e => exact fun event => ⟨event, w₂, rfl,
        Or.inr ⟨prepared.1, prepared.2, .error e, hid, howner, hstatus, hends, rfl⟩⟩
    | ok record => exact fun event => ⟨event, w₂, rfl,
        Or.inr ⟨prepared.1, prepared.2, .ok record, hid, howner, hstatus, hends, rfl⟩⟩

/-- **How a mint ends over Vault**, whichever calls raise. -/
theorem mintToken_vault {request : MintRequest} {clock : Clock}
    {r : Except PyError MintedTokenResult} {w' : VaultWorld}
    (hrun : (mintToken P request clock).Runs ((Storage.vault D server).act P faults) w r w') :
    ∃ event w₁, w' = w₁.append event ∧ MintEnds P D w request r w₁ := by
  obtain ⟨event, w₁, hw', ⟨⟨e, rfl⟩, rfl⟩ | ⟨record, raw, r₁, hid, howner, -, hends, rfl⟩⟩ :=
    (Prog.wp_contract_iff _ _ _).mp wp_mintToken_upserts r w' hrun
  · exact ⟨event, w₁, hw', .unprepared⟩
  · exact ⟨event, w₁, hw', .upserted hid howner hends⟩

/-- **How a revocation ends over Vault**, whichever calls raise, when the canonical record
can be read. -/
theorem revokeToken_vault {t actorSub : String} {correlationId : Option String} {clock : Clock}
    {current : IssuedTokenRecord} {r : Except PyError IssuedTokenRecord} {w' : VaultWorld}
    (hcurrent : decodeRecord (deserializeToken P D.now) (w.read (D.paths.tokenPath t))
      = .ok (some current))
    (hrun : (revokeToken t actorSub correlationId clock).Runs
      ((Storage.vault D server).act P faults) w r w') :
    ∃ event w₁, w' = w₁.append event ∧ RevokeEnds P D w current clock.now r w₁ := by
  have hwp : (revokeToken t actorSub correlationId clock).wp
      ((Storage.vault D server).act P faults).contract
      (fun r w' => ∃ event w₁, w' = w₁.append event ∧ RevokeEnds P D w current clock.now r w₁)
      w := by
    refine wp_vault_audited ((Prog.wp_bind _ _ _ _).mpr ((Prog.wp_bind _ _ _ _).mpr ?_))
    refine wp_vault (c := .tokenGet t) ((wp_getRecord _ _ _).mpr ⟨?_, ?_⟩)
    · rw [hcurrent, Prog.onReturn_ok]
      show Prog.wp _ (if _ then _ else _) _ _
      split_ifs with hrevoked
      · exact fun event => ⟨event, w, rfl, .already hrevoked⟩
      · refine wp_vault (c := .tokenUpsert _) (Prog.wp_mono ?_ (wp_upsert_ends _))
        exact fun r₁ w₁ hends event => ⟨event, w₁, rfl, .upserted hrevoked hends⟩
    · exact fun _ e event => ⟨event, w, rfl, .unread⟩
  exact (Prog.wp_contract_iff _ _ _).mp hwp r w' hrun

/-! ### A failure at one path -/

/-- The client of a server that refuses every write to one path. -/
def VaultServer.refusing (server : VaultServer) (path : String) :
    Exec VaultCall VaultCall.Res PyError VaultWorld
  | .writeSecret p data, w =>
      if p = path then (.error (.other "VaultError" "permission denied"), w)
      else server.exec (.writeSecret p data) w
  | c, w => server.exec c w

/-- The repository calls on such a server. -/
def refusingExec (P : Platform) (D : VaultDeployment) (server : VaultServer) (path : String) :
    Exec RepoCall RepoCall.Res PyError VaultWorld :=
  fun c => (vaultProgram P D c).run (server.refusing path)

/-- A run on such a server is a run with failures. -/
lemma runs_refusing {α : Type} (path : String) (p : RepoProg α) :
    p.Runs ((Storage.vault D server).act P True) w
      (p.run (refusingExec P D server path) w).1 (p.run (refusingExec P D server path) w).2 := by
  refine ((Prog.runs_graph_iff p).mpr rfl).mono fun c w₁ r w₂ hact => ?_
  have hrun : (vaultProgram P D c).run (server.refusing path) w₁ = (r, w₂) := hact
  refine ((Prog.runs_graph_iff (vaultProgram P D c)).mpr hrun).mono fun i w r w' hexec => ?_
  have hexec : server.refusing path i w = (r, w') := hexec
  cases i with
  | writeSecret k data =>
      rw [VaultServer.refusing] at hexec
      split_ifs at hexec with hk
      · obtain ⟨rfl, rfl⟩ := Prod.mk.inj hexec.symm
        exact Or.inr ⟨⟨trivial, trivial⟩, ⟨_, rfl⟩, rfl⟩
      · exact Or.inl hexec
  | _ => exact Or.inl hexec

end GofrSec
