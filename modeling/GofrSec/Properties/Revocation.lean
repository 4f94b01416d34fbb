/-
Revocation is final between processes.

* `secure_op`: every service operation, run by one process amid the client calls
  of the others, keeps to the protocol `revocation`;
* `Revokes`: the steps from which on a token counts as revoked: the return of a
  revocation, or its write of the canonical record;
* `revocation_final`: every authorization that reads the record after such a step
  denies.
-/
import GofrSec.Properties.TokenProtocol
import GofrSec.Services.Runs

namespace GofrSec

open Calls Protocol VaultPathLayout

variable {π : Type} [DecidableEq π] {V : SharedVault} {mints : π → List String} {p : π} {o : Op}
  {L L' : VaultLedger π} {ids : List String} {os : List Op}

/-- A process between two operations: none of the tokens that it is going to mint
is stored. -/
def Idle (V : SharedVault) (mints : π → List String) (p : π) (os : List Op)
    (L : VaultLedger π) : Prop :=
  Pending V mints p (os.filterMap Op.mintId) L ∧ (os.filterMap Op.mintId).Nodup ∧ ongoing p L = []

/-! ### Operations under the contract -/

/-- What an operation leaves behind: the tokens to be minted later are still
unstored, and its end is as the protocol says. -/
def OpPost (V : SharedVault) (mints : π → List String) (p : π) (o : Op) (ids : List String)
    (r : Except PyError Value) (L : VaultLedger π) : Prop :=
  Pending V mints p ids L ∧ TokenEnd V p L o r

/-- The frame of a service method. -/
lemma wp_audited_token {α : Type} {body : RepoProg α} {failure : AuditEvent}
    {success : α → AuditEvent} {Q : Except PyError α → VaultLedger π → Prop}
    (h : body.wp (tokenContract V mints p o ids) (fun r L' => Pending V mints p ids L'
      ∧ ∀ L'', Pending V mints p ids L'' → (∀ path, readsOf p path L'' = readsOf p path L') →
        (∀ t, V.Revoked (V.after L') t → V.Revoked (V.after L'') t) → Q r L'') L) :
    (audited body failure success).wp (tokenContract V mints p o ids) Q L := by
  refine wp_audited_of_append (Prog.wp_mono (fun r L' hQ event => ?_) h)
  refine (Prog.wp_perform _ _ _).mpr ⟨⟨hQ.1, fun _ h => nomatch h⟩, ?_⟩
  rintro r' L'' ⟨hpending, hrevoked, -, rfl, hreads⟩
  exact ⟨rfl, hQ.2 L'' hpending hreads hrevoked⟩

/-- An operation that upserts no token. -/
lemma wp_noUpsert (ho : ∀ record, ¬ o.MayStore V.platform (.tokenUpsert record))
    (h : Pending V mints p ids L) :
    (o.prog V.platform).wp (tokenContract V mints p o ids)
      (fun _ L' => Pending V mints p ids L') L := by
  refine Prog.wp_of_uses ?_ (uses_prog _ o) h
  refine fun c L' hc hpending => ⟨⟨hpending, ?_⟩, fun r L'' hpost => hpost.1⟩
  rintro record rfl
  exact absurd (hc trivial) (ho record)

/-- A part of an operation that stores nothing. -/
lemma wp_reading {α : Type} {c : RepoProg α} {A : α → Prop} (hc : c.Uses fun i => ¬ i.Stores)
    (hret : c.Returns A) {ids' : List String} (hids : ∀ t ∈ ids, t ∈ ids')
    (h : Pending V mints p ids' L) :
    c.wp (tokenContract V mints p o ids)
      (fun r L' => Pending V mints p ids' L' ∧ ∀ a, r = .ok a → A a) L := by
  refine Prog.wp_of_uses_returns ?_ hc hret h
  refine fun i L' hi hpending => ⟨⟨hpending.mono hids, ?_⟩, fun r L'' hpost => ?_⟩
  · rintro record rfl
    exact absurd trivial hi
  · exact hpost.2.2.1 hi ids' hpending

lemma wp_mint {request : MintRequest} {clock : Clock} (hnew : request.tokenId ∉ ids)
    (h : Pending V mints p (request.tokenId :: ids) L) :
    ((Op.mintToken request clock).prog V.platform).wp
      (tokenContract V mints p (.mintToken request clock) ids)
      (OpPost V mints p (.mintToken request clock) ids) L := by
  have hids : ∀ t ∈ ids, t ∈ request.tokenId :: ids := fun t => List.mem_cons_of_mem _
  refine (Prog.wp_map _ _ _ _).mpr ((Prog.wp_bind _ _ _ _).mpr (wp_audited_token ?_))
  rw [mintTokenBody_eq, Prog.wp_bind]
  refine Prog.wp_mono ?_ (wp_reading (uses_prepareMint (fun _ hc => hc.1) request clock.now)
    (returns_prepareMint request clock.now) hids h)
  rintro r L' ⟨hpending, hret⟩
  cases r with
  | error e => exact ⟨hpending.mono hids, fun L'' hpending' _ _ => ⟨hpending', trivial⟩⟩
  | ok prepared =>
      have hid := (hret prepared rfl).1
      rw [Prog.onReturn_ok, Prog.wp_bind, Prog.wp_perform]
      refine ⟨⟨hpending.mono hids, ?_⟩, fun r L'' hpost => ?_⟩
      · rintro _ ⟨⟩
        rw [← hid] at hpending hnew
        exact Or.inl ⟨congrArg some hid.symm, hnew, hpending⟩
      · cases r with
        | error e => exact ⟨hpost.1, fun L₃ hpending' _ _ => ⟨hpending', trivial⟩⟩
        | ok record => exact ⟨hpost.1, fun L₃ hpending' _ _ => ⟨hpending', trivial⟩⟩

lemma wp_revoke {t actorSub : String} {correlationId : Option String} {clock : Clock}
    (h : Pending V mints p ids L) :
    ((Op.revokeToken t actorSub correlationId clock).prog V.platform).wp
      (tokenContract V mints p (.revokeToken t actorSub correlationId clock) ids)
      (OpPost V mints p (.revokeToken t actorSub correlationId clock) ids) L := by
  refine (Prog.wp_map _ _ _ _).mpr (wp_audited_token ?_)
  have hfailed : ∀ (e : PyError) (L' : VaultLedger π), Pending V mints p ids L' →
      Pending V mints p ids L' ∧ ∀ L'', Pending V mints p ids L'' →
        (∀ path, readsOf p path L'' = readsOf p path L') →
        (∀ t, V.Revoked (V.after L') t → V.Revoked (V.after L'') t) →
        OpPost V mints p (.revokeToken t actorSub correlationId clock) ids (.error e) L'' :=
    fun e L' hpending => ⟨hpending, fun L'' h' _ _ => ⟨h', fun h => nomatch h⟩⟩
  refine (Prog.wp_bind _ _ _ _).mpr ((Prog.wp_bind _ _ _ _).mpr ((Prog.wp_perform _ _ _).mpr
    ⟨⟨h, fun _ h => nomatch h⟩, fun r L' hpost => ?_⟩))
  obtain ⟨hpending, -, -, found, -, -, htold⟩ := hpost
  rcases r with e | _ | current
  · exact hfailed e L' hpending
  · exact hfailed _ L' hpending
  · obtain ⟨hid, hstored, hrevoked⟩ := htold current rfl
    show Prog.wp _ (if current.status = "revoked" then _ else _) _ _
    split_ifs with hstatus
    · exact ⟨hpending, fun L'' h' _ hkept => ⟨h', fun _ => hkept t (hrevoked hstatus)⟩⟩
    · refine (Prog.wp_perform _ _ _).mpr ⟨⟨hpending, ?_⟩, fun r L'' hpost => ?_⟩
      · rintro _ ⟨⟩
        exact Or.inr ⟨rfl, by rw [show (revokedRecord current clock.now).tokenId = t from hid]
                              exact hstored⟩
      · obtain ⟨hpending', -, -, htold'⟩ := hpost
        cases r with
        | error e => exact hfailed e L'' hpending'
        | ok record =>
            refine ⟨hpending', fun L₃ h' _ hkept => ⟨h', fun _ => hkept t ?_⟩⟩
            exact hid ▸ htold' rfl rfl

/-- A revoked record permits nothing. -/
lemma permits_of_revoked {request : AuthorizationRequest} {now : DateTime}
    {record : IssuedTokenRecord} (h : record.status = "revoked") :
    permits request now record = false := by
  rw [permits]
  cases requiredPermission request with
  | none => rfl
  | some permission =>
      have hactive : ¬ record.status = "active" := by
        rw [h]
        decide
      simp [hactive]

lemma wp_authorization {request : AuthorizationRequest} {correlationId : Option String}
    {clock : Clock} (h : Pending V mints p ids L) (hstart : ongoing p L = []) :
    ((Op.authorize request correlationId clock).prog V.platform).wp
      (tokenContract V mints p (.authorize request correlationId clock) ids)
      (OpPost V mints p (.authorize request correlationId clock) ids) L := by
  refine (Prog.wp_map _ _ _ _).mpr ((Prog.wp_bind _ _ _ _).mpr (wp_audited_token ?_))
  refine (Prog.wp_bind _ _ _ _).mpr ((Prog.wp_perform _ _ _).mpr
    ⟨⟨h, fun _ h => nomatch h⟩, fun r L' hpost => ?_⟩)
  obtain ⟨hpending, -, -, found, hreads, hr, -⟩ := hpost
  rw [readsOf_of_ongoing_nil hstart] at hreads
  -- the one answer of this operation at the path decides
  have hend : ∀ L'', (∀ path, readsOf p path L'' = readsOf p path L') →
      ∀ data, .ok data ∈ readsOf p (V.paths.tokenPath request.tokenId) L'' → found = .ok data := by
    intro L'' hsame data hmem
    rw [hsame, hreads, List.mem_singleton] at hmem
    exact hmem.symm
  rcases r with e | _ | record
  · refine ⟨hpending, fun L'' h' hsame _ => ⟨h', fun data record hmem hdecode _ => ?_⟩⟩
    rw [hend L'' hsame data hmem] at hr
    exact nomatch hr.trans hdecode
  · refine ⟨hpending, fun L'' h' hsame _ => ⟨h', fun data record hmem hdecode _ => rfl⟩⟩
  · refine ⟨hpending, fun L'' h' hsame _ => ⟨h', fun data record' hmem hdecode hstatus => ?_⟩⟩
    rw [hend L'' hsame data hmem] at hr
    obtain rfl := Option.some.inj (Except.ok.inj (hr.trans hdecode))
    show Except.ok (Value.decision { allowed := permits request clock.now record }) = _
    rw [permits_of_revoked hstatus]

/-- **Every operation stays within its postcondition.** -/
theorem wp_op (hidle : Idle V mints p (o :: os) L) :
    (o.prog V.platform).wp (tokenContract V mints p o (os.filterMap Op.mintId))
      (OpPost V mints p o (os.filterMap Op.mintId)) L := by
  obtain ⟨hpending, hnodup, hstart⟩ := hidle
  have hrest : Pending V mints p (os.filterMap Op.mintId) L := by
    refine hpending.mono fun t ht => ?_
    obtain ⟨o', ho', hid⟩ := List.mem_filterMap.mp ht
    exact List.mem_filterMap.mpr ⟨o', List.mem_cons_of_mem _ ho', hid⟩
  cases o with
  | mintToken request clock => exact wp_mint (List.nodup_cons.mp hnodup).1 hpending
  | revokeToken t actorSub correlationId clock => exact wp_revoke hrest
  | authorize request correlationId clock => exact wp_authorization hrest hstart
  | _ => exact Prog.wp_mono (fun r L' h => ⟨h, trivial⟩) (wp_noUpsert (fun _ h => h) hrest)

/-! ### Operations amid the steps of others -/

section Processes

variable (hmints : ∀ p q t, t ∈ mints p → t ∈ mints q → p = q)

include hmints

lemma stable_idle (os : List Op) : (revocation V mints).Stable p (Idle V mints p os) := by
  intro L e ⟨hpending, hnodup, hstart⟩ he
  refine ⟨stable_pending hmints _ L e hpending he, hnodup, ?_⟩
  rw [ongoing_of_ne he.1]
  exact hstart

lemma stable_opPost (r : Except PyError Value) :
    (revocation V mints).Stable p (OpPost V mints p o ids r) := by
  refine stable_and (stable_pending hmints ids) ?_
  cases o with
  | revokeToken t actorSub correlationId clock =>
      exact stable_imp _ (keeps_revoked t).stable
  | authorize request correlationId clock =>
      intro L e hend he found record hmem
      rw [readsOf_of_ne he.1] at hmem
      exact hend found record hmem
  | _ => exact stable_const True

/-- **Every operation of a process keeps to the protocol, whatever the others
do meanwhile.** -/
theorem secure_op (o : Op) (os : List Op) (L : VaultLedger π) (hidle : Idle V mints p (o :: os) L) :
    (revocation V mints).Runs p o ∧ (revocation V mints).Secure p o (V.proc o)
      (fun r L' => (revocation V mints).Guar L' (.finish p o r)
        ∧ Idle V mints p os (.finish p o r :: L')) L := by
  have hruns : (revocation V mints).Runs p o := by
    intro t ht
    exact (hidle.1.2 t (List.mem_filterMap.mpr ⟨o, List.mem_cons_self, ht⟩)).1
  refine ⟨hruns, ?_⟩
  have hsecure := secure_translate (secure_repoCall hmints hruns)
    (fun r => stable_opPost hmints r) (wp_op hidle)
  refine hsecure.mono fun r L' hpost => ⟨hpost.2, hpost.1, ?_, ongoing_finish _ _⟩
  exact hidle.2.1.sublist (List.Sublist.filterMap _ (List.sublist_cons_self _ _))

end Processes

/-! ### Revocation is final -/

/-- The steps from which on the token counts as revoked: the return of a
revocation, and its write of the canonical record. -/
def Revokes (V : SharedVault) (t : String) : VaultEvent π → Prop
  | .finish _ (.revokeToken t' _ _ _) (.ok _) => t' = t
  | .call _ (.revokeToken t' _ _ _) (.writeSecret path _) (.ok _) _ =>
      t' = t ∧ path = V.paths.tokenPath t
  | _ => False

lemma revoked_of_revokes {e : VaultEvent π} {t : String}
    (he : (revocation V mints).Allowed L e) (hrevokes : Revokes V t e) :
    V.Revoked (V.after (e :: L)) t := by
  cases e with
  | finish q o r =>
      cases o with
      | revokeToken t' actorSub correlationId clock =>
          cases r with
          | ok v =>
              obtain rfl : t' = t := hrevokes
              exact he.guar rfl
          | error e => exact hrevokes.elim
      | _ => exact hrevokes.elim
  | call q o i r w =>
      cases o with
      | revokeToken t' actorSub correlationId clock =>
          cases i with
          | writeSecret path data =>
              cases r with
              | ok v =>
                  obtain ⟨rfl, rfl⟩ := hrevokes
                  obtain ⟨record, hread, -, ⟨-, hmint⟩ | ⟨-, hstatus⟩⟩ := he.guar t' v rfl rfl
                  · exact nomatch hmint
                  · exact ⟨record, token_of_read hread, hstatus⟩
              | error e => exact hrevokes.elim
          | _ => exact hrevokes.elim
      | _ => exact hrevokes.elim

/-- What the processes bring: the canonical records are under their own ids, and
the ids that `uuid4` draws are new. -/
structure FreshMints (V : SharedVault) (todo : π → List Op) : Prop where
  filed : V.Filed V.start
  unstored : ∀ p, ∀ t ∈ (todo p).filterMap Op.mintId, ¬ V.Stored V.start t
  nodup : ∀ p, ((todo p).filterMap Op.mintId).Nodup
  disjoint : ∀ p q t, t ∈ (todo p).filterMap Op.mintId → t ∈ (todo q).filterMap Op.mintId → p = q

/-- Every step of a run over fresh ids keeps to the protocol. -/
theorem allowed_of_reaches {todo : π → List Op} (hfresh : FreshMints V todo)
    {S : System π Op VaultCall VaultCall.Res PyError Value VaultWorld} (hreach : V.Reaches todo S) :
    Meets (revocation V fun p => (todo p).filterMap Op.mintId).Allowed S.ledger := by
  refine (Reachable.sound (fun p os => stable_idle hfresh.disjoint os) ?_ ?_ ?_ hreach ?_).1
  · exact fun L p o r => trivial
  · exact fun p => ⟨⟨hfresh.filed, fun t ht => ⟨ht, hfresh.unstored p t ht⟩⟩, hfresh.nodup p, rfl⟩
  · exact fun p o os L hidle => secure_op hfresh.disjoint o os L hidle
  · exact fun L₂ e L₁ _ => trivial

/-- **Revocation is final between processes.** Any number of processes share one
Vault and run any operations, their client calls interleaved and any of them
raising without effect. Once a revocation of a token has returned, or has written
its canonical record, every authorization that reads the record afterwards, with
any owner, target and time, returns `allowed = False`. -/
theorem revocation_final {todo : π → List Op} (hfresh : FreshMints V todo)
    {S : System π Op VaultCall VaultCall.Res PyError Value VaultWorld} (hreach : V.Reaches todo S)
    {request : AuthorizationRequest} {correlationId : Option String} {clock : Clock}
    {r : Except PyError Value} {found : Option Doc} {w : VaultWorld} {e : VaultEvent π}
    {L₁ L₂ L₃ L₄ : VaultLedger π}
    (hledger : S.ledger = L₄ ++ .finish p (.authorize request correlationId clock) r
      :: (L₃ ++ .call p o (.readSecret (V.paths.tokenPath request.tokenId)) (.ok found) w
        :: (L₂ ++ e :: L₁)))
    (hrevokes : Revokes V request.tokenId e) (hown : ∀ o' r', .finish p o' r' ∉ L₃) :
    r = .ok (.decision { allowed := false }) := by
  have hallowed := allowed_of_reaches hfresh hreach
  rw [hledger] at hallowed
  have hend := hallowed.at
  have hafter := (meets_cons.mp hallowed.of_append).2
  have hread := hafter.at
  have hbefore := (meets_cons.mp hafter.of_append).2
  have hrevoked : V.Revoked (V.after (L₂ ++ e :: L₁)) request.tokenId :=
    (keeps_revoked request.tokenId).later hbefore (revoked_of_revokes hbefore.at hrevokes)
  obtain ⟨record, hrecord, hstatus⟩ := hrevoked
  obtain ⟨-, hfound⟩ := act_readSecret hread.fits
  obtain rfl := hfound found rfl
  refine hend.guar _ record ?_ hrecord hstatus
  exact List.mem_filterMap.mpr ⟨_, mem_ongoing hown, if_pos rfl⟩

/-- A Vault that holds one token. -/
def teamVault : SharedVault :=
  { platform := .python
    deployment := .python
    server := .inOrder
    faults := True
    start := VaultWorld.empty.write
      (VaultDeployment.python.paths.tokenPath teamRecord.tokenId)
      (serializeToken .python teamRecord) }

/-- One process revokes the token, the other authorizes a request with it. -/
def revokeAndAuthorize : Bool → List Op
  | false => [.revokeToken teamRecord.tokenId "root" none newYear]
  | true => [.authorize
      { tokenId := teamRecord.tokenId
        ownerSub := some "alice"
        requestedGroup := some "team"
        requestedResource := none } none newYear]

lemma freshMints_revokeAndAuthorize : FreshMints teamVault revokeAndAuthorize where
  filed t record hrecord := by
    by_cases ht : t = teamRecord.tokenId
    · have hteam : teamVault.token teamVault.start teamRecord.tokenId = .ok (some teamRecord) :=
        token_of_read (VaultWorld.read_write_self _ _ _)
      rw [ht, hteam] at hrecord
      rw [← Option.some.inj (Except.ok.inj hrecord), ht]
    · have hnone : teamVault.start.read (teamVault.paths.tokenPath t) = none :=
        VaultWorld.read_write_of_ne _ _ fun h => ht (tokenPath_inj h)
      rw [SharedVault.token, hnone] at hrecord
      cases hrecord
  unstored p := by cases p <;> simp [revokeAndAuthorize, Op.mintId]
  nodup p := by cases p <;> exact List.nodup_nil
  disjoint p := by cases p <;> simp [revokeAndAuthorize, Op.mintId]

/-- The second process has authorized, and its read came right after the write of
the first. -/
def readsAfterWrite : VaultLedger Bool → Bool
  | .finish true (.authorize request _ _) _ :: .call true _ (.auditAppend _) _ _
      :: .call true _ (.readSecret path) (.ok _) _
      :: .call false (.revokeToken t _ _ _) (.writeSecret path' _) (.ok _) _ :: _ =>
      path = teamVault.paths.tokenPath request.tokenId && t = request.tokenId && path' = path
  | _ => false

/-- The revocation has written the record and not yet returned when the other
process reads it: the token is denied already. -/
theorem revocation_final_teamVault :
    ∃ S, teamVault.Reaches revokeAndAuthorize S ∧ ∃ request correlationId clock L,
      S.ledger = .finish true (.authorize request correlationId clock)
        (.ok (.decision { allowed := false })) :: L := by
  have hreach := teamVault.reaches_run revokeAndAuthorize
    [false, false, false, false, true, true, true, true]
  have hshape : readsAfterWrite (teamVault.run revokeAndAuthorize
      [false, false, false, false, true, true, true, true]).ledger := by decide +kernel
  refine ⟨_, hreach, ?_⟩
  generalize teamVault.run revokeAndAuthorize _ = S at hreach hshape
  unfold readsAfterWrite at hshape
  split at hshape
  · next request correlationId clock r o event r' w o' path found w' t _ _ _ path' data v w'' L
      heq =>
      simp only [Bool.and_eq_true, decide_eq_true_eq] at hshape
      obtain ⟨⟨rfl, rfl⟩, rfl⟩ := hshape
      have hledger : S.ledger = [] ++ _ :: ([.call true o (.auditAppend event) r' w] ++ _ :: ([] ++
          _ :: L)) := heq
      have hend := revocation_final freshMints_revokeAndAuthorize hreach hledger ⟨rfl, rfl⟩
        (by simp)
      rw [hend] at heq
      exact ⟨_, _, _, _, heq⟩
  · exact nomatch hshape

end GofrSec
