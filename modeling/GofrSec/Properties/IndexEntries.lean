/-
No index entry points at a missing or foreign token, at any moment of any run.

* `wp_indexOp`: every service operation, by the contract of its repository calls,
  leaves the indexes right, and a listing returns tokens of its subject only;
* `secure_indexOp`: so it does amid the client calls of other processes;
* `index_entries_own`: between any two client calls of any run of any number of
  processes, any of whose calls may raise, every index entry is that of a stored
  token, under its owner or under one of its groups.
-/
import GofrSec.Properties.IndexProtocol
import GofrSec.Properties.Revocation

namespace GofrSec

open Calls Protocol VaultPathLayout

variable {π : Type} {V : SharedVault} {p : π} {o : Op} {L L' : VaultLedger π} {α : Type}

/-! ### Operations under the contract -/

/-- A part of an operation that stores no token. -/
lemma wp_indexed {c : RepoProg α} {A : α → Prop}
    (hc : c.Uses fun i => i.Slashless ∧ ∀ record, i ≠ .tokenUpsert record)
    (hret : c.Returns A) (h : V.Indexed (V.after L)) :
    c.wp (indexContract V) (fun r L' => V.Indexed (V.after L') ∧ ∀ a, r = .ok a → A a) L := by
  refine Prog.wp_of_uses_returns ?_ hc hret h
  rintro i L' ⟨hslashless, hupsert⟩ hindexed
  exact ⟨⟨hindexed, hslashless, fun record hi => absurd hi (hupsert record)⟩,
    fun r L'' hpost => hpost.1⟩

/-- The frame of a service method. -/
lemma wp_indexed_audited {body : RepoProg α} {failure : AuditEvent} {success : α → AuditEvent}
    {A : Except PyError α → Prop}
    (h : body.wp (indexContract V) (fun r L' => V.Indexed (V.after L') ∧ A r) L) :
    (audited body failure success).wp (indexContract V)
      (fun r L' => V.Indexed (V.after L') ∧ A r) L := by
  refine wp_audited_of_append (Prog.wp_mono (fun r L' hpost event => ?_) h)
  refine (Prog.wp_perform _ _ _).mpr ⟨⟨hpost.1, trivial, fun _ h => nomatch h⟩, ?_⟩
  rintro r' L'' ⟨hindexed, rfl⟩
  exact ⟨rfl, hindexed, hpost.2⟩

lemma slashless_of_reads {c : RepoCall} (hc : c.Reads) :
    c.Slashless ∧ ∀ record, c ≠ .tokenUpsert record := by
  obtain ⟨hstores, -⟩ := hc
  cases c with
  | profileUpsert profile => exact absurd trivial hstores
  | groupUpsert group => exact absurd trivial hstores
  | membershipAdd m => exact absurd trivial hstores
  | membershipRemove u g => exact absurd trivial hstores
  | tokenUpsert record => exact absurd trivial hstores
  | _ => exact ⟨trivial, fun _ h => nomatch h⟩

/-- The calls of an operation that stores no token. -/
lemma slashless_of_calls (ho : o.Slashless)
    (hupsert : ∀ record, ¬ o.MayStore V.platform (.tokenUpsert record))
    {c : RepoCall} (hc : o.Calls V.platform c)
    (hgroup : ∀ group, c = .groupUpsert group → IsGroupName group.name) :
    c.Slashless ∧ ∀ record, c ≠ .tokenUpsert record := by
  refine ⟨?_, ?_⟩
  · cases c with
    | profileUpsert profile =>
        have hstore := hc trivial
        cases o with
        | registerSelf identity correlationId clock =>
            have hsub : profile.keycloakSub = identity.subject := hstore
            show '/' ∉ profile.keycloakSub.toList
            rwa [hsub]
        | _ => exact hstore.elim
    | groupUpsert group => exact (hgroup group rfl).isSegment.2
    | membershipAdd m =>
        have hstore := hc trivial
        cases o with
        | applyPlan subjects createdAt grantedAt => exact ho _ hstore.2
        | addMembership u g actorSub correlationId clock =>
            show '/' ∉ m.keycloakSub.toList
            rwa [hstore.1]
        | _ => exact hstore.elim
    | membershipRemove u g =>
        have hstore := hc trivial
        cases o with
        | removeMembership u' g' actorSub correlationId clock => exact hstore.1 ▸ ho
        | _ => exact hstore.elim
    | _ => trivial
  · rintro record rfl
    exact hupsert record (hc trivial)

/-- An operation that stores no token. -/
lemma wp_indexed_op (ho : o.Slashless)
    (hupsert : ∀ record, ¬ o.MayStore V.platform (.tokenUpsert record))
    (h : V.Indexed (V.after L)) :
    (o.prog V.platform).wp (indexContract V) (fun _ L' => V.Indexed (V.after L')) L := by
  have huses := ((uses_prog V.platform o).and (uses_groupUpsert o)).mono fun c hc =>
    slashless_of_calls ho hupsert hc.1 hc.2
  exact Prog.wp_mono (fun r L' hpost => hpost.1) (wp_indexed huses (Prog.returns_true _) h)

lemma wp_indexed_mint {request : MintRequest} {clock : Clock}
    (ho : (Op.mintToken request clock).Slashless) (h : V.Indexed (V.after L)) :
    ((Op.mintToken request clock).prog V.platform).wp (indexContract V)
      (fun _ L' => V.Indexed (V.after L')) L := by
  refine (Prog.wp_map _ _ _ _).mpr ((Prog.wp_bind _ _ _ _).mpr ?_)
  refine Prog.wp_mono (fun r L' hpost => ?_) (wp_indexed_audited (A := fun _ => True) ?_)
  · cases r with
    | ok minted => exact hpost.1
    | error e => exact hpost.1
  rw [mintTokenBody_eq, Prog.wp_bind]
  refine Prog.wp_mono ?_ (wp_indexed (uses_prepareMint (fun _ hc => slashless_of_reads hc)
    request clock.now) (returns_prepareMint request clock.now) h)
  rintro r L' ⟨hindexed, hret⟩
  cases r with
  | error e => exact ⟨hindexed, trivial⟩
  | ok prepared =>
      obtain ⟨hid, howner, hstatus, hgroups⟩ := hret prepared rfl
      have hplain : prepared.1.Plain :=
        ⟨hid ▸ ho.2, howner ▸ ho.1, fun g hg => (hgroups g hg).isSegment.2⟩
      rw [Prog.onReturn_ok, Prog.wp_bind, Prog.wp_perform]
      refine ⟨⟨hindexed, trivial, ?_⟩, fun r L'' hpost => ?_⟩
      · rintro _ ⟨⟩
        exact ⟨hplain, Or.inl hstatus⟩
      · cases r with
        | ok record => exact ⟨hpost.1, trivial⟩
        | error e => exact ⟨hpost.1, trivial⟩

lemma wp_indexed_revoke {t actorSub : String} {correlationId : Option String} {clock : Clock}
    (h : V.Indexed (V.after L)) :
    ((Op.revokeToken t actorSub correlationId clock).prog V.platform).wp (indexContract V)
      (fun _ L' => V.Indexed (V.after L')) L := by
  refine (Prog.wp_map _ _ _ _).mpr ?_
  refine Prog.wp_mono (fun r L' hpost => hpost.1) (wp_indexed_audited (A := fun _ => True) ?_)
  refine (Prog.wp_bind _ _ _ _).mpr ((Prog.wp_bind _ _ _ _).mpr ((Prog.wp_perform _ _ _).mpr
    ⟨⟨h, trivial, fun _ h => nomatch h⟩, ?_⟩))
  rintro r L' ⟨hindexed, htells⟩
  rcases r with e | _ | current
  · exact ⟨hindexed, trivial⟩
  · exact ⟨hindexed, trivial⟩
  · obtain ⟨hid, hplain, hissued⟩ := htells current rfl
    show Prog.wp _ (if current.status = "revoked" then _ else _) _ _
    split_ifs
    · exact ⟨hindexed, trivial⟩
    · refine (Prog.wp_perform _ _ _).mpr ⟨⟨hindexed, trivial, ?_⟩, fun r L'' hpost =>
        ⟨hpost.1, trivial⟩⟩
      rintro _ ⟨⟩
      -- the revoked copy has the id, the owner and the groups of the stored record
      exact ⟨⟨hplain.tokenId, hplain.ownerSub, hplain.grantedGroups⟩, Or.inr (hid ▸ hissued)⟩

lemma wp_indexed_list {identity : VerifiedIdentity} {correlationId : Option String} {clock : Clock}
    (h : V.Indexed (V.after L)) :
    ((Op.listSelfTokens identity correlationId clock).prog V.platform).wp (indexContract V)
      (fun r L' => V.Indexed (V.after L')
        ∧ ListsOwn (.listSelfTokens identity correlationId clock) r) L := by
  refine (Prog.wp_map _ _ _ _).mpr (Prog.wp_mono ?_ (wp_indexed_audited
    (A := fun r : Except PyError (List IssuedTokenRecord) => ∀ records, r = .ok records →
      ∀ record ∈ records, record.ownerSub = identity.subject) ?_))
  · rintro r L' ⟨hindexed, hown⟩
    refine ⟨hindexed, fun records hrecords => ?_⟩
    cases r with
    | error e => exact nomatch hrecords
    | ok found =>
        obtain rfl : found = records := Value.tokens.inj (Except.ok.inj hrecords)
        exact hown found rfl
  · refine (Prog.wp_bind _ _ _ _).mpr ((Prog.wp_perform _ _ _).mpr
      ⟨⟨h, trivial, fun _ h => nomatch h⟩, ?_⟩)
    rintro r L' ⟨hindexed, htells⟩
    cases r with
    | error e => exact ⟨hindexed, fun _ h => nomatch h⟩
    | ok found =>
        refine ⟨hindexed, ?_⟩
        rintro _ ⟨⟩ record hrecord
        exact htells found rfl record ((List.perm_insertionSort _ _).mem_iff.mp hrecord)

/-- **Every operation leaves the indexes right.** -/
theorem wp_indexOp (ho : o.Slashless) (h : V.Indexed (V.after L)) :
    (o.prog V.platform).wp (indexContract V)
      (fun r L' => V.Indexed (V.after L') ∧ ListsOwn o r) L := by
  cases o with
  | mintToken request clock =>
      exact Prog.wp_mono (fun r L' hpost => ⟨hpost, trivial⟩) (wp_indexed_mint ho h)
  | revokeToken t actorSub correlationId clock =>
      exact Prog.wp_mono (fun r L' hpost => ⟨hpost, trivial⟩) (wp_indexed_revoke h)
  | listSelfTokens identity correlationId clock => exact wp_indexed_list h
  | _ =>
      exact Prog.wp_mono (fun r L' hpost => ⟨hpost, trivial⟩)
        (wp_indexed_op ho (fun _ hstore => hstore) h)

/-! ### Operations amid the steps of others -/

/-- A process between two operations: the indexes are right, and what it is going to
run files documents under plain names. -/
def IndexIdle (V : SharedVault) (os : List Op) (L : VaultLedger π) : Prop :=
  V.Indexed (V.after L) ∧ ∀ o ∈ os, o.Slashless

lemma stable_indexIdle (os : List Op) :
    (indexing V).Stable p fun L : VaultLedger π => IndexIdle V os L :=
  stable_and keeps_indexed.stable (stable_const _)

/-- **Every operation of a process keeps to the protocol, whatever the others
do meanwhile.** -/
theorem secure_indexOp (o : Op) (os : List Op) (L : VaultLedger π)
    (hidle : IndexIdle V (o :: os) L) :
    (indexing V).Runs p o ∧ (indexing V).Secure p o (V.proc o)
      (fun r L' => (indexing V).Guar L' (.finish p o r) ∧ IndexIdle V os (.finish p o r :: L'))
      L := by
  have ho : o.Slashless := hidle.2 o List.mem_cons_self
  have hstable : ∀ r, (indexing V).Stable p fun L' : VaultLedger π =>
      V.Indexed (V.after L') ∧ ListsOwn o r :=
    fun r => stable_and keeps_indexed.stable (stable_const _)
  refine ⟨ho, (secure_translate (secure_indexCall ho) hstable (wp_indexOp ho hidle.1)).mono ?_⟩
  rintro r L' ⟨hindexed, hlists⟩
  exact ⟨hlists, hindexed, fun o' ho' => hidle.2 o' (List.mem_cons_of_mem _ ho')⟩

/-! ### The entries between any two client calls -/

variable [DecidableEq π]

/-- **No index entry ever points at a missing or foreign token.** Any number of
processes share one Vault and run any operations, on subjects without a slash, their
client calls interleaved and any of them raising without effect. At every moment an
entry under a subject is that of a stored token of that subject, an entry under a
group is that of a stored token for that group, and every listing of a user's tokens
that has returned has that user's only. -/
theorem index_entries_own {todo : π → List Op} (hfresh : FreshMints V todo)
    (hslashless : ∀ p, ∀ o ∈ todo p, o.Slashless) (hstart : V.Indexed V.start)
    {S : System π Op VaultCall VaultCall.Res PyError Value VaultWorld} (hreach : V.Reaches todo S) :
    (∀ u t, (V.after S.ledger).read (V.paths.userTokenPath u t) ≠ none →
      ∃ record, V.token (V.after S.ledger) t = .ok (some record) ∧ record.tokenId = t
        ∧ record.ownerSub = u)
    ∧ (∀ g t, (V.after S.ledger).read (V.paths.groupTokenPath g t) ≠ none →
      ∃ record, V.token (V.after S.ledger) t = .ok (some record) ∧ record.tokenId = t
        ∧ g ∈ record.grantedGroups)
    ∧ ∀ p identity correlationId clock records,
      .finish p (.listSelfTokens identity correlationId clock) (.ok (.tokens records)) ∈ S.ledger →
      ∀ record ∈ records, record.ownerSub = identity.subject := by
  have hok : Meets (TokenWrites V) S.ledger := by
    intro L₂ e L₁ hledger
    have hguar := (allowed_of_reaches hfresh hreach L₂ e L₁ hledger).guar
    cases e with
    | call q o i r w' => exact hguar
    | finish q o r => trivial
  obtain ⟨hallowed, -⟩ := Reachable.sound (Γ := indexing V)
    (fun p os => stable_indexIdle (p := p) os) (fun _ _ _ _ => trivial)
    (fun p => ⟨hstart, hslashless p⟩) (fun p o os L hidle => secure_indexOp o os L hidle) hreach hok
  have hnil : V.Indexed (V.after ([] : VaultLedger π)) := hstart
  rw [← List.append_nil S.ledger] at hallowed
  have hindexed := keeps_indexed.later hallowed hnil
  rw [List.append_nil] at hindexed hallowed
  refine ⟨fun u t hentry => ?_, fun g t hentry => ?_, ?_⟩
  · obtain ⟨gs, record, hrecord, howner, -⟩ := hindexed.users u t hentry
    exact ⟨record, hrecord, hindexed.filed t record hrecord, howner⟩
  · obtain ⟨u, gs, ⟨record, hrecord, -, rfl⟩, hg⟩ := hindexed.groups g t hentry
    exact ⟨record, hrecord, hindexed.filed t record hrecord, hg⟩
  · intro p identity correlationId clock records hmem
    obtain ⟨L₂, L₁, hledger⟩ := List.append_of_mem hmem
    have hend := (hallowed L₂ _ L₁ hledger).guar
    exact hend records rfl

/-- An empty Vault. -/
def emptyVault : SharedVault :=
  { platform := .python
    deployment := .python
    server := .inOrder
    faults := True
    start := VaultWorld.empty }

/-- One process mints a token for `alice`, the other lists her tokens. -/
def mintAndList : Bool → List Op
  | false => teamDay.reverse
  | true => [.listSelfTokens (keycloakUser "alice") none newYear]

lemma token_emptyVault (t : String) : emptyVault.token emptyVault.start t = .ok none := rfl

lemma freshMints_mintAndList : FreshMints emptyVault mintAndList where
  filed t _ hrecord := nomatch (token_emptyVault t).symm.trans hrecord
  unstored p t _ hstored := hstored rfl
  nodup p := by cases p <;> decide
  disjoint p q t hp hq := by
    cases p <;> cases q
    · rfl
    · exact nomatch hq
    · exact nomatch hp
    · rfl

lemma indexed_emptyVault : emptyVault.Indexed emptyVault.start where
  filed t _ hrecord := nomatch (token_emptyVault t).symm.trans hrecord
  plain t _ hrecord := nomatch (token_emptyVault t).symm.trans hrecord
  users _ _ hentry := absurd rfl hentry
  groups _ _ hentry := absurd rfl hentry

lemma slashless_mintAndList (p : Bool) : ∀ o ∈ mintAndList p, o.Slashless := by
  intro o ho
  cases p with
  | false =>
      simp only [mintAndList, teamDay, teamWork, List.cons_append, List.nil_append,
        List.reverse_cons, List.reverse_nil, List.mem_cons, List.not_mem_nil, or_false] at ho
      rcases ho with rfl | rfl | rfl | rfl
      · show ∀ u ∈ normalizeSubjects ["root"], '/' ∉ u.toList
        decide
      · show '/' ∉ ("alice" : String).toList
        decide
      · trivial
      · show '/' ∉ ("alice" : String).toList ∧ '/' ∉ teamMint.tokenId.toList
        decide
  | true =>
      obtain rfl := List.mem_singleton.mp ho
      trivial

/-- A process has just listed the one token of `alice`. -/
def listsOne : VaultLedger Bool → Bool
  | .finish _ (.listSelfTokens identity _ _) (.ok (.tokens [_])) :: _ =>
      identity.subject = "alice"
  | _ => false

/-- In the midst of the mint, after its write of the user's entry and before that of the
group's, the other process has listed the token. -/
theorem index_entries_own_mintAndList :
    ∃ S, emptyVault.Reaches mintAndList S
      ∧ (emptyVault.after S.ledger).read (emptyVault.paths.groupTokenPath "team" teamMint.tokenId)
        = none
      ∧ ∃ p identity correlationId clock record L, S.ledger = .finish p
          (.listSelfTokens identity correlationId clock) (.ok (.tokens [record])) :: L
        ∧ record.ownerSub = "alice" := by
  have hreach := emptyVault.reaches_run mintAndList
    (List.replicate 23 false ++ List.replicate 5 true)
  have hentry : (emptyVault.after (emptyVault.run mintAndList (List.replicate 23 false
      ++ List.replicate 5 true)).ledger).read
      (emptyVault.paths.groupTokenPath "team" teamMint.tokenId) = none := by decide +kernel
  have hshape : listsOne (emptyVault.run mintAndList (List.replicate 23 false
      ++ List.replicate 5 true)).ledger := by decide +kernel
  refine ⟨_, hreach, hentry, ?_⟩
  generalize emptyVault.run mintAndList _ = S at hreach hshape
  obtain ⟨-, -, hlists⟩ := index_entries_own freshMints_mintAndList slashless_mintAndList
    indexed_emptyVault hreach
  unfold listsOne at hshape
  split at hshape
  · next p identity correlationId clock record L hledger =>
      have hown := hlists p identity correlationId clock [record]
        (by rw [hledger]; exact List.mem_cons_self) record List.mem_cons_self
      exact ⟨p, identity, correlationId, clock, record, L, hledger,
        hown.trans (of_decide_eq_true hshape)⟩
  · exact nomatch hshape

end GofrSec
