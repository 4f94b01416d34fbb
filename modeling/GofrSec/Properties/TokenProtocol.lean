/-
How processes over one Vault write canonical token records.

* `SharedVault.TokenWrite`: what a write of a canonical record may do: put a
  record where there was none, by the mint of its id, or put a revoked one in the
  place of another;
* `revocation`: the protocol of processes over one Vault in which every step
  keeps to this; a revocation that returns ends with the record revoked, and an
  authorization that has read a revoked record ends with `allowed = False`;
* `keeps_revoked`: under the protocol no step makes a revoked token active again;
* `secure_repoCall`: every repository call, at each of its client calls and
  wherever one of them raises, keeps to the protocol and does what
  `tokenContract` says, whatever the other processes do meanwhile.
-/
import GofrSec.Services.Frames
import GofrSec.Services.Processes

namespace GofrSec

open Calls Protocol VaultPathLayout

variable {π : Type} (V : SharedVault)

/-! ### Canonical records -/

/-- What a repository makes of the canonical document of a token. -/
def SharedVault.token (w : VaultWorld) (t : String) : Except PyError (Option IssuedTokenRecord) :=
  decodeRecord (deserializeToken V.platform V.deployment.now) (w.read (V.paths.tokenPath t))

/-- There is a canonical document of the token. -/
def SharedVault.Stored (w : VaultWorld) (t : String) : Prop := w.read (V.paths.tokenPath t) ≠ none

/-- The canonical record of the token is revoked. -/
def SharedVault.Revoked (w : VaultWorld) (t : String) : Prop :=
  ∃ record, V.token w t = .ok (some record) ∧ record.status = "revoked"

/-- Every canonical record is stored under its own id. -/
def SharedVault.Filed (w : VaultWorld) : Prop :=
  ∀ t record, V.token w t = .ok (some record) → record.tokenId = t

/-- A write of the canonical record of `t` as part of `o`: the mint of `t` stores
it where there was none, and a stored record only gives way to a revoked one. -/
def SharedVault.TokenWrite (o : Op) (t : String) (w w' : VaultWorld) : Prop :=
  ∃ record, w'.read (V.paths.tokenPath t) = some (serializeToken V.platform record)
    ∧ record.tokenId = t
    ∧ (¬ V.Stored w t ∧ o.mintId = some t ∨ V.Stored w t ∧ record.status = "revoked")

section

variable {V} {w w' : VaultWorld} {t : String}

lemma token_of_read {record : IssuedTokenRecord}
    (h : w.read (V.paths.tokenPath t) = some (serializeToken V.platform record)) :
    V.token w t = .ok (some record) := by
  rw [SharedVault.token, h, decodeRecord, deserializeToken_serializeToken]
  rfl

lemma token_congr (h : w'.read (V.paths.tokenPath t) = w.read (V.paths.tokenPath t)) :
    V.token w' t = V.token w t := by
  rw [SharedVault.token, h, SharedVault.token]

lemma stored_of_token {record : IssuedTokenRecord} (h : V.token w t = .ok (some record)) :
    V.Stored w t := by
  intro hnone
  rw [SharedVault.token, hnone, decodeRecord] at h
  cases h

end

/-! ### The protocol -/

section

variable [DecidableEq π]

/-- What an operation has achieved at its end: a revocation that returns has the
record revoked, and an authorization that has read a revoked record denies. -/
def TokenEnd (p : π) (L : VaultLedger π) : Op → Except PyError Value → Prop
  | .revokeToken t _ _ _, r => r.isOk → V.Revoked (V.after L) t
  | .authorize request _ _, r => ∀ found record,
      .ok found ∈ readsOf p (V.paths.tokenPath request.tokenId) L →
      decodeRecord (deserializeToken V.platform V.deployment.now) found = .ok (some record) →
      record.status = "revoked" → r = .ok (.decision { allowed := false })
  | _, _ => True

/-- Processes that each mint only their own ids, and that write canonical token
records as `TokenWrite` says. -/
def revocation (mints : π → List String) : VaultProtocol π where
  act := V.act
  start := V.start
  Runs p o := ∀ t, o.mintId = some t → t ∈ mints p
  Ok _ _ := True
  Guar L
    | .call _ o i r w' => ∀ t v, i.target = some (V.paths.tokenPath t) → r = .ok v →
        V.TokenWrite o t (V.after L) w'
    | .finish p o r => TokenEnd V p L o r

variable {V} {mints : π → List String} {p : π} {o : Op} {L L' : VaultLedger π}
  {e : VaultEvent π}

/-- A step leaves the canonical document of a token alone, or writes it as
`TokenWrite` says. -/
lemma token_of_allowed (he : (revocation V mints).Allowed L e) (t : String) :
    (V.after (e :: L)).read (V.paths.tokenPath t) = (V.after L).read (V.paths.tokenPath t) ∨
      V.TokenWrite e.op t (V.after L) (V.after (e :: L)) := by
  obtain ⟨-, hfits, -, hguar⟩ := he
  cases e with
  | finish p o r => exact Or.inl rfl
  | call p o i r w' =>
      by_cases hwrite : i.target = some (V.paths.tokenPath t) ∧ ∃ v, r = .ok v
      · obtain ⟨htarget, v, hv⟩ := hwrite
        exact Or.inr (hguar t v htarget hv)
      · exact Or.inl (read_of_act hfits fun v hv htarget => hwrite ⟨htarget, v, hv⟩)

lemma keeps_filed : (revocation V mints).Keeps fun L => V.Filed (V.after L) := by
  intro L e h he t record hrecord
  rcases token_of_allowed he t with hsame | ⟨record', hread, hid, -⟩
  · rw [token_congr hsame] at hrecord
    exact h t record hrecord
  · obtain rfl := Option.some.inj (Except.ok.inj ((token_of_read hread).symm.trans hrecord))
    exact hid

lemma keeps_stored (t : String) :
    (revocation V mints).Keeps fun L => V.Stored (V.after L) t := by
  intro L e h he
  rcases token_of_allowed he t with hsame | ⟨record, hread, -⟩
  · rw [SharedVault.Stored, hsame]
    exact h
  · exact stored_of_token (token_of_read hread)

/-- **No step makes a revoked token active again.** -/
lemma keeps_revoked (t : String) :
    (revocation V mints).Keeps fun L => V.Revoked (V.after L) t := by
  rintro L e ⟨record, hrecord, hstatus⟩ he
  rcases token_of_allowed he t with hsame | ⟨record', hread, -, ⟨hnone, -⟩ | ⟨-, hrevoked⟩⟩
  · exact ⟨record, (token_congr hsame).trans hrecord, hstatus⟩
  · exact absurd (stored_of_token hrecord) hnone
  · exact ⟨record', token_of_read hread, hrevoked⟩

variable (V) in
/-- Every canonical record is under its own id, and none of these ids, which are
for `p` to mint, is stored yet. -/
def Pending (mints : π → List String) (p : π) (ids : List String) (L : VaultLedger π) : Prop :=
  V.Filed (V.after L) ∧ ∀ t ∈ ids, t ∈ mints p ∧ ¬ V.Stored (V.after L) t

lemma stable_pending (hmints : ∀ p q t, t ∈ mints p → t ∈ mints q → p = q) (ids : List String) :
    (revocation V mints).Stable p (Pending V mints p ids) := by
  rintro L e ⟨hfiled, hids⟩ ⟨hne, he⟩
  refine ⟨keeps_filed L e hfiled he, fun t ht => ⟨(hids t ht).1, ?_⟩⟩
  rcases token_of_allowed he t with hsame | ⟨-, -, -, ⟨-, hmint⟩ | ⟨hstored, -⟩⟩
  · rw [SharedVault.Stored, hsame]
    exact (hids t ht).2
  · exact absurd (hmints _ _ t (he.runs t hmint) (hids t ht).1) hne
  · exact absurd hstored (hids t ht).2

omit [DecidableEq π] in
lemma Pending.mono {ids ids' : List String} (h : Pending V mints p ids L)
    (hle : ∀ t ∈ ids', t ∈ ids) : Pending V mints p ids' L :=
  ⟨h.1, fun t ht => h.2 t (hle t ht)⟩

omit [DecidableEq π] in
/-- A call that leaves the canonical documents alone. -/
lemma Pending.call {ids : List String} (h : Pending V mints p ids L) {q : π} {i : VaultCall}
    {r : Except PyError i.Res} {w' : VaultWorld}
    (hsame : ∀ t, w'.read (V.paths.tokenPath t) = (V.after L).read (V.paths.tokenPath t)) :
    Pending V mints p ids (.call q o i r w' :: L) := by
  refine ⟨fun t record hrecord => ?_, fun t ht => ⟨(h.2 t ht).1, ?_⟩⟩
  · exact h.1 t record ((token_congr (hsame t)).symm.trans hrecord)
  · show w'.read _ ≠ none → False
    rw [hsame t]
    exact (h.2 t ht).2

/-! ### The repository calls -/

/-- What a repository call tells about the tokens. -/
def Told (V : SharedVault) (p : π) :
    (c : RepoCall) → VaultLedger π → Except PyError c.Res → VaultLedger π → Prop
  | .tokenGet t, L, r, L' => ∃ found : Except PyError (Option Doc),
      readsOf p (V.paths.tokenPath t) L' = found :: readsOf p (V.paths.tokenPath t) L
        ∧ r = found.bind (decodeRecord (deserializeToken V.platform V.deployment.now))
        ∧ ∀ record, r = .ok (some record) → record.tokenId = t ∧ V.Stored (V.after L') t
          ∧ (record.status = "revoked" → V.Revoked (V.after L') t)
  | .tokenUpsert record, _, r, L' => record.status = "revoked" → r.isOk →
      V.Revoked (V.after L') record.tokenId
  | .auditAppend _, L, r, L' => r = .ok () ∧ ∀ path, readsOf p path L' = readsOf p path L
  | _, _, _, _ => True

/-- What an upsert of a record needs: the id is one to mint, or the record is a
revoked one for a stored one. -/
def MayUpsert (V : SharedVault) (mints : π → List String) (p : π) (o : Op) (ids : List String)
    (record : IssuedTokenRecord) (L : VaultLedger π) : Prop :=
  o.mintId = some record.tokenId ∧ record.tokenId ∉ ids
      ∧ Pending V mints p (record.tokenId :: ids) L ∨
    record.status = "revoked" ∧ V.Stored (V.after L) record.tokenId

/-- The repository calls of an operation amid the steps of other processes;
`ids` are to be minted by later operations. -/
def tokenContract (V : SharedVault) (mints : π → List String) (p : π) (o : Op)
    (ids : List String) : Contract RepoCall RepoCall.Res PyError (VaultLedger π) where
  pre c L := Pending V mints p ids L ∧ ∀ record, c = .tokenUpsert record →
    MayUpsert V mints p o ids record L
  post c L r L' := Pending V mints p ids L'
    ∧ (∀ t, V.Revoked (V.after L) t → V.Revoked (V.after L') t)
    ∧ (¬ c.Stores → ∀ ids', Pending V mints p ids' L → Pending V mints p ids' L')
    ∧ Told V p c L r L'

/-- What a call has told stays true, whatever the others do. -/
lemma stable_told (c : RepoCall) (r : Except PyError c.Res) :
    (revocation V mints).Stable p (Told V p c L r) := by
  cases c with
  | tokenGet t =>
      refine stable_exists fun found => stable_and (stable_readsOf _) ?_
      refine stable_and (stable_const _) ?_
      refine stable_forall fun record => stable_imp _ (stable_and (stable_const _) ?_)
      exact stable_and (keeps_stored t).stable (stable_imp _ (keeps_revoked t).stable)
  | tokenUpsert record => exact stable_imp _ (stable_imp _ (keeps_revoked _).stable)
  | auditAppend event =>
      exact stable_and (stable_const _) (stable_forall fun path => stable_readsOf _)
  | _ => exact stable_const True

/-- Nothing has happened to the tokens but what others may do. -/
structure Quiet (V : SharedVault) (mints : π → List String) (p : π) (L L' : VaultLedger π) :
    Prop where
  revoked : ∀ t, V.Revoked (V.after L) t → V.Revoked (V.after L') t
  stored : ∀ t, V.Stored (V.after L) t → V.Stored (V.after L') t
  pending : ∀ ids, Pending V mints p ids L → Pending V mints p ids L'

omit [DecidableEq π] in
lemma Quiet.refl : Quiet V mints p L L := ⟨fun _ h => h, fun _ h => h, fun _ h => h⟩

lemma stable_quiet (hmints : ∀ p q t, t ∈ mints p → t ∈ mints q → p = q) :
    (revocation V mints).Stable p (Quiet V mints p L) := by
  intro L' e h he
  refine ⟨fun t ht => ?_, fun t ht => ?_, fun ids hids => ?_⟩
  · exact keeps_revoked t L' e (h.revoked t ht) he.2
  · exact keeps_stored t L' e (h.stored t ht) he.2
  · exact stable_pending hmints ids L' e (h.pending ids hids) he

omit [DecidableEq π] in
/-- A call that leaves the canonical documents alone. -/
lemma Quiet.call (h : Quiet V mints p L L') {i : VaultCall} {r : Except PyError i.Res}
    {w' : VaultWorld}
    (hsame : ∀ t, w'.read (V.paths.tokenPath t) = (V.after L').read (V.paths.tokenPath t)) :
    Quiet V mints p L (.call p o i r w' :: L') := by
  refine ⟨fun t ht => ?_, fun t ht => ?_, fun ids hids => (h.pending ids hids).call hsame⟩
  · obtain ⟨record, hrecord, hstatus⟩ := h.revoked t ht
    exact ⟨record, (token_congr (hsame t)).trans hrecord, hstatus⟩
  · show w'.read _ ≠ none
    rw [hsame t]
    exact h.stored t ht

omit [DecidableEq π] in
lemma MayUpsert.quiet {ids : List String} {record : IssuedTokenRecord}
    (h : MayUpsert V mints p o ids record L) (hquiet : Quiet V mints p L L') :
    MayUpsert V mints p o ids record L' := by
  rcases h with ⟨hmint, hnew, hpending⟩ | ⟨hstatus, hstored⟩
  · exact Or.inl ⟨hmint, hnew, hquiet.pending _ hpending⟩
  · exact Or.inr ⟨hstatus, hquiet.stored _ hstored⟩

/-- The client call has no canonical document as its target. -/
def KeepsTokens (V : SharedVault) (i : VaultCall) : Prop :=
  ∀ t, i.target ≠ some (V.paths.tokenPath t)

lemma keepsTokens_of_target_none {i : VaultCall} (h : i.target = none) : KeepsTokens V i :=
  fun _ htarget => nomatch h.symm.trans htarget

lemma guar_of_keepsTokens {i : VaultCall} (hi : KeepsTokens V i) (r : Except PyError i.Res)
    (w' : VaultWorld) : (revocation V mints).Guar L (.call p o i r w') :=
  fun t _ htarget _ => absurd htarget (hi t)

/-- A program that leaves the canonical documents alone. -/
lemma secure_quiet (hmints : ∀ p q t, t ∈ mints p → t ∈ mints q → p = q) {α : Type}
    {c : VaultProg α} (hc : c.Uses (KeepsTokens V)) (h : Quiet V mints p L L') :
    (revocation V mints).Secure p o c (fun _ L'' => Quiet V mints p L L'') L' := by
  refine secure_of_uses (stable_quiet hmints) (fun i L₁ r w' hi hquiet hact _ => ?_) hc h
  refine ⟨guar_of_keepsTokens hi r w', hquiet.call fun t => ?_⟩
  exact read_of_act hact fun _ _ => hi t

/-- Every repository call but an upsert of a token leaves the canonical documents
alone. -/
lemma keepsTokens_of_writes {c : RepoCall} (hc : ∀ record, c ≠ .tokenUpsert record)
    {i : VaultCall} (hi : i.Within (c.Writes V.paths)) : KeepsTokens V i := by
  intro t htarget
  have hwrites := hi _ htarget
  cases c with
  | profileUpsert profile =>
      exact ne_of_area (by decide) (under_tokenPath t) (under_userProfilePath _) hwrites
  | groupUpsert group =>
      exact ne_of_area (by decide) (under_tokenPath t) (under_groupDefinitionPath _) hwrites
  | membershipAdd m =>
      exact ne_of_area (by decide) (under_tokenPath t) (under_userGroupsPath _) hwrites
  | membershipRemove u g =>
      exact ne_of_area (by decide) (under_tokenPath t) (under_userGroupsPath _) hwrites
  | tokenUpsert record => exact hc record rfl
  | _ => exact hwrites

lemma keepsTokens_of_index {i : VaultCall}
    (hi : i.Within fun k => (∃ u t, k = V.paths.userTokenPath u t)
      ∨ ∃ g t, k = V.paths.groupTokenPath g t) : KeepsTokens V i := by
  intro t htarget
  rcases hi _ htarget with ⟨u, t', heq⟩ | ⟨g, t', heq⟩
  · exact ne_of_area (by decide) (under_tokenPath t) (under_userTokenPath u t') heq
  · exact ne_of_area (by decide) (under_tokenPath t) (under_groupTokenPath g t') heq

section Calls

variable (hmints : ∀ p q t, t ∈ mints p → t ∈ mints q → p = q)

include hmints

/-- A call that stores no token tells nothing else. -/
lemma secure_other {c : RepoCall} {ids : List String} (hc : ∀ record, c ≠ .tokenUpsert record)
    (htold : ∀ r L', Told V p c L r L') (hpending : Pending V mints p ids L) :
    (revocation V mints).Secure p o (vaultProgram V.platform V.deployment c)
      (fun r L' => (tokenContract V mints p o ids).post c L r L') L := by
  have huses := (uses_vaultProgram V.platform V.deployment c).mono fun i hi =>
    keepsTokens_of_writes hc hi
  refine (secure_quiet hmints huses Quiet.refl).mono fun r L' h => ?_
  exact ⟨h.pending ids hpending, h.revoked, fun _ => h.pending, htold r L'⟩

lemma stable_post (c : RepoCall) (ids : List String) (r : Except PyError c.Res) :
    (revocation V mints).Stable p fun L' => (tokenContract V mints p o ids).post c L r L' := by
  refine stable_and (stable_pending hmints ids) (stable_and ?_ (stable_and ?_ (stable_told c r)))
  · exact stable_forall fun t => stable_imp _ (keeps_revoked t).stable
  · exact stable_imp _ (stable_forall fun ids' => stable_imp _ (stable_pending hmints ids'))

/-- The lookup of a token. -/
lemma secure_tokenGet {t : String} {ids : List String} (hpending : Pending V mints p ids L) :
    (revocation V mints).Secure p o (vaultProgram V.platform V.deployment (.tokenGet t))
      (fun r L' => (tokenContract V mints p o ids).post (.tokenGet t) L r L') L := by
  refine (secure_bind _).mpr ?_
  have hread : (revocation V mints).Secure p o (readSecret (V.paths.tokenPath t))
      (fun r L' => (tokenContract V mints p o ids).post (.tokenGet t) L
        (r.bind (decodeRecord (deserializeToken V.platform V.deployment.now))) L') L := by
    refine secure_perform_of (A := fun L' => Quiet V mints p L L'
        ∧ readsOf p (V.paths.tokenPath t) L' = readsOf p (V.paths.tokenPath t) L)
      (stable_and (stable_quiet hmints) (stable_readsOf _))
      (fun r => stable_post hmints (.tokenGet t) ids _) ⟨Quiet.refl, rfl⟩
      fun L' r w' hL' hact _ => ?_
    obtain ⟨hquiet, hreads⟩ := hL'
    obtain ⟨rfl, hfound⟩ := act_readSecret hact
    have hquiet' := hquiet.call (o := o) (i := .readSecret (V.paths.tokenPath t)) (r := r)
      fun _ => rfl
    refine ⟨guar_of_keepsTokens (keepsTokens_of_target_none rfl) r _, hquiet'.pending ids hpending,
      hquiet'.revoked, fun _ => hquiet'.pending, r, ?_, rfl, ?_⟩
    · rw [readsOf_readSecret, hreads]
    · intro record hrecord
      cases r with
      | error e => exact nomatch hrecord
      | ok found =>
          obtain rfl := hfound found rfl
          have htoken : V.token (V.after L') t = .ok (some record) := hrecord
          exact ⟨(hquiet.pending ids hpending).1 t record htoken, stored_of_token htoken,
            fun hstatus => ⟨record, htoken, hstatus⟩⟩
  refine hread.mono fun r L' hpost => ?_
  cases r with
  | ok found => exact secure_done_of (stable_post hmints (.tokenGet t) ids _) hpost
  | error e => exact fun L'' henv => (stable_post hmints (.tokenGet t) ids _).env hpost henv

/-- The append of an audit event. -/
lemma secure_auditAppend {event : AuditEvent} {ids : List String}
    (hpending : Pending V mints p ids L) :
    (revocation V mints).Secure p o (vaultProgram V.platform V.deployment (.auditAppend event))
      (fun r L' => (tokenContract V mints p o ids).post (.auditAppend event) L r L') L := by
  have hkeeps : KeepsTokens V (.auditAppend event) := keepsTokens_of_target_none rfl
  refine secure_perform_of (A := fun L' => Quiet V mints p L L'
      ∧ ∀ path, readsOf p path L' = readsOf p path L)
    (stable_and (stable_quiet hmints) (stable_forall fun path => stable_readsOf _))
    (fun r => stable_post hmints (.auditAppend event) ids r) ⟨Quiet.refl, fun _ => rfl⟩
    fun L' r w' hL' hact _ => ?_
  obtain ⟨hquiet, hreads⟩ := hL'
  have hquiet' : Quiet V mints p L (.call p o (.auditAppend event) r w' :: L') :=
    hquiet.call fun t => read_of_act hact fun _ _ => hkeeps t
  refine ⟨guar_of_keepsTokens hkeeps r w', hquiet'.pending ids hpending, hquiet'.revoked,
    fun _ => hquiet'.pending, act_auditAppend hact, fun path => ?_⟩
  rw [readsOf_auditAppend, hreads]

/-- The write of a canonical record, as an upsert makes it. -/
lemma secure_writeToken (hruns : (revocation V mints).Runs p o) {record : IssuedTokenRecord}
    {ids : List String} (hpending : Pending V mints p ids L)
    (hmay : MayUpsert V mints p o ids record L) :
    (revocation V mints).Secure p o
      (writeSecret (V.paths.tokenPath record.tokenId) (serializeToken V.platform record))
      (fun r L' => (tokenContract V mints p o ids).post (.tokenUpsert record) L
        (r.map fun _ => record) L') L := by
  refine secure_perform_of (stable_quiet hmints)
    (fun r => stable_post hmints (.tokenUpsert record) ids _) Quiet.refl
    fun L' r w' hquiet hact _ => ?_
  have hmay' := hmay.quiet hquiet
  have hguar : (revocation V mints).Guar L' (.call p o (.writeSecret
      (V.paths.tokenPath record.tokenId) (serializeToken V.platform record)) r w') := by
    intro t v htarget hv
    obtain rfl := tokenPath_inj (Option.some.inj htarget)
    subst hv
    obtain ⟨-, rfl⟩ := act_ok hact
    refine ⟨record, VaultWorld.read_write_self _ _ _, rfl, ?_⟩
    rcases hmay' with ⟨hmint, -, hids⟩ | ⟨hstatus, hstored⟩
    · exact Or.inl ⟨(hids.2 _ List.mem_cons_self).2, hmint⟩
    · exact Or.inr ⟨hstored, hstatus⟩
  have hallowed : (revocation V mints).Allowed L' (.call p o (.writeSecret
      (V.paths.tokenPath record.tokenId) (serializeToken V.platform record)) r w') :=
    ⟨hruns, hact, trivial, hguar⟩
  refine ⟨hguar, ⟨?_, fun t ht => ?_⟩, fun t ht => ?_, fun h => absurd trivial h, ?_⟩
  · exact keeps_filed L' _ (hquiet.pending ids hpending).1 hallowed
  · obtain ⟨hmint, hnew⟩ := (hquiet.pending ids hpending).2 t ht
    refine ⟨hmint, fun hstored => hnew ?_⟩
    have hne : t ≠ record.tokenId := by
      rintro rfl
      rcases hmay' with ⟨-, hnot, -⟩ | ⟨-, hstored'⟩
      · exact hnot ht
      · exact hnew hstored'
    have hsame : w'.read (V.paths.tokenPath t) = (V.after L').read (V.paths.tokenPath t) :=
      read_of_act hact fun _ _ htarget => hne (tokenPath_inj (Option.some.inj htarget)).symm
    rwa [SharedVault.Stored, ← hsame]
  · exact keeps_revoked t L' _ (hquiet.revoked t ht) hallowed
  · intro hstatus hreturned
    cases r with
    | error e => exact nomatch hreturned
    | ok _ =>
        obtain ⟨-, rfl⟩ := act_ok hact
        exact ⟨record, token_of_read (VaultWorld.read_write_self _ _ _), hstatus⟩

/-- The upsert of a token record. -/
lemma secure_tokenUpsert (hruns : (revocation V mints).Runs p o) {record : IssuedTokenRecord}
    {ids : List String} (hpending : Pending V mints p ids L)
    (hmay : MayUpsert V mints p o ids record L) :
    (revocation V mints).Secure p o
      (vaultProgram V.platform V.deployment (.tokenUpsert record))
      (fun r L' => (tokenContract V mints p o ids).post (.tokenUpsert record) L r L') L := by
  show (revocation V mints).Secure p o
    (VaultTokenRepository.upsert V.platform V.deployment record) _ _
  rw [VaultTokenRepository.upsert_eq]
  have hread : (VaultTokenRepository.get V.platform V.deployment record.tokenId).Uses
      (KeepsTokens V) :=
    Prog.Uses.mono (P := VaultCall.Visits fun _ => False) (uses_getRecord _ _)
      fun i hi t htarget => hi.2 _ htarget
  refine (secure_bind _).mpr ((secure_quiet hmints hread Quiet.refl).mono fun r L' hquiet => ?_)
  -- before the write: a failure leaves all as it was
  have hfailed : ∀ L' e, Quiet V mints p L L' →
      (tokenContract V mints p o ids).post (.tokenUpsert record) L (.error e) L' :=
    fun L' e h => ⟨h.pending ids hpending, h.revoked, fun h' => absurd trivial h',
      fun _ h' => nomatch h'⟩
  cases r with
  | error e => exact fun L'' henv => hfailed L'' e ((stable_quiet hmints).env hquiet henv)
  | ok previous =>
      refine (secure_bind _).mpr ?_
      rw [upsertCalls, Prog.performAll_cons]
      refine (secure_bind _).mpr ((secure_writeToken hmints hruns (hquiet.pending ids hpending)
        (hmay.quiet hquiet)).mono fun r L₁ hpost => ?_)
      obtain ⟨hids, hrevoked, -, htold⟩ := hpost
      -- after it: the calls on the indexes change nothing canonical
      have hlater : ∀ r' L₂, (r'.isOk → r.isOk) → Quiet V mints p L₁ L₂ →
          (tokenContract V mints p o ids).post (.tokenUpsert record) L r' L₂ :=
        fun r' L₂ hr h => ⟨h.pending ids hids, fun t ht => h.revoked t (hrevoked t
          (hquiet.revoked t ht)), fun h' => absurd trivial h', fun hstatus hr' =>
            h.revoked _ (htold hstatus (by cases r <;> exact hr hr'))⟩
      have hstable := stable_quiet (V := V) (p := p) (L := L₁) hmints
      cases r with
      | error e =>
          intro L₂ henv L₃ henv'
          exact hlater (.error e) L₃ (fun h => h) (hstable.env Quiet.refl (henv.trans henv'))
      | ok _ =>
          have hindex : (Prog.performAll (indexUpdates V.deployment previous record) :
              VaultProg Unit).Uses (KeepsTokens V) :=
            Prog.uses_performAll fun i hi => keepsTokens_of_index (within_indexUpdates hi)
          refine (secure_quiet hmints hindex Quiet.refl).mono fun r' L₂ hquiet₂ => ?_
          cases r' with
          | error e =>
              intro L₃ henv
              exact hlater (.error e) L₃ (fun _ => rfl) (hstable.env hquiet₂ henv)
          | ok _ =>
              intro L₃ henv
              exact hlater (.ok record) L₃ (fun _ => rfl) (hstable.env hquiet₂ henv)

/-- **Every repository call keeps to the protocol.** -/
theorem secure_repoCall (hruns : (revocation V mints).Runs p o) {ids : List String} (c : RepoCall)
    (L : VaultLedger π) (hpre : (tokenContract V mints p o ids).pre c L) :
    (revocation V mints).Secure p o (vaultProgram V.platform V.deployment c)
      (fun r L' => (tokenContract V mints p o ids).post c L r L') L := by
  obtain ⟨hpending, hmay⟩ := hpre
  cases c with
  | tokenGet t => exact secure_tokenGet hmints hpending
  | tokenUpsert record => exact secure_tokenUpsert hmints hruns hpending (hmay record rfl)
  | auditAppend event => exact secure_auditAppend hmints hpending
  | _ => exact secure_other hmints (fun _ h => nomatch h) (fun _ _ => trivial) hpending

end Calls

end

end GofrSec
