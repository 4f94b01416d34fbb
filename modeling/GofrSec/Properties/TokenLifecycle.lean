/-
The lifecycle of a token record.

* `firstRevocation`: the time of the first successful revocation of a token in a
  history;
* `Lifecycle`: every minted token is stored as its mint returned it or, once it
  has been revoked, as the revoked copy of that record, with the time of the first
  revocation; every operation keeps it (`lifecycle_step`);
* `token_lifecycle`: after every run from empty stores, on either backend,
  `get_token` returns that record.
-/
import GofrSec.Properties.TokenHistory

namespace GofrSec

open Calls

/-- The time at which the operation revoked the token, if it did. -/
def revocationTime (t : String) : Op × Except PyError Value → Option DateTime
  | (.revokeToken t' _ _ clock, .ok _) => if t' = t then some clock.now else none
  | _ => none

/-- The time of the first revocation of the token that succeeded. -/
def firstRevocation (t : String) : OpHistory → Option DateTime
  | [] => none
  | m :: h => (firstRevocation t h).or (revocationTime t m)

/-- The record, once it has been revoked at the given time. -/
def IssuedTokenRecord.onceRevoked (record : IssuedTokenRecord) :
    Option DateTime → IssuedTokenRecord
  | none => record
  | some revokedAt => revokedRecord record revokedAt

/-- Every minted token is stored as its mint returned it, up to its revocation. -/
def Lifecycle (h : OpHistory) (reg : Registry) : Prop :=
  ∀ request clock minted, (Op.mintToken request clock, .ok (.minted minted)) ∈ h →
    minted.record.status = "active" ∧ minted.record.revokedAt = none
      ∧ reg.tokens.find request.tokenId
        = some (minted.record.onceRevoked (firstRevocation request.tokenId h))

variable {P : Platform} {R : Regime} {reg reg' : Registry} {h : OpHistory} {o : Op}
  {r : Except PyError Value} {t : String}

lemma firstRevocation_of_ne (hne : revocationTime t (o, r) = none) :
    firstRevocation t ((o, r) :: h) = firstRevocation t h := by
  rw [firstRevocation, hne, Option.or_none]

/-- A token has a first revocation exactly when it has one. -/
lemma firstRevocation_isSome_iff : (firstRevocation t h).isSome ↔ RevokedIn h t := by
  induction h with
  | nil => simp [firstRevocation, RevokedIn]
  | cons m h ih =>
      obtain ⟨o, r⟩ := m
      have htime : (revocationTime t (o, r)).isSome ↔ ∃ actorSub correlationId clock v,
          o = .revokeToken t actorSub correlationId clock ∧ r = .ok v := by
        constructor
        · intro htime
          unfold revocationTime at htime
          split at htime
          · next t' actorSub correlationId clock v heq =>
              obtain ⟨rfl, rfl⟩ := Prod.mk.inj heq
              split_ifs at htime with ht
              · rw [ht]
                exact ⟨actorSub, correlationId, clock, v, rfl, rfl⟩
              · cases htime
          · cases htime
        · rintro ⟨actorSub, correlationId, clock, v, rfl, rfl⟩
          rw [revocationTime, if_pos rfl, Option.isSome_some]
      rw [firstRevocation, Option.isSome_or, Bool.or_eq_true, ih, htime, revokedIn_cons, or_comm]

/-- The stored record is revoked exactly when the history revokes it. -/
lemma onceRevoked_status {record : IssuedTokenRecord} (hactive : record.status = "active")
    (time : Option DateTime) : (record.onceRevoked time).status = "revoked" ↔ time.isSome := by
  cases time with
  | none =>
      rw [IssuedTokenRecord.onceRevoked, hactive]
      simp
  | some revokedAt => simp [IssuedTokenRecord.onceRevoked, revokedRecord]

/-- Nothing has been minted at the start. -/
lemma Lifecycle.empty (reg : Registry) : Lifecycle [] reg := fun _ _ _ hm => nomatch hm

/-- An operation that mints nothing, and leaves every minted token as the history
then says. -/
lemma Lifecycle.cons (hlife : Lifecycle h reg) (hmint : ∀ request clock minted,
      ¬ (o = .mintToken request clock ∧ r = .ok (.minted minted)))
    (hsame : ∀ (t : String) (record : IssuedTokenRecord), record.status = "active" →
      reg.tokens.find t = some (record.onceRevoked (firstRevocation t h)) →
      reg'.tokens.find t = some (record.onceRevoked (firstRevocation t ((o, r) :: h)))) :
    Lifecycle ((o, r) :: h) reg' := by
  intro request clock minted hm
  rcases List.mem_cons.mp hm with heq | hm
  · obtain ⟨rfl, rfl⟩ := Prod.mk.inj heq
    exact absurd ⟨rfl, rfl⟩ (hmint request clock minted)
  · obtain ⟨hactive, hnone, hfind⟩ := hlife request clock minted hm
    exact ⟨hactive, hnone, hsame _ _ hactive hfind⟩

/-- A successful mint. -/
lemma Lifecycle.mint (hlife : Lifecycle h reg) (hist : TokenHistory P h reg)
    {request : MintRequest} {clock : Clock} {minted : MintedTokenResult} {plain : Prop}
    (hfresh : FreshIds plain (.mintToken request clock :: h.map Prod.fst))
    (hrecord : MintedRecord P reg request clock minted.record)
    (htokens : reg'.tokens = reg.tokens.insert minted.record) :
    Lifecycle ((.mintToken request clock, .ok (.minted minted)) :: h) reg' := by
  have hnone := hist.fresh hfresh
  intro request' clock' minted' hm
  rw [firstRevocation_of_ne rfl, htokens, Keyed.find_insert, hrecord.tokenId]
  rcases List.mem_cons.mp hm with heq | hm
  · obtain ⟨hop, hr⟩ := Prod.mk.inj heq
    obtain ⟨rfl, rfl⟩ := Op.mintToken.inj hop
    obtain rfl := Value.minted.inj (Except.ok.inj hr)
    -- the token has not been revoked before it was minted
    have hunrevoked : firstRevocation request'.tokenId h = none := by
      rw [← Option.not_isSome_iff_eq_none, firstRevocation_isSome_iff]
      intro hrevoked
      obtain ⟨old, hold⟩ := hist.revoked _ hrevoked
      exact nomatch hnone.symm.trans hold
    rw [if_pos rfl, hunrevoked]
    exact ⟨hrecord.status, hrecord.revokedAt, rfl⟩
  · obtain ⟨hactive, hrevokedAt, hfind⟩ := hlife request' clock' minted' hm
    have hne : request'.tokenId ≠ request.tokenId := by
      intro heq
      rw [heq, hnone] at hfind
      exact nomatch hfind
    rw [if_neg hne]
    exact ⟨hactive, hrevokedAt, hfind⟩

/-- A successful revocation. -/
lemma Lifecycle.revoke (hlife : Lifecycle h reg) {actorSub : String}
    {correlationId : Option String} {clock : Clock} {record : IssuedTokenRecord}
    (heffect : RevokeTokenEffect R reg t clock (.ok record) reg') :
    Lifecycle ((.revokeToken t actorSub correlationId clock, .ok (.token record)) :: h) reg' := by
  obtain ⟨current, hcurrent, heffect⟩ := heffect
  have hid : current.tokenId = t := reg.tokens.key_eq _ _ hcurrent
  refine hlife.cons (fun _ _ _ heq => nomatch heq.1) fun t' minted hactive hfind => ?_
  by_cases ht : t' = t
  · rw [ht] at hfind ⊢
    obtain rfl := Option.some.inj (hcurrent.symm.trans hfind)
    have hstatus := onceRevoked_status hactive (firstRevocation t h)
    rw [firstRevocation, revocationTime, if_pos rfl]
    rcases heffect with ⟨hrevoked, -, hagrees⟩ | ⟨hnot, rfl, hagrees⟩
    · -- it had been revoked before, and stays as it is
      obtain ⟨time, htime⟩ := Option.isSome_iff_exists.mp (hstatus.mp hrevoked)
      rw [hagrees.tokens, hcurrent, htime, Option.some_or]
    · -- it is revoked now
      have hnone : firstRevocation t h = none := by
        rw [← Option.not_isSome_iff_eq_none]
        exact fun hsome => hnot (hstatus.mpr hsome)
      have hkey : (revokedRecord (minted.onceRevoked none) clock.now).tokenId = t := by
        rw [← hid, hnone]
        rfl
      rw [hagrees.tokens, hnone, Option.none_or]
      show (reg.tokens.insert _).find t = _
      rw [Keyed.find_insert, if_pos hkey.symm]
      rfl
  · have hother : revocationTime t' (.revokeToken t actorSub correlationId clock,
        .ok (.token record)) = none := if_neg (Ne.symm ht)
    rw [firstRevocation_of_ne hother, ← hfind]
    rcases heffect with ⟨-, -, hagrees⟩ | ⟨-, rfl, hagrees⟩
    · rw [hagrees.tokens]
    · rw [hagrees.tokens]
      refine Keyed.find_insert_of_ne _ fun heq => ht ?_
      rw [heq, ← hid]
      rfl

/-- **One operation keeps the lifecycle of the tokens**, while storage does not
fail. -/
theorem lifecycle_step (hlife : Lifecycle h reg) (hist : TokenHistory P h reg)
    (hfresh : FreshIds R.plain (o :: h.map Prod.fst)) (hfaults : ¬ R.faults)
    (heffect : o.Effect P R reg r reg') : Lifecycle ((o, r) :: h) reg' := by
  -- an operation that leaves the tokens alone
  have hsame : (∀ t, revocationTime t (o, r) = none) → (∀ request clock minted,
      ¬ (o = .mintToken request clock ∧ r = .ok (.minted minted))) → reg'.tokens = reg.tokens →
      Lifecycle ((o, r) :: h) reg' := by
    intro htime hmint htokens
    refine hlife.cons hmint fun t record _ hfind => ?_
    rw [htokens, firstRevocation_of_ne (htime t)]
    exact hfind
  cases o with
  | mintToken request clock =>
      obtain ⟨e | minted, rfl, heffect⟩ := heffect
      · rcases heffect with hagrees | ⟨hf, -⟩
        · exact hsame (fun _ => rfl) (fun _ _ _ heq => nomatch heq.2) hagrees.tokens
        · exact absurd hf hfaults
      · exact hlife.mint hist hfresh heffect.1 heffect.2.2.tokens
  | revokeToken t actorSub correlationId clock =>
      obtain ⟨e | record, rfl, heffect⟩ := heffect
      · rcases heffect with hagrees | ⟨hf, -⟩
        · exact hsame (fun _ => rfl) (fun _ _ _ heq => nomatch heq.1) hagrees.tokens
        · exact absurd hf hfaults
      · exact hlife.revoke heffect
  | _ =>
      refine hsame (fun _ => rfl) (fun _ _ _ heq => nomatch heq.1) ?_
      rcases heffect.change.tokens with heq | ⟨_, _, _, heq, -⟩ | ⟨_, _, _, _, _, heq, -⟩
      · exact heq
      · exact nomatch heq
      · exact nomatch heq

/-- **A token record has a one-way lifecycle and is otherwise immutable.** After
every run of operations from empty stores without storage failures, on either
backend, and for every mint in it that succeeded, `get_token` returns the record
that the mint returned, but for `status` and `revoked_at`; these are `active` and
`None` until the first revocation of the token that succeeds, and `revoked` with its
time from then on. -/
theorem token_lifecycle (P : Platform) (st : Storage) {s₀ s : st.State} {h : OpHistory}
    (hfresh : st.Fresh s₀) (hsession : Session (st.exec P).graph (Op.prog P) s₀ h s)
    (hids : FreshIds False (h.map Prod.fst)) {request : MintRequest} {clock : Clock}
    {minted : MintedTokenResult}
    (hminted : (Op.mintToken request clock, .ok (.minted minted)) ∈ h)
    (actorSub : String) (correlationId : Option String) (clock' : Clock) :
    ∃ record, ((getToken request.tokenId actorSub correlationId clock').run (st.exec P) s).1
        = .ok record
      ∧ record.tokenId = minted.record.tokenId ∧ record.ownerSub = minted.record.ownerSub
      ∧ record.grantedGroups = minted.record.grantedGroups
      ∧ record.issuedAt = minted.record.issuedAt ∧ record.expiresAt = minted.record.expiresAt
      ∧ record.issuedBySub = minted.record.issuedBySub ∧ record.jwtHash = minted.record.jwtHash
      ∧ record.pendingReveal = minted.record.pendingReveal
      ∧ (record.status, record.revokedAt) = match firstRevocation request.tokenId h with
        | none => ("active", none)
        | some revokedAt => ("revoked", some revokedAt) := by
  obtain ⟨reg, hrep, -, -, hlife⟩ := runs_invariant False False
    (fun h reg => TokenHistory P h reg ∧ Lifecycle h reg) (FreshIds False)
    (fun _ _ hos => hos.tail) (fun o _ hos => hos.valid o List.mem_cons_self)
    (fun o h reg r reg' hos _ hkept heffect => ⟨tokenHistory_step hkept.1 hos id heffect,
      lifecycle_step hkept.2 hkept.1 hos id heffect⟩)
    (Storage.represents_fresh hfresh) Registry.sound_empty
    ⟨TokenHistory.empty P, Lifecycle.empty .empty⟩ (Storage.session_of_exec hsession) hids
  obtain ⟨hactive, hnone, hfind⟩ := hlife request clock minted hminted
  have hrun := Storage.runs_of_run (P := P) False
    (getToken request.tokenId actorSub correlationId clock') s
  obtain ⟨reg', -, hget⟩ := Prog.Runs.refine
    (Storage.implements (R := runRegime False False) (Storage.signsIn_runRegime st)) hrep
    (getToken_returns id hfind actorSub correlationId clock') hrun
  refine ⟨_, hget, ?_⟩
  cases firstRevocation request.tokenId h with
  | none => exact ⟨rfl, rfl, rfl, rfl, rfl, rfl, rfl, rfl, Prod.ext hactive hnone⟩
  | some revokedAt => exact ⟨rfl, rfl, rfl, rfl, rfl, rfl, rfl, rfl, rfl⟩

/-- `root` revokes the token of `teamDay`, and an hour later once more. -/
def revokedTwice : List Op :=
  [.revokeToken teamMint.tokenId "root" none
      ⟨⟨1767229200000000, by decide, by decide⟩, ⟨1767229200000000, by decide, by decide⟩⟩,
    .revokeToken teamMint.tokenId "root" none newYear] ++ teamDay

/-- The mint that an operation made, if it made one. -/
def mintedBy : Except PyError Value → Option MintedTokenResult
  | .ok (.minted minted) => some minted
  | _ => none

/-- The token carries the time of the first of two revocations. -/
theorem token_lifecycle_revokedTwice :
    ∃ record, ((getToken teamMint.tokenId "root" none newYear).run
        ((Storage.vault .python .inOrder).exec .python)
        (play ((Storage.vault .python .inOrder).exec .python) (Op.prog .python)
          VaultWorld.empty revokedTwice).2).1 = .ok record
      ∧ (record.status, record.revokedAt) = ("revoked", some newYear.now) := by
  have hids : FreshIds False revokedTwice := by
    refine ⟨fun o ho => ?_, by decide⟩
    rcases List.mem_append.mp ho with ho | ho
    · simp only [List.mem_cons, List.not_mem_nil, or_false] at ho
      rcases ho with rfl | rfl
      · exact trivial
      · exact trivial
    · exact validOps_teamDay o ho
  have hmint : ∃ minted, mintedBy (((Op.mintToken teamMint newYear).prog .python).run
      ((Storage.vault .python .inOrder).exec .python)
      (play ((Storage.vault .python .inOrder).exec .python) (Op.prog .python) VaultWorld.empty
        teamDay.tail).2).1 = some minted := Option.isSome_iff_exists.mp (by decide +kernel)
  obtain ⟨minted, hminted⟩ := hmint
  unfold mintedBy at hminted
  split at hminted
  · next out minted' hout =>
      have hfirst : firstRevocation teamMint.tokenId ((play
          ((Storage.vault .python .inOrder).exec .python) (Op.prog .python) VaultWorld.empty
          revokedTwice).1.map fun m => (m.op, m.outcome)) = some newYear.now := by decide +kernel
      have hmem : (Op.mintToken teamMint newYear, .ok (.minted minted')) ∈ (play
          ((Storage.vault .python .inOrder).exec .python) (Op.prog .python) VaultWorld.empty
          revokedTwice).1.map fun m => (m.op, m.outcome) := by
        rw [← hout]
        exact List.mem_cons_of_mem _ (List.mem_cons_of_mem _ List.mem_cons_self)
      obtain ⟨record, hget, -, -, -, -, -, -, -, -, hstatus⟩ := token_lifecycle .python
        (.vault .python .inOrder) fresh_vaultEmpty (play_trace _ revokedTwice).session
        (by rw [map_fst_play]; exact hids) hmem "root" none newYear
      refine ⟨record, hget, ?_⟩
      rw [hstatus, hfirst]
  · cases hminted

end GofrSec
