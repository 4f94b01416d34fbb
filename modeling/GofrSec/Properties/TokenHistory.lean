/-
Authorization is what the history of the tokens says.

* `Op.MintedIn`, `Op.RevokedIn`: a history holds a successful mint, or a
  successful revocation, of a token;
* `TokenHistory`: the stored tokens are those minted in the history, each with
  the owner, the groups and the expiry of its mint, and revoked exactly when
  the history revokes it; every operation keeps it (`tokenHistory_step`);
* `authorize_allowed_iff`: after every session from empty stores, on either
  backend, the decision on every request is the one the history gives.
-/
import GofrSec.Services.Runs

namespace GofrSec

open Calls

/-- A mint succeeded. -/
def MintedIn (h : OpHistory) (request : MintRequest) (clock : Clock) : Prop :=
  ∃ v, (Op.mintToken request clock, .ok v) ∈ h

/-- A revocation of the token succeeded. -/
def RevokedIn (h : OpHistory) (t : String) : Prop :=
  ∃ actorSub correlationId clock v, (Op.revokeToken t actorSub correlationId clock, .ok v) ∈ h

/-- The callers grant what the operations need, and `uuid4` draws each token id
once. -/
structure FreshIds (plain : Prop) (ops : List Op) : Prop where
  valid : ∀ o ∈ ops, o.Valid plain
  nodup : (ops.filterMap Op.mintId).Nodup

lemma FreshIds.tail {plain : Prop} {o : Op} {ops : List Op} (h : FreshIds plain (o :: ops)) :
    FreshIds plain ops := by
  refine ⟨fun o' ho' => h.valid o' (List.mem_cons_of_mem _ ho'), ?_⟩
  exact h.nodup.sublist (List.Sublist.filterMap _ (List.sublist_cons_self _ _))

/-- The record has the owner, the groups and the expiry of its mint. -/
def Grants (P : Platform) (request : MintRequest) (clock : Clock) (record : IssuedTokenRecord) :
    Prop :=
  record.ownerSub = request.ownerSub
    ∧ (∀ n, n ∈ record.grantedGroups ↔ ∃ name ∈ request.groups, normalizeGroupName P name = .ok n)
    ∧ ∃ t, record.expiresAt = some t
      ∧ t.micros = clock.now.micros + request.lifetimeSeconds * 1000000

/-- The stored tokens are what the history makes them. -/
structure TokenHistory (P : Platform) (h : OpHistory) (reg : Registry) : Prop where
  stored : ∀ request clock, MintedIn h request clock → ∃ record,
    reg.tokens.find request.tokenId = some record ∧ Grants P request clock record
      ∧ (record.status = "active" ∧ ¬ RevokedIn h request.tokenId
        ∨ record.status = "revoked" ∧ RevokedIn h request.tokenId)
  minted : ∀ t record, reg.tokens.find t = some record →
    ∃ request clock, MintedIn h request clock ∧ request.tokenId = t
  revoked : ∀ t, RevokedIn h t → ∃ record, reg.tokens.find t = some record

variable {P : Platform} {R : Regime} {reg reg' : Registry} {h : OpHistory} {o : Op}
  {r : Except PyError Value}

lemma mintedIn_cons {request : MintRequest} {clock : Clock} :
    MintedIn ((o, r) :: h) request clock
      ↔ (∃ v, o = .mintToken request clock ∧ r = .ok v) ∨ MintedIn h request clock := by
  simp only [MintedIn, List.mem_cons, Prod.mk.injEq, exists_or]
  refine or_congr_left (exists_congr fun v => ?_)
  rw [eq_comm, and_congr_right_iff]
  exact fun _ => eq_comm

lemma revokedIn_cons {t : String} :
    RevokedIn ((o, r) :: h) t ↔ (∃ actorSub correlationId clock v,
      o = .revokeToken t actorSub correlationId clock ∧ r = .ok v) ∨ RevokedIn h t := by
  simp only [RevokedIn, List.mem_cons, Prod.mk.injEq, exists_or]
  refine or_congr_left ?_
  simp only [eq_comm]

/-- The token of a mint was not stored before. -/
lemma TokenHistory.fresh (hist : TokenHistory P h reg) {request : MintRequest} {clock : Clock}
    {plain : Prop} (hfresh : FreshIds plain (.mintToken request clock :: h.map Prod.fst)) :
    reg.tokens.find request.tokenId = none := by
  cases hfind : reg.tokens.find request.tokenId with
  | none => rfl
  | some record =>
      obtain ⟨request', clock', ⟨v, hmem⟩, hid⟩ := hist.minted _ record hfind
      have hnodup : (request.tokenId :: (h.map Prod.fst).filterMap Op.mintId).Nodup :=
        hfresh.nodup
      refine absurd (List.mem_filterMap.mpr ⟨_, List.mem_map.mpr ⟨_, hmem, rfl⟩, ?_⟩)
        (List.nodup_cons.mp hnodup).1
      exact congrArg some hid

/-- Nothing has been minted at the start. -/
lemma TokenHistory.empty (P : Platform) : TokenHistory P [] .empty where
  stored _ _ hm := by simp [MintedIn] at hm
  minted _ _ hfind := nomatch hfind
  revoked _ hr := by simp [RevokedIn] at hr

/-- An operation that neither mints nor revokes keeps the history of tokens. -/
lemma TokenHistory.congr {h' : OpHistory} (hist : TokenHistory P h reg)
    (hminted : ∀ request clock, MintedIn h' request clock ↔ MintedIn h request clock)
    (hrevoked : ∀ t, RevokedIn h' t ↔ RevokedIn h t) (htokens : reg'.tokens = reg.tokens) :
    TokenHistory P h' reg' := by
  refine ⟨fun request clock hm => ?_, fun t record hfind => ?_, fun t ht => ?_⟩
  · rw [htokens, hrevoked]
    exact hist.stored request clock ((hminted _ _).mp hm)
  · rw [htokens] at hfind
    obtain ⟨request, clock, hm, hid⟩ := hist.minted t record hfind
    exact ⟨request, clock, (hminted _ _).mpr hm, hid⟩
  · rw [htokens]
    exact hist.revoked t ((hrevoked t).mp ht)

/-- A successful mint. -/
lemma TokenHistory.mint (hist : TokenHistory P h reg) {request : MintRequest} {clock : Clock}
    {v : Value} {record : IssuedTokenRecord} {plain : Prop}
    (hfresh : FreshIds plain (.mintToken request clock :: h.map Prod.fst))
    (hrecord : MintedRecord P reg request clock record)
    (htokens : reg'.tokens = reg.tokens.insert record) :
    TokenHistory P ((.mintToken request clock, .ok v) :: h) reg' := by
  have hnone := hist.fresh hfresh
  have hfind : ∀ t, reg'.tokens.find t
      = if t = request.tokenId then some record else reg.tokens.find t := by
    intro t
    rw [htokens, Keyed.find_insert, hrecord.tokenId]
  have hrevoked : ∀ t, RevokedIn ((.mintToken request clock, .ok v) :: h) t ↔ RevokedIn h t := by
    intro t
    simp [revokedIn_cons]
  refine ⟨fun request' clock' hm => ?_, fun t record' hfind' => ?_, fun t ht => ?_⟩
  · rw [hfind, hrevoked]
    rcases mintedIn_cons.mp hm with ⟨v', heq, -⟩ | hm
    · obtain ⟨rfl, rfl⟩ := Op.mintToken.inj heq
      rw [if_pos rfl]
      refine ⟨record, rfl, ⟨hrecord.ownerSub, hrecord.grantedGroups.1, hrecord.expiresAt⟩,
        Or.inl ⟨hrecord.status, fun hrev => ?_⟩⟩
      obtain ⟨old, hold⟩ := hist.revoked _ hrev
      exact nomatch hnone.symm.trans hold
    · obtain ⟨old, hold, hrest⟩ := hist.stored request' clock' hm
      have hne : request'.tokenId ≠ request.tokenId := by
        intro heq
        rw [heq, hnone] at hold
        exact nomatch hold
      rw [if_neg hne]
      exact ⟨old, hold, hrest⟩
  · rw [hfind] at hfind'
    split_ifs at hfind' with ht
    · exact ⟨request, clock, mintedIn_cons.mpr (Or.inl ⟨v, rfl, rfl⟩), ht.symm⟩
    · obtain ⟨request', clock', hm, hid⟩ := hist.minted t record' hfind'
      exact ⟨request', clock', mintedIn_cons.mpr (Or.inr hm), hid⟩
  · rw [hfind]
    split_ifs with heq
    · exact ⟨record, rfl⟩
    · exact hist.revoked t ((hrevoked t).mp ht)

/-- A successful revocation of a token that was active. -/
lemma TokenHistory.revoke (hist : TokenHistory P h reg) {t actorSub : String}
    {correlationId : Option String} {clock : Clock} {v : Value} {current : IssuedTokenRecord}
    (hcurrent : reg.tokens.find t = some current)
    (htokens : reg'.tokens = reg.tokens.insert (revokedRecord current clock.now)) :
    TokenHistory P ((.revokeToken t actorSub correlationId clock, .ok v) :: h) reg' := by
  have hid : current.tokenId = t := reg.tokens.key_eq _ _ hcurrent
  have hfind : ∀ s, reg'.tokens.find s
      = if s = t then some (revokedRecord current clock.now) else reg.tokens.find s := by
    intro s
    rw [htokens, Keyed.find_insert, show (revokedRecord current clock.now).tokenId = t from hid]
  have hminted : ∀ request clock', MintedIn
      ((.revokeToken t actorSub correlationId clock, .ok v) :: h) request clock'
        ↔ MintedIn h request clock' := by
    intro request clock'
    simp [mintedIn_cons]
  have hrevoked : ∀ s, RevokedIn ((.revokeToken t actorSub correlationId clock, .ok v) :: h) s
      ↔ s = t ∨ RevokedIn h s := by
    intro s
    rw [revokedIn_cons]
    refine or_congr_left ⟨?_, ?_⟩
    · rintro ⟨_, _, _, _, heq, -⟩
      exact (Op.revokeToken.inj heq).1.symm
    · rintro rfl
      exact ⟨_, _, _, _, rfl, rfl⟩
  refine ⟨fun request clock' hm => ?_, fun s record hfind' => ?_, fun s hs => ?_⟩
  · obtain ⟨record, hrecord, hgrants, hstatus⟩ := hist.stored request clock' ((hminted _ _).mp hm)
    rw [hfind, hrevoked]
    by_cases heq : request.tokenId = t
    · rw [if_pos heq]
      rw [heq] at hrecord
      obtain rfl := Option.some.inj (hcurrent.symm.trans hrecord)
      exact ⟨_, rfl, hgrants, Or.inr ⟨rfl, Or.inl heq⟩⟩
    · rw [if_neg heq]
      refine ⟨record, hrecord, hgrants, ?_⟩
      simpa [heq] using hstatus
  · rw [hfind] at hfind'
    simp only [hminted]
    split_ifs at hfind' with hs
    · rw [hs]
      exact hist.minted t current hcurrent
    · exact hist.minted s record hfind'
  · rw [hfind]
    split_ifs with heq
    · exact ⟨_, rfl⟩
    · exact hist.revoked s (((hrevoked s).mp hs).resolve_left heq)

/-- **One operation keeps the history of tokens**, while storage does not fail. -/
theorem tokenHistory_step (hist : TokenHistory P h reg)
    (hfresh : FreshIds R.plain (o :: h.map Prod.fst)) (hfaults : ¬ R.faults)
    (heffect : o.Effect P R reg r reg') : TokenHistory P ((o, r) :: h) reg' := by
  -- an operation of another kind adds an event that says nothing about tokens
  have hother : (∀ request clock, o ≠ .mintToken request clock) →
      (∀ t a c clock, o ≠ .revokeToken t a c clock) → TokenHistory P ((o, r) :: h) reg' := by
    intro hmint hrevoke
    refine hist.congr (fun request clock => ?_) (fun t => ?_) ?_
    · rw [mintedIn_cons, or_iff_right]
      rintro ⟨v, heq, -⟩
      exact hmint _ _ heq
    · rw [revokedIn_cons, or_iff_right]
      rintro ⟨a, c, clock, v, heq, -⟩
      exact hrevoke _ _ _ _ heq
    · rcases heffect.change.tokens with heq | ⟨request, clock, _, heq, -⟩ |
        ⟨t, a, c, clock, _, heq, -⟩
      · exact heq
      · exact absurd heq (hmint _ _)
      · exact absurd heq (hrevoke _ _ _ _)
  -- neither does one that raised, as long as it took no effect
  have hraised : ∀ e, r = .error e → reg'.tokens = reg.tokens →
      TokenHistory P ((o, r) :: h) reg' := by
    rintro e rfl htokens
    refine hist.congr (fun request clock => ?_) (fun t => ?_) htokens
    · simp [mintedIn_cons]
    · simp [revokedIn_cons]
  cases o with
  | mintToken request clock =>
      obtain ⟨e | minted, rfl, heffect⟩ := heffect
      · rcases heffect with hagrees | ⟨hf, -⟩
        · exact hraised e rfl hagrees.tokens
        · exact absurd hf hfaults
      · exact hist.mint hfresh heffect.1 heffect.2.2.tokens
  | revokeToken t actorSub correlationId clock =>
      obtain ⟨e | record, rfl, heffect⟩ := heffect
      · rcases heffect with hagrees | ⟨hf, -⟩
        · exact hraised e rfl hagrees.tokens
        · exact absurd hf hfaults
      · obtain ⟨current, hcurrent, ⟨hrevoked, -, hagrees⟩ | ⟨-, rfl, hagrees⟩⟩ := heffect
        · -- it had been revoked before
          obtain ⟨request, mclock, hm, rfl⟩ := hist.minted t current hcurrent
          obtain ⟨record', hrecord', -, hstatus⟩ := hist.stored request mclock hm
          obtain rfl := Option.some.inj (hcurrent.symm.trans hrecord')
          have hbefore : RevokedIn h request.tokenId := by
            rcases hstatus with ⟨hactive, -⟩ | ⟨-, hrev⟩
            · rw [hrevoked] at hactive
              exact absurd hactive (by decide)
            · exact hrev
          refine hist.congr (fun request' clock' => ?_) (fun s => ?_) hagrees.tokens
          · simp [mintedIn_cons]
          · rw [revokedIn_cons, or_iff_right_of_imp]
            rintro ⟨_, _, _, _, heq, -⟩
            rw [← (Op.revokeToken.inj heq).1]
            exact hbefore
        · exact hist.revoke hcurrent hagrees.tokens
  | _ => exact hother (fun _ _ h0 => nomatch h0) (fun _ _ _ _ h0 => nomatch h0)

/-! ### The decision -/

/-- The history decides every request as the stored record does. -/
lemma TokenHistory.decides (hist : TokenHistory P h reg) (request : AuthorizationRequest)
    (now : DateTime) :
    ((reg.tokens.find request.tokenId).any fun record => permits request now record) ↔
      ∃ mint mclock, MintedIn h mint mclock ∧ mint.tokenId = request.tokenId
        ∧ request.ownerSub = some mint.ownerSub
        ∧ (∃ target, requiredPermission request = some target ∧ target ≠ ""
            ∧ ∃ name ∈ mint.groups, normalizeGroupName P name = .ok target)
        ∧ now.micros < mclock.now.micros + mint.lifetimeSeconds * 1000000
        ∧ ¬ RevokedIn h request.tokenId := by
  constructor
  · intro hany
    cases hfind : reg.tokens.find request.tokenId with
    | none => simp [hfind] at hany
    | some record =>
        rw [hfind, Option.any_some] at hany
        obtain ⟨target, htarget, hne, howner, hactive, hexpiry, hgroup⟩ := permits_iff.mp hany
        obtain ⟨mint, mclock, hm, hid⟩ := hist.minted _ record hfind
        obtain ⟨record', hrecord', ⟨hsub, hgroups, t, ht, hmicros⟩, hstatus⟩ :=
          hist.stored mint mclock hm
        rw [hid] at hrecord' hstatus
        obtain rfl := Option.some.inj (hfind.symm.trans hrecord')
        refine ⟨mint, mclock, hm, hid, ?_, ⟨target, htarget, hne, (hgroups target).mp hgroup⟩,
          ?_, ?_⟩
        · rw [howner, hsub]
        · rw [← hmicros]
          exact hexpiry t ht
        · rcases hstatus with ⟨-, hnot⟩ | ⟨hrevoked, -⟩
          · exact hnot
          · rw [hrevoked] at hactive
            exact absurd hactive (by decide)
  · rintro ⟨mint, mclock, hm, hid, howner, ⟨target, htarget, hne, hgroup⟩, hexpiry, hnot⟩
    obtain ⟨record, hrecord, ⟨hsub, hgroups, t, ht, hmicros⟩, hstatus⟩ := hist.stored mint mclock hm
    rw [hid] at hrecord hstatus
    rw [hrecord, Option.any_some]
    refine permits_iff.mpr
      ⟨target, htarget, hne, ?_, ?_, fun t' ht' => ?_, (hgroups target).mpr hgroup⟩
    · rw [howner, hsub]
    · exact (hstatus.resolve_right fun hrev => hnot hrev.2).1
    · obtain rfl := Option.some.inj (ht.symm.trans ht')
      rw [DateTime.lt_def, hmicros]
      exact hexpiry

/-- After a session from empty stores the tokens are what the history makes them. -/
lemma tokenHistory_session {st : Storage} {s₀ s : st.State} (hfresh : st.Fresh s₀)
    (hsession : Session (st.exec P).graph (Op.prog P) s₀ h s)
    (hids : FreshIds False (h.map Prod.fst)) :
    ∃ reg, st.Represents P (runRegime False False) s reg ∧ TokenHistory P h reg := by
  obtain ⟨reg, hrep, -, hist⟩ := runs_invariant False False (TokenHistory P)
    (FreshIds False) (fun _ _ hos => hos.tail) (fun o _ hos => hos.valid o List.mem_cons_self)
    (fun o h reg r reg' hos _ hist heffect => tokenHistory_step hist hos id heffect)
    (Storage.represents_fresh hfresh) Registry.sound_empty (TokenHistory.empty P)
    (Storage.session_of_exec hsession) hids
  exact ⟨reg, hrep, hist⟩

/-- An authorization decides on the record of the registry. -/
lemma authorize_run {st : Storage} {s : st.State}
    (hrep : st.Represents P (runRegime False False) s reg) (request : AuthorizationRequest)
    (correlationId : Option String) (clock : Clock) :
    ((authorize request correlationId clock).run (st.exec P) s).1
      = .ok { allowed := (reg.tokens.find request.tokenId).any fun record =>
          permits request clock.now record } := by
  have hrun := Storage.runs_of_run (P := P) False (authorize request correlationId clock) s
  obtain ⟨reg', -, hagrees, hdecision⟩ := Prog.Runs.refine
    (Storage.implements (R := runRegime False False) (Storage.signsIn_runRegime st)) hrep
    (authorize_effect request correlationId clock) hrun
  cases hout : ((authorize request correlationId clock).run (st.exec P) s).1 with
  | error e =>
      rw [hout] at hdecision
      exact hdecision.elim
  | ok decision =>
      rw [hout] at hdecision
      obtain ⟨allowed⟩ := decision
      rw [← show allowed = _ from hdecision]

/-- **Authorization is exactly what the history says.** After every session of
operations from empty stores without storage failures, on either backend,
`authorize` allows a request exactly when an earlier mint succeeded with that
token id for that owner, the target of the request is a non-empty normal form of
one of its group names, the mint's lifetime has not run out, and no revocation
of the token has succeeded. -/
theorem authorize_allowed_iff (P : Platform) (st : Storage) {s₀ s : st.State} {h : OpHistory}
    (hfresh : st.Fresh s₀) (hsession : Session (st.exec P).graph (Op.prog P) s₀ h s)
    (hids : FreshIds False (h.map Prod.fst)) (request : AuthorizationRequest)
    (correlationId : Option String) (clock : Clock) :
    ((authorize request correlationId clock).run (st.exec P) s).1 = .ok { allowed := true } ↔
      ∃ mint mclock, MintedIn h mint mclock ∧ mint.tokenId = request.tokenId
        ∧ request.ownerSub = some mint.ownerSub
        ∧ (∃ target, requiredPermission request = some target ∧ target ≠ ""
            ∧ ∃ name ∈ mint.groups, normalizeGroupName P name = .ok target)
        ∧ clock.now.micros < mclock.now.micros + mint.lifetimeSeconds * 1000000
        ∧ ¬ RevokedIn h request.tokenId := by
  obtain ⟨reg, hrep, hist⟩ := tokenHistory_session hfresh hsession hids
  rw [← hist.decides, authorize_run hrep, Except.ok.injEq, AuthorizationDecision.mk.injEq]

/-- A minute after midnight the token that `teamDay` minted is still good for
`team`. -/
theorem authorize_allowed_teamDay :
    ((authorize
      { tokenId := "0123456789abcdef0123456789abcdef"
        ownerSub := some "alice"
        requestedGroup := some "team"
        requestedResource := none } none newYear).run
      ((Storage.vault .python .inOrder).exec .python)
      (play ((Storage.vault .python .inOrder).exec .python) (Op.prog .python)
        VaultWorld.empty teamDay).2).1 = .ok { allowed := true } := by
  have hids : FreshIds False teamDay := ⟨validOps_teamDay, by decide⟩
  refine (authorize_allowed_iff .python (.vault .python .inOrder) fresh_vaultEmpty
    (play_trace _ teamDay).session ?_ _ none newYear).mpr
    ⟨teamMint, newYear, ?_, rfl, rfl, ⟨"team", rfl, by decide, "team", by decide,
      normalizeGroupName_self _ (by decide)⟩, by decide, ?_⟩
  · rw [map_fst_play]
    exact hids
  · exact mem_play_of_isOk (by decide +kernel)
  · rintro ⟨_, _, _, _, hmem⟩
    have hop := List.mem_map_of_mem (f := Prod.fst) hmem
    rw [map_fst_play] at hop
    simp [teamDay, teamWork] at hop

end GofrSec
