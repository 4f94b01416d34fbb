/-
What the token services and the authorization check do to the registry.

* `MintedRecord`: the record that a mint stores, as far as its request
  determines it;
* `mintToken_effect`, `getToken_effect`, `revokeToken_effect`,
  `listSelfTokens_effect`, `authorize_effect`: every run of the method under
  the repository contract stays within its `...Effect`;
* `Registry.Sound`: the ids and owners of the stored tokens are ones that the
  repositories may be handed again, as a revocation does.
-/
import GofrSec.Registry.Rules
import GofrSec.Services.MembershipSpecs
import GofrSec.Services.Runtime
import GofrSec.Services.Token

namespace GofrSec

open Calls Text Regime

variable {P : Platform} {R : Regime} {reg : Registry}

/-- The ids of the stored tokens have the shape of `uuid4().hex`, and their
owners are plain where subjects are. -/
def Registry.Sound (R : Regime) (reg : Registry) : Prop :=
  ∀ t record, reg.tokens.find t = some record → IsTokenId t ∧ (R.plain → IsSegment record.ownerSub)

/-! ### Minting -/

/-- The names that a mint grants: the normal forms of the requested ones, at least
one, each once, of an active group, and none of them `admin`. -/
def ValidGroups (P : Platform) (reg : Registry) (groups ns : List String) : Prop :=
  (∀ n, n ∈ ns ↔ ∃ name ∈ groups, normalizeGroupName P name = .ok n) ∧ "admin" ∉ ns
    ∧ (∀ n ∈ ns, reg.Active n) ∧ ns ≠ [] ∧ ns.Nodup

/-- The loop of `_validate_groups`. -/
lemma wp_lookUpGroups {seen names : List String}
    {Q : Except PyError (List String) → Registry → Prop}
    (hok : ∀ ns, (∀ n, n ∈ ns ↔ n ∈ names ∧ n ∉ seen) → (∀ n ∈ ns, reg.Active n) → ns.Nodup →
      Q (.ok ns) reg)
    (herr : ∀ e, Q (.error e) reg) : (lookUpGroups seen names).wp R.contract Q reg := by
  induction names generalizing seen Q with
  | nil => exact hok [] (by simp) (by simp) List.nodup_nil
  | cons g names ih =>
      rw [lookUpGroups]
      split_ifs with hseen
      · refine ih (fun ns hns => hok ns fun n => ?_) herr
        rw [hns, List.mem_cons]
        constructor
        · rintro ⟨hn, hnseen⟩
          exact ⟨Or.inr hn, hnseen⟩
        · rintro ⟨rfl | hn, hnseen⟩
          · exact absurd hseen hnseen
          · exact ⟨hn, hnseen⟩
      · rw [Prog.wp_bind, wp_groupGet]
        refine ⟨?_, fun _ e => herr e⟩
        rw [Prog.onReturn_ok]
        cases hg : reg.groups.find g with
        | none => exact herr _
        | some group =>
            dsimp only
            split_ifs with hactive
            · rw [Prog.wp_bind]
              refine ih (fun ns hns hactives hnodup => ?_) fun e => herr e
              refine hok (g :: ns) (fun n => ?_) ?_ ?_
              · rw [List.mem_cons, hns, List.mem_cons, List.mem_cons]
                constructor
                · rintro (rfl | ⟨hn, hnseen⟩)
                  · exact ⟨Or.inl rfl, hseen⟩
                  · exact ⟨Or.inr hn, fun h => hnseen (Or.inr h)⟩
                · rintro ⟨hn, hnseen⟩
                  by_cases heq : n = g
                  · exact Or.inl heq
                  · exact Or.inr ⟨hn.resolve_left heq, not_or.mpr ⟨heq, hnseen⟩⟩
              · intro n hn
                rcases List.mem_cons.mp hn with rfl | hn
                · exact ⟨group, hg, hactive⟩
                · exact hactives n hn
              · refine List.nodup_cons.mpr ⟨fun hmem => ?_, hnodup⟩
                exact ((hns g).mp hmem).2 List.mem_cons_self
            · exact herr _

lemma mem_of_mapM_normalizeGroupName {names ns : List String}
    (h : names.mapM (normalizeGroupName P) = .ok ns) (n : String) :
    n ∈ ns ↔ ∃ name ∈ names, normalizeGroupName P name = .ok n := by
  induction names generalizing ns with
  | nil =>
      obtain rfl : [] = ns := Except.ok.inj h
      simp
  | cons name names ih =>
      rw [List.mapM_cons] at h
      cases hname : normalizeGroupName P name with
      | error e =>
          rw [hname] at h
          exact nomatch h
      | ok m =>
          cases hrest : names.mapM (normalizeGroupName P) with
          | error e =>
              rw [hname, hrest] at h
              exact nomatch h
          | ok ms =>
              rw [hname, hrest] at h
              obtain rfl : m :: ms = ns := Except.ok.inj h
              simp [ih hrest, hname, eq_comm]

lemma wp_validateGroups {groups : List String}
    {Q : Except PyError (List String) → Registry → Prop}
    (hok : ∀ ns, ValidGroups P reg groups ns → Q (.ok ns) reg) (herr : ∀ e, Q (.error e) reg) :
    (validateGroups P groups).wp R.contract Q reg := by
  refine (Prog.wp_bind _ _ _ _).mpr ((Prog.wp_lift _ _ _).mpr ?_)
  cases hgroups : ensureRuntimeGroupsAllowed P groups with
  | error e => exact herr e
  | ok names =>
      obtain ⟨hmap, hadmin⟩ := ensureRuntimeGroupsAllowed_eq_ok hgroups
      rw [Prog.onReturn_ok]
      split_ifs with hempty
      · exact herr _
      · refine wp_lookUpGroups (fun ns hns hactive hnodup =>
          hok ns ⟨fun n => ?_, ?_, hactive, ?_, hnodup⟩) herr
        · rw [hns, and_iff_left (List.not_mem_nil)]
          exact mem_of_mapM_normalizeGroupName hmap n
        · exact fun h => hadmin ((hns _).mp h).1
        · rintro rfl
          refine hempty (List.eq_nil_iff_forall_not_mem.mpr fun n hn => ?_)
          exact List.not_mem_nil ((hns n).mpr ⟨hn, List.not_mem_nil⟩)

/-- The record that a mint stores. -/
structure MintedRecord (P : Platform) (reg : Registry) (request : MintRequest) (clock : Clock)
    (record : IssuedTokenRecord) : Prop where
  registered : (reg.profiles.find request.ownerSub).isSome
  positive : 0 < request.lifetimeSeconds
  tokenId : record.tokenId = request.tokenId
  ownerSub : record.ownerSub = request.ownerSub
  grantedGroups : ValidGroups P reg request.groups record.grantedGroups
  status : record.status = "active"
  issuedAt : record.issuedAt = clock.now
  expiresAt : ∃ t, record.expiresAt = some t
    ∧ t.micros = clock.now.micros + request.lifetimeSeconds * 1000000
  issuedBySub : record.issuedBySub = some request.actorSub
  revokedAt : record.revokedAt = none

/-- `mint_token` stores the record of its request for a registered owner, or
raises: without effect or, where storage may fail, also after it has stored the
record. -/
def MintTokenEffect (P : Platform) (R : Regime) (reg : Registry) (request : MintRequest)
    (clock : Clock) : Except PyError MintedTokenResult → Registry → Prop
  | .error _, reg' => reg'.Agrees reg ∨ R.faults ∧ ∃ record,
      MintedRecord P reg request clock record
        ∧ reg'.Agrees (RepoCall.effect (.tokenUpsert record) reg)
  | .ok minted, reg' => MintedRecord P reg request clock minted.record
      ∧ (reg.profiles.find request.ownerSub).isSome
      ∧ reg'.Agrees (RepoCall.effect (.tokenUpsert minted.record) reg)

/-- Every run of `mint_token` stays within its effect: the record is stored in one call, after
all the checks, so that only storage can raise once it is there. -/
theorem mintToken_effect (request : MintRequest) (clock : Clock)
    (hid : IsTokenId request.tokenId) (hplain : R.plain → IsSegment request.ownerSub) :
    (mintToken P request clock).wp R.contract (MintTokenEffect P R reg request clock) reg := by
  have hfail : ∀ e event, MintTokenEffect P R reg request clock (.error e) (reg.audit event) :=
    fun e event => Or.inl (reg.audit_agrees event)
  rw [mintToken, Prog.wp_bind]
  refine wp_audited ((Prog.wp_bind _ _ _ _).mpr ((wp_isRegistered _ _).mpr
    ⟨?_, fun _ e => hfail e⟩))
  rw [Prog.onReturn_ok]
  by_cases hregistered : (reg.profiles.find request.ownerSub).isSome
  swap
  · rw [if_neg hregistered]
    exact hfail _
  rw [if_pos hregistered, Prog.wp_bind]
  refine wp_validateGroups (fun ns hns => ?_) hfail
  rw [Prog.onReturn_ok]
  by_cases hlifetime : request.lifetimeSeconds ≤ 0
  · rw [if_pos hlifetime]
    exact hfail _
  rw [if_neg hlifetime, Prog.wp_bind, Prog.wp_lift]
  cases hexpires : clock.now.addSeconds request.lifetimeSeconds with
  | error e => exact hfail e
  | ok expiresAt =>
      rw [Prog.onReturn_ok, Prog.wp_bind, wp_signToken]
      refine ⟨fun answer _ => ?_, fun _ e => hfail e⟩
      cases answer with
      | error e => exact hfail e
      | ok rawToken =>
          rw [Prog.onReturn_ok, Prog.wp_bind, Prog.wp_lift]
          cases jwtHash P rawToken with
          | error e => exact hfail e
          | ok hash =>
              have hminted : MintedRecord P reg request clock
                  { tokenId := request.tokenId
                    ownerSub := request.ownerSub
                    grantedGroups := ns
                    status := "active"
                    issuedAt := clock.now
                    expiresAt := some expiresAt
                    issuedBySub := some request.actorSub
                    jwtHash := some hash
                    pendingReveal := false
                    revokedAt := none } :=
                ⟨hregistered, not_le.mp hlifetime, rfl, rfl, hns, rfl, rfl,
                  ⟨expiresAt, rfl, DateTime.addSeconds_eq_ok hexpires⟩, rfl, rfl⟩
              rw [Prog.onReturn_ok, Prog.wp_bind, wp_tokenUpsert]
              refine ⟨⟨hid, hplain⟩, ?_, fun hf e => ⟨hfail e, fun event => ?_⟩⟩
              · exact fun event => ⟨hminted, hregistered, Registry.audit_agrees _ event⟩
              · exact Or.inr ⟨hf, _, hminted, Registry.audit_agrees _ event⟩

/-! ### Inspecting, listing and revoking -/

/-- The lookup of a token that must be there. -/
lemma wp_getTokenOrRaise (t : String) {Q : Except PyError IssuedTokenRecord → Registry → Prop}
    (hok : ∀ record, reg.tokens.find t = some record → Q (.ok record) reg)
    (hnone : reg.tokens.find t = none → ∀ e, Q (.error e) reg)
    (herr : R.faults → ∀ e, Q (.error e) reg) :
    (getTokenOrRaise t).wp R.contract Q reg := by
  rw [getTokenOrRaise, Prog.wp_bind, wp_tokenGet]
  refine ⟨?_, fun hf e => herr hf e⟩
  rw [Prog.onReturn_ok]
  cases ht : reg.tokens.find t with
  | none => exact hnone ht _
  | some record => exact hok record ht

/-- `get_token` returns the stored record and changes nothing. -/
def GetTokenEffect (reg : Registry) (t : String) :
    Except PyError IssuedTokenRecord → Registry → Prop
  | .error _, reg' => reg'.Agrees reg
  | .ok record, reg' => reg.tokens.find t = some record ∧ reg'.Agrees reg

/-- Every run of `get_token` returns the stored record or raises, and changes nothing. -/
theorem getToken_effect (t actorSub : String) (correlationId : Option String) (clock : Clock) :
    (getToken t actorSub correlationId clock).wp R.contract (GetTokenEffect reg t) reg := by
  refine wp_audited (wp_getTokenOrRaise t ?_ ?_ ?_)
  · exact fun record hrecord event => ⟨hrecord, reg.audit_agrees event⟩
  · exact fun _ e event => reg.audit_agrees event
  · exact fun _ e event => reg.audit_agrees event

/-- While storage does not fail, `get_token` returns the record of a stored token. -/
theorem getToken_returns (hfaults : ¬ R.faults) {t : String} {record : IssuedTokenRecord}
    (hfind : reg.tokens.find t = some record) (actorSub : String) (correlationId : Option String)
    (clock : Clock) :
    (getToken t actorSub correlationId clock).wp R.contract (fun r _ => r = .ok record) reg := by
  refine wp_audited (wp_getTokenOrRaise t ?_ ?_ fun hf => absurd hf hfaults)
  · exact fun record' hrecord _ => congrArg _ (Option.some.inj (hrecord.symm.trans hfind))
  · exact fun hnone => nomatch hnone.symm.trans hfind

/-- `revoke_token` puts the revoked copy of a stored record in its place, leaves
a revoked record as it is, or raises: without effect or, where storage may fail,
also after it has stored the copy. -/
def RevokeTokenEffect (R : Regime) (reg : Registry) (t : String) (clock : Clock) :
    Except PyError IssuedTokenRecord → Registry → Prop
  | .error _, reg' => reg'.Agrees reg ∨ R.faults ∧ ∃ current,
      reg.tokens.find t = some current
        ∧ reg'.Agrees (RepoCall.effect (.tokenUpsert (revokedRecord current clock.now)) reg)
  | .ok record, reg' => ∃ current, reg.tokens.find t = some current
      ∧ (current.status = "revoked" ∧ record = current ∧ reg'.Agrees reg
        ∨ current.status ≠ "revoked" ∧ record = revokedRecord current clock.now
          ∧ reg'.Agrees (RepoCall.effect (.tokenUpsert record) reg))

/-- Every run of `revoke_token` stays within its effect: that the records stand under their own
ids makes the copy that it stores take the place of the record that it has read. -/
theorem revokeToken_effect (hsound : reg.Sound R) (t actorSub : String)
    (correlationId : Option String) (clock : Clock) :
    (revokeToken t actorSub correlationId clock).wp R.contract
      (RevokeTokenEffect R reg t clock) reg := by
  have hfail : ∀ e event, RevokeTokenEffect R reg t clock (.error e) (reg.audit event) :=
    fun e event => Or.inl (reg.audit_agrees event)
  refine wp_audited ((Prog.wp_bind _ _ _ _).mpr (wp_getTokenOrRaise t (fun current hcurrent => ?_)
    (fun _ e => hfail e) fun _ e => hfail e))
  rw [Prog.onReturn_ok]
  split_ifs with hrevoked
  · exact fun event => ⟨current, hcurrent, Or.inl ⟨hrevoked, rfl, reg.audit_agrees event⟩⟩
  · have hid : current.tokenId = t := reg.tokens.key_eq _ _ hcurrent
    rw [wp_tokenUpsert]
    refine ⟨?_, ?_, fun hf e => ⟨hfail e, fun event => ?_⟩⟩
    · rw [show (revokedRecord current clock.now).tokenId = t from hid]
      exact hsound t current hcurrent
    · exact fun event => ⟨current, hcurrent,
        Or.inr ⟨hrevoked, rfl, Registry.audit_agrees _ event⟩⟩
    · exact Or.inr ⟨hf, current, hcurrent, Registry.audit_agrees _ event⟩

/-- `list_self_tokens` changes nothing. -/
theorem listSelfTokens_effect (identity : VerifiedIdentity) (correlationId : Option String)
    (clock : Clock) (hplain : R.plain → IsSegment identity.subject) :
    (listSelfTokens identity correlationId clock).wp R.contract
      (fun _ reg' => reg'.Agrees reg) reg := by
  refine wp_audited ((Prog.wp_bind _ _ _ _).mpr ((wp_tokensForUser _ _).mpr
    ⟨hplain, fun records _ event => ?_, fun _ e event => ?_⟩))
  · exact reg.audit_agrees event
  · exact reg.audit_agrees event

/-! ### Authorization -/

/-- `authorize` decides on the stored record, changes nothing, and raises only
where storage may fail. -/
def AuthorizeEffect (R : Regime) (reg : Registry) (request : AuthorizationRequest)
    (clock : Clock) (r : Except PyError AuthorizationDecision) (reg' : Registry) : Prop :=
  reg'.Agrees reg ∧ match r with
    | .error _ => R.faults
    | .ok decision => decision.allowed
        = (reg.tokens.find request.tokenId).any fun record => permits request clock.now record

/-- Every run of `authorize` stays within its effect: it decides by the one record that it
reads. -/
theorem authorize_effect (request : AuthorizationRequest) (correlationId : Option String)
    (clock : Clock) :
    (authorize request correlationId clock).wp R.contract
      (AuthorizeEffect R reg request clock) reg := by
  rw [authorize, Prog.wp_bind]
  refine wp_audited ((Prog.wp_bind _ _ _ _).mpr ((wp_tokenGet _ _).mpr ⟨?_, ?_⟩))
  · rw [Prog.onReturn_ok]
    cases hfind : reg.tokens.find request.tokenId with
    | none =>
        refine fun event => ⟨reg.audit_agrees event, ?_⟩
        rw [hfind]
        rfl
    | some record =>
        refine fun event => ⟨reg.audit_agrees event, ?_⟩
        rw [hfind]
        rfl
  · exact fun hf e event => ⟨reg.audit_agrees event, hf⟩

end GofrSec
