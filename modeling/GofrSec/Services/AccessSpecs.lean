/-
The service methods as commands of the access control.

While storage does not fail and subjects are plain, every service method ends as the
attempt of a command does, on the access control that the registry holds:
`createGroup_follows`, `addMembership_follows`, `removeMembership_follows`,
`mintToken_follows`, `getToken_follows`, `revokeToken_follows`, `registerSelf_follows`,
`getSelfProfile_follows`, `listSelfTokens_follows`, `authorize_follows`, and
`applyPlan_boots` for a start-up.
-/
import GofrSec.Services.AccessView
import GofrSec.Services.MintOutcomes

namespace GofrSec

open Calls Text Regime

variable {P : Platform} {R : Regime} {reg : Registry}

/-- The group that a text names. -/
def groupNamed (P : Platform) (name : String) : Option String :=
  (normalizeGroupName P name).toOption

/-- A text that names no group is malformed. -/
lemma groupNamed_error {name : String} {e : PyError} (h : normalizeGroupName P name = .error e) :
    groupNamed P name = none := by
  rw [groupNamed, h]
  rfl

lemma groupNamed_ok {name n : String} (h : normalizeGroupName P name = .ok n) :
    groupNamed P name = some n := by
  rw [groupNamed, h]
  rfl

/-! ### Groups -/

/-- A creation ends as the definition of a group. -/
theorem createGroup_follows (hfaults : ¬ R.faults) (hfit : reg.Fit R) (name : String)
    (description : Option String) (actorSub : String) (correlationId : Option String)
    (clock : Clock) :
    (createGroup P name description actorSub correlationId clock).wp R.contract
      (Follows R createGroupStatus groupBody reg (reg.access.define "admin" (groupNamed P name)))
      reg := by
  refine follows_audited ((Prog.wp_bind _ _ _ _).mpr ((Prog.wp_lift _ _ _).mpr ?_))
  cases hname : normalizeGroupName P name with
  | error e =>
      obtain ⟨m, rfl⟩ := normalizeGroupName_error hname
      rw [groupNamed_error hname]
      exact ⟨.refl reg, rfl⟩
  | ok n =>
      have hn := (normalizeGroupName_eq_ok hname).1
      rw [groupNamed_ok hname, Prog.onReturn_ok, isReservedGroup_self P hn, Prog.wp_bind,
        Prog.wp_lift, Prog.onReturn_ok]
      split_ifs with hreserved
      · exact ⟨.refl reg, AccessControl.define_taken (Or.inl (of_decide_eq_true hreserved))⟩
      · have hroot : n ≠ "admin" := fun h => hreserved (decide_eq_true h)
        rw [Prog.wp_bind, wp_groupGet]
        refine ⟨?_, fun hf => absurd hf hfaults⟩
        rw [Prog.onReturn_ok]
        split_ifs with htaken
        · exact ⟨.refl reg, AccessControl.define_taken (Or.inr htaken)⟩
        · rw [wp_groupUpsert]
          refine ⟨⟨⟨hfit.presentable.groupUpsert rfl, hfit.sound⟩, _, rfl, ?_⟩,
            fun hf => absurd hf hfaults⟩
          rw [Registry.access_groupUpsert]
          exact AccessControl.define_free hroot htaken

/-! ### Members -/

/-- The group that a membership method names is there, or it raises. -/
lemma wp_requireDefined (hfaults : ¬ R.faults) (hfit : reg.Fit R) (g : String)
    {Q : Except PyError GroupDefinition → Registry → Prop}
    (hok : ∀ group, g ∈ reg.access.groups → Q (.ok group) reg)
    (hmissing : ∀ m, g ∉ reg.access.groups → Q (.error (.groupNotFound m)) reg) :
    (requireActiveGroup g).wp R.contract Q reg := by
  rw [requireActiveGroup, Prog.wp_bind, wp_groupGet]
  refine ⟨?_, fun hf => absurd hf hfaults⟩
  rw [Prog.onReturn_ok]
  cases hg : reg.groups.find g with
  | none =>
      refine hmissing _ fun h => ?_
      obtain ⟨group, hgroup⟩ := Option.isSome_iff_exists.mp h
      cases hg.symm.trans hgroup
  | some group =>
      dsimp only
      rw [if_pos (hfit.presentable.groups g group hg)]
      exact hok group (Option.isSome_iff_exists.mpr ⟨group, hg⟩)

/-- An added membership ends as an enrolment. -/
theorem addMembership_follows (hfaults : ¬ R.faults) (hfit : reg.Fit R) (u g actorSub : String)
    (correlationId : Option String) (clock : Clock) (hplain : R.plain → IsSegment u) :
    (addMembership P u g actorSub correlationId clock).wp R.contract
      (Follows R addMembershipStatus membershipBody reg
        (reg.access.enrol u (groupNamed P g))) reg := by
  refine follows_audited ((Prog.wp_bind _ _ _ _).mpr ((Prog.wp_lift _ _ _).mpr ?_))
  cases hname : normalizeGroupName P g with
  | error e =>
      obtain ⟨m, rfl⟩ := normalizeGroupName_error hname
      rw [groupNamed_error hname]
      exact ⟨.refl reg, rfl⟩
  | ok n =>
      rw [groupNamed_ok hname, Prog.onReturn_ok, Prog.wp_bind]
      refine wp_requireDefined hfaults hfit n (fun group hgroup => ?_) fun m hgroup =>
        ⟨.refl reg, AccessControl.enrol_missing (Or.inl hgroup)⟩
      rw [Prog.onReturn_ok, Prog.wp_bind, wp_isRegistered]
      refine ⟨?_, fun hf => absurd hf hfaults⟩
      rw [Prog.onReturn_ok]
      split_ifs with hregistered
      swap
      · exact ⟨.refl reg, AccessControl.enrol_missing (Or.inr hregistered)⟩
      rw [Prog.wp_bind]
      refine wp_findMembership u n ?_ fun hf => absurd hf hfaults
      rw [Prog.onReturn_ok]
      cases hm : reg.memberships.find (u, n) with
      | some m =>
          obtain ⟨b, hb, hview⟩ := membershipBody_ok (hfit.presentable.memberships _ m hm)
          refine ⟨hfit, b, hb, ?_⟩
          rw [hview]
          exact AccessControl.enrol_member hgroup hregistered ⟨m, hm⟩
      | none =>
          refine (wp_membershipAdd _ _).mpr ⟨hplain, ?_, fun hf => absurd hf hfaults⟩
          refine ⟨⟨hfit.presentable.membershipAdd (Json.isText_str _), hfit.sound⟩, _, rfl, ?_⟩
          rw [Registry.access_membershipAdd]
          exact AccessControl.enrol_ok hgroup hregistered

/-- The removal itself, once the guard has passed. -/
lemma wp_remove_follows (hfaults : ¬ R.faults) (hfit : reg.Fit R) {u n : String}
    {m : UserGroupMembership} (hgroup : n ∈ reg.access.groups)
    (hm : reg.memberships.find (u, n) = some m)
    (hother : n = "admin" → ∃ v, v ≠ u ∧ reg.access.IsAdmin "admin" v) :
    (do
      let removed ← membershipRemove u n
      if removed then pure n else throw (membershipNotFound u n) : RepoProg String).wp R.contract
      (Follows R removeMembershipStatus (fun _ => .ok .noContent) reg
        (reg.access.expel "admin" u (some n))) reg := by
  refine (Prog.wp_bind _ _ _ _).mpr ((wp_membershipRemove _ _ _).mpr
    ⟨?_, fun hf => absurd hf hfaults⟩)
  rw [Prog.onReturn_ok, hm, Option.isSome_some, if_pos rfl]
  refine ⟨⟨hfit.presentable.membershipRemove u n, hfit.sound⟩, _, rfl, ?_⟩
  rw [Registry.access_membershipRemove]
  exact AccessControl.expel_ok hgroup ⟨m, hm⟩ hother

lemma removeMembershipBody_follows (hfaults : ¬ R.faults) (hplain : R.plain) (hfit : reg.Fit R)
    (u g : String) :
    (removeMembershipBody P u g).wp R.contract
      (Follows R removeMembershipStatus (fun _ => .ok .noContent) reg
        (reg.access.expel "admin" u (groupNamed P g))) reg := by
  refine (Prog.wp_bind _ _ _ _).mpr ((Prog.wp_lift _ _ _).mpr ?_)
  cases hname : normalizeGroupName P g with
  | error e =>
      obtain ⟨m, rfl⟩ := normalizeGroupName_error hname
      rw [groupNamed_error hname]
      exact ⟨.refl reg, rfl⟩
  | ok n =>
      rw [groupNamed_ok hname, Prog.onReturn_ok, Prog.wp_bind]
      refine wp_requireDefined hfaults hfit n (fun group hgroup => ?_) fun m hgroup =>
        ⟨.refl reg, AccessControl.expel_missing (Or.inl hgroup)⟩
      rw [Prog.onReturn_ok, Prog.wp_bind]
      refine wp_findMembership u n ?_ fun hf => absurd hf hfaults
      rw [Prog.onReturn_ok]
      cases hm : reg.memberships.find (u, n) with
      | none =>
          -- no such membership: one of two errors, of one status
          have hmissing : reg.access.expel "admin" u (some n) = .error .missing := by
            refine AccessControl.expel_missing (Or.inr ?_)
            rintro ⟨m, hmember⟩
            cases hm.symm.trans hmember
          refine (Prog.wp_bind _ _ _ _).mpr ((wp_isRegistered _ _).mpr
            ⟨?_, fun hf => absurd hf hfaults⟩)
          rw [Prog.onReturn_ok]
          split_ifs
          · exact ⟨.refl reg, hmissing⟩
          · exact ⟨.refl reg, hmissing⟩
      | some m =>
          dsimp only
          split_ifs with hadmin
          · refine (Prog.wp_bind _ _ _ _).mpr ((wp_countMembers _ _).mpr
              ⟨fun count hcount => ?_, fun hf => absurd hf hfaults⟩)
            obtain ⟨ms, hms, rfl⟩ := hcount hplain
            obtain rfl : n = "admin" := hadmin
            have honly := Registry.only_member_iff hms ⟨m, hm⟩
            rw [Prog.onReturn_ok, Prog.wp_bind, Prog.wp_lift, ensureAdminMembershipRemains]
            split_ifs with hlast
            · refine ⟨.refl reg, AccessControl.expel_last hgroup ⟨m, hm⟩ ?_⟩
              exact honly.mpr (by omega)
            · refine wp_remove_follows hfaults hfit hgroup hm fun _ => ?_
              by_contra hnone
              have hlen := honly.mp fun v hv => by_contra fun hne => hnone ⟨v, hne, hv⟩
              omega
          · exact wp_remove_follows hfaults hfit hgroup hm fun h => absurd h hadmin

/-- A removed membership ends as an expulsion. -/
theorem removeMembership_follows (hfaults : ¬ R.faults) (hplain : R.plain) (hfit : reg.Fit R)
    (u g actorSub : String) (correlationId : Option String) (clock : Clock) :
    (removeMembership P u g actorSub correlationId clock).wp R.contract
      (Follows R removeMembershipStatus (fun _ => .ok .noContent) reg
        (reg.access.expel "admin" u (groupNamed P g))) reg := by
  rw [removeMembership, Prog.wp_bind]
  refine Prog.wp_mono (fun r reg' h => ?_)
    (follows_audited (removeMembershipBody_follows hfaults hplain hfit u g))
  cases r with
  | ok _ => exact h
  | error e => exact h

/-! ### Tokens -/

/-- The loop of `_validate_groups`, when the names that it has seen are defined. -/
lemma wp_lookUpGroups_defined (hfaults : ¬ R.faults) (hfit : reg.Fit R) {seen names : List String}
    (hseen : ∀ n ∈ seen, n ∈ reg.access.groups)
    {Q : Except PyError (List String) → Registry → Prop}
    (hok : ∀ ns, (∀ n, n ∈ ns ↔ n ∈ names ∧ n ∉ seen) → (∀ n ∈ names, n ∈ reg.access.groups) →
      Q (.ok ns) reg)
    (hmissing : ∀ m, (¬ ∀ n ∈ names, n ∈ reg.access.groups) → Q (.error (.groupNotFound m)) reg) :
    (lookUpGroups seen names).wp R.contract Q reg := by
  induction names generalizing seen Q with
  | nil => exact hok [] (by simp) (by rintro _ ⟨⟩)
  | cons g names ih =>
      -- what the rest of the names lacks, the whole list lacks
      have hrest : (¬ ∀ n ∈ names, n ∈ reg.access.groups) →
          ¬ ∀ n ∈ g :: names, n ∈ reg.access.groups :=
        fun h hall => h fun n hn => hall n (List.mem_cons_of_mem _ hn)
      rw [lookUpGroups]
      split_ifs with hmem
      · have hg := hseen g hmem
        refine ih hseen (fun ns hns hall => ?_) fun m h => hmissing m (hrest h)
        refine hok ns (fun n => ?_) (List.forall_mem_cons.mpr ⟨hg, hall⟩)
        rw [hns, List.mem_cons]
        constructor
        · exact fun h => ⟨Or.inr h.1, h.2⟩
        · rintro ⟨rfl | hn, hnseen⟩
          · exact absurd hmem hnseen
          · exact ⟨hn, hnseen⟩
      · rw [Prog.wp_bind, wp_groupGet]
        refine ⟨?_, fun hf => absurd hf hfaults⟩
        rw [Prog.onReturn_ok]
        cases hg : reg.groups.find g with
        | none =>
            refine hmissing _ fun hall => ?_
            obtain ⟨group, hgroup⟩ := Option.isSome_iff_exists.mp (hall g List.mem_cons_self)
            cases hg.symm.trans hgroup
        | some group =>
            have hdefined : g ∈ reg.access.groups := Option.isSome_iff_exists.mpr ⟨group, hg⟩
            dsimp only
            rw [if_pos (hfit.presentable.groups g group hg), Prog.wp_bind]
            refine ih (List.forall_mem_cons.mpr ⟨hdefined, hseen⟩) (fun ns hns hall => ?_)
              fun m h => hmissing m (hrest h)
            refine hok (g :: ns) (fun n => ?_) (List.forall_mem_cons.mpr ⟨hdefined, hall⟩)
            rw [List.mem_cons, hns, List.mem_cons, List.mem_cons]
            constructor
            · rintro (rfl | ⟨hn, hnseen⟩)
              · exact ⟨Or.inl rfl, hmem⟩
              · exact ⟨Or.inr hn, fun h => hnseen (Or.inr h)⟩
            · rintro ⟨hn, hnseen⟩
              by_cases heq : n = g
              · exact Or.inl heq
              · exact Or.inr ⟨hn.resolve_left heq, not_or.mpr ⟨heq, hnseen⟩⟩

/-- The expiry that a mint asks for; a lifetime must be positive, and the expiry a
time that can be represented. -/
def MintRequest.expiry (request : MintRequest) (issuedAt : DateTime) : Except Refusal DateTime :=
  if request.lifetimeSeconds ≤ 0 then .error .malformed
  else
    match issuedAt.addSeconds request.lifetimeSeconds with
    | .ok expiresAt => .ok expiresAt
    | .error _ => .error .failed

/-- The names of the groups that a mint asks for. -/
lemma groupNamed_mapM {names ns : List String}
    (h : names.mapM (normalizeGroupName P) = .ok ns) :
    names.map (groupNamed P) = ns.map some := by
  induction names generalizing ns with
  | nil =>
      obtain rfl : [] = ns := Except.ok.inj h
      rfl
  | cons name names ih =>
      rw [List.mapM_cons] at h
      obtain ⟨n, hn, h⟩ := except_bind_eq_ok h
      obtain ⟨rest, hrest, h⟩ := except_bind_eq_ok h
      obtain rfl : n :: rest = ns := Except.ok.inj h
      rw [List.map_cons, groupNamed_ok hn, ih hrest, List.map_cons]

/-- `_validate_groups`, for a registered owner. -/
lemma wp_validateGroups_follows {request : MintRequest} (issuedAt : DateTime)
    (hfaults : ¬ R.faults) (hfit : reg.Fit R) (howner : request.ownerSub ∈ reg.access.users)
    {Q : Except PyError (List String) → Registry → Prop}
    (hok : ∀ ns names : List String, (∀ n, n ∈ ns ↔ n ∈ names) →
      (∀ outside, reg.access.issue "admin" request.ownerSub (request.groups.map (groupNamed P))
          (request.expiry issuedAt) request.tokenId outside
        = reg.access.lend request.ownerSub names (request.expiry issuedAt) request.tokenId
          outside) → Q (.ok ns) reg)
    (hrefused : ∀ e, (∀ outside, reg.access.issue "admin" request.ownerSub
        (request.groups.map (groupNamed P)) (request.expiry issuedAt) request.tokenId outside
          = .error (refusedWith createTokenStatus e)) → Q (.error e) reg) :
    (validateGroups P request.groups).wp R.contract Q reg := by
  refine (Prog.wp_bind _ _ _ _).mpr ((Prog.wp_lift _ _ _).mpr ?_)
  rw [ensureRuntimeGroupsAllowed]
  cases hnames : request.groups.mapM (normalizeGroupName P) with
  | error e =>
      obtain ⟨name, hmem, hname⟩ := mapM_normalizeGroupName_error hnames
      obtain ⟨m, rfl⟩ := normalizeGroupName_error hname
      refine hrefused _ fun outside => AccessControl.issue_malformed howner ?_
      exact List.mem_map.mpr ⟨name, hmem, groupNamed_error hname⟩
  | ok names =>
      rw [groupNamed_mapM hnames] at hok hrefused
      show Prog.wp _ (Prog.onReturn _ (if _ then _ else _)) _ _
      split_ifs with hadmin
      · exact hrefused _ fun outside => AccessControl.issue_root howner hadmin
      · rw [Prog.onReturn_ok]
        split_ifs with hempty
        · subst hempty
          exact hrefused _ fun outside => AccessControl.issue_groupless howner
        · refine wp_lookUpGroups_defined hfaults hfit (by rintro _ ⟨⟩) (fun ns hns hall => ?_)
            fun m h => hrefused _ fun outside => AccessControl.issue_missing howner hadmin h
          refine hok ns names (fun n => ?_) fun outside =>
            AccessControl.issue_eq howner hadmin hempty hall
          rw [hns, and_iff_left List.not_mem_nil]

/-- What a mint stores is a grant that is lent. -/
lemma lend_record {request : MintRequest} {issuedAt expiresAt : DateTime} {ns names : List String}
    {hash : String} (hns : ∀ n, n ∈ ns ↔ n ∈ names)
    (hexpires : request.expiry issuedAt = .ok expiresAt) :
    reg.access.lend request.ownerSub names (request.expiry issuedAt) request.tokenId (.ok ())
      = .ok (.granted request.tokenId (request.record issuedAt expiresAt ns hash).grant,
        reg.access.file request.tokenId (request.record issuedAt expiresAt ns hash).grant) := by
  have hgrant : (request.record issuedAt expiresAt ns hash).grant
      = ⟨⟨{n | n ∈ names}, some expiresAt, False⟩, request.ownerSub⟩ := by
    have hgroups : {n | n ∈ ns} = {n | n ∈ names} := Set.ext hns
    have hactive : ("active" = "revoked") = False := eq_false (by decide)
    rw [IssuedTokenRecord.grant, MintRequest.record, hgroups, hactive]
  rw [AccessControl.lend, hexpires, hgrant]
  rfl

/-- What the signer contributes to a mint: a JWT that can be hashed, if there is an expiry
to put into it. -/
def MintRequest.signed (P : Platform) (sign : SigningRequest → Except PyError String)
    (request : MintRequest) (issuedAt : DateTime) : Except Refusal Unit :=
  match issuedAt.addSeconds request.lifetimeSeconds with
  | .error _ => .ok ()
  | .ok expiresAt =>
      match sign (request.signing issuedAt expiresAt) >>= jwtHash P with
      | .ok _ => .ok ()
      | .error e => .error (refusedWith createTokenStatus e)

/-- A mint ends as the issue of a grant, to which the signer contributes its answer. -/
theorem mintToken_follows (hfaults : ¬ R.faults) (hfit : reg.Fit R) (request : MintRequest)
    (clock : Clock) (hid : IsTokenId request.tokenId)
    (hplain : R.plain → IsSegment request.ownerSub)
    {sign : SigningRequest → Except PyError String}
    (hsigns : ∀ request answer, R.signs request answer → answer = sign request) :
    (mintToken P request clock).wp R.contract
      (Follows R createTokenStatus mintedBody reg
        (reg.access.issue "admin" request.ownerSub (request.groups.map (groupNamed P))
          (request.expiry clock.now) request.tokenId (request.signed P sign clock.now))) reg := by
  let shown (minted : IssuedTokenRecord × String) : Except PyError Body :=
    mintedBody { record := minted.1, rawToken := minted.2 }
  rw [mintToken, Prog.wp_bind]
  have hbody : (mintTokenBody P request clock.now).wp R.contract
      (Follows R createTokenStatus shown reg
        (reg.access.issue "admin" request.ownerSub (request.groups.map (groupNamed P))
          (request.expiry clock.now) request.tokenId (request.signed P sign clock.now))) reg := by
    refine (Prog.wp_bind _ _ _ _).mpr ((wp_isRegistered _ _).mpr
      ⟨?_, fun hf => absurd hf hfaults⟩)
    rw [Prog.onReturn_ok]
    by_cases howner : (reg.profiles.find request.ownerSub).isSome
    swap
    · rw [if_neg howner]
      exact ⟨.refl reg, AccessControl.issue_unregistered howner⟩
    rw [if_pos howner, Prog.wp_bind]
    refine wp_validateGroups_follows clock.now hfaults hfit howner
      (fun ns names hns hissue => ?_) fun e he => ⟨.refl reg, he _⟩
    rw [hissue, Prog.onReturn_ok]
    split_ifs with hlifetime
    · refine ⟨.refl reg, ?_⟩
      rw [AccessControl.lend, MintRequest.expiry, if_pos hlifetime]
      rfl
    rw [Prog.wp_bind, Prog.wp_lift]
    cases hexpires : clock.now.addSeconds request.lifetimeSeconds with
    | error e =>
        obtain ⟨m, rfl⟩ := addSeconds_error hexpires
        refine ⟨.refl reg, ?_⟩
        rw [AccessControl.lend, MintRequest.expiry, if_neg hlifetime, hexpires]
        rfl
    | ok expiresAt =>
        have hexpiry : request.expiry clock.now = .ok expiresAt := by
          rw [MintRequest.expiry, if_neg hlifetime, hexpires]
        -- what the signer refuses with is what the grant is refused with
        have hrefused : ∀ e, sign (request.signing clock.now expiresAt) >>= jwtHash P = .error e →
            Follows R createTokenStatus shown reg (reg.access.lend request.ownerSub names
              (request.expiry clock.now) request.tokenId (request.signed P sign clock.now))
              (.error e) reg := by
          intro e he
          refine ⟨.refl reg, ?_⟩
          rw [AccessControl.lend, hexpiry, MintRequest.signed, hexpires]
          dsimp only
          rw [he]
          rfl
        rw [Prog.onReturn_ok, Prog.wp_bind, wp_signToken]
        refine ⟨fun answer hanswer => ?_, fun hf => absurd hf hfaults⟩
        obtain rfl : answer = sign (request.signing clock.now expiresAt) := hsigns _ _ hanswer
        cases hsigned : sign (request.signing clock.now expiresAt) with
        | error e =>
            refine hrefused e ?_
            rw [hsigned]
            rfl
        | ok rawToken =>
            rw [Prog.onReturn_ok, Prog.wp_bind, Prog.wp_lift]
            cases hhash : jwtHash P rawToken with
            | error e =>
                refine hrefused e ?_
                rw [hsigned]
                exact hhash
            | ok hash =>
                have hcontributes : request.signed P sign clock.now = .ok () := by
                  have hboth : sign (request.signing clock.now expiresAt) >>= jwtHash P
                      = .ok hash := by
                    rw [hsigned]
                    exact hhash
                  rw [MintRequest.signed, hexpires]
                  dsimp only
                  rw [hboth]
                rw [Prog.onReturn_ok]
                refine (Prog.wp_bind _ _ _ _).mpr ((wp_tokenUpsert _ _).mpr
                  ⟨⟨hid, hplain⟩, ?_, fun hf => absurd hf hfaults⟩)
                have hstatus : (request.record clock.now expiresAt ns hash).status = "active"
                    ∨ (request.record clock.now expiresAt ns hash).status = "revoked" :=
                  Or.inl rfl
                refine ⟨⟨hfit.presentable.tokenUpsert hstatus, ?_⟩, _, rfl, ?_⟩
                · exact hfit.sound.tokenUpsert ⟨hid, hplain⟩
                · rw [hcontributes, lend_record hns hexpiry, Registry.access_tokenUpsert]
                  rfl
  refine wp_audited (Prog.wp_mono (fun r reg' h event => ?_) hbody)
  cases r with
  | ok minted => exact h.audit event
  | error e => exact h.audit event

/-- The grant of a stored token. -/
lemma access_find {t : String} {record : IssuedTokenRecord} (h : reg.tokens.find t = some record) :
    reg.access.find t = .ok record.grant :=
  AccessControl.find_some (congrArg (Option.map IssuedTokenRecord.grant) h)

lemma access_find_none {t : String} (h : reg.tokens.find t = none) :
    reg.access.find t = .error .missing :=
  AccessControl.find_none (congrArg (Option.map IssuedTokenRecord.grant) h)

/-- The lookup of a token that must be there. -/
lemma wp_getTokenOrRaise_exact (hfaults : ¬ R.faults) (t : String)
    {Q : Except PyError IssuedTokenRecord → Registry → Prop}
    (hok : ∀ record, reg.tokens.find t = some record → Q (.ok record) reg)
    (hnone : ∀ m, reg.tokens.find t = none → Q (.error (.tokenNotFound m)) reg) :
    (getTokenOrRaise t).wp R.contract Q reg := by
  rw [getTokenOrRaise, Prog.wp_bind, wp_tokenGet]
  refine ⟨?_, fun hf => absurd hf hfaults⟩
  rw [Prog.onReturn_ok]
  cases ht : reg.tokens.find t with
  | none => exact hnone _ ht
  | some record => exact hok record ht

/-- The inspection of a token ends as that of its grant. -/
theorem getToken_follows (hfaults : ¬ R.faults) (hfit : reg.Fit R) (t actorSub : String)
    (correlationId : Option String) (clock : Clock) :
    (getToken t actorSub correlationId clock).wp R.contract
      (Follows R tokenStatus tokenBody reg (reg.access.inspect t)) reg := by
  refine follows_audited (wp_getTokenOrRaise_exact hfaults t (fun record ht => ?_) fun m ht => ?_)
  · obtain ⟨b, hb, hview⟩ := tokenBody_ok (hfit.presentable.tokens t record ht)
    refine ⟨hfit, b, hb, ?_⟩
    rw [AccessControl.inspect, access_find ht, hview, reg.tokens.key_eq _ _ ht]
    rfl
  · refine ⟨.refl reg, ?_⟩
    rw [AccessControl.inspect, access_find_none ht]
    rfl

/-- The revoked copy of a record is the revoked grant. -/
lemma grant_revokedRecord (record : IssuedTokenRecord) (now : DateTime) :
    (revokedRecord record now).grant = record.grant.revoke := by
  have hrevoked : ("revoked" = "revoked") = True := eq_true rfl
  rw [IssuedTokenRecord.grant, revokedRecord, hrevoked]
  rfl

/-- A revoked record has a revoked grant. -/
lemma revoke_grant_self {record : IssuedTokenRecord} (h : record.status = "revoked") :
    record.grant.revoke = record.grant := by
  have hrevoked : (record.status = "revoked") = True := eq_true h
  rw [IssuedTokenRecord.grant, hrevoked]
  rfl

/-- So does its revocation. -/
theorem revokeToken_follows (hfaults : ¬ R.faults) (hfit : reg.Fit R) (t actorSub : String)
    (correlationId : Option String) (clock : Clock) :
    (revokeToken t actorSub correlationId clock).wp R.contract
      (Follows R tokenStatus tokenBody reg (reg.access.revoke t)) reg := by
  refine follows_audited ((Prog.wp_bind _ _ _ _).mpr
    (wp_getTokenOrRaise_exact hfaults t (fun record ht => ?_) fun m ht => ?_))
  swap
  · refine ⟨.refl reg, ?_⟩
    rw [AccessControl.revoke, access_find_none ht]
    rfl
  obtain rfl : record.tokenId = t := reg.tokens.key_eq _ _ ht
  rw [Prog.onReturn_ok]
  split_ifs with hrevoked
  · obtain ⟨b, hb, hview⟩ := tokenBody_ok (Or.inr hrevoked)
    have hsame : reg.access.file record.tokenId record.grant = reg.access := by
      have hgrant : reg.access.grants record.tokenId = some record.grant :=
        congrArg (Option.map IssuedTokenRecord.grant) ht
      rw [AccessControl.file, ← hgrant, Function.update_eq_self]
    refine ⟨hfit, b, hb, ?_⟩
    rw [AccessControl.revoke, access_find ht, hview]
    show Except.ok (Reply.granted record.tokenId record.grant.revoke,
      reg.access.file record.tokenId record.grant.revoke) = _
    rw [revoke_grant_self hrevoked, hsame]
  · rw [wp_tokenUpsert]
    have howes : (RepoCall.tokenUpsert (revokedRecord record clock.now)).Owes R :=
      hfit.sound record.tokenId record ht
    refine ⟨howes, ?_, fun hf => absurd hf hfaults⟩
    have hstatus : (revokedRecord record clock.now).status = "active"
        ∨ (revokedRecord record clock.now).status = "revoked" := Or.inr rfl
    obtain ⟨b, hb, hview⟩ := tokenBody_ok hstatus
    refine ⟨⟨hfit.presentable.tokenUpsert hstatus, hfit.sound.tokenUpsert howes⟩, b, hb, ?_⟩
    rw [hview, Registry.access_tokenUpsert, grant_revokedRecord, AccessControl.revoke,
      access_find ht]
    rfl

/-- A listing of the tokens of a user lists what the user holds. -/
lemma holdings_of_lists {u : String} {records : List IssuedTokenRecord}
    (h : reg.tokens.Lists (·.ownerSub = u) records) :
    {p | ∃ record ∈ records, record.tokenId = p.1 ∧ record.grant.toTerms = p.2}
      = reg.access.held u := by
  ext p
  constructor
  · rintro ⟨record, hrecord, hid, hterms⟩
    obtain ⟨hfind, howner⟩ := (h.2 record).mp hrecord
    refine ⟨record.grant, ?_, howner, hterms⟩
    show (reg.tokens.find p.1).map IssuedTokenRecord.grant = _
    rw [← hid, hfind]
    rfl
  · rintro ⟨grant, hgrant, howner, hterms⟩
    obtain ⟨record, hfind, rfl⟩ := Option.map_eq_some_iff.mp hgrant
    exact ⟨record, h.mem hfind howner, reg.tokens.key_eq _ _ hfind, hterms⟩

/-- The caller's own tokens are what the caller holds. -/
theorem listSelfTokens_follows (hfaults : ¬ R.faults) (hplain : R.plain) (hindexed : R.indexed)
    (hfit : reg.Fit R) (identity : VerifiedIdentity) (correlationId : Option String)
    (clock : Clock) (hsub : IsSegment identity.subject) :
    (listSelfTokens identity correlationId clock).wp R.contract
      (Follows R (fun _ => none) tokensBody reg
        (.ok (.holdings (reg.access.held identity.subject), reg.access))) reg := by
  refine follows_audited ((Prog.wp_bind _ _ _ _).mpr ((wp_tokensForUser _ _).mpr
    ⟨fun _ => hsub, fun records hrecords => ?_, fun hf => absurd hf hfaults⟩))
  have hlists := (hrecords hplain hindexed).of_perm
    (List.perm_insertionSort (fun a b => b.issuedAt ≤ a.issuedAt) records)
  have hstatus : ∀ record ∈ sortByIssuedAt records,
      record.status = "active" ∨ record.status = "revoked" := fun record hr =>
    hfit.presentable.tokens _ record ((hlists.2 record).mp hr).1
  obtain ⟨b, hb, hview⟩ := tokensBody_ok hstatus
  refine ⟨hfit, b, hb, ?_⟩
  rw [hview]
  exact congrArg (fun held => Except.ok (Reply.holdings held, reg.access))
    (holdings_of_lists hlists).symm

/-! ### Authorization -/

/-- The query of an authorization request: its owner and what it asks for. -/
def AuthorizationRequest.query (request : AuthorizationRequest) :
    Option (Query String String String) :=
  match request.ownerSub, requiredPermission request with
  | some owner, some target => some ⟨request.tokenId, owner, target⟩
  | _, _ => none

/-- A record permits a request if its grant does. -/
lemma permits_grant_iff (hfit : reg.Fit R) {request : AuthorizationRequest} {now : DateTime}
    {record : IssuedTokenRecord} {t owner target : String}
    (ht : reg.tokens.find t = some record) (howner : request.ownerSub = some owner)
    (htarget : requiredPermission request = some target) (hne : target ≠ "") :
    permits request now record ↔ record.grant.Permits owner target now := by
  have hactive : record.status = "active" ↔ ¬ record.status = "revoked" := by
    rcases hfit.presentable.tokens t record ht with h | h
    · rw [h]
      decide
    · rw [h]
      decide
  rw [permits_iff]
  constructor
  · rintro ⟨target', htarget', -, howner', hstatus, hexpires, hmem⟩
    obtain rfl := Option.some.inj (htarget.symm.trans htarget')
    obtain rfl := Option.some.inj (howner.symm.trans howner')
    exact ⟨rfl, hactive.mp hstatus, hexpires, hmem⟩
  · rintro ⟨rfl, hstatus, hexpires, hmem⟩
    exact ⟨target, htarget, hne, howner, hactive.mpr hstatus, hexpires, hmem⟩

/-- A runtime authorization decides what the access control allows. -/
theorem authorize_follows (hfaults : ¬ R.faults) (hfit : reg.Fit R)
    (request : AuthorizationRequest) (correlationId : Option String) (clock : Clock)
    {query : Query String String String} (hquery : request.query = some query)
    (hne : query.target ≠ "") :
    (authorize request correlationId clock).wp R.contract
      (Follows R (fun _ => none) (fun decision => .ok (.decision decision.allowed)) reg
        (.ok (.decision (reg.access.Allows query clock.now), reg.access))) reg := by
  obtain ⟨owner, howner⟩ : ∃ owner, request.ownerSub = some owner := by
    rw [AuthorizationRequest.query] at hquery
    split at hquery
    · exact ⟨_, ‹_›⟩
    · cases hquery
  obtain ⟨target, htarget⟩ : ∃ target, requiredPermission request = some target := by
    rw [AuthorizationRequest.query] at hquery
    split at hquery
    · exact ⟨_, ‹_›⟩
    · cases hquery
  obtain rfl : ⟨request.tokenId, owner, target⟩ = query := by
    rw [AuthorizationRequest.query, howner, htarget] at hquery
    exact Option.some.inj hquery
  refine Prog.wp_mono (fun r reg' h => ?_) (authorize_effect request correlationId clock)
  obtain ⟨hreg, hdecision⟩ := h
  cases r with
  | error e => exact absurd hdecision hfaults
  | ok decision =>
      have hallows : (decision.allowed = true)
          = reg.access.Allows ⟨request.tokenId, owner, target⟩ clock.now := by
        refine propext ?_
        rw [hdecision, Option.any_eq_true]
        constructor
        · rintro ⟨record, hfind, hpermits⟩
          refine ⟨record.grant, congrArg (Option.map IssuedTokenRecord.grant) hfind, ?_⟩
          exact (permits_grant_iff hfit hfind howner htarget hne).mp hpermits
        · rintro ⟨grant, hgrant, hpermits⟩
          obtain ⟨record, hfind, rfl⟩ := Option.map_eq_some_iff.mp hgrant
          exact ⟨record, hfind, (permits_grant_iff hfit hfind howner htarget hne).mpr hpermits⟩
      refine ⟨hfit.agrees hreg, _, rfl, ?_⟩
      rw [Body.view, hallows, hreg.access]

/-! ### Profiles -/

/-- A text claim is a text or `None`. -/
lemma isText_stringClaim (claims : Doc) (name : String) : (stringClaim claims name).IsText := by
  rw [stringClaim]
  split
  · split_ifs
    · exact Json.isText_null
    · exact Json.isText_str _
  · exact Json.isText_null

lemma isText_orElse {value other : Json} (hvalue : value.IsText) (hother : other.IsText) :
    (orElse value other).IsText := by
  rw [orElse]
  split_ifs
  · exact hvalue
  · exact hother

/-- What a registration stores can be shown. -/
lemma isText_refreshedProfile (hfit : reg.Fit R) (identity : VerifiedIdentity)
    (timestamp : DateTime) {profile : UserProfile}
    (h : profile = refreshedProfile (reg.profiles.find identity.subject) identity timestamp) :
    profile.displayName.IsText ∧ profile.email.IsText := by
  have hname := isText_stringClaim identity.claims "name"
  have hemail := isText_stringClaim identity.claims "email"
  rw [h]
  cases hold : reg.profiles.find identity.subject with
  | none => exact ⟨hname, hemail⟩
  | some old =>
      obtain ⟨hname', hemail'⟩ := hfit.presentable.profiles _ old hold
      exact ⟨isText_orElse hname hname', isText_orElse hemail hemail'⟩

/-- A registration enrols its caller as a user. -/
theorem registerSelf_follows (hfaults : ¬ R.faults) (hfit : reg.Fit R)
    (identity : VerifiedIdentity) (correlationId : Option String) (clock : Clock)
    (hplain : R.plain → IsSegment identity.subject) :
    (registerSelf identity correlationId clock).wp R.contract
      (Follows R (fun _ => none) registrationBody reg
        (.ok (.registered (identity.subject ∉ reg.access.users),
          reg.access.register identity.subject))) reg := by
  have hsub := refreshedProfile_keycloakSub (reg.profiles.find identity.subject) identity clock.now
  obtain ⟨hname, hemail⟩ := isText_refreshedProfile hfit identity clock.now rfl
  rw [registerSelf, Prog.wp_bind, wp_profileGet]
  refine ⟨?_, fun hf => absurd hf hfaults⟩
  rw [Prog.onReturn_ok, Prog.wp_bind]
  refine wp_audited ((wp_profileUpsert _ _).mpr ⟨?_, fun event => ?_, fun hf => absurd hf hfaults⟩)
  · intro hR
    rw [hsub]
    exact hplain hR
  · have hfit' := hfit.presentable.profileUpsert hname hemail
    obtain ⟨text, htext⟩ := hname
    obtain ⟨mail, hmail⟩ := hemail
    refine Follows.audit (r := .ok _) ⟨⟨hfit', hfit.sound⟩, ?_⟩ event
    rw [Registry.access_profileUpsert, hsub]
    simp only [registrationBody, htext, hmail]
    refine ⟨_, rfl, ?_⟩
    have hnew : ((if (reg.profiles.find identity.subject).isNone then RegistrationStatus.created
        else .refreshed) = .created) = (identity.subject ∉ reg.access.users) := by
      refine propext ?_
      show _ ↔ ¬ (reg.profiles.find identity.subject).isSome
      cases reg.profiles.find identity.subject with
      | none => simp
      | some old => simp
    rw [Body.view, hnew]

/-- The caller's own profile lists the groups that the caller is a member of. -/
theorem getSelfProfile_follows (hfaults : ¬ R.faults) (hfit : reg.Fit R)
    (identity : VerifiedIdentity) :
    (getSelfProfile identity).wp R.contract
      (Follows R (fun _ => none) profileBody reg
        (.ok (.profile (identity.subject ∈ reg.access.users)
          {g | (identity.subject, g) ∈ reg.access.members}, reg.access))) reg := by
  rw [getSelfProfile, Prog.wp_bind, wp_profileGet]
  refine ⟨?_, fun hf => absurd hf hfaults⟩
  rw [Prog.onReturn_ok, Prog.wp_bind, wp_membershipsForUser]
  refine ⟨fun ms hms => ?_, fun hf => absurd hf hfaults⟩
  rw [Prog.onReturn_ok]
  -- the names are sorted, which makes no difference to the set of them
  have hgroups : {g | g ∈ (ms.map UserGroupMembership.groupName).insertionSort (· ≤ ·)}
      = {g | (identity.subject, g) ∈ reg.access.members} := by
    ext g
    show g ∈ (ms.map UserGroupMembership.groupName).insertionSort (· ≤ ·)
      ↔ reg.Member identity.subject g
    rw [(List.perm_insertionSort _ _).mem_iff, List.mem_map, Registry.mem_lists_user hms]
  cases hprofile : reg.profiles.find identity.subject with
  | none =>
      have hregistered : (identity.subject ∈ reg.access.users) = (false = true) := by
        refine propext (iff_of_false (fun h => ?_) Bool.false_ne_true)
        obtain ⟨profile, hsome⟩ := Option.isSome_iff_exists.mp h
        cases hprofile.symm.trans hsome
      refine ⟨hfit, _, rfl, ?_⟩
      rw [← hgroups, hregistered]
      rfl
  | some profile =>
      have hregistered : (identity.subject ∈ reg.access.users) = (true = true) :=
        propext (iff_of_true (Option.isSome_iff_exists.mpr ⟨profile, hprofile⟩) rfl)
      obtain ⟨⟨text, htext⟩, mail, hmail⟩ := hfit.presentable.profiles _ profile hprofile
      refine ⟨hfit, ?_⟩
      simp only [profileBody, htext, hmail]
      refine ⟨_, rfl, ?_⟩
      rw [← hgroups, hregistered]
      rfl

/-! ### Start-up -/

/-- After a start-up the records can still be shown. -/
lemma presentable_of_plan (h : reg.Presentable) {subjects : List String} {createdAt : DateTime}
    {grantedAt : String → DateTime} {r : Except PyError BootstrapPlan} {reg' : Registry}
    (heffect : ApplyPlanEffect R reg subjects createdAt grantedAt r reg') : reg'.Presentable := by
  refine ⟨fun g group hg => ?_, ?_, fun p m hm => ?_, ?_⟩
  · rcases heffect.groups with heq | ⟨-, heq⟩
    · exact h.groups g group (heq ▸ hg)
    · rw [heq] at hg
      exact (h.groupUpsert rfl).groups g group hg
  · rw [heffect.profiles]
    exact h.profiles
  · rcases heffect.memberships p.1 p.2 with heq | ⟨-, -, -, heq⟩
    · exact h.memberships p m (heq.symm.trans hm)
    · obtain rfl := Option.some.inj (heq.symm.trans hm)
      exact Json.isText_null
  · rw [heffect.tokens]
    exact h.tokens

/-- A start-up that completes makes admins of its subjects, and changes nothing else. -/
lemma access_plan {subjects : List String} {createdAt : DateTime} {grantedAt : String → DateTime}
    {plan : BootstrapPlan} {reg' : Registry}
    (heffect : ApplyPlanEffect R reg subjects createdAt grantedAt (.ok plan) reg') :
    reg'.access = reg.access.boot "admin" {u | u ∈ normalizeSubjects subjects} := by
  obtain ⟨⟨group, hadmin⟩, hall⟩ := heffect.completes plan rfl
  ext1
  · ext u
    show (reg'.profiles.find u).isSome ↔ (reg.profiles.find u).isSome
    rw [heffect.profiles]
  · ext g
    show (reg'.groups.find g).isSome ↔ g ∈ insert "admin" reg.access.groups
    rw [Set.mem_insert_iff]
    rcases heffect.groups with heq | ⟨-, heq⟩
    · rw [heq]
      refine (or_iff_right_of_imp ?_).symm
      rintro rfl
      rw [← heq]
      exact Option.isSome_iff_exists.mpr ⟨group, hadmin⟩
    · rw [heq, Keyed.find_insert]
      split_ifs with hg
      · exact iff_of_true rfl (Or.inl hg)
      · exact (or_iff_right hg).symm
  · ext p
    show reg'.Member p.1 p.2 ↔ reg.Member p.1 p.2 ∨ p.1 ∈ normalizeSubjects subjects ∧ p.2 = "admin"
    constructor
    · rintro ⟨m, hm⟩
      rcases heffect.memberships p.1 p.2 with heq | ⟨-, hg, hu, -⟩
      · exact Or.inl ⟨m, heq.symm.trans hm⟩
      · exact Or.inr ⟨hu, hg⟩
    · rintro (⟨m, hm⟩ | ⟨hu, hg⟩)
      · rcases heffect.memberships p.1 p.2 with heq | ⟨hnone, -⟩
        · exact ⟨m, heq.trans hm⟩
        · cases hnone.symm.trans hm
      · rw [hg]
        exact hall p.1 hu
  · funext t
    show (reg'.tokens.find t).map IssuedTokenRecord.grant = _
    rw [heffect.tokens]
    rfl

/-- A start-up plan completes, and boots the access control with its subjects. -/
theorem applyPlan_boots (hfaults : ¬ R.faults) (hfit : reg.Fit R) (subjects : List String)
    (createdAt : DateTime) (grantedAt : String → DateTime)
    (hplain : R.plain → ∀ u ∈ normalizeSubjects subjects, IsSegment u) :
    (applyPlan subjects createdAt grantedAt).wp R.contract
      (fun r reg' => r.isOk ∧ reg'.Fit R
        ∧ reg'.access = reg.access.boot "admin" {u | u ∈ normalizeSubjects subjects}) reg := by
  refine Prog.wp_mono (fun r reg' heffect => ?_)
    (applyPlan_effect subjects createdAt grantedAt hplain)
  cases r with
  | error e => exact absurd (heffect.raises e rfl) hfaults
  | ok plan =>
      refine ⟨rfl, ⟨presentable_of_plan hfit.presentable heffect, ?_⟩, access_plan heffect⟩
      rw [Registry.Sound, heffect.tokens]
      exact hfit.sound

end GofrSec
