/-
The service operations, as one type.

* `Op`: a call of a service method with its arguments, the readings of the clock
  and, for a mint, the token id that it draws; `Op.prog` is the method;
* `Op.Valid`: what callers grant: token ids of the shape of `uuid4().hex` and,
  where the regime says so, plain subjects;
* `Op.Effect`, `op_effect`: what an operation does to the registry;
* `Op.Change`, `Op.Effect.change`: the changes to the records that an operation
  can make, whatever its outcome, and with it `Op.Change.groups`,
  `Op.Change.membership` and `Op.Change.tokens`;
* `Op.Change.sound`: every operation keeps the registry sound.
-/
import GofrSec.Calls.Session
import GofrSec.Services.TokenSpecs

namespace GofrSec

open Calls Text

/-- A call of a service method. -/
inductive Op where
  | applyPlan (subjects : List String) (createdAt : DateTime) (grantedAt : String → DateTime)
  | registerSelf (identity : VerifiedIdentity) (correlationId : Option String) (clock : Clock)
  | getSelfProfile (identity : VerifiedIdentity)
  | createGroup (name : String) (description : Option String) (actorSub : String)
      (correlationId : Option String) (clock : Clock)
  | addMembership (keycloakSub groupName actorSub : String) (correlationId : Option String)
      (clock : Clock)
  | removeMembership (keycloakSub groupName actorSub : String) (correlationId : Option String)
      (clock : Clock)
  | mintToken (request : MintRequest) (clock : Clock)
  | getToken (tokenId actorSub : String) (correlationId : Option String) (clock : Clock)
  | revokeToken (tokenId actorSub : String) (correlationId : Option String) (clock : Clock)
  | listSelfTokens (identity : VerifiedIdentity) (correlationId : Option String) (clock : Clock)
  | authorize (request : AuthorizationRequest) (correlationId : Option String) (clock : Clock)

/-- What a service method returns. -/
inductive Value where
  | plan (plan : BootstrapPlan)
  | registration (result : RegistrationResult)
  | profile (view : MeProfileView)
  | group (group : GroupDefinition)
  | membership (membership : UserGroupMembership)
  | none
  | minted (result : MintedTokenResult)
  | token (record : IssuedTokenRecord)
  | tokens (records : List IssuedTokenRecord)
  | decision (decision : AuthorizationDecision)

/-- The program of a service method. -/
def Op.prog (P : Platform) : Op → RepoProg Value
  | .applyPlan subjects createdAt grantedAt =>
      Value.plan <$> GofrSec.applyPlan subjects createdAt grantedAt
  | .registerSelf identity correlationId clock =>
      Value.registration <$> GofrSec.registerSelf identity correlationId clock
  | .getSelfProfile identity => Value.profile <$> GofrSec.getSelfProfile identity
  | .createGroup name description actorSub correlationId clock =>
      Value.group <$> GofrSec.createGroup P name description actorSub correlationId clock
  | .addMembership keycloakSub groupName actorSub correlationId clock =>
      Value.membership <$>
        GofrSec.addMembership P keycloakSub groupName actorSub correlationId clock
  | .removeMembership keycloakSub groupName actorSub correlationId clock =>
      (fun _ => Value.none) <$>
        GofrSec.removeMembership P keycloakSub groupName actorSub correlationId clock
  | .mintToken request clock => Value.minted <$> GofrSec.mintToken P request clock
  | .getToken tokenId actorSub correlationId clock =>
      Value.token <$> GofrSec.getToken tokenId actorSub correlationId clock
  | .revokeToken tokenId actorSub correlationId clock =>
      Value.token <$> GofrSec.revokeToken tokenId actorSub correlationId clock
  | .listSelfTokens identity correlationId clock =>
      Value.tokens <$> GofrSec.listSelfTokens identity correlationId clock
  | .authorize request correlationId clock =>
      Value.decision <$> GofrSec.authorize request correlationId clock

/-- The token id that an operation draws. -/
def Op.mintId : Op → Option String
  | .mintToken request _ => some request.tokenId
  | _ => none

/-- What the callers of an operation grant. -/
def Op.Valid (plain : Prop) : Op → Prop
  | .applyPlan subjects _ _ => plain → ∀ u ∈ normalizeSubjects subjects, IsSegment u
  | .registerSelf identity _ _ => plain → IsSegment identity.subject
  | .addMembership u _ _ _ _ => plain → IsSegment u
  | .mintToken request _ => IsTokenId request.tokenId ∧ (plain → IsSegment request.ownerSub)
  | .listSelfTokens identity _ _ => plain → IsSegment identity.subject
  | _ => True

/-- What an operation does to the registry. -/
def Op.Effect (P : Platform) (R : Regime) (reg : Registry) :
    Op → Except PyError Value → Registry → Prop
  | .applyPlan subjects createdAt grantedAt, r, reg' => ∃ r', r = r'.map Value.plan
      ∧ ApplyPlanEffect R reg subjects createdAt grantedAt r' reg'
  | .registerSelf identity _ _, r, reg' => ∃ r', r = r'.map Value.registration
      ∧ RegisterSelfEffect reg identity.subject r' reg'
  | .getSelfProfile _, _, reg' => reg'.Agrees reg
  | .createGroup name _ _ _ _, r, reg' => ∃ r', r = r'.map Value.group
      ∧ CreateGroupEffect P reg name r' reg'
  | .addMembership u g actorSub _ clock, r, reg' => ∃ r', r = r'.map Value.membership
      ∧ AddMembershipEffect P reg u g actorSub clock r' reg'
  | .removeMembership u g _ _ _, r, reg' => RemoveMembershipEffect P R reg u g r reg'
  | .mintToken request clock, r, reg' => ∃ r', r = r'.map Value.minted
      ∧ MintTokenEffect P R reg request clock r' reg'
  | .getToken t _ _ _, r, reg' => ∃ r', r = r'.map Value.token ∧ GetTokenEffect reg t r' reg'
  | .revokeToken t _ _ clock, r, reg' => ∃ r', r = r'.map Value.token
      ∧ RevokeTokenEffect R reg t clock r' reg'
  | .listSelfTokens _ _ _, _, reg' => reg'.Agrees reg
  | .authorize request _ clock, r, reg' => ∃ r', r = r'.map Value.decision
      ∧ AuthorizeEffect R reg request clock r' reg'

variable {P : Platform} {R : Regime} {reg : Registry}

/-- **Every operation stays within its effect.** -/
theorem op_effect (hsound : reg.Sound R) (o : Op) (hvalid : o.Valid R.plain) :
    (o.prog P).wp R.contract (o.Effect P R reg) reg := by
  cases o with
  | applyPlan subjects createdAt grantedAt =>
      refine (Prog.wp_map _ _ _ _).mpr (Prog.wp_mono (fun r reg' h => ⟨r, rfl, h⟩) ?_)
      exact applyPlan_effect subjects createdAt grantedAt hvalid
  | registerSelf identity correlationId clock =>
      refine (Prog.wp_map _ _ _ _).mpr (Prog.wp_mono (fun r reg' h => ⟨r, rfl, h⟩) ?_)
      exact registerSelf_effect identity correlationId clock hvalid
  | getSelfProfile identity =>
      refine (Prog.wp_map _ _ _ _).mpr (Prog.wp_mono ?_ (getSelfProfile_effect identity))
      rintro r _ rfl
      exact .refl _
  | createGroup name description actorSub correlationId clock =>
      refine (Prog.wp_map _ _ _ _).mpr (Prog.wp_mono (fun r reg' h => ⟨r, rfl, h⟩) ?_)
      exact createGroup_effect name description actorSub correlationId clock
  | addMembership u g actorSub correlationId clock =>
      refine (Prog.wp_map _ _ _ _).mpr (Prog.wp_mono (fun r reg' h => ⟨r, rfl, h⟩) ?_)
      exact addMembership_effect u g actorSub correlationId clock hvalid
  | removeMembership u g actorSub correlationId clock =>
      refine (Prog.wp_map _ _ _ _).mpr (Prog.wp_mono ?_
        (removeMembership_effect u g actorSub correlationId clock))
      intro r reg' h
      cases r with
      | ok _ => exact h
      | error e => exact h
  | mintToken request clock =>
      refine (Prog.wp_map _ _ _ _).mpr (Prog.wp_mono (fun r reg' h => ⟨r, rfl, h⟩) ?_)
      exact mintToken_effect request clock hvalid.1 hvalid.2
  | getToken t actorSub correlationId clock =>
      refine (Prog.wp_map _ _ _ _).mpr (Prog.wp_mono (fun r reg' h => ⟨r, rfl, h⟩) ?_)
      exact getToken_effect t actorSub correlationId clock
  | revokeToken t actorSub correlationId clock =>
      refine (Prog.wp_map _ _ _ _).mpr (Prog.wp_mono (fun r reg' h => ⟨r, rfl, h⟩) ?_)
      exact revokeToken_effect hsound t actorSub correlationId clock
  | listSelfTokens identity correlationId clock =>
      refine (Prog.wp_map _ _ _ _).mpr ?_
      exact listSelfTokens_effect identity correlationId clock hvalid
  | authorize request correlationId clock =>
      refine (Prog.wp_map _ _ _ _).mpr (Prog.wp_mono (fun r reg' h => ⟨r, rfl, h⟩) ?_)
      exact authorize_effect request correlationId clock

/-! ### Which operations change what -/

/-- A definition as the service files them: under a normal form, active, and of the
system only if it is that of `admin`. -/
structure GroupDefinition.WellFormed (P : Platform) (group : GroupDefinition) : Prop where
  normal : normalizeGroupName P group.name = .ok group.name
  active : group.isActive
  system : group.isSystem → group.name = "admin"

/-- The changes that an operation can make to the records, whatever its outcome
is: at most one storing call takes effect, but for a start-up plan. -/
inductive Op.Change (P : Platform) (R : Regime) (reg : Registry) : Op → Registry → Prop
  | same {o : Op} {reg' : Registry} : reg'.Agrees reg → Change P R reg o reg'
  | planned {subjects : List String} {createdAt : DateTime} {grantedAt : String → DateTime}
      {r : Except PyError BootstrapPlan} {reg' : Registry} :
      ApplyPlanEffect R reg subjects createdAt grantedAt r reg' →
        Change P R reg (.applyPlan subjects createdAt grantedAt) reg'
  | registered {identity : VerifiedIdentity} {correlationId : Option String} {clock : Clock}
      {profile : UserProfile} {reg' : Registry} :
      profile.keycloakSub = identity.subject →
      reg'.Agrees (RepoCall.effect (.profileUpsert profile) reg) →
        Change P R reg (.registerSelf identity correlationId clock) reg'
  | created {name : String} {description : Option String} {actorSub : String}
      {correlationId : Option String} {clock : Clock} {group : GroupDefinition}
      {reg' : Registry} :
      group.name ≠ "admin" → group.WellFormed P → reg.groups.find group.name = none →
      reg'.Agrees (RepoCall.effect (.groupUpsert group) reg) →
        Change P R reg (.createGroup name description actorSub correlationId clock) reg'
  | added {u g actorSub n : String} {correlationId : Option String} {clock : Clock}
      {m : UserGroupMembership} {reg' : Registry} :
      normalizeGroupName P g = .ok n → reg.Active n → (reg.profiles.find u).isSome →
      reg.memberships.find (u, n) = none →
      m = { keycloakSub := u
            groupName := n
            grantedAt := clock.now
            grantedBySub := .str actorSub } →
      reg'.Agrees (RepoCall.effect (.membershipAdd m) reg) →
        Change P R reg (.addMembership u g actorSub correlationId clock) reg'
  | removed {u g actorSub n : String} {correlationId : Option String} {clock : Clock}
      {reg' : Registry} :
      normalizeGroupName P g = .ok n → reg.Member u n →
      (n = "admin" → R.plain → ∃ v, v ≠ u ∧ reg.IsAdmin v) →
      reg'.Agrees (RepoCall.effect (.membershipRemove u n) reg) →
        Change P R reg (.removeMembership u g actorSub correlationId clock) reg'
  | minted {request : MintRequest} {clock : Clock} {record : IssuedTokenRecord}
      {reg' : Registry} :
      MintedRecord P reg request clock record →
      reg'.Agrees (RepoCall.effect (.tokenUpsert record) reg) →
        Change P R reg (.mintToken request clock) reg'
  | revoked {t actorSub : String} {correlationId : Option String} {clock : Clock}
      {current : IssuedTokenRecord} {reg' : Registry} :
      reg.tokens.find t = some current →
      reg'.Agrees (RepoCall.effect (.tokenUpsert (revokedRecord current clock.now)) reg) →
        Change P R reg (.revokeToken t actorSub correlationId clock) reg'

/-- Every effect of an operation is one of the changes. -/
theorem Op.Effect.change {o : Op} {r : Except PyError Value} {reg' : Registry}
    (h : o.Effect P R reg r reg') : o.Change P R reg reg' := by
  cases o with
  | applyPlan subjects createdAt grantedAt =>
      obtain ⟨r', -, h⟩ := h
      exact .planned h
  | registerSelf identity correlationId clock =>
      obtain ⟨_ | result, -, h⟩ := h
      · exact .same h
      · exact .registered h.1 h.2
  | getSelfProfile identity => exact .same h
  | createGroup name description actorSub correlationId clock =>
      obtain ⟨_ | group, -, h⟩ := h
      · exact .same h
      · obtain ⟨hname, hne, hnone, hactive, hsystem, h⟩ := h
        refine .created hne ⟨?_, hactive, fun hs => ?_⟩ hnone h
        · exact normalizeGroupName_self P (normalizeGroupName_eq_ok hname).1
        · rw [hsystem] at hs
          exact nomatch hs
  | addMembership u g actorSub correlationId clock =>
      obtain ⟨_ | m, -, h⟩ := h
      · exact .same h
      · obtain ⟨n, hn, hactive, hregistered, ⟨-, h⟩ | ⟨hnone, hm, h⟩⟩ := h
        · exact .same h
        · exact .added hn hactive hregistered hnone hm h
  | removeMembership u g actorSub correlationId clock =>
      cases r with
      | error e => exact .same h.1
      | ok v =>
          obtain ⟨n, hn, hmember, hguard, h⟩ := h
          exact .removed hn hmember hguard h
  | mintToken request clock =>
      obtain ⟨_ | minted, -, h⟩ := h
      · obtain h | ⟨-, record, hminted, h⟩ := h
        · exact .same h
        · exact .minted hminted h
      · exact .minted h.1 h.2.2
  | getToken t actorSub correlationId clock =>
      obtain ⟨_ | record, -, h⟩ := h
      · exact .same h
      · exact .same h.2
  | revokeToken t actorSub correlationId clock =>
      obtain ⟨_ | record, -, h⟩ := h
      · obtain h | ⟨-, current, hcurrent, h⟩ := h
        · exact .same h
        · exact .revoked hcurrent h
      · obtain ⟨current, hcurrent, ⟨-, -, h⟩ | ⟨-, rfl, h⟩⟩ := h
        · exact .same h
        · exact .revoked hcurrent h
  | listSelfTokens identity correlationId clock => exact .same h
  | authorize request correlationId clock =>
      obtain ⟨r', -, h⟩ := h
      exact .same h.1

/-- What an operation can make of the membership of `u` in `g`. -/
inductive Op.MembershipChange (P : Platform) (R : Regime) (reg : Registry) (u g : String) :
    Op → Option UserGroupMembership → Prop
  | kept {o : Op} : MembershipChange P R reg u g o (reg.memberships.find (u, g))
  | planned {subjects : List String} {createdAt : DateTime} {grantedAt : String → DateTime} :
      reg.memberships.find (u, g) = none → g = "admin" → u ∈ normalizeSubjects subjects →
        MembershipChange P R reg u g (.applyPlan subjects createdAt grantedAt)
          (some
            { keycloakSub := u
              groupName := "admin"
              grantedAt := grantedAt u
              grantedBySub := .null })
  | added {g' actorSub : String} {correlationId : Option String} {clock : Clock} :
      normalizeGroupName P g' = .ok g → reg.Active g → (reg.profiles.find u).isSome →
      reg.memberships.find (u, g) = none →
        MembershipChange P R reg u g (.addMembership u g' actorSub correlationId clock)
          (some
            { keycloakSub := u
              groupName := g
              grantedAt := clock.now
              grantedBySub := .str actorSub })
  | removed {g' actorSub : String} {correlationId : Option String} {clock : Clock} :
      normalizeGroupName P g' = .ok g → reg.Member u g →
      (g = "admin" → R.plain → ∃ v, v ≠ u ∧ reg.IsAdmin v) →
        MembershipChange P R reg u g (.removeMembership u g' actorSub correlationId clock) none

namespace Op.Change

variable {o : Op} {reg' : Registry}

/-- A group definition is never changed; a new one is well-formed and takes a free
name. -/
lemma groups (h : o.Change P R reg reg') :
    reg'.groups = reg.groups ∨ ∃ group : GroupDefinition, reg.groups.find group.name = none
      ∧ group.WellFormed P ∧ reg'.groups = reg.groups.insert group := by
  cases h with
  | same h => exact Or.inl h.groups
  | planned h =>
      rcases h.groups with hg | ⟨hnone, hg⟩
      · exact Or.inl hg
      · refine Or.inr ⟨_, hnone, ⟨?_, rfl, fun _ => rfl⟩, hg⟩
        exact normalizeGroupName_self P isGroupName_reservedAdminGroup
  | registered _ h => exact Or.inl h.groups
  | created _ hformed hnone h => exact Or.inr ⟨_, hnone, hformed, h.groups⟩
  | added _ _ _ _ _ h => exact Or.inl h.groups
  | removed _ _ _ h => exact Or.inl h.groups
  | minted _ h => exact Or.inl h.groups
  | revoked _ h => exact Or.inl h.groups

/-- A defined group keeps its definition. -/
lemma group_kept (h : o.Change P R reg reg') {g : String} {group : GroupDefinition}
    (hg : reg.groups.find g = some group) : reg'.groups.find g = some group := by
  rcases h.groups with heq | ⟨group', hnone, -, heq⟩
  · rw [heq, hg]
  · rw [heq, Keyed.find_insert_of_ne, hg]
    rintro rfl
    exact nomatch hg.symm.trans hnone

/-- An operation changes one membership at most, but for a start-up plan. -/
theorem membership (h : o.Change P R reg reg') (u g : String) :
    o.MembershipChange P R reg u g (reg'.memberships.find (u, g)) := by
  have hkept : reg'.memberships.find (u, g) = reg.memberships.find (u, g) →
      o.MembershipChange P R reg u g (reg'.memberships.find (u, g)) := by
    intro heq
    rw [heq]
    exact .kept
  cases h with
  | same h => exact hkept (by rw [h.memberships])
  | planned h =>
      rcases h.memberships u g with heq | ⟨hnone, hg, hu, heq⟩
      · exact hkept heq
      · rw [heq]
        exact .planned hnone hg hu
  | registered _ h => exact hkept (by rw [h.memberships]; rfl)
  | created _ _ _ h => exact hkept (by rw [h.memberships]; rfl)
  | @added u' g' actorSub n correlationId clock m _ hn hactive hregistered hnone hm h =>
      have hins : reg'.memberships = reg.memberships.insert m := h.memberships
      by_cases hkey : (u, g) = m.pair
      · have hfind : reg'.memberships.find (u, g) = some m := by
          rw [hins, hkey, Keyed.find_insert_self]
        rw [hfind, hm]
        rw [hm] at hkey
        obtain ⟨rfl, rfl⟩ := Prod.mk.inj hkey
        exact .added hn hactive hregistered hnone
      · exact hkept (by rw [hins, Keyed.find_insert_of_ne _ hkey])
  | @removed u' g' actorSub n correlationId clock _ hn hmember hguard h =>
      have hrem : reg'.memberships = reg.memberships.remove (u', n) := h.memberships
      by_cases hkey : (u, g) = (u', n)
      · have hfind : reg'.memberships.find (u, g) = none := by
          rw [hrem, hkey, Keyed.find_remove_self]
        rw [hfind]
        obtain ⟨rfl, rfl⟩ := Prod.mk.inj hkey
        exact .removed hn hmember hguard
      · exact hkept (by rw [hrem, Keyed.find_remove_of_ne _ hkey])
  | minted _ h => exact hkept (by rw [h.memberships]; rfl)
  | revoked _ h => exact hkept (by rw [h.memberships]; rfl)

/-- No profile is taken away. -/
lemma profile_kept (h : o.Change P R reg reg') {u : String} (hu : (reg.profiles.find u).isSome) :
    (reg'.profiles.find u).isSome := by
  cases h with
  | same h => rwa [h.profiles]
  | planned h => rwa [h.profiles]
  | @registered identity correlationId clock profile _ hsub h =>
      rw [h.profiles]
      show ((reg.profiles.insert profile).find u).isSome
      rw [Keyed.find_insert]
      split_ifs
      · rfl
      · exact hu
  | created _ _ _ h => rwa [h.profiles]
  | added _ _ _ _ _ h => rwa [h.profiles]
  | removed _ _ _ h => rwa [h.profiles]
  | minted _ h => rwa [h.profiles]
  | revoked _ h => rwa [h.profiles]

/-- The tokens that an operation changes: a mint files its record, a revocation
the revoked copy of a stored one. -/
lemma tokens (h : o.Change P R reg reg') :
    reg'.tokens = reg.tokens ∨
      (∃ request clock record, o = .mintToken request clock
        ∧ MintedRecord P reg request clock record ∧ reg'.tokens = reg.tokens.insert record) ∨
      ∃ t actorSub correlationId clock current,
        o = .revokeToken t actorSub correlationId clock ∧ reg.tokens.find t = some current
          ∧ reg'.tokens = reg.tokens.insert (revokedRecord current clock.now) := by
  cases h with
  | same h => exact Or.inl h.tokens
  | planned h => exact Or.inl h.tokens
  | registered _ h => exact Or.inl h.tokens
  | created _ _ _ h => exact Or.inl h.tokens
  | added _ _ _ _ _ h => exact Or.inl h.tokens
  | removed _ _ _ h => exact Or.inl h.tokens
  | minted hminted h => exact Or.inr (Or.inl ⟨_, _, _, rfl, hminted, h.tokens⟩)
  | revoked hcurrent h => exact Or.inr (Or.inr ⟨_, _, _, _, _, rfl, hcurrent, h.tokens⟩)

/-- **Every operation keeps the registry sound.** -/
theorem sound (h : o.Change P R reg reg') (hsound : reg.Sound R) (hvalid : o.Valid R.plain) :
    reg'.Sound R := by
  intro t record hfind
  rcases h.tokens with heq | ⟨request, clock, record', rfl, hminted, heq⟩ |
    ⟨t', actorSub, correlationId, clock, current, rfl, hcurrent, heq⟩
  · exact hsound t record (heq ▸ hfind)
  · rw [heq, Keyed.find_insert] at hfind
    split_ifs at hfind with ht
    · obtain rfl := Option.some.inj hfind
      rw [ht, hminted.tokenId, hminted.ownerSub]
      exact hvalid
    · exact hsound t record hfind
  · rw [heq, Keyed.find_insert] at hfind
    split_ifs at hfind with ht
    · obtain rfl := Option.some.inj hfind
      have hid : current.tokenId = t' := reg.tokens.key_eq _ _ hcurrent
      rw [ht, show (revokedRecord current clock.now).tokenId = t' from hid]
      exact hsound t' current hcurrent
    · exact hsound t record hfind

end Op.Change

end GofrSec
