/-
The registry as an access control.

* `Registry.access`: who is registered, the defined groups, the members and the grants
  that a registry holds, with what each repository call makes of them
  (`access_profileUpsert` and its siblings);
* `Registry.Presentable`: what the records are like that the service stores, so that every
  one of them can be shown in a response;
* `Body.view`, `observe`: what a response says about the access control;
* `Follows`: a service method ends as an attempt of the access control does.
-/
import GofrSec.AccessControl
import GofrSec.Services.Servers

namespace GofrSec

open Calls

/-- The access control of the service: subjects, group names and token ids are text. -/
abbrev Access : Type := AccessControl String String String DateTime

/-- What the access control replies to the service. -/
abbrev AccessReply : Type := Reply String String String DateTime

/-- A reply, with what becomes of the access control. -/
abbrev AccessVerdict : Type := Verdict String String String DateTime

/-- What a token grants. -/
def IssuedTokenRecord.grant (record : IssuedTokenRecord) : Grant String String DateTime :=
  { groups := {g | g ∈ record.grantedGroups}
    expires := record.expiresAt
    revoked := record.status = "revoked"
    owner := record.ownerSub }

/-- The access control that a registry holds. -/
def Registry.access (reg : Registry) : Access where
  users := {u | (reg.profiles.find u).isSome}
  groups := {g | (reg.groups.find g).isSome}
  members := {p | reg.Member p.1 p.2}
  grants t := (reg.tokens.find t).map IssuedTokenRecord.grant

variable {R : Regime} {reg reg' : Registry}

namespace Registry

lemma Agrees.access (h : reg'.Agrees reg) : reg'.access = reg.access := by
  cases reg
  cases reg'
  obtain ⟨rfl, rfl, rfl, rfl⟩ := h
  rfl

@[simp] lemma access_empty : Registry.empty.access = AccessControl.empty := by
  ext1
  · exact Set.eq_empty_of_forall_notMem fun u hu => Bool.false_ne_true hu
  · exact Set.eq_empty_of_forall_notMem fun g hg => Bool.false_ne_true hg
  · refine Set.eq_empty_of_forall_notMem fun p hp => ?_
    obtain ⟨m, hm⟩ := hp
    cases hm
  · rfl

/-! ### What the calls make of it -/

lemma access_profileUpsert (profile : UserProfile) :
    (RepoCall.effect (.profileUpsert profile) reg).access
      = reg.access.register profile.keycloakSub := by
  ext1
  · ext u
    show ((reg.profiles.insert profile).find u).isSome ↔ u ∈ insert _ reg.access.users
    rw [Keyed.find_insert, Set.mem_insert_iff]
    split_ifs with hu
    · exact iff_of_true rfl (Or.inl hu)
    · exact (or_iff_right hu).symm
  · rfl
  · rfl
  · rfl

lemma access_groupUpsert (group : GroupDefinition) :
    (RepoCall.effect (.groupUpsert group) reg).access
      = { reg.access with groups := insert group.name reg.access.groups } := by
  ext1
  · rfl
  · ext g
    show ((reg.groups.insert group).find g).isSome ↔ g ∈ insert _ reg.access.groups
    rw [Keyed.find_insert, Set.mem_insert_iff]
    split_ifs with hg
    · exact iff_of_true rfl (Or.inl hg)
    · exact (or_iff_right hg).symm
  · rfl
  · rfl

lemma access_membershipAdd (m : UserGroupMembership) :
    (RepoCall.effect (.membershipAdd m) reg).access
      = { reg.access with members := insert m.pair reg.access.members } := by
  ext1
  · rfl
  · rfl
  · ext p
    show (∃ m', (reg.memberships.insert m).find p = some m') ↔ p ∈ insert _ reg.access.members
    rw [Keyed.find_insert, Set.mem_insert_iff]
    split_ifs with hp
    · exact iff_of_true ⟨m, rfl⟩ (Or.inl hp)
    · exact (or_iff_right hp).symm
  · rfl

lemma access_membershipRemove (u g : String) :
    (RepoCall.effect (.membershipRemove u g) reg).access
      = { reg.access with members := reg.access.members \ {(u, g)} } := by
  ext1
  · rfl
  · rfl
  · ext p
    show (∃ m, (reg.memberships.remove (u, g)).find p = some m)
      ↔ p ∈ reg.access.members \ {(u, g)}
    rw [Keyed.find_remove, Set.mem_sdiff, Set.mem_singleton_iff]
    split_ifs with hp
    · exact iff_of_false (by rintro ⟨_, ⟨⟩⟩) fun h => h.2 hp
    · exact (and_iff_left hp).symm
  · rfl

lemma access_tokenUpsert (record : IssuedTokenRecord) :
    (RepoCall.effect (.tokenUpsert record) reg).access
      = reg.access.file record.tokenId record.grant := by
  ext1
  · rfl
  · rfl
  · rfl
  · funext t
    show ((reg.tokens.insert record).find t).map IssuedTokenRecord.grant
      = Function.update reg.access.grants record.tokenId (some record.grant) t
    rw [Keyed.find_insert, Function.update_apply]
    split_ifs
    · rfl
    · rfl

end Registry

/-! ### Records that can be shown -/

/-- A value that is a text or `None`. -/
def Json.IsText (value : Json) : Prop := ∃ text, textField value = .ok text

lemma Json.isText_null : Json.null.IsText := ⟨none, rfl⟩

lemma Json.isText_str (s : String) : (Json.str s).IsText := ⟨some s, rfl⟩

/-- What the stored records are like: groups are active, the fields that a response
shows as texts are texts, and a token is active or revoked. -/
structure Registry.Presentable (reg : Registry) : Prop where
  groups : ∀ g group, reg.groups.find g = some group → group.isActive
  profiles : ∀ u profile, reg.profiles.find u = some profile →
    profile.displayName.IsText ∧ profile.email.IsText
  memberships : ∀ p m, reg.memberships.find p = some m → m.grantedBySub.IsText
  tokens : ∀ t record, reg.tokens.find t = some record →
    record.status = "active" ∨ record.status = "revoked"

namespace Registry.Presentable

lemma empty : Registry.empty.Presentable :=
  ⟨by rintro _ _ ⟨⟩, by rintro _ _ ⟨⟩, by rintro _ _ ⟨⟩, by rintro _ _ ⟨⟩⟩

lemma agrees (h : reg.Presentable) (hreg : reg'.Agrees reg) : reg'.Presentable := by
  refine ⟨?_, ?_, ?_, ?_⟩
  · rw [hreg.groups]
    exact h.groups
  · rw [hreg.profiles]
    exact h.profiles
  · rw [hreg.memberships]
    exact h.memberships
  · rw [hreg.tokens]
    exact h.tokens

lemma profileUpsert (h : reg.Presentable) {profile : UserProfile}
    (hname : profile.displayName.IsText) (hemail : profile.email.IsText) :
    (RepoCall.effect (.profileUpsert profile) reg).Presentable := by
  refine ⟨h.groups, fun u p hp => ?_, h.memberships, h.tokens⟩
  replace hp : (reg.profiles.insert profile).find u = some p := hp
  rw [Keyed.find_insert] at hp
  split_ifs at hp
  · obtain rfl := Option.some.inj hp
    exact ⟨hname, hemail⟩
  · exact h.profiles u p hp

lemma groupUpsert (h : reg.Presentable) {group : GroupDefinition} (hactive : group.isActive) :
    (RepoCall.effect (.groupUpsert group) reg).Presentable := by
  refine ⟨fun g group' hg => ?_, h.profiles, h.memberships, h.tokens⟩
  replace hg : (reg.groups.insert group).find g = some group' := hg
  rw [Keyed.find_insert] at hg
  split_ifs at hg
  · obtain rfl := Option.some.inj hg
    exact hactive
  · exact h.groups g group' hg

lemma membershipAdd (h : reg.Presentable) {m : UserGroupMembership}
    (hm : m.grantedBySub.IsText) : (RepoCall.effect (.membershipAdd m) reg).Presentable := by
  refine ⟨h.groups, h.profiles, fun p m' hp => ?_, h.tokens⟩
  replace hp : (reg.memberships.insert m).find p = some m' := hp
  rw [Keyed.find_insert] at hp
  split_ifs at hp
  · obtain rfl := Option.some.inj hp
    exact hm
  · exact h.memberships p m' hp

lemma membershipRemove (h : reg.Presentable) (u g : String) :
    (RepoCall.effect (.membershipRemove u g) reg).Presentable := by
  refine ⟨h.groups, h.profiles, fun p m hp => ?_, h.tokens⟩
  replace hp : (reg.memberships.remove (u, g)).find p = some m := hp
  rw [Keyed.find_remove] at hp
  split_ifs at hp
  exact h.memberships p m hp

lemma tokenUpsert (h : reg.Presentable) {record : IssuedTokenRecord}
    (hstatus : record.status = "active" ∨ record.status = "revoked") :
    (RepoCall.effect (.tokenUpsert record) reg).Presentable := by
  refine ⟨h.groups, h.profiles, h.memberships, fun t record' ht => ?_⟩
  replace ht : (reg.tokens.insert record).find t = some record' := ht
  rw [Keyed.find_insert] at ht
  split_ifs at ht
  · obtain rfl := Option.some.inj ht
    exact hstatus
  · exact h.tokens t record' ht

end Registry.Presentable

/-! ### What a response says -/

/-- The grant that a response shows. -/
def TokenMetadataResponse.grant (metadata : TokenMetadataResponse) :
    Grant String String DateTime :=
  { groups := {g | g ∈ metadata.grantedGroups}
    expires := metadata.expiresAt
    revoked := metadata.status = "revoked"
    owner := metadata.ownerSub }

/-- The terms that a listing of the caller's tokens shows. -/
def MeTokenResponse.terms (token : MeTokenResponse) : Terms String DateTime :=
  { groups := {g | g ∈ token.grantedGroups}
    expires := token.expiresAt
    revoked := token.status = "revoked" }

/-- What a body says about the access control. -/
def Body.view : Body → AccessReply
  | .token metadata => .granted metadata.tokenId metadata.grant
  | .minted metadata _ => .granted metadata.tokenId metadata.grant
  | .registration result => .registered (result.registrationStatus = .created)
  | .profile shown => .profile shown.isRegistered {g | g ∈ shown.groups}
  | .tokens held => .holdings {p | ∃ shown ∈ held, shown.tokenId = p.1 ∧ shown.terms = p.2}
  | .decision allowed => .decision allowed
  | _ => .done

/-- Why a status code refuses. -/
def refusalOf : ℕ → Refusal
  | 403 => .forbidden
  | 404 => .missing
  | 409 => .conflict
  | 422 => .malformed
  | 503 => .unavailable
  | _ => .failed

/-- What a response says about the access control. -/
def Response.view : Response → AccessReply
  | .success _ body => body.view
  | .error status _ => .refused (refusalOf status)

/-- What the outcome of a request says; an exception that leaves the route is a failure. -/
def observe : Except PyError Response → AccessReply
  | .ok answer => answer.view
  | .error _ => .refused .failed

/-- What the outcome of an activity says: a start-up that completes is done. -/
def Outcome.observe : Except PyError Outcome → AccessReply
  | .ok (.plan _) => .done
  | .ok (.response answer) => answer.view
  | .error _ => .refused .failed

/-- Every stored membership can be shown. -/
lemma membershipBody_ok {m : UserGroupMembership} (h : m.grantedBySub.IsText) :
    ∃ b, membershipBody m = .ok b ∧ b.view = .done := by
  obtain ⟨text, htext⟩ := h
  refine ⟨.membership ⟨m.keycloakSub, m.groupName, m.grantedAt, text⟩, ?_, rfl⟩
  rw [membershipBody, htext]
  rfl

lemma statusField_ok {status : String} (h : status = "active" ∨ status = "revoked") :
    statusField status = .ok status := if_pos h

/-- So can every token. -/
lemma tokenBody_ok {record : IssuedTokenRecord}
    (h : record.status = "active" ∨ record.status = "revoked") :
    ∃ b, tokenBody record = .ok b ∧ b.view = .granted record.tokenId record.grant := by
  have hshown : tokenBody record = .ok (.token
      { tokenId := record.tokenId
        ownerSub := record.ownerSub
        grantedGroups := record.grantedGroups
        status := record.status
        issuedAt := record.issuedAt
        expiresAt := record.expiresAt
        revokedAt := record.revokedAt
        issuedBySub := record.issuedBySub }) := by
    rw [tokenBody, toMetadataResponse, statusField_ok h]
    rfl
  exact ⟨_, hshown, rfl⟩

/-- The tokens of a caller, shown. -/
lemma tokensBody_ok {records : List IssuedTokenRecord}
    (h : ∀ record ∈ records, record.status = "active" ∨ record.status = "revoked") :
    ∃ b, tokensBody records = .ok b ∧ b.view = .holdings
      {p | ∃ record ∈ records, record.tokenId = p.1 ∧ record.grant.toTerms = p.2} := by
  let shown (record : IssuedTokenRecord) : MeTokenResponse :=
    { tokenId := record.tokenId
      grantedGroups := record.grantedGroups
      status := record.status
      issuedAt := record.issuedAt
      expiresAt := record.expiresAt
      revokedAt := record.revokedAt
      issuedBySub := record.issuedBySub }
  have hmap : records.mapM meToken = .ok (records.map shown) := by
    induction records with
    | nil => rfl
    | cons record records ih =>
        have hrecord : meToken record = .ok (shown record) := by
          rw [meToken, statusField_ok (h record List.mem_cons_self)]
          rfl
        rw [List.mapM_cons, hrecord, ih fun r hr => h r (List.mem_cons_of_mem _ hr)]
        rfl
  refine ⟨.tokens (records.map shown), ?_, ?_⟩
  · rw [tokensBody, hmap]
    rfl
  · refine congrArg Reply.holdings (Set.ext fun p => ?_)
    simp only [Set.mem_ofPred_eq, List.mem_map, exists_exists_and_eq_and]
    exact Iff.rfl

/-! ### Methods that follow an attempt -/

/-- The registry is fit for the next operation. -/
structure Registry.Fit (R : Regime) (reg : Registry) : Prop where
  presentable : reg.Presentable
  sound : reg.Sound R

lemma Registry.Fit.empty : Registry.empty.Fit R :=
  ⟨.empty, by rintro _ _ ⟨⟩⟩

lemma Registry.Fit.agrees (h : reg.Fit R) (hreg : reg'.Agrees reg) : reg'.Fit R := by
  refine ⟨h.presentable.agrees hreg, ?_⟩
  rw [Registry.Sound, hreg.tokens]
  exact h.sound

/-- An upsert of a token that callers may make keeps the registry sound. -/
lemma Registry.Sound.tokenUpsert (h : reg.Sound R) {record : IssuedTokenRecord}
    (howes : (RepoCall.tokenUpsert record).Owes R) :
    (RepoCall.effect (.tokenUpsert record) reg).Sound R := by
  intro t record' ht
  replace ht : (reg.tokens.insert record).find t = some record' := ht
  rw [Keyed.find_insert] at ht
  split_ifs at ht with hid
  · obtain rfl := Option.some.inj ht
    rw [hid]
    exact howes
  · exact h t record' ht

/-- Why a route refuses with an exception of its service method. -/
def refusedWith (statusOf : PyError → Option ℕ) (e : PyError) : Refusal :=
  ((statusOf e).map refusalOf).getD .failed

/-- A service method ends as an attempt of the access control does. -/
def Follows {α : Type} (R : Regime) (statusOf : PyError → Option ℕ)
    (body : α → Except PyError Body) (reg : Registry) (attempt : Except Refusal AccessVerdict) :
    Except PyError α → Registry → Prop
  | .ok v, reg' => reg'.Fit R ∧ ∃ b, body v = .ok b ∧ attempt = .ok (b.view, reg'.access)
  | .error e, reg' => reg'.Agrees reg ∧ attempt = .error (refusedWith statusOf e)

section

variable {α : Type} {statusOf : PyError → Option ℕ} {body : α → Except PyError Body}
  {attempt : Except Refusal AccessVerdict} {r : Except PyError α}

/-- An event that is audited makes no difference. -/
lemma Follows.audit (h : Follows R statusOf body reg attempt r reg') (event : AuditEvent) :
    Follows R statusOf body reg attempt r (reg'.audit event) := by
  cases r with
  | ok v =>
      obtain ⟨hfit, b, hb, hattempt⟩ := h
      exact ⟨hfit.agrees (reg'.audit_agrees event), b, hb, hattempt⟩
  | error e =>
      obtain ⟨hreg, hattempt⟩ := h
      exact ⟨⟨hreg.profiles, hreg.groups, hreg.memberships, hreg.tokens⟩, hattempt⟩

/-- The frame of a service method. -/
lemma follows_audited {service : RepoProg α} {failure : AuditEvent} {success : α → AuditEvent}
    (h : service.wp R.contract (Follows R statusOf body reg attempt) reg) :
    (audited service failure success).wp R.contract (Follows R statusOf body reg attempt) reg :=
  Regime.wp_audited (Prog.wp_mono (fun _ _ hr event => hr.audit event) h)

end

end GofrSec
