/-
The storing calls that an operation can make, whatever its calls answer.

* `RepoCall.Stores`: the calls that change records;
* `Op.MayStore`, `uses_prog`: an operation makes no storing calls but those of
  its kind, with its own arguments;
* `prepareMint`, `mintTokenBody_eq`: a mint stores nothing until it has made its
  record, and then makes one upsert;
* `uses_groupUpsert`: a definition is stored under a group name;
* `strict_prog`: an operation does not return once a call of it has raised.
-/
import GofrSec.Calls.Failing
import GofrSec.Services.Operations

namespace GofrSec

open Calls

/-- The calls that change records. -/
def RepoCall.Stores : RepoCall → Prop
  | .profileUpsert _ => True
  | .groupUpsert _ => True
  | .membershipAdd _ => True
  | .membershipRemove _ _ => True
  | .tokenUpsert _ => True
  | _ => False

/-- The calls that reach a store or the signer, and change no record. -/
def RepoCall.Reads (c : RepoCall) : Prop := ¬ c.Stores ∧ c.mayFail

lemma reads_not_stores (c : RepoCall) (hc : c.Reads) : ¬ c.Stores := hc.1

/-- The storing calls that an operation may make. -/
def Op.MayStore (P : Platform) : Op → RepoCall → Prop
  | .applyPlan _ _ _, .groupUpsert _ => True
  | .applyPlan subjects _ _, .membershipAdd m =>
      m.groupName = "admin" ∧ m.keycloakSub ∈ normalizeSubjects subjects
  | .registerSelf identity _ _, .profileUpsert profile => profile.keycloakSub = identity.subject
  | .createGroup _ _ _ _ _, .groupUpsert _ => True
  | .addMembership u g _ _ _, .membershipAdd m =>
      m.keycloakSub = u ∧ normalizeGroupName P g = .ok m.groupName
  | .removeMembership u g _ _ _, .membershipRemove u' n => u' = u ∧ normalizeGroupName P g = .ok n
  | .mintToken request _, .tokenUpsert record => record.tokenId = request.tokenId
  | .revokeToken _ _ _ _, .tokenUpsert record => record.status = "revoked"
  | _, _ => False

/-- The calls that an operation may make. -/
def Op.Calls (P : Platform) (o : Op) (c : RepoCall) : Prop := c.Stores → o.MayStore P c

variable {P : Platform}

section

variable {U : RepoCall → Prop}

lemma uses_call {c : RepoCall} (h : U c) : (RepoCall.perform c).Uses U :=
  (Prog.uses_perform c).mpr h

lemma uses_audited {α : Type} {body : RepoProg α} {failure : AuditEvent}
    {success : α → AuditEvent} (hbody : body.Uses U) (hU : ∀ event, U (.auditAppend event)) :
    (audited body failure success).Uses U := by
  refine hbody.handle fun r => ?_
  cases r with
  | ok a => exact (uses_call (hU _)).bind fun _ => Prog.uses_pure _
  | error e => exact (uses_call (hU _)).bind fun _ => Prog.uses_throw _

lemma uses_map {α β : Type} {p : RepoProg α} (f : α → β) (h : p.Uses U) : (f <$> p).Uses U :=
  Prog.Uses.bind h fun _ => Prog.uses_pure _

lemma uses_requireActiveGroup (hU : ∀ c : RepoCall, c.Reads → U c) (g : String) :
    (requireActiveGroup g).Uses U := by
  refine Prog.Uses.bind (uses_call (hU _ ⟨id, trivial⟩)) fun found => ?_
  cases found with
  | none => exact Prog.uses_throw _
  | some group =>
      dsimp only
      split_ifs
      · exact Prog.uses_pure _
      · exact Prog.uses_throw _

lemma uses_findMembership (hU : ∀ c : RepoCall, c.Reads → U c) (u g : String) :
    (findMembership u g).Uses U :=
  Prog.Uses.bind (uses_call (hU _ ⟨id, trivial⟩)) fun _ => Prog.uses_pure _

lemma uses_getTokenOrRaise (hU : ∀ c : RepoCall, c.Reads → U c) (t : String) :
    (getTokenOrRaise t).Uses U := by
  refine Prog.Uses.bind (uses_call (hU _ ⟨id, trivial⟩)) fun found => ?_
  cases found with
  | none => exact Prog.uses_throw _
  | some record => exact Prog.uses_pure _

lemma uses_lookUpGroups (hU : ∀ c : RepoCall, c.Reads → U c) (seen names : List String) :
    (lookUpGroups seen names).Uses U := by
  induction names generalizing seen with
  | nil => trivial
  | cons g names ih =>
      rw [lookUpGroups]
      split_ifs
      · exact ih seen
      · refine Prog.Uses.bind (uses_call (hU _ ⟨id, trivial⟩)) fun found => ?_
        cases found with
        | none => exact Prog.uses_throw _
        | some group =>
            dsimp only
            split_ifs
            · exact (ih _).bind fun _ => Prog.uses_pure _
            · exact Prog.uses_throw _

lemma uses_validateGroups (hU : ∀ c : RepoCall, c.Reads → U c) (groups : List String) :
    (validateGroups P groups).Uses U := by
  refine Prog.Uses.bind (Prog.uses_lift _) fun names => ?_
  split_ifs
  · exact Prog.uses_throw _
  · exact uses_lookUpGroups hU _ _

end

/-! ### Minting -/

/-- What `mint_token` does before it stores anything: the record that it is going
to store, and the signed token. -/
def prepareMint (P : Platform) (request : MintRequest) (issuedAt : DateTime) :
    RepoProg (IssuedTokenRecord × String) := do
  let registered ← isRegistered request.ownerSub
  if registered then
    let grantedGroups ← validateGroups P request.groups
    if request.lifetimeSeconds ≤ 0 then
      throw (.valueError "Token expiry must be greater than zero seconds")
    else
      let expiresAt ← Prog.lift (issuedAt.addSeconds request.lifetimeSeconds)
      let rawToken ← signToken
        { tokenId := request.tokenId
          ownerSub := request.ownerSub
          issuedAt := issuedAt
          expiresAt := some expiresAt }
      let hash ← Prog.lift (jwtHash P rawToken)
      pure
        ({ tokenId := request.tokenId
           ownerSub := request.ownerSub
           grantedGroups := grantedGroups
           status := "active"
           issuedAt := issuedAt
           expiresAt := some expiresAt
           issuedBySub := some request.actorSub
           jwtHash := some hash
           pendingReveal := false
           revokedAt := none }, rawToken)
  else throw (.unregisteredUser ("Unknown target user: " ++ request.ownerSub))

/-- A mint prepares its record, and then makes one upsert. -/
theorem mintTokenBody_eq (request : MintRequest) (issuedAt : DateTime) :
    mintTokenBody P request issuedAt = (do
      let prepared ← prepareMint P request issuedAt
      let record ← tokenUpsert prepared.1
      pure (record, prepared.2)) := by
  rw [mintTokenBody, prepareMint, bind_assoc]
  congr 1
  funext registered
  split_ifs
  · rw [bind_assoc]
    rfl
  · simp only [bind_assoc, pure_bind]
  · rfl

lemma uses_prepareMint {U : RepoCall → Prop} (hU : ∀ c : RepoCall, c.Reads → U c)
    (request : MintRequest) (issuedAt : DateTime) : (prepareMint P request issuedAt).Uses U := by
  refine Prog.Uses.bind (uses_call (hU _ ⟨id, trivial⟩)) fun registered => ?_
  split_ifs with _ hlifetime
  · exact (uses_validateGroups hU _).bind fun _ => Prog.uses_throw _
  · refine (uses_validateGroups hU _).bind fun grantedGroups => ?_
    refine Prog.Uses.bind (Prog.uses_lift _) fun expiresAt => ?_
    refine Prog.Uses.bind (uses_call (hU _ ⟨id, trivial⟩)) fun rawToken => ?_
    exact Prog.Uses.bind (Prog.uses_lift _) fun hash => Prog.uses_pure _
  · exact Prog.uses_throw _

/-- The names that pass the lookup are among those looked up. -/
lemma returns_lookUpGroups {A : String → Prop} (seen : List String) {names : List String}
    (hnames : ∀ n ∈ names, A n) :
    (lookUpGroups seen names).Returns fun groups => ∀ g ∈ groups, A g := by
  induction names generalizing seen with
  | nil => exact fun g hg => nomatch hg
  | cons n names ih =>
      have hrest := fun seen => ih seen fun m hm => hnames m (List.mem_cons_of_mem _ hm)
      rw [lookUpGroups]
      split_ifs
      · exact hrest seen
      · refine Prog.Returns.bind (Prog.returns_true _) fun found _ => ?_
        cases found with
        | none => trivial
        | some group =>
            dsimp only
            split_ifs
            · refine Prog.Returns.bind (hrest _) fun groups hgroups => ?_
              exact List.forall_mem_cons.mpr ⟨hnames n List.mem_cons_self, hgroups⟩
            · trivial

/-- A mint grants no names but group names. -/
lemma returns_validateGroups (groups : List String) :
    (validateGroups P groups).Returns fun granted => ∀ g ∈ granted, IsGroupName g := by
  refine Prog.Returns.bind (Prog.returns_lift fun names hnames => hnames) fun names hnames => ?_
  split_ifs
  · trivial
  · refine returns_lookUpGroups [] fun n hn => ?_
    obtain ⟨name, -, hname⟩ :=
      (mem_of_mapM_normalizeGroupName (ensureRuntimeGroupsAllowed_eq_ok hnames).1 n).mp hn
    exact (normalizeGroupName_eq_ok hname).1

/-- The record that a mint prepares has the id and the owner of the request, is
active and grants group names. -/
lemma returns_prepareMint (request : MintRequest) (issuedAt : DateTime) :
    (prepareMint P request issuedAt).Returns fun prepared =>
      prepared.1.tokenId = request.tokenId ∧ prepared.1.ownerSub = request.ownerSub
        ∧ prepared.1.status = "active" ∧ ∀ g ∈ prepared.1.grantedGroups, IsGroupName g := by
  refine Prog.Returns.bind (Prog.returns_true _) fun registered _ => ?_
  split_ifs
  · exact Prog.Returns.bind (Prog.returns_true _) fun _ _ => trivial
  · refine Prog.Returns.bind (returns_validateGroups _) fun grantedGroups hgroups => ?_
    refine Prog.Returns.bind (Prog.returns_true _) fun expiresAt _ => ?_
    refine Prog.Returns.bind (Prog.returns_true _) fun rawToken _ => ?_
    refine Prog.Returns.bind (Prog.returns_true _) fun hash _ => ?_
    exact ⟨rfl, rfl, rfl, hgroups⟩
  · trivial

/-! ### All operations -/

lemma uses_ensureReservedGroups {U : RepoCall → Prop} (hU : ∀ c : RepoCall, c.Reads → U c)
    {groups : List GroupDefinition} (hgroup : ∀ group ∈ groups, U (.groupUpsert group)) :
    (ensureReservedGroups groups).Uses U := by
  induction groups with
  | nil => trivial
  | cons group groups ih =>
      have hrest := ih fun g hg => hgroup g (List.mem_cons_of_mem _ hg)
      refine Prog.Uses.bind (uses_call (hU _ ⟨id, trivial⟩)) fun found => ?_
      split_ifs
      · refine Prog.Uses.bind (uses_call (hgroup group List.mem_cons_self)) fun _ => ?_
        exact hrest
      · exact hrest

lemma uses_ensureAdminMembers {U : RepoCall → Prop} (hU : ∀ c : RepoCall, c.Reads → U c)
    {grantedAt : String → DateTime} {subs : List String}
    (hadd : ∀ m : UserGroupMembership, m.groupName = "admin" → m.keycloakSub ∈ subs →
      U (.membershipAdd m)) : (ensureAdminMembers grantedAt subs).Uses U := by
  induction subs with
  | nil => trivial
  | cons u subs ih =>
      have hrest := ih fun m hg hu => hadd m hg (List.mem_cons_of_mem _ hu)
      refine Prog.Uses.bind (uses_call (hU _ ⟨id, trivial⟩)) fun member => ?_
      split_ifs
      · exact Prog.Uses.bind (uses_call (hadd _ rfl List.mem_cons_self)) fun _ => hrest
      · exact hrest

/-- A registration stores a profile of its caller, and nothing else. -/
lemma uses_registerSelf {U : RepoCall → Prop} (hU : ∀ c : RepoCall, c.Reads → U c)
    (haudit : ∀ event, U (.auditAppend event)) {identity : VerifiedIdentity}
    {correlationId : Option String} {clock : Clock}
    (hprofile : ∀ profile : UserProfile, profile.keycloakSub = identity.subject →
      U (.profileUpsert profile)) : (registerSelf identity correlationId clock).Uses U := by
  refine Prog.Uses.bind (uses_call (hU _ ⟨id, trivial⟩)) fun existing => ?_
  refine Prog.Uses.bind (uses_audited (uses_call (hprofile _ ?_)) haudit) fun _ => Prog.uses_pure _
  exact refreshedProfile_keycloakSub existing identity clock.now

variable (P) in
/-- **An operation makes no storing calls but its own.** -/
theorem uses_prog (o : Op) : (o.prog P).Uses (o.Calls P) := by
  have hread : ∀ c : RepoCall, c.Reads → o.Calls P c := fun c hc h => absurd h hc.1
  have haudit : ∀ event, o.Calls P (.auditAppend event) := fun event h => h.elim
  cases o with
  | applyPlan subjects createdAt grantedAt =>
      refine uses_map _ ((uses_ensureReservedGroups hread (fun _ _ _ => trivial)).bind fun _ => ?_)
      refine Prog.Uses.bind (uses_ensureAdminMembers hread ?_) fun _ => Prog.uses_pure _
      exact fun m hg hu _ => ⟨hg, hu⟩
  | registerSelf identity correlationId clock =>
      exact uses_map _ (uses_registerSelf hread haudit fun profile hprofile _ => hprofile)
  | getSelfProfile identity =>
      refine uses_map _ (Prog.Uses.bind (uses_call (hread _ ⟨id, trivial⟩)) fun profile => ?_)
      refine Prog.Uses.bind (uses_call (hread _ ⟨id, trivial⟩)) fun memberships => ?_
      cases profile <;> exact Prog.uses_pure _
  | createGroup name description actorSub correlationId clock =>
      refine uses_map _ (uses_audited (Prog.Uses.bind (Prog.uses_lift _) fun n => ?_) haudit)
      refine Prog.Uses.bind (Prog.uses_lift _) fun reserved => ?_
      split_ifs
      · exact Prog.uses_throw _
      · refine Prog.Uses.bind (uses_call (hread _ ⟨id, trivial⟩)) fun existing => ?_
        split_ifs
        · exact Prog.uses_throw _
        · exact uses_call fun _ => trivial
  | addMembership u g actorSub correlationId clock =>
      refine uses_map _ (uses_audited ?_ haudit)
      refine Prog.Uses.bind_returns (Prog.uses_lift _) (Prog.returns_lift fun n hn => hn)
        fun n hname => ?_
      refine Prog.Uses.bind (uses_requireActiveGroup hread n) fun _ => ?_
      refine Prog.Uses.bind (uses_call (hread _ ⟨id, trivial⟩)) fun registered => ?_
      split_ifs
      · refine Prog.Uses.bind (uses_findMembership hread u n) fun found => ?_
        cases found with
        | some existing => exact Prog.uses_pure _
        | none => exact uses_call fun _ => ⟨rfl, hname⟩
      · exact Prog.uses_throw _
  | removeMembership u g actorSub correlationId clock =>
      refine uses_map _ (Prog.Uses.bind (uses_audited ?_ haudit) fun _ => Prog.uses_pure _)
      refine Prog.Uses.bind_returns (Prog.uses_lift _) (Prog.returns_lift fun n hn => hn)
        fun n hname => ?_
      have hremove : (do
          let removed ← membershipRemove u n
          if removed then pure n else throw (membershipNotFound u n) : RepoProg String).Uses
          (Op.Calls P (.removeMembership u g actorSub correlationId clock)) := by
        refine Prog.Uses.bind (uses_call fun _ => ⟨rfl, hname⟩) fun removed => ?_
        split_ifs
        · exact Prog.uses_pure _
        · exact Prog.uses_throw _
      refine Prog.Uses.bind (uses_requireActiveGroup hread n) fun _ => ?_
      refine Prog.Uses.bind (uses_findMembership hread u n) fun found => ?_
      cases found with
      | none =>
          refine Prog.Uses.bind (uses_call (hread _ ⟨id, trivial⟩)) fun registered => ?_
          split_ifs
          · exact Prog.uses_throw _
          · exact Prog.uses_throw _
      | some m =>
          dsimp only
          split_ifs
          · refine Prog.Uses.bind (uses_call (hread _ ⟨id, trivial⟩)) fun count => ?_
            exact Prog.Uses.bind (Prog.uses_lift _) fun _ => hremove
          · exact hremove
  | mintToken request clock =>
      refine uses_map _ (Prog.Uses.bind (uses_audited ?_ haudit) fun _ => Prog.uses_pure _)
      rw [mintTokenBody_eq]
      refine Prog.Uses.bind_returns (uses_prepareMint hread _ _) (returns_prepareMint _ _)
        fun prepared hprepared => ?_
      exact Prog.Uses.bind (uses_call fun _ => hprepared.1) fun _ => Prog.uses_pure _
  | getToken t actorSub correlationId clock =>
      exact uses_map _ (uses_audited (uses_getTokenOrRaise hread t) haudit)
  | revokeToken t actorSub correlationId clock =>
      refine uses_map _ (uses_audited (Prog.Uses.bind (uses_getTokenOrRaise hread t) fun current =>
        ?_) haudit)
      split_ifs
      · exact Prog.uses_pure _
      · exact uses_call fun _ => rfl
  | listSelfTokens identity correlationId clock =>
      refine uses_map _ (uses_audited ?_ haudit)
      exact Prog.Uses.bind (uses_call (hread _ ⟨id, trivial⟩)) fun _ => Prog.uses_pure _
  | authorize request correlationId clock =>
      refine uses_map _ (Prog.Uses.bind (uses_audited ?_ haudit) fun _ => Prog.uses_pure _)
      refine Prog.Uses.bind (uses_call (hread _ ⟨id, trivial⟩)) fun found => ?_
      cases found <;> exact Prog.uses_pure _

/-- A start-up plan and a creation define groups under group names only, and no
other operation defines any. -/
lemma uses_groupUpsert (o : Op) :
    (o.prog P).Uses fun c => ∀ group, c = .groupUpsert group → IsGroupName group.name := by
  have hother : ∀ c : RepoCall, (∀ group, c ≠ .groupUpsert group) →
      ∀ group, c = .groupUpsert group → IsGroupName group.name :=
    fun c hc group h => absurd h (hc group)
  have hread : ∀ c : RepoCall, c.Reads → ∀ group, c = .groupUpsert group →
      IsGroupName group.name := by
    intro c hc
    refine hother c ?_
    rintro group rfl
    exact hc.1 trivial
  cases o with
  | applyPlan subjects createdAt grantedAt =>
      refine uses_map _ (Prog.Uses.bind (uses_ensureReservedGroups hread ?_) fun _ => ?_)
      · rintro group hgroup _ ⟨⟩
        obtain rfl := List.mem_singleton.mp hgroup
        exact isGroupName_reservedAdminGroup
      · refine Prog.Uses.bind (uses_ensureAdminMembers hread fun m _ _ => ?_) fun _ =>
          Prog.uses_pure _
        exact hother _ fun group h => nomatch h
  | createGroup name description actorSub correlationId clock =>
      refine uses_map _ (uses_audited ?_ fun event => hother _ fun group h => nomatch h)
      refine Prog.Uses.bind_returns (Prog.uses_lift _) (Prog.returns_lift fun n hn => hn)
        fun n hname => ?_
      refine Prog.Uses.bind (Prog.uses_lift _) fun reserved => ?_
      split_ifs
      · exact Prog.uses_throw _
      · refine Prog.Uses.bind (uses_call (hread _ ⟨id, trivial⟩)) fun existing => ?_
        split_ifs
        · exact Prog.uses_throw _
        · refine uses_call ?_
          rintro _ ⟨⟩
          exact (normalizeGroupName_eq_ok hname).1
  | _ =>
      refine (uses_prog P _).mono fun c hc => ?_
      rintro group rfl
      exact (hc trivial).elim

/-! ### Calls that raise -/

lemma strict_audited {α : Type} {body : RepoProg α} {failure : AuditEvent}
    {success : α → AuditEvent} (hbody : body.Strict) : (audited body failure success).Strict := by
  refine hbody.handle (fun a => ?_) fun e => ?_
  · exact (Prog.strict_perform (RepoCall.auditAppend _)).bind fun _ => Prog.strict_pure _
  · exact Prog.Returns.bind (Prog.returns_true _) fun _ _ => trivial

lemma strict_map {α β : Type} {p : RepoProg α} (f : α → β) (h : p.Strict) : (f <$> p).Strict :=
  Prog.Strict.bind h fun _ => Prog.strict_pure _

lemma strict_call (c : RepoCall) : (RepoCall.perform c).Strict := Prog.strict_perform c

lemma strict_requireActiveGroup (g : String) : (requireActiveGroup g).Strict := by
  refine (strict_call (.groupGet g)).bind fun found => ?_
  cases found with
  | none => exact Prog.strict_throw _
  | some group =>
      dsimp only
      split_ifs
      · exact Prog.strict_pure _
      · exact Prog.strict_throw _

lemma strict_findMembership (u g : String) : (findMembership u g).Strict :=
  (strict_call (.membershipsForUser u)).bind fun _ => Prog.strict_pure _

lemma strict_getTokenOrRaise (t : String) : (getTokenOrRaise t).Strict := by
  refine (strict_call (.tokenGet t)).bind fun found => ?_
  cases found with
  | none => exact Prog.strict_throw _
  | some record => exact Prog.strict_pure _

lemma strict_lookUpGroups (seen names : List String) : (lookUpGroups seen names).Strict := by
  induction names generalizing seen with
  | nil => trivial
  | cons g names ih =>
      rw [lookUpGroups]
      split_ifs
      · exact ih seen
      · refine (strict_call (.groupGet g)).bind fun found => ?_
        cases found with
        | none => exact Prog.strict_throw _
        | some group =>
            dsimp only
            split_ifs
            · exact (ih _).bind fun _ => Prog.strict_pure _
            · exact Prog.strict_throw _

lemma strict_validateGroups (groups : List String) : (validateGroups P groups).Strict := by
  refine (Prog.strict_lift _).bind fun names => ?_
  split_ifs
  · exact Prog.strict_throw _
  · exact strict_lookUpGroups _ _

lemma strict_prepareMint (request : MintRequest) (issuedAt : DateTime) :
    (prepareMint P request issuedAt).Strict := by
  refine (strict_call (.isRegistered _)).bind fun registered => ?_
  split_ifs with _ hlifetime
  · exact (strict_validateGroups _).bind fun _ => Prog.strict_throw _
  · refine (strict_validateGroups _).bind fun grantedGroups => ?_
    refine (Prog.strict_lift _).bind fun expiresAt => ?_
    refine (strict_call (.signToken _)).bind fun rawToken => ?_
    exact (Prog.strict_lift _).bind fun hash => Prog.strict_pure _
  · exact Prog.strict_throw _

lemma strict_ensureReservedGroups (groups : List GroupDefinition) :
    (ensureReservedGroups groups).Strict := by
  induction groups with
  | nil => trivial
  | cons group groups ih =>
      refine (strict_call (.groupGet _)).bind fun found => ?_
      split_ifs
      · exact (strict_call (.groupUpsert group)).bind fun _ => ih
      · exact ih

lemma strict_ensureAdminMembers (grantedAt : String → DateTime) (subs : List String) :
    (ensureAdminMembers grantedAt subs).Strict := by
  induction subs with
  | nil => trivial
  | cons u subs ih =>
      refine (strict_call (.hasMembership u _)).bind fun member => ?_
      split_ifs
      · exact (strict_call (.membershipAdd _)).bind fun _ => ih
      · exact ih

variable (P) in
/-- **An operation does not return once a call of it has raised.** -/
theorem strict_prog (o : Op) : (o.prog P).Strict := by
  cases o with
  | applyPlan subjects createdAt grantedAt =>
      refine strict_map _ ((strict_ensureReservedGroups _).bind fun _ => ?_)
      exact (strict_ensureAdminMembers _ _).bind fun _ => Prog.strict_pure _
  | registerSelf identity correlationId clock =>
      refine strict_map _ ((strict_call (.profileGet _)).bind fun existing => ?_)
      exact (strict_audited (strict_call (.profileUpsert _))).bind fun _ => Prog.strict_pure _
  | getSelfProfile identity =>
      refine strict_map _ ((strict_call (.profileGet _)).bind fun profile => ?_)
      refine (strict_call (.membershipsForUser _)).bind fun memberships => ?_
      cases profile <;> exact Prog.strict_pure _
  | createGroup name description actorSub correlationId clock =>
      refine strict_map _ (strict_audited ((Prog.strict_lift _).bind fun n => ?_))
      refine (Prog.strict_lift _).bind fun reserved => ?_
      split_ifs
      · exact Prog.strict_throw _
      · refine (strict_call (.groupGet n)).bind fun existing => ?_
        split_ifs
        · exact Prog.strict_throw _
        · exact strict_call (.groupUpsert _)
  | addMembership u g actorSub correlationId clock =>
      refine strict_map _ (strict_audited ((Prog.strict_lift _).bind fun n => ?_))
      refine (strict_requireActiveGroup n).bind fun _ => ?_
      refine (strict_call (.isRegistered u)).bind fun registered => ?_
      split_ifs
      · refine (strict_findMembership u n).bind fun found => ?_
        cases found with
        | some existing => exact Prog.strict_pure _
        | none => exact strict_call (.membershipAdd _)
      · exact Prog.strict_throw _
  | removeMembership u g actorSub correlationId clock =>
      refine strict_map _ ((strict_audited ?_).bind fun _ => Prog.strict_pure _)
      have hremove : ∀ n, (do
          let removed ← membershipRemove u n
          if removed then pure n else throw (membershipNotFound u n) : RepoProg String).Strict := by
        refine fun n => (strict_call (.membershipRemove u n)).bind fun removed => ?_
        split_ifs
        · exact Prog.strict_pure _
        · exact Prog.strict_throw _
      refine (Prog.strict_lift _).bind fun n => ?_
      refine (strict_requireActiveGroup n).bind fun _ => ?_
      refine (strict_findMembership u n).bind fun found => ?_
      cases found with
      | none =>
          refine (strict_call (.isRegistered u)).bind fun registered => ?_
          split_ifs
          · exact Prog.strict_throw _
          · exact Prog.strict_throw _
      | some m =>
          dsimp only
          split_ifs
          · refine (strict_call (.countMembers n)).bind fun count => ?_
            exact (Prog.strict_lift _).bind fun _ => hremove n
          · exact hremove n
  | mintToken request clock =>
      refine strict_map _ ((strict_audited ?_).bind fun _ => Prog.strict_pure _)
      rw [mintTokenBody_eq]
      refine (strict_prepareMint _ _).bind fun prepared => ?_
      exact (strict_call (.tokenUpsert _)).bind fun _ => Prog.strict_pure _
  | getToken t actorSub correlationId clock =>
      exact strict_map _ (strict_audited (strict_getTokenOrRaise t))
  | revokeToken t actorSub correlationId clock =>
      refine strict_map _ (strict_audited ((strict_getTokenOrRaise t).bind fun current => ?_))
      split_ifs
      · exact Prog.strict_pure _
      · exact strict_call (.tokenUpsert _)
  | listSelfTokens identity correlationId clock =>
      refine strict_map _ (strict_audited ?_)
      exact (strict_call (.tokensForUser _)).bind fun _ => Prog.strict_pure _
  | authorize request correlationId clock =>
      refine strict_map _ ((strict_audited ?_).bind fun _ => Prog.strict_pure _)
      refine (strict_call (.tokenGet _)).bind fun found => ?_
      cases found <;> exact Prog.strict_pure _

end GofrSec
