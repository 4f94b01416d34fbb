/-
The service refines an access control.

* `Request.command`, `Activity.command`: the command that a request to the HTTP API, or a
  start-up, stands for, given what the signer answers; `Activity.commandAt`: in the state
  that an activity finds;
* `request_concludes`: while storage does not fail, a request answers as the access control
  does to its command, and leaves what the access control becomes;
* `wp_asked_activity`: an activity asks the signer before it changes anything, so that
  `activity_runs`: it replies as the access control does to its command in the state that it
  finds;
* `Storage.Shows`: the stores answer as an access control says;
* `service_refines_accessControl`: every run of start-ups and requests, on either backend,
  is a run of the access control: the same replies, and the stores show the state that it
  reaches.
-/
import GofrSec.Calls.Tracking
import GofrSec.Services.AccessSpecs

namespace GofrSec

open Calls Text

/-- A command to the access control of the service. -/
abbrev AccessCommand : Type := Command String String String DateTime

/-- What the signer contributes to the publication of its keys. -/
def keysPublished : Except PyError Doc → Except Refusal Unit
  | .ok _ => .ok ()
  | .error _ => .error .failed

/-- The command that a request stands for, where the signer makes `sign` of requests and
publishes `keys`. -/
def Request.command (P : Platform) (app : AppState)
    (sign : SigningRequest → Except PyError String) (keys : Except PyError Doc) :
    Request → AccessCommand
  | .root => .consult (.ok ())
  | .ping => .consult (.ok ())
  | .status => .consult (.ok ())
  | .createGroup identity name _ _ _ => .define identity.subject (groupNamed P name)
  | .addGroupMembership identity keycloakSub group _ _ =>
      .enrol identity.subject keycloakSub (groupNamed P group)
  | .removeGroupMembership identity keycloakSub group _ _ =>
      .expel identity.subject keycloakSub (groupNamed P group)
  | .createToken identity keycloakSub groups expiresInSeconds tokenId correlationId clock =>
      let request : MintRequest :=
        { ownerSub := keycloakSub
          groups := groups
          actorSub := identity.subject
          correlationId := correlationId
          expiresInSeconds := expiresInSeconds
          defaultLifetimeSeconds := app.defaultLifetimeSeconds
          tokenId := tokenId }
      .issue identity.subject keycloakSub (groups.map (groupNamed P)) (request.expiry clock.now)
        tokenId app.hasTokenSigner (request.signed P sign clock.now)
  | .getToken identity tokenId _ _ => .inspect identity.subject tokenId
  | .revokeToken identity tokenId _ _ => .revoke identity.subject tokenId
  | .registerMe identity _ _ => .register identity.subject
  | .getMe identity => .profile identity.subject
  | .getMyTokens identity _ _ => .holdings identity.subject
  | .getRuntimePublicKeys =>
      .consult (if app.hasTokenSigner then keysPublished keys else .error .unavailable)
  | .authorizeRuntimeRequest payload _ clock =>
      .authorize (payload.validateTarget.toOption.bind AuthorizationRequest.query) clock.now

/-- The command that an activity stands for. -/
def Activity.command (P : Platform) (sign : SigningRequest → Except PyError String)
    (keys : Except PyError Doc) : Activity → AccessCommand
  | .startUp subjects _ _ => .boot {u | u ∈ normalizeSubjects subjects}
  | .serve app request => request.command P app sign keys

/-- The requests that the signer has a part in. -/
def Request.asksSigner : Request → Bool
  | .createToken .. => true
  | .getRuntimePublicKeys => true
  | _ => false

/-- The activities that it has a part in. -/
def Activity.asksSigner : Activity → Bool
  | .startUp _ _ _ => false
  | .serve _ request => request.asksSigner

/-! ### Requests -/

variable {P : Platform} {app : AppState} {R : Regime} {reg : Registry}

/-- A route answers as an attempt of the access control concludes. -/
def Concludes (R : Regime) (reg : Registry) (attempt : Except Refusal AccessVerdict)
    (r : Except PyError Response) (reg' : Registry) : Prop :=
  reg'.Fit R ∧ reg.access.conclude attempt = (observe r, reg'.access)

section

variable {attempt : Except Refusal AccessVerdict}

/-- A route answers to a service method. -/
lemma wp_respond_concludes {α : Type} {service : RepoProg α} {statusOf : PyError → Option ℕ}
    {success : ℕ} {body : α → Except PyError Body} (hfit : reg.Fit R)
    (h : service.wp R.contract (Follows R statusOf body reg attempt) reg) :
    (respond service statusOf success body).wp R.contract (Concludes R reg attempt) reg := by
  rw [respond, Prog.wp_handle]
  refine Prog.wp_mono (fun r reg' hfollows => ?_) h
  cases r with
  | ok v =>
      obtain ⟨hfit', b, hb, hattempt⟩ := hfollows
      refine (Prog.wp_lift _ _ _).mpr ⟨hfit', ?_⟩
      rw [hb, hattempt]
      rfl
  | error e =>
      obtain ⟨hreg, hattempt⟩ := hfollows
      have hanswer : ∀ r : Except PyError Response,
          observe r = .refused (refusedWith statusOf e) → Concludes R reg attempt r reg' := by
        intro r hr
        refine ⟨hfit.agrees hreg, ?_⟩
        rw [hattempt, hr, hreg.access]
        rfl
      dsimp only
      cases hstatus : statusOf e with
      | some status =>
          refine hanswer _ ?_
          rw [refusedWith, hstatus]
          rfl
      | none =>
          refine hanswer _ ?_
          rw [refusedWith, hstatus]
          rfl

/-- Behind `require_admin_identity`, what is not forbidden is attempted. -/
lemma wp_requireAdmin_concludes (hfaults : ¬ R.faults) (hfit : reg.Fit R)
    {identity : VerifiedIdentity} {route : RepoProg Response}
    (h : route.wp R.contract (Concludes R reg attempt) reg) :
    (requireAdminIdentity identity route).wp R.contract (Concludes R reg (do
      require (reg.access.IsAdmin "admin" identity.subject) .forbidden
      attempt)) reg := by
  rw [requireAdminIdentity, Prog.wp_bind, Regime.wp_hasMembership]
  refine ⟨?_, fun hf => absurd hf hfaults⟩
  rw [Prog.onReturn_ok]
  split_ifs with hmember
  · have hadmin : reg.access.IsAdmin "admin" identity.subject :=
      Option.isSome_iff_exists.mp hmember
    rw [require_bind hadmin]
    exact h
  · have hother : ¬ reg.access.IsAdmin "admin" identity.subject :=
      fun h => hmember (Option.isSome_iff_exists.mpr h)
    rw [require_bind_error hother]
    exact ⟨hfit, rfl⟩

/-- Behind `get_token_signer`, what is available is attempted. -/
lemma wp_withTokenSigner_concludes (hfit : reg.Fit R) {route : RepoProg Response}
    (h : route.wp R.contract (Concludes R reg attempt) reg) :
    (withTokenSigner app route).wp R.contract (Concludes R reg (do
      require (app.hasTokenSigner = true) .unavailable
      attempt)) reg := by
  rw [withTokenSigner]
  split_ifs with hsigner
  · rw [require_bind hsigner]
    exact h
  · rw [require_bind_error hsigner]
    exact ⟨hfit, rfl⟩

end

/-- A text that is kept is not empty. -/
lemma ne_empty_of_strippedOrNone {value : Option String} {s : String}
    (h : strippedOrNone value = some s) : s ≠ "" := by
  obtain ⟨text, -, hs⟩ := Option.bind_eq_some_iff.mp h
  rw [nonEmpty] at hs
  split_ifs at hs with hempty
  rw [← Option.some.inj hs]
  exact hempty

/-- What the validator of a runtime authorization request lets pass is a query. -/
lemma query_of_validateTarget {payload : RuntimeAuthorizationRequest}
    {request : AuthorizationRequest} (h : payload.validateTarget = .ok request) :
    ∃ query, request.query = some query ∧ query.target ≠ "" := by
  rw [RuntimeAuthorizationRequest.validateTarget] at h
  split_ifs at h with hid howner htargets
  obtain rfl := Except.ok.inj h
  cases hgroup : strippedOrNone payload.group with
  | some group =>
      have hne := ne_empty_of_strippedOrNone hgroup
      refine ⟨⟨strip payload.tokenId, strip payload.ownerSub, group⟩, ?_, hne⟩
      simp only [AuthorizationRequest.query, requiredPermission, if_neg hne]
  | none =>
      cases hresource : strippedOrNone payload.resource with
      | some resource =>
          exact ⟨⟨strip payload.tokenId, strip payload.ownerSub, resource⟩, rfl,
            ne_empty_of_strippedOrNone hresource⟩
      | none =>
          rw [hgroup, hresource] at htargets
          exact absurd rfl htargets

/-- A route for admins attempts its command. -/
lemma wp_adminRoute_concludes (hfaults : ¬ R.faults) (hfit : reg.Fit R)
    {identity : VerifiedIdentity} {route : RepoProg Response} {command : AccessCommand}
    (hadmin : command.admin = some identity.subject)
    (h : route.wp R.contract (Concludes R reg (reg.access.perform "admin" command)) reg) :
    (requireAdminIdentity identity route).wp R.contract
      (Concludes R reg (reg.access.attempt "admin" command)) reg := by
  rw [AccessControl.attempt_admin hadmin]
  exact wp_requireAdmin_concludes hfaults hfit h

/-- So does a route that is open to every caller. -/
lemma concludes_open {command : AccessCommand} (hopen : command.admin = none) :
    Concludes R reg (reg.access.attempt "admin" command)
      = Concludes R reg (reg.access.perform "admin" command) :=
  congrArg (Concludes R reg) (AccessControl.attempt_open hopen)

/-- **A request answers as the access control does to its command**, where the regime knows
what the signer answers if it has a part in the request. -/
theorem request_concludes (hfaults : ¬ R.faults) (hplain : R.plain) (hindexed : R.indexed)
    (hfit : reg.Fit R) (q : Request) (hvalid : ∀ o, q.op app = some o → o.Valid R.plain)
    {sign : SigningRequest → Except PyError String} {keys : Except PyError Doc}
    (hsigns : q.asksSigner → ∀ request answer, R.signs request answer → answer = sign request)
    (hkeys : q.asksSigner → ∀ answer, R.keys answer → answer = keys) :
    (q.prog P app).wp R.contract
      (Concludes R reg (reg.access.attempt "admin" (q.command P app sign keys))) reg := by
  cases q with
  | root =>
      rw [concludes_open rfl]
      exact ⟨hfit, rfl⟩
  | ping =>
      rw [concludes_open rfl]
      exact ⟨hfit, rfl⟩
  | status =>
      rw [concludes_open rfl]
      exact ⟨hfit, rfl⟩
  | createGroup identity name description correlationId clock =>
      refine wp_adminRoute_concludes hfaults hfit rfl ?_
      exact wp_respond_concludes hfit (createGroup_follows hfaults hfit _ _ _ _ _)
  | addGroupMembership identity u g correlationId clock =>
      refine wp_adminRoute_concludes hfaults hfit rfl ?_
      exact wp_respond_concludes hfit
        (addMembership_follows hfaults hfit _ _ _ _ _ (hvalid _ rfl))
  | removeGroupMembership identity u g correlationId clock =>
      refine wp_adminRoute_concludes hfaults hfit rfl ?_
      exact wp_respond_concludes hfit (removeMembership_follows hfaults hplain hfit _ _ _ _ _)
  | createToken identity u groups expiresInSeconds t correlationId clock =>
      refine wp_adminRoute_concludes hfaults hfit rfl ?_
      refine wp_withTokenSigner_concludes hfit (wp_respond_concludes hfit ?_)
      obtain ⟨hid, hsub⟩ := hvalid _ rfl
      exact mintToken_follows hfaults hfit _ clock hid hsub (hsigns rfl)
  | getToken identity t correlationId clock =>
      refine wp_adminRoute_concludes hfaults hfit rfl ?_
      exact wp_respond_concludes hfit (getToken_follows hfaults hfit _ _ _ _)
  | revokeToken identity t correlationId clock =>
      refine wp_adminRoute_concludes hfaults hfit rfl ?_
      exact wp_respond_concludes hfit (revokeToken_follows hfaults hfit _ _ _ _)
  | registerMe identity correlationId clock =>
      rw [concludes_open rfl]
      exact wp_respond_concludes hfit (registerSelf_follows hfaults hfit _ _ _ (hvalid _ rfl))
  | getMe identity =>
      rw [concludes_open rfl]
      exact wp_respond_concludes hfit (getSelfProfile_follows hfaults hfit _)
  | getMyTokens identity correlationId clock =>
      rw [concludes_open rfl]
      exact wp_respond_concludes hfit (listSelfTokens_follows hfaults hplain hindexed hfit
        _ _ _ (hvalid _ rfl hplain))
  | getRuntimePublicKeys =>
      rw [concludes_open rfl]
      have hcommand : reg.access.perform "admin"
          (Request.getRuntimePublicKeys.command P app sign keys) = (do
            require (app.hasTokenSigner = true) .unavailable
            reg.access.perform "admin" (.consult (keysPublished keys))) := by
        by_cases hsigner : app.hasTokenSigner = true
        · rw [require_bind hsigner, Request.command, if_pos hsigner]
        · rw [require_bind_error hsigner, Request.command, if_neg hsigner]
          rfl
      rw [hcommand]
      refine wp_withTokenSigner_concludes hfit (wp_respond_concludes hfit
        ((Regime.wp_publicKeyDocument _).mpr ⟨fun answer hanswer => ?_,
          fun hf => absurd hf hfaults⟩))
      obtain rfl := hkeys rfl answer hanswer
      cases answer with
      | ok keys => exact ⟨hfit, _, rfl, rfl⟩
      | error e => exact ⟨.refl reg, rfl⟩
  | authorizeRuntimeRequest payload correlationId clock =>
      rw [concludes_open rfl, Request.prog]
      cases hpayload : payload.validateTarget with
      | error detail =>
          refine ⟨hfit, ?_⟩
          simp only [Request.command, hpayload]
          rfl
      | ok request =>
          obtain ⟨query, hquery, hne⟩ := query_of_validateTarget hpayload
          have hcommand : (Request.authorizeRuntimeRequest payload correlationId
              clock).command P app sign keys = .authorize (some query) clock.now := by
            rw [Request.command, hpayload]
            exact congrArg (Command.authorize · clock.now) hquery
          rw [hcommand]
          exact wp_respond_concludes hfit
            (authorize_follows hfaults hfit request _ clock hquery hne)

/-! ### Runs -/

/-- Runs without storage failures of callers with plain subjects. -/
def accessRegime : Regime where
  faults := False
  indexed := True
  plain := True
  signs _ _ := True
  keys _ := True
  reliable _ h := h

/-- What callers grant of an activity: plain subjects, and token ids as they are drawn. -/
def Activity.Valid (a : Activity) : Prop := ∀ o, a.op = some o → o.Valid True

/-- **An activity answers as the access control does to its command**, where the regime
knows what the signer answers if it has a part in the activity. -/
theorem activity_steps (hfaults : ¬ R.faults) (hplain : R.plain) (hindexed : R.indexed)
    (hfit : reg.Fit R) (a : Activity) (hvalid : a.Valid)
    {sign : SigningRequest → Except PyError String} {keys : Except PyError Doc}
    (hsigns : a.asksSigner → ∀ request answer, R.signs request answer → answer = sign request)
    (hkeys : a.asksSigner → ∀ answer, R.keys answer → answer = keys) :
    (a.prog P).wp R.contract (fun r reg' => reg'.Fit R
      ∧ reg.access.step "admin" (a.command P sign keys) = (Outcome.observe r, reg'.access))
      reg := by
  have hvalid' : ∀ o, a.op = some o → o.Valid R.plain := by
    rw [eq_true hplain]
    exact hvalid
  cases a with
  | startUp subjects createdAt grantedAt =>
      refine (Prog.wp_map _ _ _ _).mpr (Prog.wp_mono ?_
        (applyPlan_boots hfaults hfit subjects createdAt grantedAt (hvalid' _ rfl)))
      rintro r reg' ⟨hok, hfit', haccess⟩
      refine ⟨hfit', ?_⟩
      cases r with
      | error e => cases hok
      | ok plan =>
          rw [AccessControl.step, AccessControl.attempt_open rfl, haccess]
          rfl
  | serve app request =>
      refine (Prog.wp_map _ _ _ _).mpr (Prog.wp_mono ?_
        (request_concludes hfaults hplain hindexed hfit request hvalid' hsigns hkeys))
      rintro r reg' ⟨hfit', hattempt⟩
      refine ⟨hfit', hattempt.trans ?_⟩
      cases r with
      | ok response => rfl
      | error e => rfl

/-- The stores answer as an access control says. -/
structure Storage.Shows (P : Platform) (st : Storage) (s : st.State) (a : Access) : Prop where
  users : ∀ u, st.IsRegistered P s u ↔ u ∈ a.users
  groups : ∀ g, (∃ group, st.groupAt P s g = .ok (some group)) ↔ g ∈ a.groups
  members : ∀ u g, st.HasMembership P s u g ↔ (u, g) ∈ a.members
  grants : ∀ t, (st.tokenAt P s t).map (Option.map IssuedTokenRecord.grant) = .ok (a.grants t)

/-- The stores show the access control of the registry that they hold. -/
lemma Storage.shows_of_represents {st : Storage} {s : st.State}
    (hrep : st.Represents P accessRegime s reg) : st.Shows P s reg.access := by
  have hrep' : st.Represents P (runRegime False True) s reg :=
    represents_mono hrep id fun h => h.elim
  refine ⟨fun u => ?_, fun g => ?_, fun u g => hasMembership_iff hrep', fun t => ?_⟩
  · obtain ⟨v, hout, hv⟩ := answers_of_represents hrep' (c := .isRegistered u) trivial
      fun _ h => h
    have hv : v = (reg.profiles.find u).isSome := hv
    rw [IsRegistered, hout, Except.ok.injEq, hv]
    exact Iff.rfl
  · rw [groupAt_eq hrep']
    show (∃ group, Except.ok (reg.groups.find g) = Except.ok (some group))
      ↔ (reg.groups.find g).isSome
    simp only [Except.ok.injEq, Option.isSome_iff_exists]
  · rw [tokenAt_eq hrep']
    rfl

/-! ### The signer -/

variable {st : Storage} {s s' : st.State} {a : Activity}

variable (P st) in
/-- What the signer publishes. -/
def Storage.keysAt (s : st.State) : Except PyError Doc := (st.exec P .publicKeyDocument s).1

variable (P st) in
/-- The command that an activity stands for in the state that it finds; the contribution of
the signer is what it answers there. -/
def Activity.commandAt (s : st.State) (a : Activity) : AccessCommand :=
  a.command P (st.signAt P s) (st.keysAt P s)

variable (P st) in
/-- The regime of an activity that finds a state. -/
def foundRegime (s : st.State) (a : Activity) : Regime where
  faults := False
  indexed := True
  plain := True
  signs request answer := a.asksSigner → answer = st.signAt P s request
  keys answer := a.asksSigner → answer = st.keysAt P s
  reliable _ h := h

/-- The calls that the signer answers. -/
def RepoCall.Signs : RepoCall → Prop
  | .signToken _ => True
  | .publicKeyDocument => True
  | _ => False

variable (P st) in
/-- The calls without failures, where the signer may be asked in one state only. -/
def askedIn (s : st.State) : Contract RepoCall RepoCall.Res PyError st.State where
  pre c s' := c.Signs → s' = s
  post := st.act P False

/-- A part of an activity that only reads may ask the signer. -/
lemma wp_asking {α : Type} {p : RepoProg α} (hp : p.Uses RepoCall.Reads)
    {Q : Except PyError α → st.State → Prop} (h : ∀ r, Q r s) : p.wp (askedIn P st s) Q s := by
  have hsame : p.wp (askedIn P st s) (fun _ s' => s' = s) s := by
    refine Prog.wp_of_uses (I := fun s' => s' = s) (fun c s₁ hc hs => ⟨fun _ => hs, ?_⟩) hp rfl
    intro r s₂ hact
    rw [← hs, ← Storage.read_exec (P := P) hc s₁, Storage.exec_of_act hact]
  refine Prog.wp_mono ?_ hsame
  rintro r _ rfl
  exact h r

/-- A part that does not ask the signer. -/
lemma wp_unasked {α : Type} {p : RepoProg α} (hp : p.Uses fun c => ¬ c.Signs) (s' : st.State) :
    p.wp (askedIn P st s) (fun _ _ => True) s' := by
  refine Prog.wp_of_uses (I := fun _ => True) (fun c _ hc _ => ?_) hp trivial
  exact ⟨fun hsigns => absurd hsigns hc, fun _ _ _ => trivial⟩

lemma wp_asking_respond {α : Type} {service : RepoProg α} {statusOf : PyError → Option ℕ}
    {success : ℕ} {body : α → Except PyError Body}
    (h : service.wp (askedIn P st s) (fun _ _ => True) s) :
    (respond service statusOf success body).wp (askedIn P st s) (fun _ _ => True) s := by
  rw [respond, Prog.wp_handle]
  refine Prog.wp_mono (fun r s' _ => ?_) h
  cases r with
  | ok v => exact wp_unasked (Prog.uses_lift _) s'
  | error e =>
      dsimp only
      cases statusOf e with
      | some status => trivial
      | none => trivial

lemma wp_asking_withTokenSigner {route : RepoProg Response}
    (h : route.wp (askedIn P st s) (fun _ _ => True) s) :
    (withTokenSigner app route).wp (askedIn P st s) (fun _ _ => True) s := by
  rw [withTokenSigner]
  split_ifs
  · exact h
  · trivial

/-- A mint asks the signer before it stores anything. -/
lemma wp_asking_mintToken (request : MintRequest) (clock : Clock) :
    (mintToken P request clock).wp (askedIn P st s) (fun _ _ => True) s := by
  have hbody : (mintTokenBody P request clock.now).wp (askedIn P st s) (fun _ _ => True) s := by
    rw [mintTokenBody_eq]
    refine (Prog.wp_bind _ _ _ _).mpr (wp_asking (uses_prepareMint (fun _ h => h) _ _) fun r => ?_)
    cases r with
    | ok prepared =>
        exact wp_unasked (Prog.Uses.bind (uses_call id) fun _ => Prog.uses_pure _) s
    | error e => trivial
  refine (Prog.wp_bind _ _ _ _).mpr (wp_audited_of_append ?_)
  refine Prog.wp_mono (fun r s₁ _ event => (Prog.wp_perform _ _ _).mpr ⟨False.elim, ?_⟩) hbody
  rintro r' s₂ hact
  have happend := congrArg Prod.fst (Storage.exec_of_act hact)
  rw [(Storage.auditAppend_exec s₁ event).1] at happend
  refine ⟨happend.symm, ?_⟩
  cases r with
  | ok minted => trivial
  | error e => trivial

/-- **An activity asks the signer in the state that it finds**, before it changes anything. -/
lemma wp_asked_activity (hasks : a.asksSigner) (s : st.State) :
    (a.prog P).wp (askedIn P st s) (fun _ _ => True) s := by
  cases a with
  | startUp subjects createdAt grantedAt => cases hasks
  | serve app request =>
      refine (Prog.wp_map _ _ _ _).mpr ?_
      cases request with
      | createToken identity u groups expiresInSeconds t correlationId clock =>
          have hmember : (RepoCall.perform (.hasMembership identity.subject "admin")).Uses
              RepoCall.Reads := uses_call ⟨id, trivial⟩
          refine (Prog.wp_bind _ _ _ _).mpr (wp_asking hmember fun r => ?_)
          cases r with
          | error e => trivial
          | ok member =>
              rw [Prog.onReturn_ok]
              split_ifs
              · exact wp_asking_withTokenSigner (wp_asking_respond (wp_asking_mintToken _ clock))
              · trivial
      | getRuntimePublicKeys =>
          have hkeys : publicKeyDocument.Uses RepoCall.Reads := uses_call ⟨id, trivial⟩
          exact wp_asking_withTokenSigner (wp_asking_respond (wp_asking hkeys fun _ => trivial))
      | _ => cases hasks

/-! ### Runs of activities -/

lemma signsIn_accessRegime (st : Storage) : st.SignsIn accessRegime := by
  cases st with
  | memory C signer => exact ⟨fun _ => trivial, trivial⟩
  | vault D server =>
      rw [Storage.SignsIn, VaultDeployment.SignsIn]
      cases D.signer with
      | static signer => exact ⟨fun _ => trivial, trivial⟩
      | vault signer => exact ⟨fun _ _ => trivial, fun _ => trivial⟩

variable (P st) in
/-- The calls of an activity implement the contract of the state that it finds, if the signer
is asked in that state only. -/
lemma implements_found (s : st.State) (a : Activity) :
    Prog.Implements (st.Represents P accessRegime)
      (fun c s₁ r s₂ => (a.asksSigner → c.Signs → s₁ = s) ∧ st.act P False c s₁ r s₂)
      (foundRegime P st s a).contract := by
  rintro c s₁ reg hrep howes r s₂ ⟨hat, hact⟩
  have hanswer : c.Reads → s₂ = s₁ ∧ r = (st.exec P c s₁).1 := by
    intro hc
    refine ⟨?_, (congrArg Prod.fst (Storage.exec_of_act hact)).symm⟩
    rw [← Storage.read_exec (P := P) hc s₁, Storage.exec_of_act hact]
  cases c with
  | signToken request =>
      obtain ⟨rfl, hr⟩ := hanswer ⟨id, trivial⟩
      refine ⟨reg, hrep, MemoryStores.signToken_post request r fun hasks => ?_⟩
      rw [hr, hat hasks trivial]
      rfl
  | publicKeyDocument =>
      obtain ⟨rfl, hr⟩ := hanswer ⟨id, trivial⟩
      refine ⟨reg, hrep, MemoryStores.publicKeyDocument_post r fun hasks => ?_⟩
      rw [hr, hat hasks trivial]
      rfl
  | _ =>
      exact Storage.implements (signsIn_accessRegime st) _ s₁ reg hrep (by exact howes) r s₂ hact

/-- **An activity replies as the access control does to its command**, whose signer answers as
it does in the state that the activity finds. -/
theorem activity_runs (hvalid : a.Valid) (hrep : st.Represents P accessRegime s reg)
    (hfit : reg.Fit accessRegime) {r : Except PyError Outcome}
    (hrun : (a.prog P).Runs (st.act P False) s r s') :
    ∃ reg', (st.Represents P accessRegime s' reg' ∧ reg'.Fit accessRegime)
      ∧ reg.access.step "admin" (a.commandAt P st s) = (Outcome.observe r, reg'.access) := by
  have hfound : (a.prog P).Runs (fun c s₁ r s₂ => (a.asksSigner → c.Signs → s₁ = s)
      ∧ st.act P False c s₁ r s₂) s r s' := by
    by_cases hasks : a.asksSigner = true
    · exact (Prog.Runs.guarded (wp_asked_activity hasks s) hrun).mono
        fun _ _ _ _ h => ⟨fun _ => h.1, h.2⟩
    · exact hrun.mono fun _ _ _ _ h => ⟨fun h => absurd h hasks, h⟩
  have hfit' : reg.Fit (foundRegime P st s a) := ⟨hfit.presentable, hfit.sound⟩
  have hsteps := activity_steps (P := P) id trivial trivial hfit' a hvalid
    (fun hasks _ _ h => h hasks) fun hasks _ h => h hasks
  obtain ⟨reg', hrep', hfit', hstep⟩ :=
    Prog.Runs.refine (implements_found P st s a) hrep hsteps hfound
  exact ⟨reg', ⟨hrep', hfit'.presentable, hfit'.sound⟩, hstep⟩

/-- While storage does not fail, activities that follow each other over empty stores run as
the access control does, and the stores hold the records of what it has reached. -/
lemma represents_access (P : Platform) (st : Storage) {s t : st.State}
    {ms : List (Moment Activity PyError Outcome st.State)} (hfresh : st.Fresh s)
    (htrace : Trace (st.act P False) (Activity.prog P) s ms t)
    (hvalid : ∀ m ∈ ms, m.op.Valid) :
    ∃ reg : Registry, st.Represents P accessRegime t reg
      ∧ replay (fun a c => a.step "admin" c) (.empty : Access)
          (ms.map fun m => m.op.commandAt P st m.before)
        = (ms.map fun m => Outcome.observe m.outcome, reg.access) := by
  obtain ⟨reg, ⟨hrep, -⟩, hreplay⟩ := Trace.tracks
    (R := fun s reg => st.Represents P accessRegime s reg ∧ reg.Fit accessRegime)
    Registry.access (fun a c => a.step "admin" c) (fun s a => a.commandAt P st s)
    Outcome.observe (fun _ _ _ _ _ ha hreg hrun => activity_runs ha hreg.1 hreg.2 hrun)
    ⟨Storage.represents_fresh hfresh, Registry.Fit.empty⟩ htrace hvalid
  rw [Registry.access_empty] at hreplay
  exact ⟨reg, hrep, hreplay⟩

/-- **The service refines an access control.** Start up over empty stores, and serve any
requests, as often and in any order, on either backend, while storage does not fail: each
activity replies as the access control does to the command that it stands for in the state
that it finds, and at the end the stores show the state that the access control has reached.
All that is outside of the access control is what the signer answers, in that state, to the
signing request of that mint, and whether it then publishes its keys. -/
theorem service_refines_accessControl (P : Platform) (st : Storage) {s t : st.State}
    {ms : List (Moment Activity PyError Outcome st.State)} (hfresh : st.Fresh s)
    (htrace : Trace (st.act P False) (Activity.prog P) s ms t)
    (hvalid : ∀ m ∈ ms, m.op.Valid) :
    ∃ a : Access,
      replay (fun a c => a.step "admin" c) (.empty : Access)
          (ms.map fun m => m.op.commandAt P st m.before)
        = (ms.map fun m => Outcome.observe m.outcome, a)
      ∧ st.Shows P t a := by
  obtain ⟨reg, hrep, hreplay⟩ := represents_access P st hfresh htrace hvalid
  exact ⟨reg.access, hreplay, Storage.shows_of_represents hrep⟩

/-- `root` makes the group `team` and mints a token of it for `alice`, who has registered. -/
def accessDay : List Activity :=
  let app : AppState := ⟨true, 60⟩
  [.serve app (.createToken (keycloakUser "root") "alice" ["team"] none teamMint.tokenId none
      newYear),
    .serve app (.createGroup (keycloakUser "root") "team" none none newYear),
    .serve app (.registerMe (keycloakUser "alice") none newYear),
    .startUp ["root"] newYear.now fun _ => newYear.now]

lemma valid_accessDay : ∀ a ∈ accessDay, a.Valid := by
  intro a ha o ho
  simp only [accessDay, List.mem_cons, List.not_mem_nil, or_false] at ha
  rcases ha with rfl | rfl | rfl | rfl
  · obtain rfl := Option.some.inj ho
    exact ⟨by decide, fun _ => by decide⟩
  · obtain rfl := Option.some.inj ho
    trivial
  · obtain rfl := Option.some.inj ho
    exact fun _ => by decide
  · obtain rfl := Option.some.inj ho
    exact fun _ => by decide

/-- After that day the access control over Vault has replied to the mint, to which the signer
contributed a JWT, and has a grant for `alice`. -/
theorem service_refines_accessControl_accessDay :
    ∃ a : Access, (Storage.vault .python .inOrder).Shows .python
        (play ((Storage.vault .python .inOrder).exec .python) (Activity.prog .python)
          VaultWorld.empty accessDay).2 a
      ∧ (∃ grant, a.grants teamMint.tokenId = some grant)
      ∧ replay (fun a c => a.step "admin" c) (.empty : Access)
          ((play ((Storage.vault .python .inOrder).exec .python) (Activity.prog .python)
            VaultWorld.empty accessDay).1.map fun m =>
              m.op.commandAt .python (.vault .python .inOrder) m.before)
        = ((play ((Storage.vault .python .inOrder).exec .python) (Activity.prog .python)
            VaultWorld.empty accessDay).1.map fun m => Outcome.observe m.outcome, a)
      ∧ teamMint.signed .python ((Storage.vault .python .inOrder).signAt .python
          (play ((Storage.vault .python .inOrder).exec .python) (Activity.prog .python)
            VaultWorld.empty accessDay.tail).2) newYear.now = .ok () := by
  have hstored : (Storage.vault .python .inOrder).tokenAt .python
      (play ((Storage.vault .python .inOrder).exec .python) (Activity.prog .python)
        VaultWorld.empty accessDay).2 teamMint.tokenId = .ok (some teamRecord) := by
    decide +kernel
  obtain ⟨a, hreplay, hshows⟩ := service_refines_accessControl .python (.vault .python .inOrder)
    fresh_vaultEmpty ((play_trace _ accessDay).mono Storage.act_of_graph) fun m hm =>
      valid_accessDay _ (map_op_play _ accessDay ▸ List.mem_map_of_mem hm)
  refine ⟨a, hshows, ⟨teamRecord.grant, ?_⟩, hreplay, by decide +kernel⟩
  have hgrant := hshows.grants teamMint.tokenId
  rw [hstored] at hgrant
  exact (Except.ok.inj hgrant).symm

end GofrSec
