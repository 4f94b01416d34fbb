/-
The routes of the HTTP API (`app/api/routes`) and the dependencies that guard
them (`app/api/dependencies.py`).

* `Request`: a request to a route with its arguments; every route but the open
  ones carries the identity that the Keycloak verifier returned for the bearer
  token, and every one the readings of the clock and the ids it draws;
* `requireAdminIdentity`, `withTokenSigner`: the dependencies;
* `...Status`: the status codes that a route gives to the exceptions it
  catches; any other exception leaves the route;
* `answer`, `run_respond`: what a route answers to the outcome of its service method;
* `Request.prog`: what a request does;
* `Request.subject`, `Request.isAdmin`, `Request.op`: the caller, whether the
  route is one for admins, and the service operation that it runs;
* `Request.looks`, `uses_looks`: the routes that only look, which store nothing;
* `Request.Change`, `request_change`: what a request can do to the records.
-/
import GofrSec.Api.Schemas
import GofrSec.Services.Frames

namespace GofrSec

open Calls

/-- What the routes read of `app.state`. -/
structure AppState where
  /-- `app.state.token_signer` is there. -/
  hasTokenSigner : Bool
  /-- `app.state.service_settings.signing.default_lifetime_seconds`. -/
  defaultLifetimeSeconds : Int
  deriving DecidableEq, Repr

/-- A request to a route. -/
inductive Request where
  | root
  | ping
  | status
  | createGroup (identity : VerifiedIdentity) (name : String) (description : Option String)
      (correlationId : Option String) (clock : Clock)
  | addGroupMembership (identity : VerifiedIdentity) (keycloakSub group : String)
      (correlationId : Option String) (clock : Clock)
  | removeGroupMembership (identity : VerifiedIdentity) (keycloakSub group : String)
      (correlationId : Option String) (clock : Clock)
  | createToken (identity : VerifiedIdentity) (keycloakSub : String) (groups : List String)
      (expiresInSeconds : Option Int) (tokenId : String) (correlationId : Option String)
      (clock : Clock)
  | getToken (identity : VerifiedIdentity) (tokenId : String) (correlationId : Option String)
      (clock : Clock)
  | revokeToken (identity : VerifiedIdentity) (tokenId : String) (correlationId : Option String)
      (clock : Clock)
  | registerMe (identity : VerifiedIdentity) (correlationId : Option String) (clock : Clock)
  | getMe (identity : VerifiedIdentity)
  | getMyTokens (identity : VerifiedIdentity) (correlationId : Option String) (clock : Clock)
  | getRuntimePublicKeys
  | authorizeRuntimeRequest (payload : RuntimeAuthorizationRequest)
      (correlationId : Option String) (clock : Clock)

/-! ### Dependencies -/

/-- `require_admin_identity`: only callers that hold `admin` pass. -/
def requireAdminIdentity (identity : VerifiedIdentity) (route : RepoProg Response) :
    RepoProg Response := do
  let member ← hasMembership identity.subject reservedAdminGroup
  if member then route else pure (.error 403 "Admin access required")

/-- `get_token_signer`: only where a signer is configured. -/
def withTokenSigner (app : AppState) (route : RepoProg Response) : RepoProg Response :=
  if app.hasTokenSigner then route else pure (.error 503 "Token signing is unavailable")

/-! ### Exceptions -/

/-- The `except` clauses of `create_group`. -/
def createGroupStatus : PyError → Option ℕ
  | .groupAlreadyExists _ => some 409
  | .reservedGroup _ => some 409
  | .lastAdminRemoval _ => some 409
  | .valueError _ => some 422
  | _ => none

/-- The `except` clauses of `add_group_membership`. -/
def addMembershipStatus : PyError → Option ℕ
  | .groupNotFound _ => some 404
  | .unregisteredUser _ => some 404
  | .valueError _ => some 422
  | _ => none

/-- The `except` clauses of `remove_group_membership`. -/
def removeMembershipStatus : PyError → Option ℕ
  | .groupNotFound _ => some 404
  | .groupMembershipNotFound _ => some 404
  | .unregisteredUser _ => some 404
  | .lastAdminRemoval _ => some 409
  | .valueError _ => some 422
  | _ => none

/-- The `except` clauses of `create_token`. -/
def createTokenStatus : PyError → Option ℕ
  | .unregisteredUser _ => some 404
  | .groupNotFound _ => some 404
  | .reservedGroup _ => some 409
  | .lastAdminRemoval _ => some 409
  | .signingKeyUnavailable _ => some 503
  | .valueError _ => some 422
  | _ => none

/-- The `except` clauses of `get_token` and `revoke_token`. -/
def tokenStatus : PyError → Option ℕ
  | .tokenNotFound _ => some 404
  | _ => none

/-- Run a service method and answer: with the body of its result, with the
status of an exception that the route catches, or not at all. -/
def respond {α : Type} (service : RepoProg α) (statusOf : PyError → Option ℕ) (success : ℕ)
    (body : α → Except PyError Body) : RepoProg Response :=
  service.handle fun
    | .ok a => Prog.lift ((body a).map (Response.success success))
    | .error e =>
        match statusOf e with
        | some status => pure (.error status e.message)
        | none => throw e

/-- What a route answers to the outcome of its service method. -/
def answer {α : Type} (statusOf : PyError → Option ℕ) (success : ℕ)
    (body : α → Except PyError Body) : Except PyError α → Except PyError Response
  | .ok a => (body a).map (Response.success success)
  | .error e =>
      match statusOf e with
      | some status => .ok (.error status e.message)
      | none => .error e

/-- A route answers to the outcome of its service method. -/
lemma run_respond {α σ : Type} {exec : Exec RepoCall RepoCall.Res PyError σ} {s : σ}
    (service : RepoProg α) (statusOf : PyError → Option ℕ) (success : ℕ)
    (body : α → Except PyError Body) :
    ((respond service statusOf success body).run exec s).1
      = answer statusOf success body (service.run exec s).1 := by
  rw [respond, Prog.run_handle]
  cases (service.run exec s).1 with
  | ok a => exact congrArg Prod.fst (Prog.run_lift _ _)
  | error e =>
      dsimp only [answer]
      cases statusOf e with
      | some status => rfl
      | none => rfl

/-! ### Routes -/

variable (P : Platform) (app : AppState)

/-- The program of a request. -/
def Request.prog : Request → RepoProg Response
  | .root =>
      pure (.success 200 (.document
        [("service", .str "gofr-sec"), ("status", .str "ok"), ("docs", .str "/docs")]))
  | .ping => pure (.success 200 (.document [("status", .str "ok")]))
  | .status =>
      pure (.success 200 (.document
        [("service", .str "gofr-sec"), ("phase", .str "bootstrap"),
          ("proposal", .str "docs/gofr_sec_proposal.md")]))
  | .createGroup identity name description correlationId clock =>
      requireAdminIdentity identity
        (respond (GofrSec.createGroup P name description identity.subject correlationId clock)
          createGroupStatus 201 groupBody)
  | .addGroupMembership identity keycloakSub group correlationId clock =>
      requireAdminIdentity identity
        (respond (addMembership P keycloakSub group identity.subject correlationId clock)
          addMembershipStatus 200 membershipBody)
  | .removeGroupMembership identity keycloakSub group correlationId clock =>
      requireAdminIdentity identity
        (respond (removeMembership P keycloakSub group identity.subject correlationId clock)
          removeMembershipStatus 204 fun _ => .ok .noContent)
  | .createToken identity keycloakSub groups expiresInSeconds tokenId correlationId clock =>
      requireAdminIdentity identity (withTokenSigner app
        (respond
          (mintToken P
            { ownerSub := keycloakSub
              groups := groups
              actorSub := identity.subject
              correlationId := correlationId
              expiresInSeconds := expiresInSeconds
              defaultLifetimeSeconds := app.defaultLifetimeSeconds
              tokenId := tokenId } clock)
          createTokenStatus 201 mintedBody))
  | .getToken identity tokenId correlationId clock =>
      requireAdminIdentity identity
        (respond (GofrSec.getToken tokenId identity.subject correlationId clock)
          tokenStatus 200 tokenBody)
  | .revokeToken identity tokenId correlationId clock =>
      requireAdminIdentity identity
        (respond (GofrSec.revokeToken tokenId identity.subject correlationId clock)
          tokenStatus 200 tokenBody)
  | .registerMe identity correlationId clock =>
      respond (registerSelf identity correlationId clock) (fun _ => none) 200 registrationBody
  | .getMe identity => respond (getSelfProfile identity) (fun _ => none) 200 profileBody
  | .getMyTokens identity correlationId clock =>
      respond (listSelfTokens identity correlationId clock) (fun _ => none) 200 tokensBody
  | .getRuntimePublicKeys =>
      withTokenSigner app
        (respond publicKeyDocument (fun _ => none) 200 fun keys => .ok (.document keys))
  | .authorizeRuntimeRequest payload correlationId clock =>
      match payload.validateTarget with
      | .error detail => pure (.error 422 detail)
      | .ok request =>
          respond (authorize request correlationId clock) (fun _ => none) 200
            fun decision => .ok (.decision decision.allowed)

/-- The verified subject of a request, if its route asks for one. -/
def Request.subject : Request → Option String
  | .createGroup identity _ _ _ _ => some identity.subject
  | .addGroupMembership identity _ _ _ _ => some identity.subject
  | .removeGroupMembership identity _ _ _ _ => some identity.subject
  | .createToken identity _ _ _ _ _ _ => some identity.subject
  | .getToken identity _ _ _ => some identity.subject
  | .revokeToken identity _ _ _ => some identity.subject
  | .registerMe identity _ _ => some identity.subject
  | .getMe identity => some identity.subject
  | .getMyTokens identity _ _ => some identity.subject
  | _ => none

/-- The route depends on `require_admin_identity`. -/
def Request.isAdmin : Request → Bool
  | .createGroup .. => true
  | .addGroupMembership .. => true
  | .removeGroupMembership .. => true
  | .createToken .. => true
  | .getToken .. => true
  | .revokeToken .. => true
  | _ => false

/-- The service operation that a request runs, once its guards have passed. -/
def Request.op : Request → Option Op
  | .createGroup identity name description correlationId clock =>
      some (.createGroup name description identity.subject correlationId clock)
  | .addGroupMembership identity keycloakSub group correlationId clock =>
      some (.addMembership keycloakSub group identity.subject correlationId clock)
  | .removeGroupMembership identity keycloakSub group correlationId clock =>
      some (.removeMembership keycloakSub group identity.subject correlationId clock)
  | .createToken identity keycloakSub groups expiresInSeconds tokenId correlationId clock =>
      some (.mintToken
        { ownerSub := keycloakSub
          groups := groups
          actorSub := identity.subject
          correlationId := correlationId
          expiresInSeconds := expiresInSeconds
          defaultLifetimeSeconds := app.defaultLifetimeSeconds
          tokenId := tokenId } clock)
  | .getToken identity tokenId correlationId clock =>
      some (.getToken tokenId identity.subject correlationId clock)
  | .revokeToken identity tokenId correlationId clock =>
      some (.revokeToken tokenId identity.subject correlationId clock)
  | .registerMe identity correlationId clock => some (.registerSelf identity correlationId clock)
  | .getMe identity => some (.getSelfProfile identity)
  | .getMyTokens identity correlationId clock =>
      some (.listSelfTokens identity correlationId clock)
  | .authorizeRuntimeRequest payload correlationId clock =>
      payload.validateTarget.toOption.map fun request => .authorize request correlationId clock
  | _ => none

variable {P app}

/-! ### The calls of a request -/

/-- The request is to a route that only looks. -/
def Request.looks : Request → Bool
  | .createGroup .. => false
  | .addGroupMembership .. => false
  | .removeGroupMembership .. => false
  | .createToken .. => false
  | .revokeToken .. => false
  | .registerMe .. => false
  | _ => true

section

variable {U : RepoCall → Prop}

lemma uses_respond {α : Type} {service : RepoProg α} (h : service.Uses U)
    (statusOf : PyError → Option ℕ) (success : ℕ) (body : α → Except PyError Body) :
    (respond service statusOf success body).Uses U := by
  refine h.handle fun r => ?_
  cases r with
  | ok a => exact Prog.uses_lift _
  | error e =>
      dsimp only
      cases statusOf e with
      | some status => exact Prog.uses_pure _
      | none => exact Prog.uses_throw _

lemma uses_requireAdminIdentity (hU : ∀ c : RepoCall, c.Reads → U c) {identity : VerifiedIdentity}
    {route : RepoProg Response} (h : route.Uses U) :
    (requireAdminIdentity identity route).Uses U := by
  refine Prog.Uses.bind (uses_call (hU _ ⟨id, trivial⟩)) fun member => ?_
  split_ifs
  · exact h
  · exact Prog.uses_pure _

lemma uses_withTokenSigner {app : AppState} {route : RepoProg Response} (h : route.Uses U) :
    (withTokenSigner app route).Uses U := by
  rw [withTokenSigner]
  split_ifs
  · exact h
  · exact Prog.uses_pure _

end

/-- A route that only looks stores nothing. -/
lemma uses_looks (app : AppState) {q : Request} (hq : q.looks) :
    (q.prog P app).Uses fun c => ¬ c.Stores := by
  have haudit : ∀ event, ¬ (RepoCall.auditAppend event).Stores := fun _ => id
  cases q with
  | getToken identity t correlationId clock =>
      refine uses_requireAdminIdentity reads_not_stores (uses_respond ?_ _ _ _)
      exact uses_audited (uses_getTokenOrRaise reads_not_stores t) haudit
  | getMe identity =>
      have hprofile : (getSelfProfile identity).Uses fun c => ¬ c.Stores := by
        refine Prog.Uses.bind (uses_call id) fun profile => ?_
        refine Prog.Uses.bind (uses_call id) fun memberships => ?_
        cases profile <;> exact Prog.uses_pure _
      rw [Request.prog]
      exact uses_respond hprofile _ _ _
  | getMyTokens identity correlationId clock =>
      have hlist : (listSelfTokens identity correlationId clock).Uses fun c => ¬ c.Stores := by
        refine uses_audited ?_ haudit
        exact Prog.Uses.bind (uses_call id) fun _ => Prog.uses_pure _
      rw [Request.prog]
      exact uses_respond hlist _ _ _
  | getRuntimePublicKeys =>
      have hkeys : publicKeyDocument.Uses fun c => ¬ c.Stores := uses_call id
      exact uses_withTokenSigner (uses_respond hkeys _ _ _)
  | authorizeRuntimeRequest payload correlationId clock =>
      rw [Request.prog]
      cases payload.validateTarget with
      | error detail => exact Prog.uses_pure _
      | ok request =>
          have hauthorize : (authorize request correlationId clock).Uses fun c => ¬ c.Stores := by
            refine Prog.Uses.bind (uses_audited ?_ haudit) fun _ => Prog.uses_pure _
            refine Prog.Uses.bind (uses_call id) fun found => ?_
            cases found <;> exact Prog.uses_pure _
          exact uses_respond hauthorize _ _ _
  | root => exact Prog.uses_pure _
  | ping => exact Prog.uses_pure _
  | status => exact Prog.uses_pure _
  | _ => cases hq

/-! ### What a request does -/

variable {R : Regime} {reg : Registry}

/-- Answering changes nothing. -/
lemma wp_respond {α : Type} {service : RepoProg α} {statusOf : PyError → Option ℕ} {success : ℕ}
    {body : α → Except PyError Body} {Q : Registry → Prop}
    (h : service.wp R.contract (fun _ reg' => Q reg') reg) :
    (respond service statusOf success body).wp R.contract (fun _ reg' => Q reg') reg := by
  rw [respond, Prog.wp_handle]
  refine Prog.wp_mono (fun r reg' hQ => ?_) h
  cases r with
  | ok a => exact (Prog.wp_lift _ _ _).mpr hQ
  | error e =>
      dsimp only
      cases statusOf e with
      | some status => exact hQ
      | none => exact hQ

/-- Behind `require_admin_identity` a route runs for admins only. -/
lemma wp_requireAdminIdentity {identity : VerifiedIdentity} {route : RepoProg Response}
    {Q : Registry → Prop} (hsame : Q reg)
    (hroute : reg.IsAdmin identity.subject → route.wp R.contract (fun _ reg' => Q reg') reg) :
    (requireAdminIdentity identity route).wp R.contract (fun _ reg' => Q reg') reg := by
  rw [requireAdminIdentity, Prog.wp_bind, Regime.wp_hasMembership]
  refine ⟨?_, fun _ _ => hsame⟩
  rw [Prog.onReturn_ok]
  split_ifs with hmember
  · exact hroute (Option.isSome_iff_exists.mp hmember)
  · exact hsame

lemma wp_withTokenSigner {route : RepoProg Response} {Q : Registry → Prop} (hsame : Q reg)
    (hroute : route.wp R.contract (fun _ reg' => Q reg') reg) :
    (withTokenSigner app route).wp R.contract (fun _ reg' => Q reg') reg := by
  rw [withTokenSigner]
  split_ifs
  · exact hroute
  · exact hsame

/-- What a request can do to the records: nothing, or what its operation does,
on a route for admins only for a caller who is one. -/
def Request.Change (P : Platform) (app : AppState) (R : Regime) (reg : Registry) (q : Request)
    (reg' : Registry) : Prop :=
  reg'.Agrees reg ∨ ∃ o, q.op app = some o ∧ o.Change P R reg reg'
    ∧ (q.isAdmin → ∃ u, q.subject = some u ∧ reg.IsAdmin u)

/-- **Every request stays within its change.** -/
theorem request_change (hsound : reg.Sound R) (q : Request)
    (hvalid : ∀ o, q.op app = some o → o.Valid R.plain) :
    (q.prog P app).wp R.contract (fun _ reg' => q.Change P app R reg reg') reg := by
  have hsame : q.Change P app R reg reg := Or.inl (.refl reg)
  have hop : ∀ o, q.op app = some o → (q.isAdmin → ∃ u, q.subject = some u ∧ reg.IsAdmin u) →
      (o.prog P).wp R.contract (fun _ reg' => q.Change P app R reg reg') reg := by
    intro o ho hadmin
    refine Prog.wp_mono (fun r reg' heffect => ?_) (op_effect hsound o (hvalid o ho))
    exact Or.inr ⟨o, ho, heffect.change, hadmin⟩
  cases q with
  | root => exact hsame
  | ping => exact hsame
  | status => exact hsame
  | createGroup identity name description correlationId clock =>
      refine wp_requireAdminIdentity hsame fun hadmin => wp_respond ?_
      exact (Prog.wp_map _ _ _ _).mp (hop _ rfl fun _ => ⟨_, rfl, hadmin⟩)
  | addGroupMembership identity keycloakSub group correlationId clock =>
      refine wp_requireAdminIdentity hsame fun hadmin => wp_respond ?_
      exact (Prog.wp_map _ _ _ _).mp (hop _ rfl fun _ => ⟨_, rfl, hadmin⟩)
  | removeGroupMembership identity keycloakSub group correlationId clock =>
      refine wp_requireAdminIdentity hsame fun hadmin => wp_respond ?_
      exact (Prog.wp_map _ _ _ _).mp (hop _ rfl fun _ => ⟨_, rfl, hadmin⟩)
  | createToken identity keycloakSub groups expiresInSeconds tokenId correlationId clock =>
      refine wp_requireAdminIdentity hsame fun hadmin => wp_withTokenSigner hsame (wp_respond ?_)
      exact (Prog.wp_map _ _ _ _).mp (hop _ rfl fun _ => ⟨_, rfl, hadmin⟩)
  | getToken identity tokenId correlationId clock =>
      refine wp_requireAdminIdentity hsame fun hadmin => wp_respond ?_
      exact (Prog.wp_map _ _ _ _).mp (hop _ rfl fun _ => ⟨_, rfl, hadmin⟩)
  | revokeToken identity tokenId correlationId clock =>
      refine wp_requireAdminIdentity hsame fun hadmin => wp_respond ?_
      exact (Prog.wp_map _ _ _ _).mp (hop _ rfl fun _ => ⟨_, rfl, hadmin⟩)
  | registerMe identity correlationId clock =>
      rw [Request.prog]
      exact wp_respond ((Prog.wp_map _ _ _ _).mp (hop _ rfl nofun))
  | getMe identity =>
      rw [Request.prog]
      exact wp_respond ((Prog.wp_map _ _ _ _).mp (hop _ rfl nofun))
  | getMyTokens identity correlationId clock =>
      rw [Request.prog]
      exact wp_respond ((Prog.wp_map _ _ _ _).mp (hop _ rfl nofun))
  | getRuntimePublicKeys =>
      refine wp_withTokenSigner hsame (wp_respond ((Regime.wp_publicKeyDocument _).mpr ?_))
      exact ⟨fun _ _ => hsame, fun _ _ => hsame⟩
  | authorizeRuntimeRequest payload correlationId clock =>
      rw [Request.prog]
      cases hpayload : payload.validateTarget with
      | error detail => exact hsame
      | ok request =>
          have ho : (Request.authorizeRuntimeRequest payload correlationId clock).op app
              = some (.authorize request correlationId clock) := by
            rw [Request.op, hpayload]
            rfl
          exact wp_respond ((Prog.wp_map _ _ _ _).mp (hop _ ho nofun))

end GofrSec
