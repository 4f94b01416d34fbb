/-
The bearer tokens of the HTTP API (`get_verified_identity` of `app/api/dependencies.py`).

* `Verifier`, `getVerifiedIdentity`: the Keycloak verifier, and the dependency that asks it;
* `GuardedRoute`, `OpenRoute`: the routes that depend on a verified identity, and the others,
  with the arguments that a request brings; `GuardedRoute.request` is the request for the
  identity that was verified;
* `HttpRequest.prog`: what an HTTP request does; `HttpRequest.admitted` is the request that
  it is once its token is verified;
* `prog_of_admitted`, `prog_of_refused`: the two of them.
-/
import GofrSec.Services.Servers

namespace GofrSec

open Calls Text

/-- How `AccessTokenVerifier.verify` fails. -/
inductive VerifierError where
  | verification (detail : String)
  | other (e : PyError)

/-- `AccessTokenVerifier.verify`, as it answers while a request is served. -/
abbrev Verifier : Type := String → Except VerifierError VerifiedIdentity

/-- How a dependency stops a request: with a response, or by an exception. -/
abbrev Stopped : Type := Except PyError Response

/-- `get_verified_identity`; the credentials are those of a bearer token, if there is one. -/
def getVerifiedIdentity (verifier : Verifier) (credentials : Option String) :
    Except Stopped VerifiedIdentity :=
  match credentials with
  | none => .error (.ok (.error 401 "Missing bearer token"))
  | some token =>
      if strip token = "" then .error (.ok (.error 401 "Missing bearer token"))
      else
        match verifier token with
        | .ok identity => .ok identity
        | .error (.verification detail) =>
            .error (.ok (.error 401 ("Invalid access token: " ++ detail)))
        | .error (.other e) => .error (.error e)

/-- A route that depends on a verified identity. -/
inductive GuardedRoute where
  | createGroup (name : String) (description : Option String) (correlationId : Option String)
      (clock : Clock)
  | addGroupMembership (keycloakSub group : String) (correlationId : Option String)
      (clock : Clock)
  | removeGroupMembership (keycloakSub group : String) (correlationId : Option String)
      (clock : Clock)
  | createToken (keycloakSub : String) (groups : List String) (expiresInSeconds : Option Int)
      (tokenId : String) (correlationId : Option String) (clock : Clock)
  | getToken (tokenId : String) (correlationId : Option String) (clock : Clock)
  | revokeToken (tokenId : String) (correlationId : Option String) (clock : Clock)
  | registerMe (correlationId : Option String) (clock : Clock)
  | getMe
  | getMyTokens (correlationId : Option String) (clock : Clock)

/-- A route that anyone may call. -/
inductive OpenRoute where
  | root
  | ping
  | status
  | getRuntimePublicKeys
  | authorizeRuntimeRequest (payload : RuntimeAuthorizationRequest)
      (correlationId : Option String) (clock : Clock)

/-- The request of a route for a verified identity. -/
def GuardedRoute.request (identity : VerifiedIdentity) : GuardedRoute → Request
  | .createGroup name description correlationId clock =>
      .createGroup identity name description correlationId clock
  | .addGroupMembership keycloakSub group correlationId clock =>
      .addGroupMembership identity keycloakSub group correlationId clock
  | .removeGroupMembership keycloakSub group correlationId clock =>
      .removeGroupMembership identity keycloakSub group correlationId clock
  | .createToken keycloakSub groups expiresInSeconds tokenId correlationId clock =>
      .createToken identity keycloakSub groups expiresInSeconds tokenId correlationId clock
  | .getToken tokenId correlationId clock => .getToken identity tokenId correlationId clock
  | .revokeToken tokenId correlationId clock => .revokeToken identity tokenId correlationId clock
  | .registerMe correlationId clock => .registerMe identity correlationId clock
  | .getMe => .getMe identity
  | .getMyTokens correlationId clock => .getMyTokens identity correlationId clock

/-- The request of a route that anyone may call. -/
def OpenRoute.request : OpenRoute → Request
  | .root => .root
  | .ping => .ping
  | .status => .status
  | .getRuntimePublicKeys => .getRuntimePublicKeys
  | .authorizeRuntimeRequest payload correlationId clock =>
      .authorizeRuntimeRequest payload correlationId clock

/-- A request as it comes over HTTP. -/
inductive HttpRequest where
  | guarded (verifier : Verifier) (credentials : Option String) (route : GuardedRoute)
  | unguarded (route : OpenRoute)

variable (P : Platform) (app : AppState)

/-- What an HTTP request does. -/
def HttpRequest.prog : HttpRequest → RepoProg Response
  | .guarded verifier credentials route =>
      match getVerifiedIdentity verifier credentials with
      | .ok identity => (route.request identity).prog P app
      | .error stopped => Prog.lift stopped
  | .unguarded route => route.request.prog P app

/-- The request that it is, once its token is verified. -/
def HttpRequest.admitted : HttpRequest → Except Stopped Request
  | .guarded verifier credentials route =>
      (getVerifiedIdentity verifier credentials).map route.request
  | .unguarded route => .ok route.request

variable {P app}

lemma HttpRequest.prog_of_admitted {q : HttpRequest} {request : Request}
    (h : q.admitted = .ok request) : q.prog P app = request.prog P app := by
  cases q with
  | guarded verifier credentials route =>
      rw [HttpRequest.admitted] at h
      rw [HttpRequest.prog]
      cases hidentity : getVerifiedIdentity verifier credentials with
      | error stopped =>
          rw [hidentity] at h
          cases h
      | ok identity =>
          rw [hidentity] at h
          obtain rfl := Except.ok.inj h
          rfl
  | unguarded route =>
      obtain rfl := Except.ok.inj h
      rfl

lemma HttpRequest.prog_of_refused {q : HttpRequest} {stopped : Stopped}
    (h : q.admitted = .error stopped) : q.prog P app = Prog.lift stopped := by
  cases q with
  | guarded verifier credentials route =>
      rw [HttpRequest.admitted] at h
      rw [HttpRequest.prog]
      cases hidentity : getVerifiedIdentity verifier credentials with
      | error stopped' =>
          rw [hidentity] at h
          obtain rfl := Except.error.inj h
          rfl
      | ok identity =>
          rw [hidentity] at h
          cases h
  | unguarded route => cases h

/-- A route that anyone may call is not for a subject. -/
lemma OpenRoute.subject_request (route : OpenRoute) : route.request.subject = none := by
  cases route <;> rfl

/-- A verified subject comes from a token that the verifier accepts. -/
lemma getVerifiedIdentity_ok {verifier : Verifier} {credentials : Option String}
    {identity : VerifiedIdentity} (h : getVerifiedIdentity verifier credentials = .ok identity) :
    ∃ token, credentials = some token ∧ strip token ≠ "" ∧ verifier token = .ok identity := by
  cases credentials with
  | none => cases h
  | some token =>
      rw [getVerifiedIdentity] at h
      split_ifs at h with hblank
      refine ⟨token, rfl, hblank, ?_⟩
      cases hverify : verifier token with
      | ok found =>
          rw [hverify] at h
          exact congrArg Except.ok (Except.ok.inj h)
      | error e =>
          rw [hverify] at h
          cases e <;> cases h

/-- The caller of a request that is admitted has been verified. -/
lemma HttpRequest.verified {q : HttpRequest} {request : Request} {u : String}
    (h : q.admitted = .ok request) (hsubject : request.subject = some u) :
    ∃ verifier token route identity, q = .guarded verifier (some token) route
      ∧ verifier token = .ok identity ∧ request = route.request identity := by
  cases q with
  | unguarded route =>
      obtain rfl := Except.ok.inj h
      rw [OpenRoute.subject_request] at hsubject
      cases hsubject
  | guarded verifier credentials route =>
      rw [HttpRequest.admitted] at h
      cases hidentity : getVerifiedIdentity verifier credentials with
      | error stopped =>
          rw [hidentity] at h
          cases h
      | ok identity =>
          rw [hidentity] at h
          obtain rfl := Except.ok.inj h
          obtain ⟨token, rfl, -, hverify⟩ := getVerifiedIdentity_ok hidentity
          exact ⟨verifier, token, route, identity, rfl, hverify, rfl⟩

end GofrSec
