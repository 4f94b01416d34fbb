/-
Runtime authorization (`app/services/runtime_service.py`):
`RuntimeAuthorizationService.authorize`.

`permits` is the decision on one token record; `permits_iff` says it clause by clause.
-/
import GofrSec.Repositories.Interfaces

namespace GofrSec

open Calls

/-- `requested_group or requested_resource`: the group unless it is absent or
empty. -/
def requiredPermission (request : AuthorizationRequest) : Option String :=
  match request.requestedGroup with
  | some group => if group = "" then request.requestedResource else some group
  | none => request.requestedResource

/-- The conjunction that `authorize` evaluates on a record: the required
permission is there and not empty, the owner is the requested one, the token
is active and not expired, and the permission is granted. -/
def permits (request : AuthorizationRequest) (currentTime : DateTime)
    (record : IssuedTokenRecord) : Bool :=
  match requiredPermission request with
  | none => false
  | some permission =>
      permission ≠ "" && some record.ownerSub = request.ownerSub && record.status = "active"
        && (record.expiresAt.all fun expiresAt => currentTime < expiresAt)
        && permission ∈ record.grantedGroups

/-- The decision on a record, clause by clause. -/
lemma permits_iff {request : AuthorizationRequest} {now : DateTime} {record : IssuedTokenRecord} :
    permits request now record ↔
      ∃ target, requiredPermission request = some target ∧ target ≠ ""
        ∧ request.ownerSub = some record.ownerSub ∧ record.status = "active"
        ∧ (∀ t, record.expiresAt = some t → now < t) ∧ target ∈ record.grantedGroups := by
  rw [permits]
  cases hperm : requiredPermission request with
  | none => simp
  | some target =>
      simp only [Bool.and_eq_true, decide_eq_true_eq, Option.all_eq_true, Option.some.injEq,
        exists_eq_left', eq_comm (a := request.ownerSub)]
      tauto

/-- `RuntimeAuthorizationService.authorize`. -/
def authorize (request : AuthorizationRequest) (correlationId : Option String) (clock : Clock) :
    RepoProg AuthorizationDecision := do
  let allowed ← audited
    (do
      match ← tokenGet request.tokenId with
      | some record => pure (permits request clock.now record)
      | none => pure false)
    { eventType := "runtime.authorize"
      actorSub := request.ownerSub
      subjectSub := request.ownerSub
      groupName := request.requestedGroup
      resource := request.requestedResource
      tokenId := request.tokenId
      correlationId := correlationId
      result := "failure"
      occurredAt := clock.occurred }
    fun allowed =>
      { eventType := "runtime.authorize"
        actorSub := request.ownerSub
        subjectSub := request.ownerSub
        groupName := request.requestedGroup
        resource := request.requestedResource
        tokenId := request.tokenId
        correlationId := correlationId
        result := if allowed then "allow" else "deny"
        occurredAt := clock.occurred }
  pure { allowed := allowed }

end GofrSec
