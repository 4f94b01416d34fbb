/-
Every group, membership, token and runtime action is audited once.

* `Op.eventType`, `Op.actor`, `Op.correlation`: what the event of an operation says
  whatever its outcome; `auditResult` is the `result` of an outcome, and `Op.Names`
  what the event of a success names;
* `wp_reports`: each of the eight audited operations adds one event, and the event
  reports its outcome;
* `Op.ActsOn`: the record that a success has written, taken away or answered from;
  `wp_actsOn` says that it has;
* `Storage.Filed`: records stand under their own keys, as in every state that operations
  reach (`filed_of_session`);
* `audited_once`: every run of the eight operations on either backend, from every state,
  with any of its storage and signer calls raising, adds one event, which reports its outcome
  and names what it acted on.
-/
import GofrSec.Services.AuditLog
import GofrSec.Services.MintOutcomes

namespace GofrSec

open Calls Text

namespace Op

/-- The `event_type` of the operations that are audited. -/
def eventType : Op → Option String
  | .createGroup _ _ _ _ _ => some "admin.group.create"
  | .addMembership _ _ _ _ _ => some "admin.group_membership.add"
  | .removeMembership _ _ _ _ _ => some "admin.group_membership.remove"
  | .mintToken _ _ => some "admin.token.mint"
  | .getToken _ _ _ _ => some "admin.token.inspect"
  | .revokeToken _ _ _ _ => some "admin.token.revoke"
  | .listSelfTokens _ _ _ => some "user.token.list"
  | .authorize _ _ _ => some "runtime.authorize"
  | _ => none

/-- Who acts; for an authorization, the owner that the request names. -/
def actor : Op → Option String
  | .createGroup _ _ actorSub _ _ => some actorSub
  | .addMembership _ _ actorSub _ _ => some actorSub
  | .removeMembership _ _ actorSub _ _ => some actorSub
  | .mintToken request _ => some request.actorSub
  | .getToken _ actorSub _ _ => some actorSub
  | .revokeToken _ actorSub _ _ => some actorSub
  | .listSelfTokens identity _ _ => some identity.subject
  | .authorize request _ _ => request.ownerSub
  | _ => none

/-- The correlation id of the call. -/
def correlation : Op → Option String
  | .createGroup _ _ _ correlationId _ => correlationId
  | .addMembership _ _ _ correlationId _ => correlationId
  | .removeMembership _ _ _ correlationId _ => correlationId
  | .mintToken request _ => request.correlationId
  | .getToken _ _ correlationId _ => correlationId
  | .revokeToken _ _ correlationId _ => correlationId
  | .listSelfTokens _ correlationId _ => correlationId
  | .authorize _ correlationId _ => correlationId
  | _ => none

end Op

/-- The `result` of an event, for the outcome of its operation. -/
def auditResult : Except PyError Value → String
  | .error _ => "failure"
  | .ok (.decision decision) => if decision.allowed then "allow" else "deny"
  | .ok _ => "success"

/-- What the event of a success names: the token, the group and the subject that the
operation acted on. -/
def Op.Names (P : Platform) : Op → Value → AuditEvent → Prop
  | .createGroup name _ _ _ _, v, event => ∃ group, v = .group group
      ∧ normalizeGroupName P name = .ok group.name ∧ event.groupName = some group.name
  | .addMembership u g _ _ _, v, event => ∃ m, v = .membership m
      ∧ normalizeGroupName P g = .ok m.groupName
      ∧ event.subjectSub = some u ∧ event.groupName = some m.groupName
  | .removeMembership u g _ _ _, _, event => ∃ n, normalizeGroupName P g = .ok n
      ∧ event.subjectSub = some u ∧ event.groupName = some n
  | .mintToken request _, v, event => ∃ minted, v = .minted minted
      ∧ minted.record.tokenId = request.tokenId ∧ minted.record.ownerSub = request.ownerSub
      ∧ event.tokenId = some request.tokenId ∧ event.subjectSub = some request.ownerSub
  | .getToken t _ _ _, v, event => ∃ record, v = .token record
      ∧ event.tokenId = some t ∧ event.subjectSub = some record.ownerSub
  | .revokeToken t _ _ _, v, event => ∃ record, v = .token record
      ∧ event.tokenId = some t ∧ event.subjectSub = some record.ownerSub
  | .listSelfTokens identity _ _, _, event => event.subjectSub = some identity.subject
  | .authorize request _ _, _, event => event.tokenId = some request.tokenId
      ∧ event.subjectSub = request.ownerSub ∧ event.groupName = request.requestedGroup
      ∧ event.resource = request.requestedResource
  | _, _, _ => True

/-- The event reports the operation and its outcome. -/
structure Op.Reports (P : Platform) (o : Op) (r : Except PyError Value) (event : AuditEvent) :
    Prop where
  eventType : o.eventType = some event.eventType
  actor : event.actorSub = o.actor
  correlationId : event.correlationId = o.correlation
  result : event.result = auditResult r
  names : ∀ v, r = .ok v → o.Names P v event

variable {P : Platform} {o : Op} {log : List AuditEvent}

/-- Only a failure is reported as one. -/
lemma auditResult_eq_failure_iff (r : Except PyError Value) :
    auditResult r = "failure" ↔ ∃ e, r = .error e := by
  constructor
  · intro h
    unfold auditResult at h
    split at h
    · next e => exact ⟨e, rfl⟩
    · split_ifs at h
      · exact absurd h (by decide)
      · exact absurd h (by decide)
    · exact absurd h (by decide)
  · rintro ⟨e, rfl⟩
    rfl

/-- The operation adds one event, which reports its outcome. -/
abbrev Op.Logged (P : Platform) (o : Op) (log : List AuditEvent) (r : Except PyError Value)
    (log' : List AuditEvent) : Prop :=
  ∃ event, log' = log ++ [event] ∧ o.Reports P r event

/-- A service method in its frame: it is enough that its body appends nothing, and
that the two events report its outcomes. -/
lemma wp_reported {α : Type} {body : RepoProg α} {failure : AuditEvent} {success : α → AuditEvent}
    {f : α → Value} (hfailure : ∀ e, o.Reports P (.error e) failure)
    (h : body.wp auditLog (fun r log' => log' = log
      ∧ ∀ a, r = .ok a → o.Reports P (.ok (f a)) (success a)) log) :
    (f <$> audited body failure success).wp auditLog (o.Logged P log) log := by
  refine (Prog.wp_map _ _ _ _).mpr (wp_audited_log (Prog.wp_mono ?_ h))
  rintro (e | a) log' ⟨rfl, hok⟩
  · exact ⟨rfl, _, rfl, hfailure e⟩
  · exact ⟨rfl, _, rfl, hok a rfl⟩

lemma map_bind_pure {α β γ : Type} (f : β → γ) (g : α → β) (p : RepoProg α) :
    f <$> (p >>= fun a => pure (g a)) = (fun a => f (g a)) <$> p := by
  simp only [map_eq_pure_bind, bind_assoc, pure_bind]

/-- An answer that must be there. -/
lemma uses_getTokenOrRaise_log (t : String) : (getTokenOrRaise t).Uses RepoCall.mayFail :=
  uses_getTokenOrRaise (fun _ h => h.2) t

section Operations

variable {name u g t actorSub : String} {correlationId : Option String} {clock : Clock}

/-- The name that a group operation has validated. -/
lemma wp_normalized {α : Type} {name : String} {k : String → RepoProg α}
    {V : Except PyError α → List AuditEvent → Prop} (herr : ∀ e, V (.error e) log)
    (h : ∀ n, normalizeGroupName P name = .ok n → (k n).wp auditLog V log) :
    (Prog.lift (normalizeGroupName P name) >>= k).wp auditLog V log := by
  refine (Prog.wp_bind _ _ _ _).mpr ((Prog.wp_lift _ _ _).mpr ?_)
  cases hname : normalizeGroupName P name with
  | error e => exact herr e
  | ok n => exact h n hname

lemma wp_reports_createGroup (description : Option String) :
    ((Op.createGroup name description actorSub correlationId clock).prog P).wp auditLog
      ((Op.createGroup name description actorSub correlationId clock).Logged P log) log := by
  refine wp_reported (fun e => ⟨rfl, rfl, rfl, rfl, fun _ h => nomatch h⟩) ?_
  refine wp_normalized (fun e => ⟨rfl, fun _ h => nomatch h⟩) fun n hname => ?_
  refine (Prog.wp_bind _ _ _ _).mpr ((Prog.wp_lift _ _ _).mpr ?_)
  rcases isReservedGroup P n with e | reserved
  · exact ⟨rfl, fun _ h => nomatch h⟩
  rw [Prog.onReturn_ok]
  split_ifs
  · exact ⟨rfl, fun _ h => nomatch h⟩
  refine (Prog.wp_bind _ _ _ _).mpr (wp_log (by trivial) fun r _ => ?_)
  rcases r with e | existing
  · exact ⟨rfl, fun _ h => nomatch h⟩
  rw [Prog.onReturn_ok]
  split_ifs
  · exact ⟨rfl, fun _ h => nomatch h⟩
  refine wp_log (by trivial) fun r hecho => ⟨rfl, ?_⟩
  rintro group rfl
  refine ⟨rfl, rfl, rfl, rfl, ?_⟩
  rintro _ ⟨⟩
  refine ⟨group, rfl, ?_, rfl⟩
  rw [hname, hecho group rfl]

lemma wp_reports_addMembership :
    ((Op.addMembership u g actorSub correlationId clock).prog P).wp auditLog
      ((Op.addMembership u g actorSub correlationId clock).Logged P log) log := by
  refine wp_reported (fun e => ⟨rfl, rfl, rfl, rfl, by rintro _ ⟨⟩⟩) ?_
  refine wp_normalized (fun e => ⟨rfl, by rintro _ ⟨⟩⟩) fun n hname => ?_
  refine (Prog.wp_bind _ _ _ _).mpr (wp_log_of_uses
    (uses_requireActiveGroup (fun _ h => h.2) n) (Prog.returns_true _) fun r _ => ?_)
  rcases r with e | group
  · exact ⟨rfl, by rintro _ ⟨⟩⟩
  refine (Prog.wp_bind _ _ _ _).mpr (wp_log (by trivial) fun r _ => ?_)
  rcases r with e | registered
  · exact ⟨rfl, by rintro _ ⟨⟩⟩
  rw [Prog.onReturn_ok]
  split_ifs
  swap
  · exact ⟨rfl, by rintro _ ⟨⟩⟩
  refine (Prog.wp_bind _ _ _ _).mpr ((Prog.wp_bind _ _ _ _).mpr (wp_log (by trivial) fun r _ => ?_))
  rcases r with e | ms
  · exact ⟨rfl, by rintro _ ⟨⟩⟩
  dsimp only [Prog.onReturn_ok]
  cases hfind : ms.find? fun m => m.groupName = n with
  | some m =>
      -- the membership that there was
      refine ⟨rfl, ?_⟩
      rintro _ ⟨⟩
      refine ⟨rfl, rfl, rfl, rfl, ?_⟩
      rintro _ ⟨⟩
      have hgroup : m.groupName = n := by simpa using List.find?_some hfind
      exact ⟨m, rfl, by rw [hname, hgroup], rfl, rfl⟩
  | none =>
      refine wp_log (by trivial) fun r hecho => ⟨rfl, ?_⟩
      rintro m rfl
      refine ⟨rfl, rfl, rfl, rfl, ?_⟩
      rintro _ ⟨⟩
      refine ⟨m, rfl, ?_, rfl, rfl⟩
      rw [hname, hecho m rfl]

/-- What the body of a removal leaves. -/
lemma wp_log_removal (n : String) (hname : normalizeGroupName P g = .ok n) :
    (do
      let removed ← membershipRemove u n
      if removed then pure n else throw (membershipNotFound u n) : RepoProg String).wp auditLog
      (fun r log' => log' = log ∧ ∀ n, r = .ok n → normalizeGroupName P g = .ok n) log := by
  refine (Prog.wp_bind _ _ _ _).mpr (wp_log (by trivial) fun r _ => ?_)
  rcases r with e | removed
  · exact ⟨rfl, fun _ h => nomatch h⟩
  rw [Prog.onReturn_ok]
  split_ifs
  · exact ⟨rfl, fun _ h => Except.ok.inj h ▸ hname⟩
  · exact ⟨rfl, fun _ h => nomatch h⟩

lemma wp_log_removeMembershipBody :
    (removeMembershipBody P u g).wp auditLog
      (fun r log' => log' = log ∧ ∀ n, r = .ok n → normalizeGroupName P g = .ok n) log := by
  refine wp_normalized (fun e => ⟨rfl, fun _ h => nomatch h⟩) fun n hname => ?_
  refine (Prog.wp_bind _ _ _ _).mpr (wp_log_of_uses
    (uses_requireActiveGroup (fun _ h => h.2) n) (Prog.returns_true _) fun r _ => ?_)
  rcases r with e | group
  · exact ⟨rfl, fun _ h => nomatch h⟩
  refine (Prog.wp_bind _ _ _ _).mpr (wp_log_of_uses
    (uses_findMembership (fun _ h => h.2) u n) (Prog.returns_true _) fun r _ => ?_)
  rcases r with e | _ | m
  · exact ⟨rfl, fun _ h => nomatch h⟩
  · refine (Prog.wp_bind _ _ _ _).mpr (wp_log (by trivial) fun r _ => ?_)
    rcases r with e | registered
    · exact ⟨rfl, fun _ h => nomatch h⟩
    rw [Prog.onReturn_ok]
    split_ifs
    · exact ⟨rfl, fun _ h => nomatch h⟩
    · exact ⟨rfl, fun _ h => nomatch h⟩
  · rw [Prog.onReturn_ok]
    dsimp only
    split_ifs
    · refine (Prog.wp_bind _ _ _ _).mpr (wp_log (by trivial) fun r _ => ?_)
      rcases r with e | count
      · exact ⟨rfl, fun _ h => nomatch h⟩
      rw [Prog.onReturn_ok, Prog.wp_bind, Prog.wp_lift]
      cases ensureAdminMembershipRemains ((count : Int) - 1) with
      | error e => exact ⟨rfl, fun _ h => nomatch h⟩
      | ok _ => exact wp_log_removal n hname
    · exact wp_log_removal n hname

lemma wp_reports_removeMembership :
    ((Op.removeMembership u g actorSub correlationId clock).prog P).wp auditLog
      ((Op.removeMembership u g actorSub correlationId clock).Logged P log) log := by
  rw [Op.prog, removeMembership, map_bind_pure]
  refine wp_reported (fun e => ⟨rfl, rfl, rfl, rfl, by rintro _ ⟨⟩⟩) ?_
  refine Prog.wp_mono ?_ wp_log_removeMembershipBody
  rintro r log' ⟨rfl, hr⟩
  exact ⟨rfl, fun n hn => ⟨rfl, rfl, rfl, rfl, fun _ _ => ⟨n, hr n hn, rfl, rfl⟩⟩⟩

lemma wp_reports_mintToken (request : MintRequest) :
    ((Op.mintToken request clock).prog P).wp auditLog
      ((Op.mintToken request clock).Logged P log) log := by
  rw [Op.prog, mintToken, map_bind_pure]
  refine wp_reported (fun e => ⟨rfl, rfl, rfl, rfl, by rintro _ ⟨⟩⟩) ?_
  rw [mintTokenBody_eq]
  refine (Prog.wp_bind _ _ _ _).mpr (wp_log_of_uses (uses_prepareMint (fun _ h => h.2) _ _)
    (returns_prepareMint request clock.now) fun r hprepared => ?_)
  rcases r with e | prepared
  · exact ⟨rfl, by rintro _ ⟨⟩⟩
  obtain ⟨hid, howner, -⟩ := hprepared prepared rfl
  refine (Prog.wp_bind _ _ _ _).mpr (wp_log (by trivial) fun r hecho => ?_)
  rcases r with e | record
  · exact ⟨rfl, by rintro _ ⟨⟩⟩
  obtain rfl : record = prepared.1 := hecho record rfl
  refine ⟨rfl, ?_⟩
  rintro _ ⟨⟩
  refine ⟨rfl, rfl, rfl, rfl, ?_⟩
  rintro _ ⟨⟩
  exact ⟨_, rfl, hid, howner, congrArg some hid, rfl⟩

lemma wp_reports_getToken :
    ((Op.getToken t actorSub correlationId clock).prog P).wp auditLog
      ((Op.getToken t actorSub correlationId clock).Logged P log) log := by
  refine wp_reported (fun e => ⟨rfl, rfl, rfl, rfl, fun _ h => nomatch h⟩) ?_
  refine wp_log_of_uses (uses_getTokenOrRaise_log t) (Prog.returns_true _) fun r _ => ⟨rfl, ?_⟩
  rintro record -
  refine ⟨rfl, rfl, rfl, rfl, ?_⟩
  rintro _ ⟨⟩
  exact ⟨record, rfl, rfl, rfl⟩

lemma wp_reports_revokeToken :
    ((Op.revokeToken t actorSub correlationId clock).prog P).wp auditLog
      ((Op.revokeToken t actorSub correlationId clock).Logged P log) log := by
  refine wp_reported (fun e => ⟨rfl, rfl, rfl, rfl, fun _ h => nomatch h⟩) ?_
  have hbody : (revokeTokenBody t clock.now).Uses RepoCall.mayFail := by
    refine (uses_getTokenOrRaise_log t).bind fun current => ?_
    split_ifs
    · exact Prog.uses_pure _
    · exact uses_call trivial
  refine wp_log_of_uses hbody (Prog.returns_true _) fun r _ => ⟨rfl, ?_⟩
  rintro record -
  refine ⟨rfl, rfl, rfl, rfl, ?_⟩
  rintro _ ⟨⟩
  exact ⟨record, rfl, rfl, rfl⟩

lemma wp_reports_listSelfTokens (identity : VerifiedIdentity) :
    ((Op.listSelfTokens identity correlationId clock).prog P).wp auditLog
      ((Op.listSelfTokens identity correlationId clock).Logged P log) log := by
  refine wp_reported (fun e => ⟨rfl, rfl, rfl, rfl, fun _ h => nomatch h⟩) ?_
  refine (Prog.wp_bind _ _ _ _).mpr (wp_log (by trivial) fun r _ => ?_)
  rcases r with e | records
  · exact ⟨rfl, fun _ h => nomatch h⟩
  · exact ⟨rfl, fun _ _ => ⟨rfl, rfl, rfl, rfl, fun _ _ => rfl⟩⟩

lemma wp_reports_authorize (request : AuthorizationRequest) :
    ((Op.authorize request correlationId clock).prog P).wp auditLog
      ((Op.authorize request correlationId clock).Logged P log) log := by
  rw [Op.prog, authorize, map_bind_pure]
  refine wp_reported (fun e => ⟨rfl, rfl, rfl, rfl, by rintro _ ⟨⟩⟩) ?_
  have hsuccess : ∀ allowed : Bool, (Op.authorize request correlationId clock).Reports P
      (.ok (.decision { allowed := allowed }))
      { eventType := "runtime.authorize"
        actorSub := request.ownerSub
        subjectSub := request.ownerSub
        groupName := request.requestedGroup
        resource := request.requestedResource
        tokenId := request.tokenId
        correlationId := correlationId
        result := if allowed then "allow" else "deny"
        occurredAt := clock.occurred } :=
    fun allowed => ⟨rfl, rfl, rfl, rfl, fun _ _ => ⟨rfl, rfl, rfl, rfl⟩⟩
  refine (Prog.wp_bind _ _ _ _).mpr (wp_log (by trivial) fun r _ => ?_)
  rcases r with e | _ | record
  · exact ⟨rfl, by rintro _ ⟨⟩⟩
  · exact ⟨rfl, fun allowed _ => hsuccess allowed⟩
  · exact ⟨rfl, fun allowed _ => hsuccess allowed⟩

end Operations

/-- **Every audited operation adds one event, which reports its outcome.** -/
theorem wp_reports (ho : o.eventType.isSome) :
    (o.prog P).wp auditLog (o.Logged P log) log := by
  cases o with
  | createGroup name description actorSub correlationId clock => exact wp_reports_createGroup _
  | addMembership u g actorSub correlationId clock => exact wp_reports_addMembership
  | removeMembership u g actorSub correlationId clock => exact wp_reports_removeMembership
  | mintToken request clock => exact wp_reports_mintToken request
  | getToken t actorSub correlationId clock => exact wp_reports_getToken
  | revokeToken t actorSub correlationId clock => exact wp_reports_revokeToken
  | listSelfTokens identity correlationId clock => exact wp_reports_listSelfTokens identity
  | authorize request correlationId clock => exact wp_reports_authorize request
  | _ => exact nomatch ho

/-- A run of an audited operation adds one event. -/
lemma logged_of_runs {st : Storage} {faults : Prop} {s s' : st.State} {r : Except PyError Value}
    (ho : o.eventType.isSome) (hrun : (o.prog P).Runs (st.act P faults) s r s') :
    o.Logged P (st.events s) r (st.events s') := by
  obtain ⟨log', hlog', hlogged⟩ := Prog.Runs.refine (Storage.logs st) rfl (wp_reports ho) hrun
  rw [hlog']
  exact hlogged

/-! ### What a success acted on -/

/-- The record that a success has written, taken away or answered from. -/
def Op.ActsOn (P : Platform) (st : Storage) (s s' : st.State) : Op → Value → Prop
  | .createGroup _ _ _ _ _, v => ∃ group, v = .group group
      ∧ st.groupAt P s group.name = .ok none ∧ st.groupAt P s' group.name = .ok (some group)
  | .addMembership u _ _ _ _, v => ∃ m, v = .membership m
      ∧ (m.keycloakSub = u ∨ ∃ ms, st.membershipsAt P s u = .ok ms ∧ m ∈ ms)
      ∧ ∃ ms, st.membershipsAt P s' u = .ok ms ∧ m ∈ ms
  | .removeMembership u g _ _ _, v => v = .none ∧ ∃ n, normalizeGroupName P g = .ok n
      ∧ st.HasMembership P s u n ∧ ¬ st.HasMembership P s' u n
  | .mintToken _ _, v => ∃ minted, v = .minted minted
      ∧ st.tokenAt P s' minted.record.tokenId = .ok (some minted.record)
  | .getToken t _ _ _, v => ∃ record, v = .token record ∧ st.tokenAt P s t = .ok (some record)
  | .revokeToken t _ _ clock, v => ∃ current, st.tokenAt P s t = .ok (some current)
      ∧ (current.status = "revoked" ∧ v = .token current
        ∨ current.status ≠ "revoked" ∧ v = .token (revokedRecord current clock.now)
          ∧ st.tokenAt P s' current.tokenId = .ok (some (revokedRecord current clock.now)))
  | .listSelfTokens identity _ _, v => ∃ records,
      (st.exec P (.tokensForUser identity.subject) s).1 = .ok records
        ∧ v = .tokens (sortByIssuedAt records)
  | .authorize request _ clock, v => ∃ found, st.tokenAt P s request.tokenId = .ok found
      ∧ v = .decision { allowed := found.any (permits request clock.now) }
  | _, _ => True

section Acted

variable {st : Storage} {s : st.State}

/-- A service method in its frame: it is enough that its body has done what its value says;
its event changes no answer of the stores. -/
lemma wp_acted {α : Type} {body : RepoProg α} {failure : AuditEvent} {success : α → AuditEvent}
    {f : α → Value}
    (h : body.wp (st.exec P).graph.contract (fun r s' => ∀ a, r = .ok a → ∀ event,
      o.ActsOn P st s (st.exec P (.auditAppend event) s').2 (f a)) s) :
    (f <$> audited body failure success).wp (st.exec P).graph.contract
      (fun r s' => ∀ v, r = .ok v → o.ActsOn P st s s' v) s := by
  refine (Prog.wp_map _ _ _ _).mpr (wp_audited_of_append (Prog.wp_mono ?_ h))
  intro r s' hr event
  rw [Prog.wp_graph_iff, Prog.run_perform]
  refine ⟨(Storage.auditAppend_exec s' event).1, ?_⟩
  rintro v hv
  cases r with
  | error e => cases hv
  | ok a =>
      obtain rfl := Except.ok.inj hv
      exact hr a rfl event

/-- A reading call; if it raises, the program does not return. -/
lemma wp_answered {α : Type} {c : RepoCall} (hc : c.Reads) {k : c.Res → RepoProg α}
    {T : α → st.State → Prop}
    (h : ∀ b, (st.exec P c s).1 = .ok b → (k b).wp (st.exec P).graph.contract
      (fun r s' => ∀ a, r = .ok a → T a s') s) :
    (RepoCall.perform c >>= k).wp (st.exec P).graph.contract
      (fun r s' => ∀ a, r = .ok a → T a s') s := by
  refine (Prog.wp_bind _ _ _ _).mpr (Storage.wp_read hc ?_)
  cases hout : (st.exec P c s).1 with
  | error e => rintro _ ⟨⟩
  | ok b => exact h b hout

/-- A computation that may raise. -/
lemma wp_computed {α β : Type} {x : Except PyError β} {k : β → RepoProg α}
    {T : α → st.State → Prop}
    (h : ∀ b, x = .ok b → (k b).wp (st.exec P).graph.contract
      (fun r s' => ∀ a, r = .ok a → T a s') s) :
    (Prog.lift x >>= k).wp (st.exec P).graph.contract
      (fun r s' => ∀ a, r = .ok a → T a s') s := by
  refine (Prog.wp_bind _ _ _ _).mpr ((Prog.wp_lift _ _ _).mpr ?_)
  cases x with
  | error e => rintro _ ⟨⟩
  | ok b => exact h b rfl

/-- A part of a method that only reads, whatever it returns. -/
lemma wp_looked {α β : Type} {p : RepoProg β} (hp : p.Uses RepoCall.Reads) {k : β → RepoProg α}
    {T : α → st.State → Prop}
    (h : ∀ b, (k b).wp (st.exec P).graph.contract (fun r s' => ∀ a, r = .ok a → T a s') s) :
    (p >>= k).wp (st.exec P).graph.contract (fun r s' => ∀ a, r = .ok a → T a s') s := by
  have hsame : p.wp (st.exec P).graph.contract (fun _ s' => s' = s) s := by
    refine Prog.wp_of_uses (I := fun s' => s' = s) (fun c s₁ hc hs => ⟨trivial, ?_⟩) hp rfl
    rintro r s₂ hexec
    rw [← hs, ← Storage.read_exec hc s₁, show st.exec P c s₁ = (r, s₂) from hexec]
  refine (Prog.wp_bind _ _ _ _).mpr (Prog.wp_mono ?_ hsame)
  rintro (e | b) _ rfl
  · rintro _ ⟨⟩
  · exact h b

variable {name u g t actorSub : String} {correlationId : Option String} {clock : Clock}

lemma wp_actsOn_createGroup (description : Option String) :
    ((Op.createGroup name description actorSub correlationId clock).prog P).wp
      (st.exec P).graph.contract (fun r s' => ∀ v, r = .ok v →
        (Op.createGroup name description actorSub correlationId clock).ActsOn P st s s' v) s := by
  refine wp_acted (wp_computed fun n _ => ?_)
  refine wp_computed fun reserved _ => ?_
  split_ifs
  · rintro _ ⟨⟩
  refine wp_answered (by exact ⟨id, trivial⟩) fun existing hexisting => ?_
  split_ifs with hfree
  · rintro _ ⟨⟩
  rw [Prog.wp_graph_iff, Prog.run_perform]
  intro group hgroup event
  obtain ⟨hout, hstored⟩ := Storage.groupUpsert_exec (P := P) s
    { name := n
      description := description.bind fun d => nonEmpty (strip d)
      isSystem := false
      isActive := true
      createdAt := clock.now }
  obtain rfl := Except.ok.inj (hgroup.symm.trans hout)
  refine ⟨_, rfl, ?_, (Storage.exec_fst_append st (.groupGet _) _ event).trans hstored⟩
  rw [Option.not_isSome_iff_eq_none.mp hfree] at hexisting
  exact hexisting

lemma wp_actsOn_addMembership :
    ((Op.addMembership u g actorSub correlationId clock).prog P).wp (st.exec P).graph.contract
      (fun r s' => ∀ v, r = .ok v →
        (Op.addMembership u g actorSub correlationId clock).ActsOn P st s s' v) s := by
  refine wp_acted (wp_computed fun n _ => ?_)
  refine wp_looked (uses_requireActiveGroup (fun _ h => h) n) fun _ => ?_
  refine wp_answered (by exact ⟨id, trivial⟩) fun registered _ => ?_
  split_ifs
  swap
  · rintro _ ⟨⟩
  rw [findMembership, bind_assoc]
  refine wp_answered (by exact ⟨id, trivial⟩) fun ms hms => ?_
  cases hfind : ms.find? fun m => m.groupName = n with
  | some m =>
      -- the membership that there was
      rintro _ hm event
      obtain rfl := Except.ok.inj hm
      have hmem := List.mem_of_find?_eq_some hfind
      refine ⟨m, rfl, Or.inr ⟨ms, hms, hmem⟩, ms, ?_, hmem⟩
      exact (Storage.exec_fst_append st (.membershipsForUser u) s event).trans hms
  | none =>
      show Prog.wp _ (RepoCall.perform (.membershipAdd _)) _ s
      rw [Prog.wp_graph_iff, Prog.run_perform]
      intro m hm event
      obtain ⟨rfl, ms', hms', hmem⟩ := Storage.membershipAdd_exec hm
      refine ⟨_, rfl, Or.inl rfl, ms', ?_, hmem⟩
      exact (Storage.exec_fst_append st (.membershipsForUser u) _ event).trans hms'

/-- The last step of a removal. -/
lemma wp_actsOn_removal {n : String} (hname : normalizeGroupName P g = .ok n) :
    (do
      let removed ← membershipRemove u n
      if removed then pure n else throw (membershipNotFound u n) : RepoProg String).wp
      (st.exec P).graph.contract (fun r s' => ∀ a, r = .ok a → ∀ event,
        (Op.removeMembership u g actorSub correlationId clock).ActsOn P st s
          (st.exec P (.auditAppend event) s').2 .none) s := by
  refine (Prog.wp_bind _ _ _ _).mpr ?_
  rw [Prog.wp_graph_iff, Prog.run_perform]
  cases hout : (st.exec P (.membershipRemove u n) s).1 with
  | error e => rintro _ ⟨⟩
  | ok removed =>
      rw [Prog.onReturn_ok]
      split_ifs with hremoved
      · intro _ _ event
        rw [hremoved] at hout
        obtain ⟨hmember, hgone⟩ := Storage.membershipRemove_exec hout
        refine ⟨rfl, n, hname, hmember, fun hstill => ?_⟩
        rw [Storage.HasMembership, Storage.exec_fst_append, hgone] at hstill
        cases hstill
      · rintro _ ⟨⟩

lemma wp_actsOn_removeMembership :
    ((Op.removeMembership u g actorSub correlationId clock).prog P).wp (st.exec P).graph.contract
      (fun r s' => ∀ v, r = .ok v →
        (Op.removeMembership u g actorSub correlationId clock).ActsOn P st s s' v) s := by
  rw [Op.prog, removeMembership, map_bind_pure]
  refine wp_acted (wp_computed fun n hname => ?_)
  refine wp_looked (uses_requireActiveGroup (fun _ h => h) n) fun _ => ?_
  refine wp_looked (uses_findMembership (fun _ h => h) u n) fun found => ?_
  cases found with
  | none =>
      refine wp_answered (by exact ⟨id, trivial⟩) fun registered _ => ?_
      split_ifs
      · rintro _ ⟨⟩
      · rintro _ ⟨⟩
  | some m =>
      dsimp only
      split_ifs
      · refine wp_answered (by exact ⟨id, trivial⟩) fun count _ => ?_
        exact wp_computed fun _ _ => wp_actsOn_removal hname
      · exact wp_actsOn_removal hname

lemma wp_actsOn_mintToken (request : MintRequest) :
    ((Op.mintToken request clock).prog P).wp (st.exec P).graph.contract
      (fun r s' => ∀ v, r = .ok v → (Op.mintToken request clock).ActsOn P st s s' v) s := by
  rw [Op.prog, mintToken, map_bind_pure]
  refine wp_acted ?_
  rw [mintTokenBody_eq]
  refine wp_looked (uses_prepareMint (fun _ h => h) _ _) fun prepared => ?_
  refine (Prog.wp_bind _ _ _ _).mpr ?_
  rw [Prog.wp_graph_iff, Prog.run_perform]
  cases hout : (st.exec P (.tokenUpsert prepared.1) s).1 with
  | error e => rintro _ ⟨⟩
  | ok record =>
      obtain ⟨rfl, hstored⟩ := Storage.tokenAt_of_upsert hout
      rintro _ ⟨⟩ event
      exact ⟨_, rfl, (Storage.exec_fst_append st (.tokenGet _) _ event).trans hstored⟩

/-- A token that must be there, and what is done with it. -/
lemma wp_gotten {α : Type} {k : IssuedTokenRecord → RepoProg α} {T : α → st.State → Prop}
    (h : ∀ record, st.tokenAt P s t = .ok (some record) → (k record).wp (st.exec P).graph.contract
      (fun r s' => ∀ a, r = .ok a → T a s') s) :
    (getTokenOrRaise t >>= k).wp (st.exec P).graph.contract
      (fun r s' => ∀ a, r = .ok a → T a s') s := by
  rw [getTokenOrRaise, bind_assoc]
  refine wp_answered (by exact ⟨id, trivial⟩) ?_
  rintro (_ | record) hfound
  · rintro _ ⟨⟩
  · exact h record hfound

lemma wp_actsOn_getToken :
    ((Op.getToken t actorSub correlationId clock).prog P).wp (st.exec P).graph.contract
      (fun r s' => ∀ v, r = .ok v →
        (Op.getToken t actorSub correlationId clock).ActsOn P st s s' v) s := by
  refine wp_acted ?_
  rw [← bind_pure (getTokenOrRaise t)]
  refine wp_gotten fun record hrecord => ?_
  rintro _ hout event
  obtain rfl := Except.ok.inj hout
  exact ⟨_, rfl, hrecord⟩

lemma wp_actsOn_revokeToken :
    ((Op.revokeToken t actorSub correlationId clock).prog P).wp (st.exec P).graph.contract
      (fun r s' => ∀ v, r = .ok v →
        (Op.revokeToken t actorSub correlationId clock).ActsOn P st s s' v) s := by
  refine wp_acted (wp_gotten fun current hcurrent => ?_)
  split_ifs with hrevoked
  · rintro _ hout event
    obtain rfl := Except.ok.inj hout
    exact ⟨_, hcurrent, Or.inl ⟨hrevoked, rfl⟩⟩
  · rw [Prog.wp_graph_iff, Prog.run_perform]
    intro record hout event
    obtain ⟨rfl, hstored⟩ := Storage.tokenAt_of_upsert hout
    refine ⟨current, hcurrent, Or.inr ⟨hrevoked, rfl, ?_⟩⟩
    exact (Storage.exec_fst_append st (.tokenGet _) _ event).trans hstored

lemma wp_actsOn_listSelfTokens (identity : VerifiedIdentity) :
    ((Op.listSelfTokens identity correlationId clock).prog P).wp (st.exec P).graph.contract
      (fun r s' => ∀ v, r = .ok v →
        (Op.listSelfTokens identity correlationId clock).ActsOn P st s s' v) s := by
  refine wp_acted (wp_answered (by exact ⟨id, trivial⟩) fun records hout => ?_)
  rintro _ hsorted event
  obtain rfl := Except.ok.inj hsorted
  exact ⟨records, hout, rfl⟩

lemma wp_actsOn_authorize (request : AuthorizationRequest) :
    ((Op.authorize request correlationId clock).prog P).wp (st.exec P).graph.contract
      (fun r s' => ∀ v, r = .ok v →
        (Op.authorize request correlationId clock).ActsOn P st s s' v) s := by
  rw [Op.prog, authorize, map_bind_pure]
  refine wp_acted (wp_answered (by exact ⟨id, trivial⟩) fun found hfound => ?_)
  cases found with
  | none =>
      rintro _ hout event
      obtain rfl := Except.ok.inj hout
      exact ⟨none, hfound, rfl⟩
  | some record =>
      rintro _ hout event
      obtain rfl := Except.ok.inj hout
      exact ⟨some record, hfound, rfl⟩

end Acted

/-- **A success has done what its value says**, at the time of the operation. -/
theorem wp_actsOn {st : Storage} (s : st.State) (ho : o.eventType.isSome) :
    (o.prog P).wp (st.exec P).graph.contract
      (fun r s' => ∀ v, r = .ok v → o.ActsOn P st s s' v) s := by
  cases o with
  | createGroup name description actorSub correlationId clock => exact wp_actsOn_createGroup _
  | addMembership u g actorSub correlationId clock => exact wp_actsOn_addMembership
  | removeMembership u g actorSub correlationId clock => exact wp_actsOn_removeMembership
  | mintToken request clock => exact wp_actsOn_mintToken request
  | getToken t actorSub correlationId clock => exact wp_actsOn_getToken
  | revokeToken t actorSub correlationId clock => exact wp_actsOn_revokeToken
  | listSelfTokens identity correlationId clock => exact wp_actsOn_listSelfTokens identity
  | authorize request correlationId clock => exact wp_actsOn_authorize request
  | _ => cases ho

/-! ### Records under their own keys -/

/-- Tokens stand under their own ids, and memberships under their own users. -/
structure Storage.Filed (P : Platform) (st : Storage) (s : st.State) : Prop where
  tokens : ∀ t record, st.tokenAt P s t = .ok (some record) → record.tokenId = t
  memberships : ∀ u ms, st.membershipsAt P s u = .ok ms → ∀ m ∈ ms, m.keycloakSub = u

/-- In every state that operations reach from empty stores, records stand so. -/
theorem filed_of_session {st : Storage} {faults plain : Prop} {s t : st.State} {h : OpHistory}
    (hfresh : st.Fresh s) (hsession : Session (st.act P faults) (Op.prog P) s h t)
    (hops : ValidOps plain (h.map Prod.fst)) : st.Filed P t := by
  obtain ⟨reg, hrep, -, -⟩ := runs_invariant faults plain (fun _ _ => True) (ValidOps plain)
    (fun _ _ => ValidOps.tail) (fun _ _ => ValidOps.head) (fun _ _ _ _ _ _ _ _ _ => trivial)
    (Storage.represents_fresh hfresh) Registry.sound_empty trivial hsession hops
  constructor
  · intro t record hrecord
    rw [Storage.tokenAt_eq hrep] at hrecord
    exact reg.tokens.key_eq _ _ (Except.ok.inj hrecord)
  · intro u ms hms m hm
    obtain ⟨ms', hms', hlists⟩ := Storage.membershipsAt_lists hrep u
    obtain rfl := Except.ok.inj (hms.symm.trans hms')
    exact ((hlists.2 m).mp hm).2

/-- The event names what the operation returned. -/
def Value.NamedBy (event : AuditEvent) : Value → Prop
  | .group g => event.groupName = some g.name
  | .membership m => event.subjectSub = some m.keycloakSub ∧ event.groupName = some m.groupName
  | .minted result => event.tokenId = some result.record.tokenId
      ∧ event.subjectSub = some result.record.ownerSub
  | .token record => event.tokenId = some record.tokenId
      ∧ event.subjectSub = some record.ownerSub
  | _ => True

/-- What the event of a success names is what was acted on, where records stand under their
own keys. -/
lemma namedBy_of_filed {st : Storage} {s s' : st.State} {v : Value} {event : AuditEvent}
    (ho : o.eventType.isSome) (hnames : o.Names P v event) (hacts : o.ActsOn P st s s' v)
    (hfiled : st.Filed P s) : v.NamedBy event := by
  cases o with
  | createGroup name description actorSub correlationId clock =>
      obtain ⟨group, rfl, -, hgroup⟩ := hnames
      exact hgroup
  | addMembership u g actorSub correlationId clock =>
      obtain ⟨m, rfl, -, hsubject, hgroup⟩ := hnames
      obtain ⟨_, ⟨⟩, hown, -⟩ := hacts
      have hsub : m.keycloakSub = u := by
        rcases hown with hsub | ⟨ms, hms, hm⟩
        · exact hsub
        · exact hfiled.memberships u ms hms m hm
      exact ⟨by rw [hsubject, hsub], hgroup⟩
  | removeMembership u g actorSub correlationId clock =>
      obtain ⟨rfl, -⟩ := hacts
      trivial
  | mintToken request clock =>
      obtain ⟨minted, rfl, hid, howner, htoken, hsubject⟩ := hnames
      exact ⟨by rw [htoken, hid], by rw [hsubject, howner]⟩
  | getToken t actorSub correlationId clock =>
      obtain ⟨record, rfl, htoken, hsubject⟩ := hnames
      obtain ⟨_, ⟨⟩, hrecord⟩ := hacts
      exact ⟨by rw [htoken, hfiled.tokens t record hrecord], hsubject⟩
  | revokeToken t actorSub correlationId clock =>
      obtain ⟨record, rfl, htoken, hsubject⟩ := hnames
      obtain ⟨current, hcurrent, hacted⟩ := hacts
      have hid : record.tokenId = current.tokenId := by
        rcases hacted with ⟨-, hv⟩ | ⟨-, hv, -⟩
        · rw [Value.token.inj hv]
        · rw [Value.token.inj hv]
          rfl
      exact ⟨by rw [htoken, hid, hfiled.tokens t current hcurrent], hsubject⟩
  | listSelfTokens identity correlationId clock =>
      obtain ⟨records, -, rfl⟩ := hacts
      trivial
  | authorize request correlationId clock =>
      obtain ⟨found, -, rfl⟩ := hacts
      trivial
  | _ => cases ho

/-- **Every group, membership, token and runtime action is audited exactly once and
truthfully.** From every state of either backend, whatever calls to storage and to the
signer raise, each of the eight operations appends exactly one event, with its
correlation id and its actor. The `result` is `failure` exactly when it raises,
otherwise `success`, or, for an authorization, `allow` or `deny` as it decides. The event
of a success names the token, the group and the subject that were asked for, and what it
acted on is what is stored there; that record carries the very names wherever records
stand under their own keys. -/
theorem audited_once (P : Platform) (st : Storage) (faults : Prop) {o : Op} {s s' : st.State}
    {r : Except PyError Value} (ho : o.eventType.isSome)
    (hrun : (o.prog P).Runs (st.act P faults) s r s') :
    ∃ event, st.events s' = st.events s ++ [event] ∧ o.eventType = some event.eventType
      ∧ event.actorSub = o.actor ∧ event.correlationId = o.correlation
      ∧ (event.result = "failure" ↔ ∃ e, r = .error e)
      ∧ (∀ v, r = .ok v → event.result = (match v with
          | .decision decision => if decision.allowed then "allow" else "deny"
          | _ => "success") ∧ o.Names P v event ∧ o.ActsOn P st s s' v
        ∧ (st.Filed P s → v.NamedBy event)) := by
  obtain ⟨event, hevents, hreports⟩ := logged_of_runs ho hrun
  refine ⟨event, hevents, hreports.eventType, hreports.actor, hreports.correlationId, ?_, ?_⟩
  · rw [hreports.result]
    exact auditResult_eq_failure_iff r
  · rintro v rfl
    have hacts : o.ActsOn P st s s' v := by
      have hends := (Prog.wp_graph_iff _ _ _).mp (wp_actsOn (P := P) s ho)
      rw [Storage.run_of_ok (strict_prog P o) hrun] at hends
      exact hends v rfl
    refine ⟨hreports.result.trans ?_, hreports.names v rfl, hacts,
      namedBy_of_filed ho (hreports.names v rfl) hacts⟩
    cases v <;> rfl

/-! ### On concrete data -/

/-- `root` revokes the token of `teamDay`. -/
def rootRevocation : Op := .revokeToken teamMint.tokenId "root" none newYear

/-- The Vault after `teamDay`. -/
def teamDayVault : VaultWorld :=
  (play ((Storage.vault .python .inOrder).exec .python) (Op.prog .python) VaultWorld.empty
    teamDay).2

/-- The event of the revocation names the token and its owner, and the record that it has
revoked is the stored one. -/
theorem audited_once_rootRevocation :
    ∃ event, ((rootRevocation.prog .python).run ((Storage.vault .python .inOrder).exec .python)
        teamDayVault).2.events = teamDayVault.events ++ [event]
      ∧ event.result = "success" ∧ event.tokenId = some teamRecord.tokenId
      ∧ event.subjectSub = some "alice"
      ∧ (Storage.vault .python .inOrder).tokenAt .python teamDayVault teamMint.tokenId
        = .ok (some teamRecord)
      ∧ (Storage.vault .python .inOrder).tokenAt .python ((rootRevocation.prog .python).run
          ((Storage.vault .python .inOrder).exec .python) teamDayVault).2 teamMint.tokenId
        = .ok (some (revokedRecord teamRecord newYear.now)) := by
  have hstored : (Storage.vault .python .inOrder).tokenAt .python teamDayVault teamMint.tokenId
      = .ok (some teamRecord) := by decide +kernel
  have hfiled : (Storage.vault .python .inOrder).Filed .python teamDayVault := by
    refine @filed_of_session .python (.vault .python .inOrder) True False _ _ _ fresh_vaultEmpty
      (Storage.session_of_exec (play_trace _ teamDay).session) ?_
    rw [map_fst_play]
    exact validOps_teamDay
  have hreturns : ((rootRevocation.prog .python).run
      ((Storage.vault .python .inOrder).exec .python) teamDayVault).1.isOk := by decide +kernel
  obtain ⟨v, hout⟩ : ∃ v, ((rootRevocation.prog .python).run
      ((Storage.vault .python .inOrder).exec .python) teamDayVault).1 = .ok v := by
    cases hr : ((rootRevocation.prog .python).run
        ((Storage.vault .python .inOrder).exec .python) teamDayVault).1 with
    | ok v => exact ⟨v, rfl⟩
    | error e =>
        rw [hr] at hreturns
        cases hreturns
  obtain ⟨event, hevents, -, -, -, -, hsuccess⟩ := audited_once .python
    (.vault .python .inOrder) True rfl (Storage.runs_of_run_fst hout)
  obtain ⟨hresult, -, ⟨current, hcurrent, hacted⟩, hnamed⟩ := hsuccess v rfl
  obtain rfl : current = teamRecord :=
    Option.some.inj (Except.ok.inj (hcurrent.symm.trans hstored))
  rcases hacted with ⟨hrevoked, -⟩ | ⟨-, rfl, hkept⟩
  · exact absurd hrevoked (by decide)
  · obtain ⟨htoken, hsubject⟩ := hnamed hfiled
    exact ⟨event, hevents, hresult, htoken, hsubject, hstored, hkept⟩

/-- A Vault that holds, under the id `t`, the record of another token. -/
def misfiledVault : VaultWorld :=
  VaultWorld.empty.write (VaultDeployment.python.paths.tokenPath "t")
    (serializeToken .python { teamRecord with tokenId := "u" })

/-- That Vault after `root` has revoked `t`. -/
def misfiledRevoked : VaultWorld :=
  ((revokeToken "t" "root" none newYear).run ((Storage.vault .python .inOrder).exec .python)
    misfiledVault).2

/-- The revocation of `t` succeeds and its event names `t`; but the token that it has
revoked is `u`, and the document of `t` is still active. -/
theorem audited_other_token :
    (revokeToken "t" "root" none newYear).Runs ((Storage.vault .python .inOrder).act .python False)
        misfiledVault (.ok { revokedRecord teamRecord newYear.now with tokenId := "u" })
        misfiledRevoked
      ∧ misfiledRevoked.events.map (fun event => (event.result, event.tokenId))
        = [("success", some "t")]
      ∧ (Storage.vault .python .inOrder).tokenAt .python misfiledRevoked "u"
        = .ok (some { revokedRecord teamRecord newYear.now with tokenId := "u" })
      ∧ (Storage.vault .python .inOrder).tokenAt .python misfiledRevoked "t"
        = .ok (some { teamRecord with tokenId := "u" }) := by
  refine ⟨Storage.runs_of_run_fst ?_, ?_, ?_, ?_⟩
  · decide +kernel
  · decide +kernel
  · decide +kernel
  · decide +kernel

end GofrSec
