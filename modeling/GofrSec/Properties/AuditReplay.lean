/-
The audit log replays into the stores.

* `StoreView`: the group names, the memberships, the tokens with their owners and
  the revoked tokens, as they can be read from the stores (`Storage.view`) or from a
  registry (`Registry.view`);
* `StoreView.replay`: what one audit event makes of such a view;
* `view_step`: every operation but a start-up plan changes the view as its events
  replay;
* `audit_replays`: after every run that follows a start-up plan on empty stores, on
  either backend, the events since the plan replay into the stores.
-/
import GofrSec.Properties.AuditTrail
import GofrSec.Properties.TokenHistory

namespace GofrSec

open Calls

/-- What the stores hold, as far as audit events tell it. -/
@[ext] structure StoreView where
  groups : Set String
  members : Set (String × String)
  tokens : Set (String × String)
  revoked : Set String

/-- One event, replayed: a failure and an event of another type do nothing. -/
def StoreView.replay (view : StoreView) (event : AuditEvent) : StoreView :=
  if event.result = "failure" then view
  else if event.eventType = "admin.group.create" then
    { view with groups := view.groups ∪ {g | event.groupName = some g} }
  else if event.eventType = "admin.group_membership.add" then
    { view with
      members := view.members ∪ {p | event.subjectSub = some p.1 ∧ event.groupName = some p.2} }
  else if event.eventType = "admin.group_membership.remove" then
    { view with
      members := view.members \ {p | event.subjectSub = some p.1 ∧ event.groupName = some p.2} }
  else if event.eventType = "admin.token.mint" then
    { view with
      tokens := view.tokens ∪ {p | event.tokenId = some p.1 ∧ event.subjectSub = some p.2} }
  else if event.eventType = "admin.token.revoke" then
    { view with revoked := view.revoked ∪ {t | event.tokenId = some t} }
  else view

/-- What the stores of a backend answer. -/
def Storage.view (P : Platform) (st : Storage) (s : st.State) : StoreView where
  groups := {g | ∃ group, st.groupAt P s g = .ok (some group)}
  members := {p | st.HasMembership P s p.1 p.2}
  tokens := {p | ∃ record, st.tokenAt P s p.1 = .ok (some record) ∧ record.ownerSub = p.2}
  revoked := {t | ∃ record, st.tokenAt P s t = .ok (some record) ∧ record.status = "revoked"}

/-- The same of a registry. -/
def Registry.view (reg : Registry) : StoreView where
  groups := {g | (reg.groups.find g).isSome}
  members := {p | reg.Member p.1 p.2}
  tokens := {p | ∃ record, reg.tokens.find p.1 = some record ∧ record.ownerSub = p.2}
  revoked := {t | ∃ record, reg.tokens.find t = some record ∧ record.status = "revoked"}

variable {P : Platform} {R : Regime} {reg reg' : Registry} {o : Op} {r : Except PyError Value}
  {event : AuditEvent}

/-- The view of the stores is that of the registry that they hold. -/
lemma Storage.view_eq {st : Storage} {faults plain : Prop} {s : st.State}
    (hrep : st.Represents P (runRegime faults plain) s reg) : st.view P s = reg.view := by
  ext1
  · ext g
    simp only [Storage.view, Registry.view, Set.mem_ofPred_eq, Storage.groupAt_eq hrep,
      Except.ok.injEq, Option.isSome_iff_exists]
  · ext p
    simp only [Storage.view, Registry.view, Set.mem_ofPred_eq, Storage.hasMembership_iff hrep]
  · ext p
    simp only [Storage.view, Registry.view, Set.mem_ofPred_eq, Storage.tokenAt_eq hrep,
      Except.ok.injEq]
  · ext t
    simp only [Storage.view, Registry.view, Set.mem_ofPred_eq, Storage.tokenAt_eq hrep,
      Except.ok.injEq]

/-- The view looks at the groups, the memberships and the tokens alone. -/
lemma Registry.view_congr (hgroups : reg'.groups = reg.groups)
    (hmemberships : reg'.memberships = reg.memberships) (htokens : reg'.tokens = reg.tokens) :
    reg'.view = reg.view := by
  simp only [Registry.view, Registry.Member, hgroups, hmemberships, htokens]

lemma Registry.Agrees.view (h : reg'.Agrees reg) : reg'.view = reg.view :=
  Registry.view_congr h.groups h.memberships h.tokens

/-! ### One operation -/

lemma StoreView.replay_of_failure {view : StoreView} (h : event.result = "failure") :
    view.replay event = view := if_pos h

/-- An operation that raised without effect. -/
lemma replay_of_error {e : PyError} (hreports : o.Reports P (.error e) event)
    (hagrees : reg'.Agrees reg) : reg'.view = reg.view.replay event := by
  rw [StoreView.replay_of_failure hreports.result, hagrees.view]

/-- The event of an operation that returned, and its type. -/
lemma Op.Reports.returned {v : Value} (hreports : o.Reports P (.ok v) event) {type : String}
    (htype : o.eventType = some type) : event.result ≠ "failure" ∧ event.eventType = type := by
  constructor
  · rw [hreports.result]
    intro h
    obtain ⟨e, he⟩ := (auditResult_eq_failure_iff _).mp h
    exact nomatch he
  · exact Option.some.inj (hreports.eventType.symm.trans htype)

/-- The owners and the revocations after a record is filed. -/
lemma Registry.view_insert_token {record : IssuedTokenRecord}
    (hagrees : reg'.Agrees (RepoCall.effect (.tokenUpsert record) reg)) :
    reg'.view = { reg.view with
      tokens := {p | if p.1 = record.tokenId then record.ownerSub = p.2 else p ∈ reg.view.tokens}
      revoked := {t | if t = record.tokenId then record.status = "revoked"
        else t ∈ reg.view.revoked} } := by
  rw [hagrees.view]
  ext1
  · rfl
  · rfl
  · ext p
    simp only [Registry.view, RepoCall.effect, Keyed.find_insert, Set.mem_ofPred_eq]
    split_ifs
    · simp
    · rfl
  · ext t
    simp only [Registry.view, RepoCall.effect, Keyed.find_insert, Set.mem_ofPred_eq]
    split_ifs
    · simp
    · rfl

section Steps

variable {name u g t actorSub : String} {correlationId : Option String} {clock : Clock}

lemma view_createGroup {description : Option String} {v : Value}
    (hreports : (Op.createGroup name description actorSub correlationId clock).Reports P (.ok v)
      event)
    (heffect : (Op.createGroup name description actorSub correlationId clock).Effect P R reg
      (.ok v) reg') : reg'.view = reg.view.replay event := by
  obtain ⟨hresult, htype⟩ := hreports.returned rfl
  obtain ⟨group, rfl, -, hevent⟩ := hreports.names v rfl
  obtain ⟨_ | group', hv, heffect⟩ := heffect
  · exact nomatch hv
  obtain rfl := Value.group.inj (Except.ok.inj hv)
  rw [heffect.2.2.2.2.2.view, StoreView.replay, if_neg hresult, if_pos htype, hevent]
  ext1
  · ext g
    simp only [Registry.view, RepoCall.effect, Keyed.find_insert, Set.mem_ofPred_eq,
      Set.mem_union, Option.some.injEq]
    split_ifs with hg
    · simp [hg]
    · simp [Ne.symm hg]
  · rfl
  · rfl
  · rfl

lemma view_addMembership {v : Value}
    (hreports : (Op.addMembership u g actorSub correlationId clock).Reports P (.ok v) event)
    (heffect : (Op.addMembership u g actorSub correlationId clock).Effect P R reg (.ok v) reg') :
    reg'.view = reg.view.replay event := by
  obtain ⟨hresult, htype⟩ := hreports.returned rfl
  obtain ⟨m, rfl, hname, hsub, hgroup⟩ := hreports.names v rfl
  obtain ⟨_ | m', hv, heffect⟩ := heffect
  · exact nomatch hv
  obtain rfl := Value.membership.inj (Except.ok.inj hv)
  obtain ⟨n, hn, -, -, heffect⟩ := heffect
  obtain rfl : m.groupName = n := Except.ok.inj (hname.symm.trans hn)
  rw [StoreView.replay, if_neg hresult, if_neg (by rw [htype]; decide), if_pos htype, hsub, hgroup]
  rcases heffect with ⟨hfind, hagrees⟩ | ⟨hnone, hm, hagrees⟩
  · -- the membership that there was
    rw [hagrees.view]
    ext1
    · rfl
    · have hmember : reg.Member u m.groupName := ⟨m, hfind⟩
      ext ⟨v, g'⟩
      simp only [Registry.view, Set.mem_ofPred_eq, Set.mem_union, Option.some.injEq]
      constructor
      · exact Or.inl
      · rintro (hv | ⟨rfl, rfl⟩)
        · exact hv
        · exact hmember
    · rfl
    · rfl
  · have hpair : m.pair = (u, m.groupName) := by
      rw [UserGroupMembership.pair, hm]
    rw [hagrees.view]
    ext1
    · rfl
    · ext ⟨v, g'⟩
      simp only [Registry.view, Registry.Member, RepoCall.effect, Keyed.find_insert,
        Set.mem_ofPred_eq, Set.mem_union, Option.some.injEq, hpair, Prod.mk.injEq]
      split_ifs with hp
      · simp [hp.1, hp.2]
      · have hne : ¬ (u = v ∧ m.groupName = g') := fun h => hp ⟨h.1.symm, h.2.symm⟩
        simp [hne]
    · rfl
    · rfl

lemma view_removeMembership {v : Value}
    (hreports : (Op.removeMembership u g actorSub correlationId clock).Reports P (.ok v) event)
    (heffect : (Op.removeMembership u g actorSub correlationId clock).Effect P R reg (.ok v) reg') :
    reg'.view = reg.view.replay event := by
  obtain ⟨hresult, htype⟩ := hreports.returned rfl
  obtain ⟨n, hname, hsub, hgroup⟩ := hreports.names v rfl
  obtain ⟨n', hn', -, -, hagrees⟩ := heffect
  obtain rfl : n = n' := Except.ok.inj (hname.symm.trans hn')
  rw [StoreView.replay, if_neg hresult, if_neg (by rw [htype]; decide),
    if_neg (by rw [htype]; decide), if_pos htype, hsub, hgroup, hagrees.view]
  ext1
  · rfl
  · ext ⟨w, g'⟩
    simp only [Registry.view, Registry.Member, RepoCall.effect, Keyed.find_remove,
      Set.mem_ofPred_eq, Set.mem_sdiff, Option.some.injEq, Prod.mk.injEq]
    split_ifs with hp
    · simp [hp.1, hp.2]
    · have hne : ¬ (u = w ∧ n = g') := fun h => hp ⟨h.1.symm, h.2.symm⟩
      simp [hne]
  · rfl
  · rfl

lemma view_mintToken {request : MintRequest} {v : Value}
    (hfresh : reg.tokens.find request.tokenId = none)
    (hreports : (Op.mintToken request clock).Reports P (.ok v) event)
    (heffect : (Op.mintToken request clock).Effect P R reg (.ok v) reg') :
    reg'.view = reg.view.replay event := by
  obtain ⟨hresult, htype⟩ := hreports.returned rfl
  obtain ⟨minted, rfl, -, -, hid, hsub⟩ := hreports.names v rfl
  obtain ⟨_ | minted', hv, heffect⟩ := heffect
  · exact nomatch hv
  obtain rfl := Value.minted.inj (Except.ok.inj hv)
  obtain ⟨hrecord, -, hagrees⟩ := heffect
  rw [StoreView.replay, if_neg hresult, if_neg (by rw [htype]; decide),
    if_neg (by rw [htype]; decide), if_neg (by rw [htype]; decide), if_pos htype, hid, hsub,
    Registry.view_insert_token hagrees, hrecord.tokenId, hrecord.ownerSub, hrecord.status]
  ext1
  · rfl
  · rfl
  · ext ⟨t, w⟩
    simp only [Registry.view, Set.mem_ofPred_eq, Set.mem_union, Option.some.injEq]
    split_ifs with ht
    · simp [ht, hfresh]
    · simp [Ne.symm ht]
  · ext t
    simp only [Registry.view, Set.mem_ofPred_eq]
    split_ifs with ht
    · simp [ht, hfresh]
    · rfl

lemma view_revokeToken {v : Value}
    (hreports : (Op.revokeToken t actorSub correlationId clock).Reports P (.ok v) event)
    (heffect : (Op.revokeToken t actorSub correlationId clock).Effect P R reg (.ok v) reg') :
    reg'.view = reg.view.replay event := by
  obtain ⟨hresult, htype⟩ := hreports.returned rfl
  obtain ⟨record, rfl, hid, -⟩ := hreports.names v rfl
  obtain ⟨_ | record', hv, heffect⟩ := heffect
  · exact nomatch hv
  obtain rfl := Value.token.inj (Except.ok.inj hv)
  obtain ⟨current, hcurrent, heffect⟩ := heffect
  have hkey : current.tokenId = t := reg.tokens.key_eq _ _ hcurrent
  rw [StoreView.replay, if_neg hresult, if_neg (by rw [htype]; decide),
    if_neg (by rw [htype]; decide), if_neg (by rw [htype]; decide),
    if_neg (by rw [htype]; decide), if_pos htype, hid]
  rcases heffect with ⟨hrevoked, -, hagrees⟩ | ⟨-, rfl, hagrees⟩
  · -- it had been revoked before
    rw [hagrees.view]
    ext1
    · rfl
    · rfl
    · rfl
    · ext t'
      simp only [Registry.view, Set.mem_ofPred_eq, Set.mem_union, Option.some.injEq]
      constructor
      · exact Or.inl
      · rintro (hmem | rfl)
        · exact hmem
        · exact ⟨current, hcurrent, hrevoked⟩
  · rw [Registry.view_insert_token hagrees]
    ext1
    · rfl
    · rfl
    · ext ⟨t', w⟩
      simp only [Registry.view, revokedRecord, Set.mem_ofPred_eq, hkey]
      split_ifs with ht
      · simp [ht, hcurrent]
      · rfl
    · ext t'
      simp only [Registry.view, revokedRecord, Set.mem_ofPred_eq, Set.mem_union,
        Option.some.injEq, hkey]
      split_ifs with ht
      · simp [ht]
      · simp [Ne.symm ht]

end Steps

/-- An operation whose event says nothing about the stores. -/
lemma view_of_other {v : Value} {type : String} (htype : o.eventType = some type)
    (hother : type ∉ ["admin.group.create", "admin.group_membership.add",
      "admin.group_membership.remove", "admin.token.mint", "admin.token.revoke"])
    (hreports : o.Reports P (.ok v) event) (hagrees : reg'.Agrees reg) :
    reg'.view = reg.view.replay event := by
  obtain ⟨hresult, htype'⟩ := hreports.returned htype
  simp only [List.mem_cons, List.not_mem_nil, or_false, not_or] at hother
  obtain ⟨h₁, h₂, h₃, h₄, h₅⟩ := hother
  rw [hagrees.view, StoreView.replay, if_neg hresult, htype', if_neg h₁, if_neg h₂, if_neg h₃,
    if_neg h₄, if_neg h₅]

/-- **The event of an audited operation replays what the operation did**, while
storage does not fail and mints draw new ids. -/
theorem view_step (hfaults : ¬ R.faults)
    (hfresh : ∀ t, o.mintId = some t → reg.tokens.find t = none)
    (hreports : o.Reports P r event) (heffect : o.Effect P R reg r reg') :
    reg'.view = reg.view.replay event := by
  cases o with
  | createGroup name description actorSub correlationId clock =>
      cases r with
      | error e =>
          obtain ⟨_ | group, hr, heffect⟩ := heffect
          · exact replay_of_error hreports heffect
          · exact nomatch hr
      | ok v => exact view_createGroup hreports heffect
  | addMembership u g actorSub correlationId clock =>
      cases r with
      | error e =>
          obtain ⟨_ | m, hr, heffect⟩ := heffect
          · exact replay_of_error hreports heffect
          · exact nomatch hr
      | ok v => exact view_addMembership hreports heffect
  | removeMembership u g actorSub correlationId clock =>
      cases r with
      | error e => exact replay_of_error hreports heffect.1
      | ok v => exact view_removeMembership hreports heffect
  | mintToken request clock =>
      cases r with
      | error e =>
          obtain ⟨_ | minted, hr, heffect⟩ := heffect
          · rcases heffect with hagrees | ⟨hf, -⟩
            · exact replay_of_error hreports hagrees
            · exact absurd hf hfaults
          · exact nomatch hr
      | ok v => exact view_mintToken (hfresh _ rfl) hreports heffect
  | revokeToken t actorSub correlationId clock =>
      cases r with
      | error e =>
          obtain ⟨_ | record, hr, heffect⟩ := heffect
          · rcases heffect with hagrees | ⟨hf, -⟩
            · exact replay_of_error hreports hagrees
            · exact absurd hf hfaults
          · exact nomatch hr
      | ok v => exact view_revokeToken hreports heffect
  | getToken t actorSub correlationId clock =>
      obtain ⟨_ | record, hr, heffect⟩ := heffect
      · rw [hr] at hreports
        exact replay_of_error hreports heffect
      · rw [hr] at hreports
        exact view_of_other rfl (by decide) hreports heffect.2
  | listSelfTokens identity correlationId clock =>
      cases r with
      | error e => exact replay_of_error hreports heffect
      | ok v => exact view_of_other rfl (by decide) hreports heffect
  | authorize request correlationId clock =>
      obtain ⟨_ | decision, hr, heffect⟩ := heffect
      · rw [hr] at hreports
        exact replay_of_error hreports heffect.1
      · rw [hr] at hreports
        exact view_of_other rfl (by decide) hreports heffect.1
  | applyPlan subjects createdAt grantedAt => exact nomatch hreports.eventType
  | registerSelf identity correlationId clock => exact nomatch hreports.eventType
  | getSelfProfile identity => exact nomatch hreports.eventType

/-! ### Runs -/

/-- Registrations are audited, but not among the actions that replay. -/
lemma wp_log_registerSelf {log : List AuditEvent} (identity : VerifiedIdentity)
    (correlationId : Option String) (clock : Clock) :
    (registerSelf identity correlationId clock).wp auditLog (fun _ log' => ∃ events,
      log' = log ++ events ∧ ∀ event ∈ events, event.eventType = "user.registration") log := by
  have hone : ∀ event : AuditEvent, event.eventType = "user.registration" → ∃ events,
      log ++ [event] = log ++ events
        ∧ ∀ event ∈ events, event.eventType = "user.registration" := by
    intro event htype
    refine ⟨[event], rfl, fun event' hmem => ?_⟩
    rw [List.mem_singleton.mp hmem, htype]
  refine (Prog.wp_bind _ _ _ _).mpr (wp_log (by trivial) fun r _ => ?_)
  rcases r with e | existing
  · exact ⟨[], (List.append_nil log).symm, fun _ hmem => nomatch hmem⟩
  refine (Prog.wp_bind _ _ _ _).mpr (wp_audited_log (wp_log (by trivial) fun r _ => ⟨rfl, ?_⟩))
  rcases r with e | profile
  · exact hone _ rfl
  · exact hone _ rfl

/-- A run of an operation that is not audited, other than a start-up plan. -/
lemma registered_of_runs {st : Storage} {faults : Prop} {s s' : st.State}
    (hnone : o.eventType = none)
    (hplan : ∀ subjects createdAt grantedAt, o ≠ .applyPlan subjects createdAt grantedAt)
    (hrun : (o.prog P).Runs (st.act P faults) s r s') : ∃ events,
      st.events s' = st.events s ++ events
        ∧ ∀ event ∈ events, event.eventType = "user.registration" := by
  have hwp : (o.prog P).wp auditLog (fun _ log' => ∃ events, log' = st.events s ++ events
      ∧ ∀ event ∈ events, event.eventType = "user.registration") (st.events s) := by
    cases o with
    | registerSelf identity correlationId clock =>
        exact (Prog.wp_map _ _ _ _).mpr (wp_log_registerSelf identity correlationId clock)
    | getSelfProfile identity =>
        have hsame : ∃ events, st.events s = st.events s ++ events
            ∧ ∀ event ∈ events, event.eventType = "user.registration" :=
          ⟨[], (List.append_nil _).symm, fun _ hmem => nomatch hmem⟩
        refine (Prog.wp_map _ _ _ _).mpr ((Prog.wp_bind _ _ _ _).mpr ?_)
        refine wp_log (by trivial) fun r _ => ?_
        rcases r with e | profile
        · exact hsame
        refine (Prog.wp_bind _ _ _ _).mpr (wp_log (by trivial) fun r _ => ?_)
        rcases r with e | memberships
        · exact hsame
        · cases profile with
          | none => exact hsame
          | some profile => exact hsame
    | applyPlan subjects createdAt grantedAt => exact absurd rfl (hplan _ _ _)
    | _ => exact nomatch hnone
  obtain ⟨log', hlog', hevents⟩ := Prog.Runs.refine (Storage.logs st) rfl hwp hrun
  rw [hlog']
  exact hevents

/-- Registrations replay to nothing. -/
lemma foldl_replay_registrations {events : List AuditEvent} (view : StoreView)
    (h : ∀ event ∈ events, event.eventType = "user.registration") :
    events.foldl StoreView.replay view = view := by
  induction events with
  | nil => rfl
  | cons event events ih =>
      have hsame : view.replay event = view := by
        simp [StoreView.replay, h event List.mem_cons_self]
      rw [List.foldl_cons, hsame, ih fun event' hmem => h event' (List.mem_cons_of_mem _ hmem)]

/-- Every stored token was minted with an id that the history draws. -/
def Drawn (ops : List Op) (reg : Registry) : Prop :=
  ∀ t record, reg.tokens.find t = some record → t ∈ ops.filterMap Op.mintId

lemma Drawn.step {ops : List Op} (hdrawn : Drawn ops reg) (hchange : o.Change P R reg reg') :
    Drawn (o :: ops) reg' := by
  have hold : ∀ t record, reg.tokens.find t = some record →
      t ∈ (o :: ops).filterMap Op.mintId := by
    intro t record hfind
    exact (List.sublist_cons_self o ops).filterMap _ |>.subset (hdrawn t record hfind)
  intro t record hfind
  rcases hchange.tokens with heq | ⟨request, clock, minted, rfl, hminted, heq⟩ |
    ⟨t', actorSub, correlationId, clock, current, rfl, hcurrent, heq⟩
  · exact hold t record (heq ▸ hfind)
  · rw [heq, Keyed.find_insert] at hfind
    split_ifs at hfind with ht
    · rw [ht, hminted.tokenId]
      exact List.mem_cons_self
    · exact hold t record hfind
  · rw [heq, Keyed.find_insert] at hfind
    split_ifs at hfind with ht
    · have hid : current.tokenId = t' := reg.tokens.key_eq _ _ hcurrent
      rw [ht, show (revokedRecord current clock.now).tokenId = t' from hid]
      exact hold t' current hcurrent
    · exact hold t record hfind

/-- **One operation replays.** -/
lemma replay_of_runs {st : Storage} {s s' : st.State} {ops : List Op}
    (hfresh : FreshIds False (o :: ops))
    (hplan : ∀ subjects createdAt grantedAt, o ≠ .applyPlan subjects createdAt grantedAt)
    (hrep : st.Represents P (runRegime False False) s reg)
    (hsound : reg.Sound (runRegime False False)) (hdrawn : Drawn ops reg)
    (hrun : (o.prog P).Runs (st.act P False) s r s') :
    ∃ reg' events, st.Represents P (runRegime False False) s' reg'
      ∧ reg'.Sound (runRegime False False) ∧ Drawn (o :: ops) reg'
      ∧ st.events s' = st.events s ++ events
      ∧ events.foldl StoreView.replay reg.view = reg'.view := by
  have hvalid := hfresh.valid o List.mem_cons_self
  obtain ⟨reg', hrep', heffect⟩ := Prog.Runs.refine
    (Storage.implements (Storage.signsIn_runRegime st)) hrep (op_effect hsound o hvalid) hrun
  have hsound' := heffect.change.sound hsound hvalid
  by_cases haudited : o.eventType.isSome
  · obtain ⟨event, hevent, hreports⟩ := logged_of_runs haudited hrun
    have hnew : ∀ t, o.mintId = some t → reg.tokens.find t = none := by
      intro t ht
      cases hfind : reg.tokens.find t with
      | none => rfl
      | some record =>
          have hnodup := hfresh.nodup
          rw [List.filterMap_cons_some ht] at hnodup
          exact absurd (hdrawn t record hfind) (List.nodup_cons.mp hnodup).1
    refine ⟨reg', [event], hrep', hsound', hdrawn.step heffect.change, hevent, ?_⟩
    exact (view_step id hnew hreports heffect).symm
  · obtain ⟨events, hevents, htypes⟩ := registered_of_runs
      (Option.not_isSome_iff_eq_none.mp haudited) hplan hrun
    refine ⟨reg', events, hrep', hsound', hdrawn.step heffect.change, hevents, ?_⟩
    rw [foldl_replay_registrations _ htypes]
    cases o with
    | registerSelf identity correlationId clock =>
        obtain ⟨_ | result, -, heffect⟩ := heffect
        · exact (Registry.Agrees.view heffect).symm
        · rw [heffect.2.view]
          rfl
    | getSelfProfile identity => exact (Registry.Agrees.view heffect).symm
    | applyPlan subjects createdAt grantedAt => exact absurd rfl (hplan _ _ _)
    | _ => exact absurd rfl haudited

/-- **The audit log can be replayed into the stores.** Take the state after one
start-up plan on empty stores, and any run without storage failures of operations other
than start-up plans from there, whose mints draw distinct ids. The events that the run
appends, folded over what the stores held after the plan, give exactly the group names,
the memberships, the tokens with their owners and the revoked tokens that the stores
hold after the run; and `get_self_profile` lists the groups that they give its caller,
in order and each once. -/
theorem audit_replays (P : Platform) (st : Storage) {s₀ s₁ s₂ : st.State}
    {subjects : List String} {createdAt : DateTime} {grantedAt : String → DateTime}
    {r : Except PyError BootstrapPlan} {h : OpHistory} (hfresh : st.Fresh s₀)
    (hplan : (applyPlan subjects createdAt grantedAt).Runs (st.exec P).graph s₀ r s₁)
    (hsession : Session (st.exec P).graph (Op.prog P) s₁ h s₂)
    (hids : FreshIds False (h.map Prod.fst))
    (hnoplan : ∀ o ∈ h.map Prod.fst, ∀ subjects createdAt grantedAt,
      o ≠ .applyPlan subjects createdAt grantedAt) :
    ∃ events, st.events s₂ = st.events s₁ ++ events
      ∧ events.foldl StoreView.replay (st.view P s₁) = st.view P s₂
      ∧ ∀ identity, ∃ profile, ((getSelfProfile identity).run (st.exec P) s₂).1 = .ok profile
        ∧ profile.groups.Pairwise (· ≤ ·) ∧ profile.groups.Nodup
        ∧ ∀ g, g ∈ profile.groups
          ↔ (identity.subject, g) ∈ (events.foldl StoreView.replay (st.view P s₁)).members := by
  have himp := Storage.implements (P := P) (R := runRegime False False)
    (Storage.signsIn_runRegime st)
  obtain ⟨reg₁, hrep₁, heffect⟩ := Prog.Runs.refine himp (Storage.represents_fresh hfresh)
    (applyPlan_effect subjects createdAt grantedAt fun hp => hp.elim)
    (hplan.mono Storage.act_of_graph)
  have hsound₁ : reg₁.Sound (runRegime False False) := by
    intro t record hfind
    rw [heffect.tokens] at hfind
    exact nomatch hfind
  have hrun : ∃ reg events, st.Represents P (runRegime False False) s₂ reg
      ∧ reg.Sound (runRegime False False) ∧ Drawn (h.map Prod.fst) reg
      ∧ st.events s₂ = st.events s₁ ++ events
      ∧ events.foldl StoreView.replay reg₁.view = reg.view := by
    induction hsession with
    | start =>
        refine ⟨reg₁, [], hrep₁, hsound₁, fun t record hfind => ?_, (List.append_nil _).symm, rfl⟩
        rw [heffect.tokens] at hfind
        exact nomatch hfind
    | @step h s s' o r hses hrun ih =>
        obtain ⟨reg, events, hrep, hsound, hdrawn, hevents, hview⟩ := ih hids.tail
          fun o ho => hnoplan o (List.mem_cons_of_mem _ ho)
        obtain ⟨reg', new, hrep', hsound', hdrawn', hnew, hview'⟩ := replay_of_runs hids
          (hnoplan o List.mem_cons_self) hrep hsound hdrawn (hrun.mono Storage.act_of_graph)
        refine ⟨reg', events ++ new, hrep', hsound', hdrawn', ?_, ?_⟩
        · rw [hnew, hevents, List.append_assoc]
        · rw [List.foldl_append, hview, hview']
  obtain ⟨reg, events, hrep, -, -, hevents, hview⟩ := hrun
  have hfold : events.foldl StoreView.replay (st.view P s₁) = reg.view := by
    rw [Storage.view_eq hrep₁, hview]
  refine ⟨events, hevents, by rw [hfold, Storage.view_eq hrep], fun identity => ?_⟩
  obtain ⟨-, -, profile, hprofile, hsorted, hnodup, hmem⟩ := Prog.Runs.refine himp hrep
    (getSelfProfile_returns id identity) (Storage.runs_of_run False (getSelfProfile identity) s₂)
  refine ⟨profile, hprofile, hsorted, hnodup, fun g => ?_⟩
  rw [hmem, hfold]
  rfl

/-- The events of `teamWork`, after `root` has become an admin, replay over Vault. -/
theorem audit_replays_teamWork :
    ∃ events, (play ((Storage.vault .python .inOrder).exec .python) (Op.prog .python)
          (rootPlan.run ((Storage.vault .python .inOrder).exec .python) VaultWorld.empty).2
          teamWork).2.events
        = (rootPlan.run ((Storage.vault .python .inOrder).exec .python) VaultWorld.empty).2.events
          ++ events
      ∧ events.foldl StoreView.replay ((Storage.vault .python .inOrder).view .python
          (rootPlan.run ((Storage.vault .python .inOrder).exec .python) VaultWorld.empty).2)
        = (Storage.vault .python .inOrder).view .python
          (play ((Storage.vault .python .inOrder).exec .python) (Op.prog .python)
            (rootPlan.run ((Storage.vault .python .inOrder).exec .python) VaultWorld.empty).2
            teamWork).2 := by
  have hids : FreshIds False teamWork :=
    ⟨validOps_teamWork.mono fun h => h.elim, by decide⟩
  have hnoplan : ∀ o ∈ teamWork, ∀ subjects createdAt grantedAt,
      o ≠ .applyPlan subjects createdAt grantedAt := by
    intro o ho subjects createdAt grantedAt heq
    rw [heq] at ho
    simp [teamWork] at ho
  obtain ⟨events, hevents, hview, -⟩ := audit_replays .python (.vault .python .inOrder)
    fresh_vaultEmpty ((Prog.runs_graph_iff rootPlan).mpr rfl) (play_trace _ teamWork).session
    (by rw [map_fst_play]; exact hids) (by rw [map_fst_play]; exact hnoplan)
  exact ⟨events, hevents, hview⟩

end GofrSec
