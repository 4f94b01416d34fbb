/-
The rules of reasoning for one repository call under the contract.

* `wp_profileGet` and its siblings: what a program must establish when it makes
  the call, for the answer and, where storage may fail, for an exception;
* `Registry.Agrees`: two registries hold the same records, whatever has been
  audited; `wp_audited` carries a postcondition that does not look at the
  audit log through the frame of a service method, and `wp_audited_of_append` is
  its form for other contracts.
-/
import GofrSec.Registry

namespace GofrSec

open Calls Text

/-- The frame of a service method, when the append of its event returns. -/
lemma wp_audited_of_append {σ α : Type} {C : Contract RepoCall RepoCall.Res PyError σ}
    {body : RepoProg α} {failure : AuditEvent} {success : α → AuditEvent}
    {Q : Except PyError α → σ → Prop} {s : σ}
    (h : body.wp C (fun r s' => ∀ event,
      (auditAppend event).wp C (fun r' s'' => r' = .ok () ∧ Q r s'') s') s) :
    (audited body failure success).wp C Q s := by
  rw [audited, Prog.wp_handle]
  refine Prog.wp_mono (fun r s' hQ => ?_) h
  cases r with
  | ok a =>
      refine (Prog.wp_bind _ _ _ _).mpr (Prog.wp_mono ?_ (hQ (success a)))
      rintro _ s'' ⟨rfl, hQ'⟩
      exact hQ'
  | error e =>
      refine (Prog.wp_bind _ _ _ _).mpr (Prog.wp_mono ?_ (hQ failure))
      rintro _ s'' ⟨rfl, hQ'⟩
      exact hQ'

namespace Registry

/-- The same records, whatever has been audited. -/
structure Agrees (a b : Registry) : Prop where
  profiles : a.profiles = b.profiles
  groups : a.groups = b.groups
  memberships : a.memberships = b.memberships
  tokens : a.tokens = b.tokens

lemma Agrees.refl (a : Registry) : a.Agrees a := ⟨rfl, rfl, rfl, rfl⟩

/-- Append an audit event. -/
abbrev audit (reg : Registry) (event : AuditEvent) : Registry :=
  RepoCall.effect (.auditAppend event) reg

lemma audit_agrees (reg : Registry) (event : AuditEvent) : (reg.audit event).Agrees reg :=
  ⟨rfl, rfl, rfl, rfl⟩

end Registry

namespace Regime

variable {R : Regime} {reg : Registry}

/-- The calls that raise only where storage may fail, and then without effect. -/
def Atomic : RepoCall → Prop
  | .tokenUpsert _ => False
  | .signToken _ => False
  | .publicKeyDocument => False
  | .auditAppend _ => False
  | _ => True

lemma raises_iff {c : RepoCall} (hc : Atomic c) {e : PyError} {reg' : Registry} :
    c.Raises R reg e reg' ↔ R.faults ∧ reg' = reg := by
  constructor
  · rintro (⟨-, hsigner⟩ | ⟨hf, -, hreg | ⟨hlate, -⟩⟩)
    · cases c with
      | signToken request => exact hc.elim
      | publicKeyDocument => exact hc.elim
      | _ => exact hsigner.elim
    · exact ⟨hf, hreg⟩
    · cases c with
      | tokenUpsert record => exact hc.elim
      | _ => exact hlate.elim
  · rintro ⟨hf, hreg⟩
    refine Or.inr ⟨hf, ?_, Or.inl hreg⟩
    cases c with
    | auditAppend event => exact hc.elim
    | _ => trivial

/-- A call whose answer is determined. -/
lemma wp_call_of_answer {c : RepoCall} (hc : Atomic c) {a : c.Res}
    (ha : ∀ v, c.Answers R reg v ↔ v = a) (Q : Except PyError c.Res → Registry → Prop) :
    (RepoCall.perform c).wp R.contract Q reg
      ↔ c.Owes R ∧ Q (.ok a) (c.effect reg) ∧ (R.faults → ∀ e, Q (.error e) reg) := by
  rw [wp_call_iff]
  refine and_congr_right fun _ => and_congr ?_ ?_
  · exact ⟨fun h => h a ((ha a).mpr rfl), fun h v hv => (ha v).mp hv ▸ h⟩
  · simp only [raises_iff hc]
    exact ⟨fun h hf e => h e reg ⟨hf, rfl⟩, fun h e reg' hr => hr.2 ▸ h hr.1 e⟩

lemma wp_profileGet (u : String) (Q : Except PyError (Option UserProfile) → Registry → Prop) :
    (profileGet u).wp R.contract Q reg
      ↔ Q (.ok (reg.profiles.find u)) reg ∧ (R.faults → ∀ e, Q (.error e) reg) :=
  (wp_call_of_answer (c := .profileGet u) trivial (fun _ => Iff.rfl) Q).trans
    (and_iff_right trivial)

lemma wp_profileUpsert (profile : UserProfile)
    (Q : Except PyError UserProfile → Registry → Prop) :
    (profileUpsert profile).wp R.contract Q reg
      ↔ (R.plain → IsSegment profile.keycloakSub)
        ∧ Q (.ok profile) (RepoCall.effect (.profileUpsert profile) reg)
        ∧ (R.faults → ∀ e, Q (.error e) reg) :=
  wp_call_of_answer (c := .profileUpsert profile) trivial (fun _ => Iff.rfl) Q

lemma wp_isRegistered (u : String) (Q : Except PyError Bool → Registry → Prop) :
    (isRegistered u).wp R.contract Q reg
      ↔ Q (.ok (reg.profiles.find u).isSome) reg ∧ (R.faults → ∀ e, Q (.error e) reg) :=
  (wp_call_of_answer (c := .isRegistered u) trivial (fun _ => Iff.rfl) Q).trans
    (and_iff_right trivial)

lemma wp_groupGet (g : String) (Q : Except PyError (Option GroupDefinition) → Registry → Prop) :
    (groupGet g).wp R.contract Q reg
      ↔ Q (.ok (reg.groups.find g)) reg ∧ (R.faults → ∀ e, Q (.error e) reg) :=
  (wp_call_of_answer (c := .groupGet g) trivial (fun _ => Iff.rfl) Q).trans
    (and_iff_right trivial)

lemma wp_groupUpsert (group : GroupDefinition)
    (Q : Except PyError GroupDefinition → Registry → Prop) :
    (groupUpsert group).wp R.contract Q reg
      ↔ Q (.ok group) (RepoCall.effect (.groupUpsert group) reg)
        ∧ (R.faults → ∀ e, Q (.error e) reg) :=
  (wp_call_of_answer (c := .groupUpsert group) trivial (fun _ => Iff.rfl)
    Q).trans (and_iff_right trivial)

lemma wp_membershipAdd (membership : UserGroupMembership)
    (Q : Except PyError UserGroupMembership → Registry → Prop) :
    (membershipAdd membership).wp R.contract Q reg
      ↔ (R.plain → IsSegment membership.keycloakSub)
        ∧ Q (.ok membership) (RepoCall.effect (.membershipAdd membership) reg)
        ∧ (R.faults → ∀ e, Q (.error e) reg) :=
  wp_call_of_answer (c := .membershipAdd membership) trivial
    (fun _ => Iff.rfl) Q

lemma wp_membershipRemove (u g : String) (Q : Except PyError Bool → Registry → Prop) :
    (membershipRemove u g).wp R.contract Q reg
      ↔ Q (.ok (reg.memberships.find (u, g)).isSome)
          (RepoCall.effect (.membershipRemove u g) reg)
        ∧ (R.faults → ∀ e, Q (.error e) reg) :=
  (wp_call_of_answer (c := .membershipRemove u g) trivial (fun _ => Iff.rfl)
    Q).trans (and_iff_right trivial)

lemma wp_hasMembership (u g : String) (Q : Except PyError Bool → Registry → Prop) :
    (hasMembership u g).wp R.contract Q reg
      ↔ Q (.ok (reg.memberships.find (u, g)).isSome) reg ∧ (R.faults → ∀ e, Q (.error e) reg) :=
  (wp_call_of_answer (c := .hasMembership u g) trivial (fun _ => Iff.rfl)
    Q).trans (and_iff_right trivial)

lemma wp_tokenGet (t : String) (Q : Except PyError (Option IssuedTokenRecord) → Registry → Prop) :
    (tokenGet t).wp R.contract Q reg
      ↔ Q (.ok (reg.tokens.find t)) reg ∧ (R.faults → ∀ e, Q (.error e) reg) :=
  (wp_call_of_answer (c := .tokenGet t) trivial (fun _ => Iff.rfl) Q).trans
    (and_iff_right trivial)

lemma wp_membershipsForUser (u : String)
    (Q : Except PyError (List UserGroupMembership) → Registry → Prop) :
    (membershipsForUser u).wp R.contract Q reg
      ↔ (∀ ms, reg.memberships.Lists (·.keycloakSub = u) ms → Q (.ok ms) reg)
        ∧ (R.faults → ∀ e, Q (.error e) reg) := by
  refine (wp_call_iff (.membershipsForUser u) Q).trans ((and_iff_right trivial).trans ?_)
  refine and_congr Iff.rfl ?_
  simp only [raises_iff (c := .membershipsForUser u) trivial]
  exact ⟨fun h hf e => h e reg ⟨hf, rfl⟩, fun h e reg' hr => hr.2 ▸ h hr.1 e⟩

lemma wp_countMembers (g : String) (Q : Except PyError ℕ → Registry → Prop) :
    (countMembers g).wp R.contract Q reg
      ↔ (∀ n, (R.plain → ∃ ms, reg.memberships.Lists (·.groupName = g) ms ∧ n = ms.length) →
          Q (.ok n) reg)
        ∧ (R.faults → ∀ e, Q (.error e) reg) := by
  refine (wp_call_iff (.countMembers g) Q).trans ((and_iff_right trivial).trans ?_)
  refine and_congr Iff.rfl ?_
  simp only [raises_iff (c := .countMembers g) trivial]
  exact ⟨fun h hf e => h e reg ⟨hf, rfl⟩, fun h e reg' hr => hr.2 ▸ h hr.1 e⟩

lemma wp_tokensForUser (u : String)
    (Q : Except PyError (List IssuedTokenRecord) → Registry → Prop) :
    (tokensForUser u).wp R.contract Q reg
      ↔ (R.plain → IsSegment u)
        ∧ (∀ records, (R.plain → R.indexed → reg.tokens.Lists (·.ownerSub = u) records) →
            Q (.ok records) reg)
        ∧ (R.faults → ∀ e, Q (.error e) reg) := by
  refine (wp_call_iff (.tokensForUser u) Q).trans (and_congr Iff.rfl ?_)
  refine and_congr Iff.rfl ?_
  simp only [raises_iff (c := .tokensForUser u) trivial]
  exact ⟨fun h hf e => h e reg ⟨hf, rfl⟩, fun h e reg' hr => hr.2 ▸ h hr.1 e⟩

/-- An upsert of a token may also raise after it has taken effect. -/
lemma wp_tokenUpsert (record : IssuedTokenRecord)
    (Q : Except PyError IssuedTokenRecord → Registry → Prop) :
    (tokenUpsert record).wp R.contract Q reg
      ↔ (IsTokenId record.tokenId ∧ (R.plain → IsSegment record.ownerSub))
        ∧ Q (.ok record) (RepoCall.effect (.tokenUpsert record) reg)
        ∧ (R.faults → ∀ e, Q (.error e) reg
            ∧ Q (.error e) (RepoCall.effect (.tokenUpsert record) reg)) := by
  refine (wp_call_iff (.tokenUpsert record) Q).trans (and_congr Iff.rfl (and_congr ?_ ?_))
  · exact ⟨fun h => h record rfl, fun h v hv => hv ▸ h⟩
  · constructor
    · intro h hf e
      exact ⟨h e reg (Or.inr ⟨hf, trivial, Or.inl rfl⟩),
        h e _ (Or.inr ⟨hf, trivial, Or.inr ⟨trivial, rfl⟩⟩)⟩
    · rintro h e reg' (⟨-, hsigner⟩ | ⟨hf, -, rfl | ⟨-, rfl⟩⟩)
      · exact hsigner.elim
      · exact (h hf e).1
      · exact (h hf e).2

/-- The signer answers by its own rules, and leaves the records alone. -/
lemma wp_signToken (request : SigningRequest) (Q : Except PyError String → Registry → Prop) :
    (signToken request).wp R.contract Q reg
      ↔ (∀ answer, R.signs request answer → Q answer reg) ∧ (R.faults → ∀ e, Q (.error e) reg) := by
  refine (wp_call_iff (.signToken request) Q).trans ((and_iff_right trivial).trans ?_)
  constructor
  · rintro ⟨hok, herr⟩
    refine ⟨fun answer hanswer => ?_, fun hf e => herr e reg (Or.inr ⟨hf, trivial, Or.inl rfl⟩)⟩
    cases answer with
    | ok v => exact hok v hanswer
    | error e => exact herr e reg (Or.inl ⟨rfl, hanswer⟩)
  · rintro ⟨hanswer, hfault⟩
    refine ⟨fun v hv => hanswer (.ok v) hv, ?_⟩
    rintro e reg' (⟨rfl, hsigns⟩ | ⟨hf, -, rfl | ⟨hlate, -⟩⟩)
    · exact hanswer (.error e) hsigns
    · exact hfault hf e
    · exact hlate.elim

/-- The signer publishes its keys by its own rules. -/
lemma wp_publicKeyDocument (Q : Except PyError Doc → Registry → Prop) :
    publicKeyDocument.wp R.contract Q reg
      ↔ (∀ answer, R.keys answer → Q answer reg) ∧ (R.faults → ∀ e, Q (.error e) reg) := by
  refine (wp_call_iff .publicKeyDocument Q).trans ((and_iff_right trivial).trans ?_)
  constructor
  · rintro ⟨hok, herr⟩
    refine ⟨fun answer hanswer => ?_, fun hf e => herr e reg (Or.inr ⟨hf, trivial, Or.inl rfl⟩)⟩
    cases answer with
    | ok v => exact hok v hanswer
    | error e => exact herr e reg (Or.inl ⟨rfl, hanswer⟩)
  · rintro ⟨hanswer, hfault⟩
    refine ⟨fun v hv => hanswer (.ok v) hv, ?_⟩
    rintro e reg' (⟨rfl, hkeys⟩ | ⟨hf, -, rfl | ⟨hlate, -⟩⟩)
    · exact hanswer (.error e) hkeys
    · exact hfault hf e
    · exact hlate.elim

/-- The audit sink takes every event. -/
lemma wp_auditAppend (event : AuditEvent) (Q : Except PyError Unit → Registry → Prop) :
    (auditAppend event).wp R.contract Q reg ↔ Q (.ok ()) (reg.audit event) := by
  refine (wp_call_iff (.auditAppend event) Q).trans ((and_iff_right trivial).trans ?_)
  constructor
  · rintro ⟨hok, -⟩
    exact hok () trivial
  · intro h
    refine ⟨fun _ _ => h, ?_⟩
    rintro e reg' (⟨-, hsigner⟩ | ⟨-, hfail, -⟩)
    · exact hsigner.elim
    · exact hfail.elim

/-- The frame of a service method: the outcome of the body, with one event
appended. -/
lemma wp_audited {α : Type} {body : RepoProg α} {failure : AuditEvent} {success : α → AuditEvent}
    {Q : Except PyError α → Registry → Prop}
    (h : body.wp R.contract (fun r reg' => ∀ event, Q r (reg'.audit event)) reg) :
    (audited body failure success).wp R.contract Q reg := by
  refine wp_audited_of_append (Prog.wp_mono (fun r reg' hQ event => ?_) h)
  rw [wp_auditAppend]
  exact ⟨rfl, hQ event⟩

end Regime

end GofrSec
