/-
What the service keeps, free of how a backend stores it.

* `Registry`: profiles by subject, groups by name, memberships by subject and
  group, tokens by id, and the audit log;
* `Regime`: what a run may assume of its storage and of the subjects it sees;
* `RepoCall.effect`, `RepoCall.Answers`: the effect of a repository call on
  the registry, and the answers it may give;
* `Registry.contract`: the contract of the repository calls in a regime, which
  both backends implement;
* `contract_functional`: without failures and with plain subjects, the effect
  and the answer of a call are determined, up to the order of lists.
-/
import GofrSec.Calls.Contract
import GofrSec.Keyed
import GofrSec.Repositories.Interfaces
import GofrSec.Repositories.VaultPaths

namespace GofrSec

open Calls Text

/-- The subject and the group of a membership. -/
abbrev UserGroupMembership.pair (membership : UserGroupMembership) : String × String :=
  (membership.keycloakSub, membership.groupName)

/-- The records of the service. -/
@[ext] structure Registry where
  profiles : Keyed UserProfile.keycloakSub
  groups : Keyed GroupDefinition.name
  memberships : Keyed UserGroupMembership.pair
  tokens : Keyed IssuedTokenRecord.tokenId
  events : List AuditEvent

/-- What a run may assume: whether storage calls may raise, whether the token
indexes are exact, which takes that none has raised, whether all subjects are
single path segments, and what the signer answers. -/
structure Regime where
  faults : Prop
  indexed : Prop
  plain : Prop
  signs : SigningRequest → Except PyError String → Prop
  keys : Except PyError Doc → Prop
  reliable : indexed → ¬ faults

namespace Registry

/-- The registry without records. -/
def empty : Registry := ⟨.empty, .empty, .empty, .empty, []⟩

/-- `u` is a member of `g`. -/
def Member (reg : Registry) (u g : String) : Prop := ∃ m, reg.memberships.find (u, g) = some m

/-- The subject holds the reserved group. -/
abbrev IsAdmin (reg : Registry) (u : String) : Prop := reg.Member u "admin"

/-- A listing of the memberships of one user shows each group once. -/
lemma nodup_groupName {reg : Registry} {u : String} {ms : List UserGroupMembership}
    (h : reg.memberships.Lists (·.keycloakSub = u) ms) :
    (ms.map UserGroupMembership.groupName).Nodup := by
  refine List.Nodup.map_on (fun a ha b hb hab => ?_) h.nodup
  have hpair : a.pair = b.pair :=
    Prod.ext (((h.2 a).mp ha).2.trans ((h.2 b).mp hb).2.symm) hab
  exact Option.some.inj (((h.2 a).mp ha).1.symm.trans (hpair ▸ ((h.2 b).mp hb).1))

/-- It shows the groups that the user is a member of. -/
lemma mem_lists_user {reg : Registry} {u : String} {ms : List UserGroupMembership}
    (h : reg.memberships.Lists (·.keycloakSub = u) ms) (g : String) :
    reg.Member u g ↔ ∃ m ∈ ms, m.groupName = g := by
  constructor
  · rintro ⟨m, hm⟩
    have hkey := reg.memberships.key_eq _ _ hm
    exact ⟨m, h.mem hm (congrArg Prod.fst hkey), congrArg Prod.snd hkey⟩
  · rintro ⟨m, hm, rfl⟩
    obtain ⟨hfind, hsub⟩ := (h.2 m).mp hm
    exact ⟨m, by rw [← hsub, hfind]⟩

end Registry

namespace RepoCall

/-- The effect of a call on the registry. -/
def effect : RepoCall → Registry → Registry
  | .profileUpsert profile, reg => { reg with profiles := reg.profiles.insert profile }
  | .groupUpsert group, reg => { reg with groups := reg.groups.insert group }
  | .membershipAdd membership, reg =>
      { reg with memberships := reg.memberships.insert membership }
  | .membershipRemove u g, reg => { reg with memberships := reg.memberships.remove (u, g) }
  | .tokenUpsert record, reg => { reg with tokens := reg.tokens.insert record }
  | .auditAppend event, reg => { reg with events := reg.events ++ [event] }
  | _, reg => reg

/-- The answers that a call may return. The lists over many users or tokens are
complete only where the subjects are plain and the indexes exact. -/
def Answers (R : Regime) (reg : Registry) : (c : RepoCall) → c.Res → Prop
  | .profileGet u, v => v = reg.profiles.find u
  | .profileUpsert profile, v => v = profile
  | .isRegistered u, v => v = (reg.profiles.find u).isSome
  | .groupGet g, v => v = reg.groups.find g
  | .groupUpsert group, v => v = group
  | .membershipAdd membership, v => v = membership
  | .membershipRemove u g, v => v = (reg.memberships.find (u, g)).isSome
  | .hasMembership u g, v => v = (reg.memberships.find (u, g)).isSome
  | .membershipsForUser u, v => reg.memberships.Lists (·.keycloakSub = u) v
  | .countMembers g, v =>
      R.plain → ∃ l, reg.memberships.Lists (·.groupName = g) l ∧ v = l.length
  | .tokenGet t, v => v = reg.tokens.find t
  | .tokenUpsert record, v => v = record
  | .tokensForUser u, v => R.plain → R.indexed → reg.tokens.Lists (·.ownerSub = u) v
  | .signToken request, v => R.signs request (.ok v)
  | .publicKeyDocument, v => R.keys (.ok v)
  | .auditAppend _, _ => True

/-- The calls that may raise after they have taken effect: a token upsert goes
on to write index entries. -/
def raisesLate : RepoCall → Prop
  | .tokenUpsert _ => True
  | _ => False

/-- What the signer itself may raise. -/
def SignerRaises (R : Regime) : RepoCall → PyError → Prop
  | .signToken request, e => R.signs request (.error e)
  | .publicKeyDocument, e => R.keys (.error e)
  | _, _ => False

/-- A call may raise: the signer by its own rules, and any call that reaches a
store when storage may fail. -/
def Raises (R : Regime) (reg : Registry) (c : RepoCall) (e : PyError) (reg' : Registry) : Prop :=
  (reg' = reg ∧ c.SignerRaises R e) ∨
    (R.faults ∧ c.mayFail ∧ (reg' = reg ∨ c.raisesLate ∧ reg' = c.effect reg))

/-- What the caller owes: token ids of the shape that `uuid4().hex` has and,
where the regime says so, plain subjects. -/
def Owes (R : Regime) : RepoCall → Prop
  | .profileUpsert profile => R.plain → IsSegment profile.keycloakSub
  | .membershipAdd membership => R.plain → IsSegment membership.keycloakSub
  | .tokenUpsert record => IsTokenId record.tokenId ∧ (R.plain → IsSegment record.ownerSub)
  | .tokensForUser ownerSub => R.plain → IsSegment ownerSub
  | _ => True

/-- The contract of the repository calls. -/
def post (R : Regime) : Act RepoCall RepoCall.Res PyError Registry := fun c reg r reg' =>
  match r with
  | .ok v => c.Answers R reg v ∧ reg' = c.effect reg
  | .error e => c.Raises R reg e reg'

end RepoCall

/-- The contract of the repository calls in a regime. -/
def Regime.contract (R : Regime) : Contract RepoCall RepoCall.Res PyError Registry :=
  ⟨fun c _ => c.Owes R, RepoCall.post R⟩

/-- Two answers to a call are the same, but for the order of lists. -/
def RepoCall.SameAnswer : (c : RepoCall) → Except PyError c.Res → Except PyError c.Res → Prop
  | .membershipsForUser u, r, r' => ∃ l l', r = .ok l ∧ r' = .ok l' ∧ l.Perm l'
      ∧ (l.map UserGroupMembership.pair).Nodup ∧ ∀ m ∈ l, m.keycloakSub = u
  | .tokensForUser _, r, r' => ∃ l l', r = .ok l ∧ r' = .ok l' ∧ l.Perm l'
  | _, r, r' => r = r'

namespace Regime

variable {R : Regime} {reg : Registry}

/-- Where no storage call may raise, a call returns with its effect, or the signer raises. -/
lemma post_cases {c : RepoCall} {r : Except PyError c.Res} {reg' : Registry}
    (hfaults : ¬ R.faults) (hpost : c.post R reg r reg') :
    (∃ v, r = .ok v ∧ c.Answers R reg v ∧ reg' = c.effect reg) ∨
      ∃ e, r = .error e ∧ c.SignerRaises R e ∧ reg' = reg := by
  cases r with
  | ok v => exact Or.inl ⟨v, rfl, hpost.1, hpost.2⟩
  | error e =>
      obtain ⟨hreg, hraises⟩ := hpost.resolve_right fun h => hfaults h.1
      exact Or.inr ⟨e, rfl, hraises, hreg⟩

/-- A call without effect ends with one of its answers, or as the signer raises. -/
lemma post_answer {c : RepoCall} {A : Except PyError c.Res → Prop} (hfaults : ¬ R.faults)
    (hok : ∀ v, c.Answers R reg v → A (.ok v)) (herror : ∀ e, c.SignerRaises R e → A (.error e))
    (heffect : c.effect reg = reg) {r : Except PyError c.Res} {reg' : Registry}
    (hpost : c.post R reg r reg') : A r ∧ reg' = reg := by
  obtain ⟨v, rfl, hv, rfl⟩ | ⟨e, rfl, he, rfl⟩ := post_cases hfaults hpost
  · exact ⟨hok v hv, heffect⟩
  · exact ⟨herror e he, rfl⟩

/-- **The contract is functional**: without failures, with plain subjects, exact indexes and
a signer of one answer, the effect of a call is determined, and its answer up to the order
of lists. -/
theorem contract_functional (hfaults : ¬ R.faults) (hplain : R.plain) (hindexed : R.indexed)
    (hsigns : ∀ request r r', R.signs request r → R.signs request r' → r = r')
    (hkeys : ∀ r r', R.keys r → R.keys r' → r = r') :
    Prog.Contract.Functional R.contract RepoCall.SameAnswer := by
  intro c reg r₁ reg₁ r₂ reg₂ _ hpost₁ hpost₂
  have hcases₁ := post_cases hfaults hpost₁
  have hcases₂ := post_cases hfaults hpost₂
  cases c with
  | signToken request =>
      obtain ⟨hr₁, rfl⟩ := post_answer (c := .signToken request) (A := R.signs request) hfaults
        (fun _ h => h) (fun _ h => h) rfl hpost₁
      obtain ⟨hr₂, rfl⟩ := post_answer (c := .signToken request) (A := R.signs request) hfaults
        (fun _ h => h) (fun _ h => h) rfl hpost₂
      exact ⟨hsigns request r₁ r₂ hr₁ hr₂, rfl⟩
  | publicKeyDocument =>
      obtain ⟨hr₁, rfl⟩ := post_answer (c := .publicKeyDocument) (A := R.keys) hfaults
        (fun _ h => h) (fun _ h => h) rfl hpost₁
      obtain ⟨hr₂, rfl⟩ := post_answer (c := .publicKeyDocument) (A := R.keys) hfaults
        (fun _ h => h) (fun _ h => h) rfl hpost₂
      exact ⟨hkeys r₁ r₂ hr₁ hr₂, rfl⟩
  | membershipsForUser u =>
      obtain ⟨l, rfl, hl, rfl⟩ := hcases₁.resolve_right fun ⟨_, _, h, _⟩ => h
      obtain ⟨l', rfl, hl', rfl⟩ := hcases₂.resolve_right fun ⟨_, _, h, _⟩ => h
      exact ⟨⟨l, l', rfl, rfl, hl.perm hl', hl.1, fun m hm => ((hl.2 m).mp hm).2⟩, rfl⟩
  | tokensForUser u =>
      obtain ⟨l, rfl, hl, rfl⟩ := hcases₁.resolve_right fun ⟨_, _, h, _⟩ => h
      obtain ⟨l', rfl, hl', rfl⟩ := hcases₂.resolve_right fun ⟨_, _, h, _⟩ => h
      exact ⟨⟨l, l', rfl, rfl, (hl hplain hindexed).perm (hl' hplain hindexed)⟩, rfl⟩
  | countMembers g =>
      obtain ⟨n, rfl, hn, rfl⟩ := hcases₁.resolve_right fun ⟨_, _, h, _⟩ => h
      obtain ⟨n', rfl, hn', rfl⟩ := hcases₂.resolve_right fun ⟨_, _, h, _⟩ => h
      obtain ⟨l, hl, rfl⟩ := hn hplain
      obtain ⟨l', hl', rfl⟩ := hn' hplain
      exact ⟨congrArg Except.ok (hl.perm hl').length_eq, rfl⟩
  | auditAppend event =>
      obtain ⟨v, rfl, -, rfl⟩ := hcases₁.resolve_right fun ⟨_, _, h, _⟩ => h
      obtain ⟨v', rfl, -, rfl⟩ := hcases₂.resolve_right fun ⟨_, _, h, _⟩ => h
      exact ⟨rfl, rfl⟩
  | _ =>
      obtain ⟨v, rfl, hv, rfl⟩ := hcases₁.resolve_right fun ⟨_, _, h, _⟩ => h
      obtain ⟨v', rfl, hv', rfl⟩ := hcases₂.resolve_right fun ⟨_, _, h, _⟩ => h
      exact ⟨congrArg Except.ok (Eq.trans hv (Eq.symm hv')), rfl⟩

/-- A call that returns does so with an answer of the contract; one that raises
does it before it has taken effect, or, if it writes several documents, after. -/
lemma wp_call_iff (c : RepoCall) (Q : Except PyError c.Res → Registry → Prop) :
    (RepoCall.perform c).wp R.contract Q reg
      ↔ c.Owes R ∧ (∀ v, c.Answers R reg v → Q (.ok v) (c.effect reg))
        ∧ ∀ e reg', c.Raises R reg e reg' → Q (.error e) reg' := by
  rw [Prog.wp_perform]
  refine and_congr_right fun _ => ⟨fun h => ⟨?_, ?_⟩, ?_⟩
  · intro v hv
    exact h (.ok v) _ ⟨hv, rfl⟩
  · intro e reg' he
    exact h (.error e) reg' he
  · rintro ⟨hok, herr⟩ r reg' hpost
    cases r with
    | ok v =>
        obtain ⟨hv, rfl⟩ := hpost
        exact hok v hv
    | error e => exact herr e reg' hpost

end Regime

end GofrSec
