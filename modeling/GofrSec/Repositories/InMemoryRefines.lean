/-
The in-memory repositories implement the contract of the repository calls.

* `MemoryStores.Represents`: the dictionaries hold exactly the records of a
  registry;
* `MemoryStores.implements`: along it, every call on the dictionaries is one
  that the contract allows.
-/
import GofrSec.Registry
import GofrSec.Repositories.InMemory

namespace GofrSec

open Calls

/-- The values of a dictionary that files them under their own key are a
listing of the keyed map it stands for. -/
lemma Keyed.lists_values {κ ν : Type} [DecidableEq κ] {key : ν → κ} {m : Keyed key}
    {d : Dict κ ν} (h : ∀ k, d.get k = m.find k) (p : ν → Prop) [DecidablePred p] :
    m.Lists p (d.values.filter fun v => p v) := by
  have hkey : ∀ v ∈ d.values, d.get (key v) = some v := by
    intro v hv
    obtain ⟨k, hk⟩ := (d.mem_values_iff v).mp hv
    have hfind := h k
    rw [hk] at hfind
    rw [m.key_eq k v hfind.symm]
    exact hk
  constructor
  · have hkeys : d.values.map key = d.keys := by
      rw [Dict.values, Dict.keys, List.map_map]
      refine List.map_congr_left fun e he => ?_
      have hget := (d.mem_entries_iff e.1 e.2).mp he
      rw [h] at hget
      exact m.key_eq _ _ hget
    exact (hkeys ▸ d.nodup_keys).sublist (List.Sublist.map _ List.filter_sublist)
  · intro v
    rw [List.mem_filter, decide_eq_true_eq, ← h]
    constructor
    · rintro ⟨hv, hp⟩
      exact ⟨hkey v hv, hp⟩
    · rintro ⟨hv, hp⟩
      exact ⟨(d.mem_values_iff v).mpr ⟨_, hv⟩, hp⟩

namespace MemoryStores

/-- The dictionaries hold the records of a registry. -/
structure Represents (s : MemoryStores) (reg : Registry) : Prop where
  profiles : ∀ u, s.profiles.get u = reg.profiles.find u
  groups : ∀ g, s.groups.get g = reg.groups.find g
  memberships : ∀ k, s.memberships.get k = reg.memberships.find k
  tokens : ∀ t, s.tokens.get t = reg.tokens.find t
  events : s.events = reg.events

lemma represents_empty : empty.Represents .empty :=
  ⟨fun _ => rfl, fun _ => rfl, fun _ => rfl, fun _ => rfl, rfl⟩

variable {C : Crypto} {signer : StaticTokenSigner} {R : Regime} {s : MemoryStores}
  {reg : Registry}

/-- What the signer says, the contract allows. -/
lemma signToken_post (request : SigningRequest) (answer : Except PyError String)
    (h : R.signs request answer) : RepoCall.post R (.signToken request) reg answer reg := by
  cases answer with
  | ok v => exact ⟨h, rfl⟩
  | error e => exact Or.inl ⟨rfl, h⟩

lemma publicKeyDocument_post (answer : Except PyError Doc) (h : R.keys answer) :
    RepoCall.post R .publicKeyDocument reg answer reg := by
  cases answer with
  | ok v => exact ⟨h, rfl⟩
  | error e => exact Or.inl ⟨rfl, h⟩

/-- One call on the dictionaries. -/
lemma exec_post (hsigns : ∀ request, R.signs request (signer.signToken C request))
    (hkeys : R.keys (signer.publicKeyDocument C)) (h : s.Represents reg) (c : RepoCall) :
    ∃ reg', (exec C signer c s).2.Represents reg'
      ∧ RepoCall.post R c reg (exec C signer c s).1 reg' := by
  cases c with
  | profileGet u => exact ⟨reg, h, h.profiles u, rfl⟩
  | profileUpsert profile =>
      refine ⟨RepoCall.effect (.profileUpsert profile) reg,
        ⟨fun u => ?_, h.groups, h.memberships, h.tokens, h.events⟩, rfl, rfl⟩
      rw [exec, Dict.get_set, h.profiles]
      rfl
  | isRegistered u => exact ⟨reg, h, congrArg Option.isSome (h.profiles u), rfl⟩
  | groupGet g => exact ⟨reg, h, h.groups g, rfl⟩
  | groupUpsert group =>
      refine ⟨RepoCall.effect (.groupUpsert group) reg,
        ⟨h.profiles, fun g => ?_, h.memberships, h.tokens, h.events⟩, rfl, rfl⟩
      rw [exec, Dict.get_set, h.groups]
      rfl
  | membershipAdd membership =>
      refine ⟨RepoCall.effect (.membershipAdd membership) reg,
        ⟨h.profiles, h.groups, fun k => ?_, h.tokens, h.events⟩, rfl, rfl⟩
      rw [exec, Dict.get_set, h.memberships]
      rfl
  | membershipRemove u g =>
      refine ⟨RepoCall.effect (.membershipRemove u g) reg,
        ⟨h.profiles, h.groups, fun k => ?_, h.tokens, h.events⟩, ?_, rfl⟩
      · rw [exec, Dict.get_erase, h.memberships]
        rfl
      · exact congrArg Option.isSome (h.memberships (u, g))
  | hasMembership u g => exact ⟨reg, h, congrArg Option.isSome (h.memberships (u, g)), rfl⟩
  | membershipsForUser u => exact ⟨reg, h, Keyed.lists_values h.memberships _, rfl⟩
  | countMembers g =>
      exact ⟨reg, h, fun _ => ⟨_, Keyed.lists_values h.memberships _, rfl⟩, rfl⟩
  | tokenGet t => exact ⟨reg, h, h.tokens t, rfl⟩
  | tokenUpsert record =>
      refine ⟨RepoCall.effect (.tokenUpsert record) reg,
        ⟨h.profiles, h.groups, h.memberships, fun t => ?_, h.events⟩, rfl, rfl⟩
      rw [exec, Dict.get_set, h.tokens]
      rfl
  | tokensForUser u => exact ⟨reg, h, fun _ _ => Keyed.lists_values h.tokens _, rfl⟩
  | signToken request => exact ⟨reg, h, signToken_post request _ (hsigns request)⟩
  | publicKeyDocument => exact ⟨reg, h, publicKeyDocument_post _ hkeys⟩
  | auditAppend event =>
      exact ⟨RepoCall.effect (.auditAppend event) reg, ⟨h.profiles, h.groups, h.memberships,
        h.tokens, congrArg (· ++ [event]) h.events⟩, trivial, rfl⟩

/-- The repository methods on the dictionaries, any of which may raise without
taking effect if `faults` holds. -/
def act (C : Crypto) (signer : StaticTokenSigner) (faults : Prop) :
    Act RepoCall RepoCall.Res PyError MemoryStores :=
  (exec C signer).graph.faulty fun c => faults ∧ c.mayFail

/-- **The in-memory backend implements the repository contract.** -/
theorem implements (hsigns : ∀ request, R.signs request (signer.signToken C request))
    (hkeys : R.keys (signer.publicKeyDocument C)) :
    Prog.Implements Represents (act C signer R.faults) R.contract := by
  rintro c s reg h - r s' (hexec | ⟨⟨hf, hc⟩, ⟨e, rfl⟩, rfl⟩)
  · obtain ⟨reg', h', hpost⟩ := exec_post hsigns hkeys h c
    have hrun : exec C signer c s = (r, s') := hexec
    rw [hrun] at h' hpost
    exact ⟨reg', h', hpost⟩
  · exact ⟨reg, h, Or.inr ⟨hf, hc, Or.inl rfl⟩⟩

end MemoryStores

end GofrSec
