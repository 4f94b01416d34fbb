/-
The states that calls of the repositories can reach.

* `Storage.Reached`: from empty stores, by any calls with any arguments, whichever of
  them raise;
* `VaultWorld.Orderly`: the documents of a Vault that start-up plans read decode, those of
  the memberships of a user to memberships of that user, of each group one at most;
* `Storage.Orderly`: in every state that is reached the stores are in order, although an
  index entry of an odd token id can take the place of a user's memberships.
-/
import GofrSec.Repositories.Storage

namespace GofrSec

open Calls Text VaultServer VaultPathLayout

variable {P : Platform} {D : VaultDeployment} {server : VaultServer} {w : VaultWorld}
  {u g : String} {ms : List UserGroupMembership}

/-- The states that repository calls can reach from empty stores. -/
inductive Storage.Reached (P : Platform) (st : Storage) : st.State → Prop
  | fresh {s : st.State} : st.Fresh s → Reached P st s
  | call {s s' : st.State} {c : RepoCall} {r : Except PyError c.Res} :
      Reached P st s → st.act P True c s r s' → Reached P st s'

/-- Memberships of one user, of each group one at most. -/
structure OwnMemberships (u : String) (ms : List UserGroupMembership) : Prop where
  own : ∀ m ∈ ms, m.keycloakSub = u
  nodup : (ms.map (·.groupName)).Nodup

namespace OwnMemberships

lemma filter (h : OwnMemberships u ms) (p : UserGroupMembership → Bool) :
    OwnMemberships u (ms.filter p) where
  own := fun m hm => h.own m (List.mem_filter.mp hm).1
  nodup := h.nodup.sublist (List.Sublist.map _ List.filter_sublist)

lemma perm {ms' : List UserGroupMembership} (h : OwnMemberships u ms) (hperm : ms'.Perm ms) :
    OwnMemberships u ms' where
  own := fun m hm => h.own m (hperm.mem_iff.mp hm)
  nodup := (hperm.map _).nodup_iff.mpr h.nodup

/-- One more membership, of a group that is not among them. -/
lemma append (h : OwnMemberships u ms) {m : UserGroupMembership} (hm : m.keycloakSub = u)
    (hnew : ∀ x ∈ ms, x.groupName ≠ m.groupName) : OwnMemberships u (ms ++ [m]) where
  own := by
    intro x hx
    rcases List.mem_append.mp hx with hx | hx
    · exact h.own x hx
    · rw [List.mem_singleton.mp hx, hm]
  nodup := by
    rw [List.map_append, List.nodup_append]
    refine ⟨h.nodup, List.nodup_singleton _, ?_⟩
    intro a ha b hb
    obtain ⟨x, hx, rfl⟩ := List.mem_map.mp ha
    rw [List.mem_singleton.mp hb]
    exact hnew x hx

end OwnMemberships

/-! ### The documents of a Vault -/

/-- The definition of `admin` decodes, and so do the memberships of each user. -/
structure VaultWorld.Orderly (P : Platform) (D : VaultDeployment) (w : VaultWorld) : Prop where
  admin : ∃ found, decodeRecord (deserializeGroup P D.now)
    (w.read (D.paths.groupDefinitionPath "admin")) = .ok found
  memberships : ∀ u, ∃ ms, membershipsOf P D.now (w.read (D.paths.userGroupsPath u)) = .ok ms
    ∧ OwnMemberships u ms

namespace VaultWorld.Orderly

lemma fresh (h : (Storage.vault D server).Fresh w) : w.Orderly P D where
  admin := by
    rw [h.1 .groups _ (D.paths.under_groupDefinitionPath "admin")]
    exact ⟨none, rfl⟩
  memberships := by
    intro u
    rw [h.1 .users _ (D.paths.under_userGroupsPath u)]
    exact ⟨[], rfl, by simp, List.nodup_nil⟩

/-- A call of the client keeps the documents in order if what it writes to one of these
paths does. -/
lemma effect {c : VaultCall} (h : w.Orderly P D)
    (hadmin : c.target = some (D.paths.groupDefinitionPath "admin") → ∃ found,
      decodeRecord (deserializeGroup P D.now)
        ((c.effect w).read (D.paths.groupDefinitionPath "admin")) = .ok found)
    (hgroups : ∀ u, c.target = some (D.paths.userGroupsPath u) → ∃ ms,
      membershipsOf P D.now ((c.effect w).read (D.paths.userGroupsPath u)) = .ok ms
        ∧ OwnMemberships u ms) : (c.effect w).Orderly P D where
  admin := by
    by_cases htarget : c.target = some (D.paths.groupDefinitionPath "admin")
    · exact hadmin htarget
    · rw [VaultCall.read_effect w htarget]
      exact h.admin
  memberships := by
    intro u
    by_cases htarget : c.target = some (D.paths.userGroupsPath u)
    · exact hgroups u htarget
    · rw [VaultCall.read_effect w htarget]
      exact h.memberships u

/-- The list of one user is stored. -/
lemma put (h : w.Orderly P D) (hown : OwnMemberships u ms) :
    (w.putMemberships P D.paths u ms).Orderly P D where
  admin := by
    rw [read_putMemberships, if_neg (ne_of_area (by decide) (under_groupDefinitionPath "admin")
      (under_userGroupsPath u))]
    exact h.admin
  memberships := by
    intro v
    rw [read_putMemberships]
    split_ifs with hv
    · obtain rfl := userGroupsPath_inj hv
      exact ⟨_, membershipsOf_stored D.now v ms, hown.perm (sortByGroupName_perm ms)⟩
    · exact h.memberships v

end VaultWorld.Orderly

/-- The client call keeps the documents in order. -/
def KeepsOrder (P : Platform) (D : VaultDeployment) (c : VaultCall) : Prop :=
  ∀ w : VaultWorld, w.Orderly P D → (c.effect w).Orderly P D

/-- A call that writes neither memberships nor the definition of `admin` does. -/
lemma keepsOrder_of_target {c : VaultCall}
    (hadmin : c.target ≠ some (D.paths.groupDefinitionPath "admin"))
    (hgroups : ∀ u, c.target ≠ some (D.paths.userGroupsPath u)) : KeepsOrder P D c :=
  fun _ h => h.effect (fun htarget => absurd htarget hadmin)
    fun u htarget => absurd htarget (hgroups u)

lemma keepsOrder_of_within {c : VaultCall} {allowed : String → Prop} (h : c.Within allowed)
    (hadmin : ¬ allowed (D.paths.groupDefinitionPath "admin"))
    (hgroups : ∀ u, ¬ allowed (D.paths.userGroupsPath u)) : KeepsOrder P D c :=
  keepsOrder_of_target (fun htarget => hadmin (h _ htarget))
    fun u htarget => hgroups u (h _ htarget)

/-- A call that writes no memberships to a path below the users does. -/
lemma keepsOrder_of_users {c : VaultCall} {k : String} (htarget : c.target = some k)
    (hk : Under (D.paths.root .users) k)
    (hnone : ∀ w : VaultWorld, membershipsOf P D.now ((c.effect w).read k) = .ok []) :
    KeepsOrder P D c := by
  refine fun w h => h.effect (fun hadmin => ?_) fun u hgroups => ?_
  · obtain rfl := Option.some.inj (htarget.symm.trans hadmin)
    exact absurd rfl (ne_of_area (by decide) hk (under_groupDefinitionPath "admin"))
  · obtain rfl := Option.some.inj (htarget.symm.trans hgroups)
    exact ⟨[], hnone w, by simp, List.nodup_nil⟩

/-- A call that writes below the groups does, unless it is to the definition of `admin`. -/
lemma keepsOrder_of_area {c : VaultCall} {k : String} {a : Area} (htarget : c.target = some k)
    (hk : Under (D.paths.root a) k) (ha : a ≠ .users)
    (hadmin : k ≠ D.paths.groupDefinitionPath "admin") : KeepsOrder P D c := by
  refine keepsOrder_of_target ?_ fun u => ?_
  · rw [htarget]
    exact fun h => hadmin (Option.some.inj h)
  · rw [htarget]
    exact fun h => ne_of_area ha hk (under_userGroupsPath u) (Option.some.inj h)

/-- The calls of an upsert of a token do: with an id such as `groups`, the entry of a user
can be where the memberships of another are, and then there are none. -/
lemma keepsOrder_upsertCalls {previous : Option IssuedTokenRecord} {record : IssuedTokenRecord}
    {c : VaultCall} (hc : c ∈ upsertCalls P D previous record) : KeepsOrder P D c := by
  have hgroup : ∀ g, D.paths.groupTokenPath g record.tokenId
      ≠ D.paths.groupDefinitionPath "admin" :=
    fun g => below_below_tokens_ne (by decide) (by decide)
  rcases List.mem_cons.mp hc with rfl | hc
  · exact keepsOrder_of_area rfl (under_tokenPath _) (by decide)
      (ne_of_area (by decide) (under_tokenPath _) (under_groupDefinitionPath "admin"))
  simp only [indexUpdates, List.mem_append, List.mem_map, List.mem_singleton] at hc
  rcases hc with ((hc | ⟨g, -, rfl⟩) | rfl) | ⟨g, -, rfl⟩
  · cases previous with
    | none => cases hc
    | some old =>
        rw [ownerChange] at hc
        split_ifs at hc
        · obtain rfl := List.mem_singleton.mp hc
          refine keepsOrder_of_users rfl (under_userTokenPath _ _) fun w => ?_
          rw [VaultCall.effect, VaultWorld.read_delete_self]
          rfl
        · cases hc
  · exact keepsOrder_of_area rfl (under_groupTokenPath g _) (by decide) (hgroup g)
  · refine keepsOrder_of_users rfl (under_userTokenPath _ _) fun w => ?_
    rw [VaultCall.effect, VaultWorld.read_write_self]
    rfl
  · exact keepsOrder_of_area rfl (under_groupTokenPath g _) (by decide) (hgroup g)

/-! ### The repository calls over Vault -/

/-- Programs of such client calls keep the documents in order, whichever of them raise. -/
lemma wp_of_keepsOrder {α : Type} {p : VaultProg α} (hp : p.Uses (KeepsOrder P D))
    (h : w.Orderly P D) : p.wp (server.act True).contract (fun _ w' => w'.Orderly P D) w := by
  refine Prog.wp_of_uses (fun c w₁ hc h₁ => ⟨trivial, fun r w₂ hact => ?_⟩) hp h
  rcases hact with hexec | ⟨-, -, rfl⟩
  · have heffect := VaultServer.exec_snd server c w₁
    rw [show server.exec c w₁ = (r, w₂) from hexec] at heffect
    rw [show w₂ = c.effect w₁ from heffect]
    exact hc w₁ h₁
  · exact h₁

lemma wp_membershipAdd_orderly (m : UserGroupMembership) (h : w.Orderly P D) :
    (VaultGroupMembershipRepository.add P D m).wp (server.act True).contract
      (fun _ w' => w'.Orderly P D) w := by
  obtain ⟨ms, hload, hown⟩ := h.memberships m.keycloakSub
  rw [VaultGroupMembershipRepository.add, Prog.wp_bind, wp_loadMemberships, hload]
  refine ⟨?_, fun _ e => h⟩
  rw [Prog.onReturn_ok, Prog.wp_bind, wp_storeMemberships]
  refine ⟨h.put ((hown.filter _).append rfl fun x hx => ?_), fun _ e => h⟩
  simpa using (List.mem_filter.mp hx).2

lemma wp_membershipRemove_orderly (u g : String) (h : w.Orderly P D) :
    (VaultGroupMembershipRepository.remove P D u g).wp (server.act True).contract
      (fun _ w' => w'.Orderly P D) w := by
  obtain ⟨ms, hload, hown⟩ := h.memberships u
  rw [VaultGroupMembershipRepository.remove, Prog.wp_bind, wp_loadMemberships, hload]
  refine ⟨?_, fun _ e => h⟩
  rw [Prog.onReturn_ok]
  dsimp only
  split_ifs
  · exact h
  · rw [Prog.wp_bind, wp_storeMemberships]
    exact ⟨h.put (hown.filter _), fun _ e => h⟩

/-- The definition of a group is stored under its own name. -/
lemma keepsOrder_groupUpsert (group : GroupDefinition) :
    KeepsOrder P D (.writeSecret (D.paths.groupDefinitionPath group.name)
      (serializeGroup P group)) := by
  refine fun w h => h.effect (fun htarget => ?_) fun u htarget => ?_
  · rw [← Option.some.inj htarget, VaultCall.effect, VaultWorld.read_write_self]
    refine ⟨some group, ?_⟩
    rw [decodeRecord, deserializeGroup_serializeGroup]
    rfl
  · exact absurd (Option.some.inj htarget) (ne_of_area (by decide)
      (under_groupDefinitionPath _) (under_userGroupsPath u))

/-- **A repository call keeps the documents in order**, whatever its arguments are and
whichever client calls raise. -/
lemma wp_orderly (c : RepoCall) (h : w.Orderly P D) :
    (vaultProgram P D c).wp (server.act True).contract (fun _ w' => w'.Orderly P D) w := by
  cases c with
  | groupUpsert group =>
      refine wp_of_keepsOrder (Prog.Uses.bind ?_ fun _ => Prog.uses_pure _) h
      exact (Prog.uses_perform _).mpr (keepsOrder_groupUpsert group)
  | membershipAdd m => exact wp_membershipAdd_orderly m h
  | membershipRemove u g => exact wp_membershipRemove_orderly u g h
  | tokenUpsert record =>
      refine wp_of_keepsOrder ?_ h
      show (VaultTokenRepository.upsert P D record).Uses _
      rw [VaultTokenRepository.upsert_eq]
      refine Prog.Uses.bind (Prog.Uses.bind ?_ fun _ => Prog.uses_lift _) fun previous => ?_
      · exact (Prog.uses_perform _).mpr (keepsOrder_of_target (by rintro ⟨⟩) (by rintro _ ⟨⟩))
      · exact (Prog.uses_performAll fun i hi => keepsOrder_upsertCalls hi).bind fun _ =>
          Prog.uses_pure _
  | profileUpsert profile =>
      refine wp_of_keepsOrder ((uses_vaultProgram P D _).mono fun i hi => ?_) h
      refine keepsOrder_of_within hi ?_ fun u => (userProfilePath_ne_userGroupsPath _ u).symm
      exact ne_of_area (by decide) (under_groupDefinitionPath "admin") (under_userProfilePath _)
  | _ =>
      refine wp_of_keepsOrder ((uses_vaultProgram P D _).mono fun i hi => ?_) h
      exact keepsOrder_of_within hi id fun _ => id

/-! ### The answers in the states that are reached -/

/-- The dictionaries file records under their own keys, or the documents are in order. -/
def Storage.Orderly (P : Platform) : (st : Storage) → st.State → Prop
  | .memory _ _, s => ∃ reg, s.Represents reg
  | .vault D _, w => w.Orderly P D

variable {st : Storage} {s s' : st.State}

lemma Storage.Orderly.call {c : RepoCall} {r : Except PyError c.Res} (h : st.Orderly P s)
    (hact : st.act P True c s r s') : st.Orderly P s' := by
  cases st with
  | memory C signer =>
      rcases hact with hexec | ⟨-, -, rfl⟩
      · obtain ⟨reg, hreg⟩ := h
        obtain ⟨reg', hreg', -⟩ := MemoryStores.exec_post (R := runRegime True False)
          (fun _ => trivial) trivial hreg c
        rw [show MemoryStores.exec C signer c s = (r, s') from hexec] at hreg'
        exact ⟨reg', hreg'⟩
      · exact h
  | vault D server => exact (Prog.wp_contract_iff _ _ _).mp (wp_orderly c h) r s' hact

/-- **Every state that is reached is in order.** -/
theorem Storage.Reached.orderly (h : st.Reached P s) : st.Orderly P s := by
  induction h with
  | @fresh s hfresh =>
      cases st with
      | memory C signer =>
          obtain rfl : s = MemoryStores.empty := hfresh
          exact ⟨.empty, MemoryStores.represents_empty⟩
      | vault D server => exact .fresh hfresh
  | call _ hact ih => exact ih.call hact

namespace Storage.Orderly

/-- The memberships of a user can be listed, and `has_membership` agrees with the list. -/
lemma membershipsAt (h : st.Orderly P s) (u : String) :
    ∃ ms, st.membershipsAt P s u = .ok ms ∧ OwnMemberships u ms
      ∧ ∀ g, (st.exec P (.hasMembership u g) s).1 = .ok (ms.any fun m => m.groupName = g) := by
  cases st with
  | memory C signer =>
      obtain ⟨reg, hreg⟩ := h
      have hlists := Keyed.lists_values hreg.memberships (·.keycloakSub = u)
      refine ⟨_, rfl, ⟨fun m hm => ((hlists.2 m).mp hm).2, Registry.nodup_groupName hlists⟩,
        fun g => congrArg Except.ok ?_⟩
      have hmember := Registry.mem_lists_user hlists g
      rw [Registry.Member, ← Option.isSome_iff_exists, ← hreg.memberships] at hmember
      refine Bool.eq_iff_iff.mpr (hmember.trans ?_)
      simp only [List.any_eq_true, decide_eq_true_eq]
      exact Iff.rfl
  | vault D server =>
      obtain ⟨ms, hload, hown⟩ := VaultWorld.Orderly.memberships h u
      refine ⟨ms, ?_, hown, fun g => ?_⟩
      · rw [membershipsAt_vault, hload]
      · show ((VaultGroupMembershipRepository.hasMembership P D u g).run server.exec s).1 = _
        rw [run_hasMembership, hload]
        rfl

/-- The definition of `admin` can be read. -/
lemma groupAt_admin (h : st.Orderly P s) : ∃ found, st.groupAt P s "admin" = .ok found := by
  cases st with
  | memory C signer => exact ⟨_, rfl⟩
  | vault D server =>
      obtain ⟨found, hfound⟩ := VaultWorld.Orderly.admin h
      refine ⟨found, ?_⟩
      rw [groupAt_vault, hfound]

end Storage.Orderly

end GofrSec
