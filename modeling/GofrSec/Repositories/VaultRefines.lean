/-
The Vault-backed repositories implement the contract of the repository calls.

* `Represents`: the documents of a store hold exactly the records of a
  registry, each at its path, with the invariants that the listings rest on:
  with plain subjects, nothing else is below the users root, and while no
  failure has struck, the user index of the tokens is exact;
* `userIds_listing`: the known users are those with a document;
* `vault_implements`: along `Represents`, every repository call run over the
  Vault client is one that the contract allows.
-/
import GofrSec.Registry
import GofrSec.Repositories.TokenIndex
import GofrSec.Repositories.VaultSpecs

namespace GofrSec

open Calls Text VaultServer VaultPathLayout

/-- The members of a group among the known users are all its members. -/
lemma Registry.lists_members {reg : Registry} {us : List String}
    (hnodup : us.Nodup) (hall : ∀ u g, reg.Member u g → u ∈ us)
    {load : String → List UserGroupMembership}
    (hload : ∀ u, reg.memberships.Lists (·.keycloakSub = u) (load u)) (g : String) :
    reg.memberships.Lists (·.groupName = g)
      (us.flatMap fun u => (load u).filter fun m => m.groupName = g) := by
  constructor
  · rw [List.map_flatMap]
    refine List.nodup_flatMap.mpr ⟨fun u _ => ?_, ?_⟩
    · exact (hload u).1.sublist (List.Sublist.map _ List.filter_sublist)
    · refine hnodup.imp fun {u v} huv => ?_
      intro k hu hv
      obtain ⟨m, hm, rfl⟩ := List.mem_map.mp hu
      obtain ⟨m', hm', hkey⟩ := List.mem_map.mp hv
      have hsub := (((hload u).2 m).mp (List.mem_filter.mp hm).1).2
      have hsub' := (((hload v).2 m').mp (List.mem_filter.mp hm').1).2
      exact huv (hsub.symm.trans ((congrArg Prod.fst hkey).symm.trans hsub'))
  · intro m
    rw [List.mem_flatMap]
    constructor
    · rintro ⟨u, -, hm⟩
      rw [List.mem_filter, decide_eq_true_eq] at hm
      exact ⟨(((hload u).2 m).mp hm.1).1, hm.2⟩
    · rintro ⟨hfind, hg⟩
      refine ⟨m.keycloakSub, hall _ _ ⟨m, hfind⟩, ?_⟩
      rw [List.mem_filter, decide_eq_true_eq]
      exact ⟨((hload _).2 m).mpr ⟨hfind, rfl⟩, hg⟩

/-- The kinds of document that the service keeps below a plain user. -/
inductive UserPath (L : VaultPathLayout) : String → Prop
  | profile {u : String} : IsSegment u → UserPath L (L.userProfilePath u)
  | groups {u : String} : IsSegment u → UserPath L (L.userGroupsPath u)
  | token {u t : String} : IsSegment u → IsTokenId t → UserPath L (L.userTokenPath u t)

/-- The documents of a Vault store hold the records of a registry. -/
structure Represents (P : Platform) (D : VaultDeployment) (R : Regime) (w : VaultWorld)
    (reg : Registry) : Prop where
  profiles : ∀ u, w.read (D.paths.userProfilePath u)
    = (reg.profiles.find u).map (serializeProfile P)
  groups : ∀ g, w.read (D.paths.groupDefinitionPath g)
    = (reg.groups.find g).map (serializeGroup P)
  memberships : ∀ u, ∃ ms, reg.memberships.Lists (·.keycloakSub = u) ms
    ∧ w.read (D.paths.userGroupsPath u) = storedMemberships P u ms
  tokens : ∀ t, w.read (D.paths.tokenPath t) = (reg.tokens.find t).map (serializeToken P)
  events : w.events = reg.events
  tokenIds : ∀ t record, reg.tokens.find t = some record → IsTokenId t
  userPaths : R.plain → ∀ k d, w.read k = some d → Under (D.paths.root .users) k →
    UserPath D.paths k
  userIndex : R.plain → R.indexed → ∀ u t, IsTokenId t →
    ((w.read (D.paths.userTokenPath u t)).isSome
      ↔ ∃ record, reg.tokens.find t = some record ∧ record.ownerSub = u)

namespace Represents

variable {P : Platform} {D : VaultDeployment} {R : Regime} {w : VaultWorld} {reg : Registry}
  {server : VaultServer}

/-- A store without documents of the service represents the empty registry. -/
lemma empty (hempty : ∀ a k, Under (D.paths.root a) k → w.read k = none) (hevents : w.events = []) :
    Represents P D R w .empty where
  profiles u := hempty _ _ (under_userProfilePath u)
  groups g := hempty _ _ (under_groupDefinitionPath g)
  memberships u := ⟨[], ⟨List.nodup_nil, by simp [Registry.empty]⟩,
    hempty _ _ (under_userGroupsPath u)⟩
  tokens t := hempty _ _ (under_tokenPath t)
  events := hevents
  tokenIds t record h := nomatch h
  userPaths _ k d hk hunder := by
    rw [hempty _ k hunder] at hk
    exact nomatch hk
  userIndex _ _ u t _ := by
    rw [hempty _ _ (under_userTokenPath u t)]
    simp [Registry.empty]

/-- What a regime knows of a store holds under weaker promises. -/
lemma mono {R' : Regime} (h : Represents P D R w reg) (hplain : R'.plain → R.plain)
    (hindexed : R'.indexed → R.indexed) : Represents P D R' w reg where
  profiles := h.profiles
  groups := h.groups
  memberships := h.memberships
  tokens := h.tokens
  events := h.events
  tokenIds := h.tokenIds
  userPaths h' := h.userPaths (hplain h')
  userIndex h' hi := h.userIndex (hplain h') (hindexed hi)

/-! ### What the documents decode to -/

lemma loadMemberships (h : Represents P D R w reg) (u : String) :
    ∃ ms, reg.memberships.Lists (·.keycloakSub = u) ms
      ∧ membershipsOf P D.now (w.read (D.paths.userGroupsPath u)) = .ok ms := by
  obtain ⟨ms, hlists, hread⟩ := h.memberships u
  refine ⟨sortByGroupName ms, hlists.of_perm (sortByGroupName_perm ms), ?_⟩
  rw [hread, membershipsOf_stored]

lemma decodeToken (h : Represents P D R w reg) (t : String) :
    decodeRecord (deserializeToken P D.now) (w.read (D.paths.tokenPath t))
      = .ok (reg.tokens.find t) := by
  rw [h.tokens]
  exact decodeRecord_map deserializeToken_serializeToken _

/-- A member has a memberships document. -/
lemma exists_membershipsDoc (h : Represents P D R w reg) {u g : String} (hm : reg.Member u g) :
    ∃ d, w.read (D.paths.userGroupsPath u) = some d := by
  obtain ⟨m, hm⟩ := hm
  obtain ⟨ms, hlists, hread⟩ := h.memberships u
  have hmem : m ∈ ms := hlists.mem hm (congrArg Prod.fst (reg.memberships.key_eq _ _ hm))
  cases ms with
  | nil => simp at hmem
  | cons m' ms => exact ⟨_, hread⟩

/-- The subjects of the memberships are plain. -/
lemma member_isSegment (h : Represents P D R w reg) (hplain : R.plain) {u g : String}
    (hm : reg.Member u g) : IsSegment u := by
  obtain ⟨d, hd⟩ := h.exists_membershipsDoc hm
  have hpath := h.userPaths hplain _ d hd (under_userGroupsPath u)
  generalize hk : D.paths.userGroupsPath u = k at hpath
  cases hpath with
  | profile hv => exact absurd hk.symm (userProfilePath_ne_userGroupsPath _ _)
  | groups hv =>
      rw [userGroupsPath_inj hk]
      exact hv
  | token _ ht => exact absurd hk.symm (userTokenPath_ne_userGroupsPath _ _ ht)

/-! ### The known users -/

/-- The list of known users holds every user with a memberships document, and
no one twice. -/
lemma userIds_listing (h : Represents P D R w reg) (hplain : R.plain) (server : VaultServer) :
    (userIdsOf (server.arrange (w.names D.paths.usersRoot))).Nodup ∧
      ∀ u g, reg.Member u g → u ∈ userIdsOf (server.arrange (w.names D.paths.usersRoot)) := by
  constructor
  · exact (List.perm_insertionSort _ _).nodup_iff.mpr (List.nodup_dedup _)
  · intro u g hm
    have hu := h.member_isSegment hplain hm
    obtain ⟨d, hd⟩ := h.exists_membershipsDoc hm
    have hname : u ++ "/" ∈ w.names D.paths.usersRoot :=
      VaultWorld.mem_names.mpr ⟨_, d, hd, nextSegment_below_below hu.2⟩
    rw [userIdsOf, List.mem_insertionSort, List.mem_dedup, List.mem_filter]
    refine ⟨List.mem_map.mpr ⟨u ++ "/", mem_arrange.mpr hname, hu.rstripSlash_folder⟩, ?_⟩
    simpa using hu.1

/-! ### The user index -/

/-- The names below a user's tokens folder are the ids of its index entries. -/
lemma mem_names_userTokensRoot (h : Represents P D R w reg) (hplain : R.plain) {u : String}
    (hu : IsSegment u) {name : String} :
    name ∈ w.names (D.paths.userTokensRoot u)
      ↔ IsTokenId name ∧ ∃ d, w.read (D.paths.userTokenPath u name) = some d := by
  rw [VaultWorld.mem_names]
  constructor
  · rintro ⟨k, d, hk, hnext⟩
    -- the path, read from the users root: the user, then what follows
    obtain ⟨rest, hrest, hkrest⟩ : ∃ rest, (rest = name ∧ '/' ∉ name.toList ∨ '/' ∈ rest.toList)
        ∧ k = below (below D.paths.usersRoot u) (below "tokens" rest) := by
      rcases nextSegment_eq_some hnext with ⟨hname, rfl⟩ | ⟨x, y, -, -, rfl⟩
      · exact ⟨name, Or.inl ⟨rfl, hname⟩, by
          simp only [userTokensRoot, userRoot, String.append_assoc]⟩
      · exact ⟨below x y, Or.inr (slash_mem_below x y), by
          simp only [userTokensRoot, userRoot, String.append_assoc]⟩
    have hunder : Under (D.paths.root .users) k := by
      rw [hkrest]
      exact under_userRoot u _
    have hpath := h.userPaths hplain k d hk hunder
    cases hpath with
    | @profile v hv =>
        have hsplit := (below_below_inj hv.2 hu.2 hkrest).2
        exact absurd (hsplit ▸ slash_mem_below _ _) (by decide)
    | @groups v hv =>
        have hsplit := (below_below_inj hv.2 hu.2 hkrest).2
        exact absurd (hsplit ▸ slash_mem_below _ _) (by decide)
    | @token v t hv ht =>
        have hdeep : D.paths.userTokenPath v t
            = below (below D.paths.usersRoot v) (below "tokens" t) := by
          simp only [userTokenPath, userTokensRoot, userRoot, String.append_assoc]
        obtain ⟨rfl, hsplit⟩ := below_below_inj hv.2 hu.2 (hdeep.symm.trans hkrest)
        obtain rfl := below_right_inj hsplit
        rcases hrest with ⟨rfl, -⟩ | hslash
        · exact ⟨ht, d, hk⟩
        · exact absurd hslash ht.no_slash
  · rintro ⟨hname, d, hd⟩
    exact ⟨_, d, hd, nextSegment_below hname.no_slash⟩

/-- The records found under the listed ids are those the user owns. -/
lemma lists_owned (h : Represents P D R w reg) (hplain : R.plain) (hindexed : R.indexed)
    {u : String} (hu : IsSegment u) :
    reg.tokens.Lists (·.ownerSub = u)
      ((server.arrange (w.names (D.paths.userTokensRoot u))).flatMap fun key =>
        if rstripSlash key = "" then [] else (reg.tokens.find (rstripSlash key)).toList) := by
  have hmem : ∀ t, t ∈ server.arrange (w.names (D.paths.userTokensRoot u))
      ↔ IsTokenId t ∧ ∃ d, w.read (D.paths.userTokenPath u t) = some d := by
    intro t
    rw [mem_arrange]
    exact h.mem_names_userTokensRoot hplain hu
  have hnodup : (server.arrange (w.names (D.paths.userTokensRoot u))).Nodup :=
    (server.arrange_perm _).nodup_iff.mpr (w.nodup_names _)
  rw [flatMap_stripped (f := fun t => (reg.tokens.find t).toList)
    fun t ht => ((hmem t).mp ht).1.isSegment]
  refine Keyed.lists_of_keys hnodup fun t record hrecord => ?_
  have htid : IsTokenId t := reg.tokens.key_eq t record hrecord ▸ h.tokenIds t record hrecord
  rw [hmem, and_iff_right htid, ← Option.isSome_iff_exists, h.userIndex hplain hindexed u t htid]
  constructor
  · rintro ⟨record', hrecord', howner⟩
    rwa [Option.some.inj (hrecord.symm.trans hrecord')]
  · exact fun howner => ⟨record, hrecord, howner⟩

/-! ### What the writes preserve -/

/-- A write of a profile. -/
lemma profileUpsert (h : Represents P D R w reg) {profile : UserProfile}
    (hplain : R.plain → IsSegment profile.keycloakSub) :
    Represents P D R
      (w.write (D.paths.userProfilePath profile.keycloakSub) (serializeProfile P profile))
      (RepoCall.effect (.profileUpsert profile) reg) where
  profiles u := by
    rw [VaultWorld.read_write, h.profiles, RepoCall.effect, Keyed.find_insert]
    by_cases hu : u = profile.keycloakSub
    · rw [if_pos hu, if_pos (by rw [hu])]
      rfl
    · rw [if_neg hu, if_neg fun heq => hu (userProfilePath_inj heq)]
  groups g := by
    rw [VaultWorld.read_write_of_ne _ _
      (ne_of_area (by decide) (under_groupDefinitionPath g) (under_userProfilePath _))]
    exact h.groups g
  memberships u := by
    rw [VaultWorld.read_write_of_ne _ _ (userProfilePath_ne_userGroupsPath _ _).symm]
    exact h.memberships u
  tokens t := by
    rw [VaultWorld.read_write_of_ne _ _
      (ne_of_area (by decide) (under_tokenPath t) (under_userProfilePath _))]
    exact h.tokens t
  events := h.events
  tokenIds := h.tokenIds
  userPaths hR k d hk hunder := by
    rw [VaultWorld.read_write] at hk
    split_ifs at hk with heq
    · rw [heq]
      exact .profile (hplain hR)
    · exact h.userPaths hR k d hk hunder
  userIndex hR hf u t ht := by
    rw [VaultWorld.read_write_of_ne _ _ (userTokenPath_ne_userProfilePath _ _ ht)]
    exact h.userIndex hR hf u t ht

/-- A write of a group definition. -/
lemma groupUpsert (h : Represents P D R w reg) (group : GroupDefinition) :
    Represents P D R (w.write (D.paths.groupDefinitionPath group.name) (serializeGroup P group))
      (RepoCall.effect (.groupUpsert group) reg) where
  profiles u := by
    rw [VaultWorld.read_write_of_ne _ _
      (ne_of_area (by decide) (under_userProfilePath u) (under_groupDefinitionPath _))]
    exact h.profiles u
  groups g := by
    rw [VaultWorld.read_write, h.groups, RepoCall.effect, Keyed.find_insert]
    by_cases hg : g = group.name
    · rw [if_pos hg, if_pos (by rw [hg])]
      rfl
    · rw [if_neg hg, if_neg fun heq => hg (groupDefinitionPath_inj heq)]
  memberships u := by
    rw [VaultWorld.read_write_of_ne _ _
      (ne_of_area (by decide) (under_userGroupsPath u) (under_groupDefinitionPath _))]
    exact h.memberships u
  tokens t := by
    rw [VaultWorld.read_write_of_ne _ _
      (ne_of_area (by decide) (under_tokenPath t) (under_groupDefinitionPath _))]
    exact h.tokens t
  events := h.events
  tokenIds := h.tokenIds
  userPaths hR k d hk hunder := by
    rw [VaultWorld.read_write_of_ne _ _
      (ne_of_area (by decide) hunder (under_groupDefinitionPath _))] at hk
    exact h.userPaths hR k d hk hunder
  userIndex hR hf u t ht := by
    rw [VaultWorld.read_write_of_ne _ _
      (ne_of_area (by decide) (under_userTokenPath u t) (under_groupDefinitionPath _))]
    exact h.userIndex hR hf u t ht

/-- A change of the memberships of one user, written back as one document. -/
lemma putMemberships (h : Represents P D R w reg) {u : String} {ms : List UserGroupMembership}
    {reg' : Registry} (hlists : reg'.memberships.Lists (·.keycloakSub = u) ms)
    (hothers : ∀ v g, v ≠ u → reg'.memberships.find (v, g) = reg.memberships.find (v, g))
    (hreg : reg' = { reg with memberships := reg'.memberships })
    (hplain : R.plain → ms ≠ [] → IsSegment u) :
    Represents P D R (w.putMemberships P D.paths u ms) reg' where
  profiles v := by
    rw [read_putMemberships, if_neg (userProfilePath_ne_userGroupsPath _ _), hreg]
    exact h.profiles v
  groups g := by
    rw [read_putMemberships, if_neg
      (ne_of_area (by decide) (under_groupDefinitionPath g) (under_userGroupsPath u)), hreg]
    exact h.groups g
  memberships v := by
    rw [read_putMemberships]
    by_cases hv : v = u
    · rw [hv, if_pos rfl]
      exact ⟨ms, hlists, rfl⟩
    · rw [if_neg fun heq => hv (userGroupsPath_inj heq)]
      obtain ⟨ms', hlists', hread⟩ := h.memberships v
      refine ⟨ms', hlists'.congr fun m hm => ?_, hread⟩
      rw [UserGroupMembership.pair, hothers _ _ (hm ▸ hv)]
  tokens t := by
    rw [read_putMemberships, if_neg
      (ne_of_area (by decide) (under_tokenPath t) (under_userGroupsPath u)), hreg]
    exact h.tokens t
  events := by
    rw [events_putMemberships, hreg]
    exact h.events
  tokenIds := by
    rw [hreg]
    exact h.tokenIds
  userPaths hR k d hk hunder := by
    rw [read_putMemberships] at hk
    split_ifs at hk with heq
    · rw [heq]
      refine .groups (hplain hR ?_)
      rintro rfl
      exact nomatch hk
    · exact h.userPaths hR k d hk hunder
  userIndex hR hf v t ht := by
    rw [read_putMemberships, if_neg (userTokenPath_ne_userGroupsPath _ _ ht), hreg]
    exact h.userIndex hR hf v t ht

/-- An upsert of a token record, stopped after some of its calls on the
indexes or, where nothing fails, after all of them. -/
lemma tokenUpsert (h : Represents P D R w reg) {record : IssuedTokenRecord}
    (hid : IsTokenId record.tokenId) (hplain : R.plain → IsSegment record.ownerSub)
    {cs : List VaultCall}
    (hcs : ∀ c ∈ cs, c ∈ indexUpdates D (reg.tokens.find record.tokenId) record)
    (hall : R.indexed → cs = indexUpdates D (reg.tokens.find record.tokenId) record) :
    Represents P D R
      (VaultCall.effects cs
        (w.write (D.paths.tokenPath record.tokenId) (serializeToken P record)))
      (RepoCall.effect (.tokenUpsert record) reg) := by
  have hold : ∀ old ∈ reg.tokens.find record.tokenId, old.tokenId = record.tokenId :=
    fun old hmem => reg.tokens.key_eq _ _ hmem
  -- every path but the canonical record and the index entries of this id is kept
  have hkeep : ∀ k, k ≠ D.paths.tokenPath record.tokenId →
      (∀ u, k ≠ D.paths.userTokenPath u record.tokenId) →
      (∀ g, k ≠ D.paths.groupTokenPath g record.tokenId) →
      (VaultCall.effects cs
        (w.write (D.paths.tokenPath record.tokenId) (serializeToken P record))).read k
        = w.read k := by
    intro k htoken huser hgroup
    rw [read_indexUpdates_of_ne hold hcs huser hgroup, VaultWorld.read_write_of_ne _ _ htoken]
  constructor
  case profiles =>
    intro u
    rw [hkeep _ (ne_of_area (by decide) (under_userProfilePath u) (under_tokenPath _))
      (fun v => (userTokenPath_ne_userProfilePath v u hid).symm)
      (fun g => ne_of_area (by decide) (under_userProfilePath u) (under_groupTokenPath g _))]
    exact h.profiles u
  case groups =>
    intro g
    rw [hkeep _ (ne_of_area (by decide) (under_groupDefinitionPath g) (under_tokenPath _))
      (fun v => ne_of_area (by decide) (under_groupDefinitionPath g) (under_userTokenPath v _))
      (fun g' => (groupTokenPath_ne_groupDefinitionPath g' g hid).symm)]
    exact h.groups g
  case memberships =>
    intro u
    rw [hkeep _ (ne_of_area (by decide) (under_userGroupsPath u) (under_tokenPath _))
      (fun v => (userTokenPath_ne_userGroupsPath v u hid).symm)
      (fun g => ne_of_area (by decide) (under_userGroupsPath u) (under_groupTokenPath g _))]
    exact h.memberships u
  case tokens =>
    intro t
    rw [read_upsert_tokenPath hcs, RepoCall.effect, Keyed.find_insert, h.tokens]
    split_ifs with ht
    · rfl
    · rfl
  case events =>
    rw [VaultCall.events_effects _ fun c hc => isSome_target_indexUpdates D (hcs c hc)]
    exact h.events
  case tokenIds =>
    intro t record' hfind
    rw [RepoCall.effect, Keyed.find_insert] at hfind
    split_ifs at hfind with ht
    · rw [ht]
      exact hid
    · exact h.tokenIds t record' hfind
  case userPaths =>
    intro hR k d hk hunder
    by_cases huser : ∃ u, k = D.paths.userTokenPath u record.tokenId
    · obtain ⟨u, rfl⟩ := huser
      rcases VaultCall.exists_of_read_effects hk with ⟨d', hd'⟩ | ⟨data, hdata⟩
      · rw [VaultWorld.read_write_of_ne _ _
          (ne_of_area (by decide) hunder (under_tokenPath _))] at hd'
        exact h.userPaths hR _ d' hd' hunder
      · have hu := user_of_write_indexUpdates (hcs _ hdata)
        rw [hu]
        exact .token (hplain hR) hid
    · rw [hkeep k (ne_of_area (by decide) hunder (under_tokenPath _))
        (fun u heq => huser ⟨u, heq⟩)
        (fun g => ne_of_area (by decide) hunder (under_groupTokenPath g _))] at hk
      exact h.userPaths hR k d hk hunder
  case userIndex =>
    intro hR hf u t ht
    obtain rfl := hall hf
    rw [RepoCall.effect, Keyed.find_insert]
    show ((VaultCall.effects (upsertCalls P D (reg.tokens.find record.tokenId) record) w).read
      (D.paths.userTokenPath u t)).isSome ↔ _
    by_cases htid : t = record.tokenId
    · rw [htid, read_upsert_userTokenPath hold, if_pos rfl]
      have hbefore := h.userIndex hR hf u _ hid
      split_ifs with hu hprev
      · simp [hu]
      · simp [Ne.symm hu]
      · simp only [hbefore, Option.some.injEq, exists_eq_left', Ne.symm hu, iff_false]
        exact hprev
    · rw [(read_upsert_of_ne hold hid.no_slash ht.no_slash htid w u "").1, if_neg htid]
      exact h.userIndex hR hf u t ht

/-- An event is appended. -/
lemma auditAppend (h : Represents P D R w reg) (event : AuditEvent) :
    Represents P D R (w.append event) (RepoCall.effect (.auditAppend event) reg) where
  profiles := h.profiles
  groups := h.groups
  memberships := h.memberships
  tokens := h.tokens
  events := congrArg (· ++ [event]) h.events
  tokenIds := h.tokenIds
  userPaths := h.userPaths
  userIndex := h.userIndex

end Represents

/-! ### The calls -/

section

variable (P : Platform) (D : VaultDeployment) (server : VaultServer)

/-- The repository calls as they act on a Vault store; any step may raise
without taking effect if `faults` holds. -/
def vaultAct (faults : Prop) : Act RepoCall RepoCall.Res PyError VaultWorld :=
  fun c => (vaultProgram P D c).Runs (server.act faults)

end

variable {P : Platform} {D : VaultDeployment} {server : VaultServer} {R : Regime}
  {w : VaultWorld} {reg : Registry}

/-- What a call must establish: an abstract state after it that the contract
allows. -/
def Simulates (P : Platform) (D : VaultDeployment) (R : Regime) (reg : Registry) (c : RepoCall)
    (r : Except PyError c.Res) (w' : VaultWorld) : Prop :=
  ∃ reg', Represents P D R w' reg' ∧ RepoCall.post R c reg r reg'

lemma simulates_fault (h : Represents P D R w reg) {c : RepoCall} (hc : c.mayFail)
    (hf : R.faults) (e : PyError) : Simulates P D R reg c (.error e) w :=
  ⟨reg, h, Or.inr ⟨hf, hc, Or.inl rfl⟩⟩

lemma simulates_read (h : Represents P D R w reg) {c : RepoCall} {v : c.Res}
    (hv : c.Answers R reg v) (hc : c.effect reg = reg) :
    Simulates P D R reg c (.ok v) w :=
  ⟨reg, h, hv, hc.symm⟩

/-- The regime knows what the deployment's signer may answer; one that reads
its key from Vault may answer anything. -/
def VaultDeployment.SignsIn (D : VaultDeployment) (R : Regime) : Prop :=
  match D.signer with
  | .static signer => (∀ request, R.signs request (signer.signToken D.crypto request))
      ∧ R.keys (signer.publicKeyDocument D.crypto)
  | .vault _ => (∀ request answer, R.signs request answer) ∧ ∀ answer, R.keys answer

lemma simulates_sign (h : Represents P D R w reg) {request : SigningRequest}
    {answer : Except PyError String} (hanswer : R.signs request answer) :
    Simulates P D R reg (.signToken request) answer w := by
  cases answer with
  | ok v => exact ⟨reg, h, hanswer, rfl⟩
  | error e => exact ⟨reg, h, Or.inl ⟨rfl, hanswer⟩⟩

lemma simulates_keys (h : Represents P D R w reg) {answer : Except PyError Doc}
    (hanswer : R.keys answer) : Simulates P D R reg .publicKeyDocument answer w := by
  cases answer with
  | ok v => exact ⟨reg, h, hanswer, rfl⟩
  | error e => exact ⟨reg, h, Or.inl ⟨rfl, hanswer⟩⟩

/-- Loading the key leaves the documents alone, whatever comes of it. -/
lemma wp_loadSigningMaterial (signer : VaultTokenSigner) {faults : Prop}
    {Q : Except PyError LoadedSigningMaterial → VaultWorld → Prop} (h : ∀ r, Q r w) :
    (signer.loadSigningMaterial P D).wp (server.act faults).contract Q w := by
  rw [VaultTokenSigner.loadSigningMaterial, Prog.wp_bind, wp_readSecret]
  refine ⟨?_, fun _ e => h (.error e)⟩
  rw [Prog.onReturn_ok, Prog.wp_lift]
  exact h _

lemma simulates_signToken (hsigns : D.SignsIn R) (h : Represents P D R w reg)
    (request : SigningRequest) :
    (D.signer.signToken P D request).wp (server.act R.faults).contract
      (Simulates P D R reg (.signToken request)) w := by
  rw [VaultDeployment.SignsIn] at hsigns
  cases hsigner : D.signer with
  | static signer =>
      rw [hsigner] at hsigns
      rw [TokenSigner.signToken, Prog.wp_lift]
      exact simulates_sign h (hsigns.1 request)
  | vault signer =>
      rw [hsigner] at hsigns
      have hall : ∀ answer, Simulates P D R reg (.signToken request) answer w :=
        fun answer => simulates_sign h (hsigns.1 request answer)
      rw [TokenSigner.signToken, VaultTokenSigner.signToken, Prog.wp_bind]
      refine wp_loadSigningMaterial signer fun r => ?_
      cases r with
      | error e => exact hall _
      | ok material => exact (Prog.wp_lift _ _ _).mpr (hall _)

lemma simulates_publicKeyDocument (hsigns : D.SignsIn R) (h : Represents P D R w reg) :
    (D.signer.publicKeyDocument P D).wp (server.act R.faults).contract
      (Simulates P D R reg .publicKeyDocument) w := by
  rw [VaultDeployment.SignsIn] at hsigns
  cases hsigner : D.signer with
  | static signer =>
      rw [hsigner] at hsigns
      rw [TokenSigner.publicKeyDocument, Prog.wp_lift]
      exact simulates_keys h hsigns.2
  | vault signer =>
      rw [hsigner] at hsigns
      have hall : ∀ answer, Simulates P D R reg .publicKeyDocument answer w :=
        fun answer => simulates_keys h (hsigns.2 answer)
      rw [TokenSigner.publicKeyDocument, VaultTokenSigner.publicKeyDocument, Prog.wp_bind]
      refine wp_loadSigningMaterial signer fun r => ?_
      cases r with
      | error e => exact hall _
      | ok material => exact (Prog.wp_lift _ _ _).mpr (hall _)

lemma simulates_membershipAdd (h : Represents P D R w reg) (membership : UserGroupMembership)
    (hplain : R.plain → IsSegment membership.keycloakSub) :
    (VaultGroupMembershipRepository.add P D membership).wp (server.act R.faults).contract
      (Simulates P D R reg (.membershipAdd membership)) w := by
  have hfault := fun hf e => simulates_fault h (c := .membershipAdd membership) trivial hf e
  obtain ⟨ms, hlists, hload⟩ := h.loadMemberships membership.keycloakSub
  rw [VaultGroupMembershipRepository.add, Prog.wp_bind, wp_loadMemberships, hload]
  refine ⟨?_, hfault⟩
  rw [Prog.onReturn_ok, Prog.wp_bind, wp_storeMemberships]
  refine ⟨?_, hfault⟩
  -- within one user's memberships, the key of a membership is its group
  have hfilter : ms.filter (fun existing => existing.groupName ≠ membership.groupName)
      = ms.filter fun existing => existing.pair ≠ membership.pair := by
    refine List.filter_congr fun m hm => ?_
    have hsub := ((hlists.2 m).mp hm).2
    simp [hsub]
  have hlists' := hlists.filter_insert (v := membership) rfl
  rw [← hfilter] at hlists'
  refine ⟨RepoCall.effect (.membershipAdd membership) reg, ?_, rfl, rfl⟩
  refine h.putMemberships hlists' (fun v g hv => ?_) rfl fun hR _ => hplain hR
  refine Keyed.find_insert_of_ne _ fun heq => hv ?_
  exact congrArg Prod.fst heq

lemma simulates_membershipRemove (h : Represents P D R w reg) (u g : String) :
    (VaultGroupMembershipRepository.remove P D u g).wp (server.act R.faults).contract
      (Simulates P D R reg (.membershipRemove u g)) w := by
  have hfault := fun hf e => simulates_fault h (c := .membershipRemove u g) trivial hf e
  obtain ⟨ms, hlists, hload⟩ := h.loadMemberships u
  rw [VaultGroupMembershipRepository.remove, Prog.wp_bind, wp_loadMemberships, hload]
  refine ⟨?_, hfault⟩
  rw [Prog.onReturn_ok]
  have hfilter : ms.filter (fun m => m.groupName ≠ g) = ms.filter fun m => m.pair ≠ (u, g) := by
    refine List.filter_congr fun m hm => ?_
    have hsub := ((hlists.2 m).mp hm).2
    simp [hsub]
  dsimp only
  split_ifs with hlen
  · -- nothing was removed: the user is no member
    have hnone : reg.memberships.find (u, g) = none := by
      refine hlists.find_eq_none (fun m hm => congrArg Prod.fst (reg.memberships.key_eq _ _ hm)) ?_
      intro m hm hkey
      have hmem : m ∈ ms.filter fun m => m.groupName ≠ g := by
        rw [List.Sublist.eq_of_length List.filter_sublist hlen]
        exact hm
      exact of_decide_eq_true (List.mem_filter.mp hmem).2 (congrArg Prod.snd hkey)
    refine ⟨reg, h, ?_, ?_⟩
    · rw [RepoCall.Answers, hnone]
      rfl
    · rw [RepoCall.effect, Keyed.remove_of_find_eq_none hnone]
  · have hsome : (reg.memberships.find (u, g)).isSome := by
      by_contra hnone
      rw [Option.not_isSome_iff_eq_none] at hnone
      refine hlen (congrArg List.length (List.filter_eq_self.mpr fun m hm => ?_))
      have hm' := (hlists.2 m).mp hm
      refine decide_eq_true fun hg => ?_
      rw [show m.pair = (u, g) from Prod.ext hm'.2 hg, hnone] at hm'
      exact nomatch hm'.1
    rw [Prog.wp_bind, wp_storeMemberships]
    refine ⟨?_, hfault⟩
    have hlists' := hlists.filter_remove (x := (u, g))
    rw [← hfilter] at hlists'
    refine ⟨RepoCall.effect (.membershipRemove u g) reg, ?_, hsome.symm, rfl⟩
    refine h.putMemberships hlists' (fun v g' hv => ?_) rfl fun hR hne => ?_
    · exact Keyed.find_remove_of_ne _ fun heq => hv (congrArg Prod.fst heq)
    · obtain ⟨m, hm⟩ := Option.isSome_iff_exists.mp hsome
      exact h.member_isSegment hR ⟨m, hm⟩

lemma simulates_hasMembership (h : Represents P D R w reg) (u g : String) :
    (VaultGroupMembershipRepository.hasMembership P D u g).wp (server.act R.faults).contract
      (Simulates P D R reg (.hasMembership u g)) w := by
  have hfault := fun hf e => simulates_fault h (c := .hasMembership u g) trivial hf e
  obtain ⟨ms, hlists, hload⟩ := h.loadMemberships u
  rw [VaultGroupMembershipRepository.hasMembership, Prog.wp_bind, wp_loadMemberships, hload]
  refine ⟨?_, hfault⟩
  rw [Prog.onReturn_ok, Prog.wp_pure]
  refine simulates_read h ?_ rfl
  rw [RepoCall.Answers, Bool.eq_iff_iff, List.any_eq_true, Option.isSome_iff_exists]
  constructor
  · rintro ⟨m, hm, hg⟩
    have hm' := (hlists.2 m).mp hm
    refine ⟨m, ?_⟩
    rw [← hm'.1, UserGroupMembership.pair, hm'.2, of_decide_eq_true hg]
  · rintro ⟨m, hm⟩
    have hkey := reg.memberships.key_eq _ _ hm
    exact ⟨m, hlists.mem hm (congrArg Prod.fst hkey), decide_eq_true (congrArg Prod.snd hkey)⟩

lemma simulates_countMembers (h : Represents P D R w reg) (g : String) :
    (VaultGroupMembershipRepository.countMembers P D g).wp (server.act R.faults).contract
      (Simulates P D R reg (.countMembers g)) w := by
  have hfault := fun hf e => simulates_fault h (c := .countMembers g) trivial hf e
  choose load hlists hload using h.loadMemberships
  rw [VaultGroupMembershipRepository.countMembers, Prog.wp_bind,
    VaultGroupMembershipRepository.listForGroup, Prog.wp_bind, listKnownUserIds, Prog.wp_bind,
    wp_listSecrets]
  refine ⟨?_, hfault⟩
  rw [Prog.onReturn_ok, Prog.wp_pure, Prog.onReturn_ok]
  refine wp_membersAmong (fun u _ => hload u) ?_ fun hf e => hfault hf e
  rw [Prog.onReturn_ok, Prog.wp_pure]
  refine simulates_read h (fun hR => ?_) rfl
  obtain ⟨hnodup, hall⟩ := h.userIds_listing hR server
  exact ⟨_, Registry.lists_members hnodup hall hlists g, rfl⟩

lemma simulates_tokenUpsert (h : Represents P D R w reg) (record : IssuedTokenRecord)
    (hid : IsTokenId record.tokenId) (hplain : R.plain → IsSegment record.ownerSub) :
    (VaultTokenRepository.upsert P D record).wp (server.act R.faults).contract
      (Simulates P D R reg (.tokenUpsert record)) w := by
  refine wp_upsertToken (h.decodeToken record.tokenId) ?_ ?_
  · exact ⟨_, h.tokenUpsert hid hplain (fun c hc => hc) fun _ => rfl, rfl, rfl⟩
  · intro hf ds _ es hcs e
    cases ds with
    | nil => exact simulates_fault h (c := .tokenUpsert record) trivial hf e
    | cons c ds =>
        -- the canonical record has been written
        rw [upsertCalls, List.cons_append, List.cons.injEq] at hcs
        obtain ⟨rfl, hds⟩ := hcs
        refine ⟨_, h.tokenUpsert hid hplain (fun c (hc : c ∈ ds) => ?_)
          fun hix => absurd hf (R.reliable hix), Or.inr ⟨hf, trivial, Or.inr ⟨trivial, rfl⟩⟩⟩
        rw [hds]
        exact List.mem_append_left _ hc

lemma simulates_tokensForUser (h : Represents P D R w reg) (u : String)
    (hplain : R.plain → IsSegment u) :
    (VaultTokenRepository.listForUser P D u).wp (server.act R.faults).contract
      (Simulates P D R reg (.tokensForUser u)) w := by
  have hfault := fun hf e => simulates_fault h (c := .tokensForUser u) trivial hf e
  rw [VaultTokenRepository.listForUser, Prog.wp_bind, wp_listSecrets]
  refine ⟨?_, hfault⟩
  rw [Prog.onReturn_ok]
  refine wp_recordsOf (fun key _ => h.decodeToken _) ?_ hfault
  exact simulates_read h (fun hR hf => h.lists_owned hR hf (hplain hR)) rfl

/-- Every repository call over Vault is one that the contract allows. -/
lemma vault_simulates (hsigns : D.SignsIn R) (h : Represents P D R w reg) (c : RepoCall)
    (howes : c.Owes R) :
    (vaultProgram P D c).wp (server.act R.faults).contract (Simulates P D R reg c) w := by
  have hfault := fun hc hf e => simulates_fault h (c := c) hc hf e
  cases c with
  | profileGet u =>
      refine (wp_getRecord _ _ _).mpr ⟨?_, hfault trivial⟩
      rw [h.profiles, decodeRecord_map deserializeProfile_serializeProfile]
      exact simulates_read h rfl rfl
  | profileUpsert profile =>
      refine (Prog.wp_bind _ _ _ _).mpr ((wp_writeSecret _ _ _).mpr ⟨?_, hfault trivial⟩)
      exact ⟨_, h.profileUpsert howes, rfl, rfl⟩
  | isRegistered u =>
      refine (wp_secretExists _ _).mpr ⟨?_, hfault trivial⟩
      rw [h.profiles, Option.isSome_map]
      exact simulates_read h rfl rfl
  | groupGet g =>
      refine (wp_getRecord _ _ _).mpr ⟨?_, hfault trivial⟩
      rw [h.groups, decodeRecord_map deserializeGroup_serializeGroup]
      exact simulates_read h rfl rfl
  | groupUpsert group =>
      refine (Prog.wp_bind _ _ _ _).mpr ((wp_writeSecret _ _ _).mpr ⟨?_, hfault trivial⟩)
      exact ⟨_, h.groupUpsert group, rfl, rfl⟩
  | membershipAdd membership => exact simulates_membershipAdd h membership howes
  | membershipRemove u g => exact simulates_membershipRemove h u g
  | hasMembership u g => exact simulates_hasMembership h u g
  | membershipsForUser u =>
      obtain ⟨ms, hlists, hload⟩ := h.loadMemberships u
      refine (wp_loadMemberships _ _).mpr ⟨?_, hfault trivial⟩
      rw [hload]
      exact simulates_read h hlists rfl
  | countMembers g => exact simulates_countMembers h g
  | tokenGet t =>
      refine (wp_getRecord _ _ _).mpr ⟨?_, hfault trivial⟩
      rw [h.decodeToken]
      exact simulates_read h rfl rfl
  | tokenUpsert record => exact simulates_tokenUpsert h record howes.1 howes.2
  | tokensForUser u => exact simulates_tokensForUser h u howes
  | signToken request => exact simulates_signToken hsigns h request
  | publicKeyDocument => exact simulates_publicKeyDocument hsigns h
  | auditAppend event => exact (wp_auditAppend _ _).mpr ⟨_, h.auditAppend event, trivial, rfl⟩

/-- **The Vault backend implements the repository contract.** -/
theorem vault_implements (hsigns : D.SignsIn R) :
    Prog.Implements (Represents P D R) (vaultAct P D server R.faults) R.contract := by
  intro c w reg h howes r w' hrun
  exact (Prog.wp_contract_iff _ _ _).mp (vault_simulates hsigns h c howes) r w' hrun

end GofrSec
