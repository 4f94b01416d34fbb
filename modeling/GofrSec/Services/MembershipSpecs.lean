/-
What the services around groups and memberships do to the registry.

Each service method has its `...Effect`, a relation between the registry
before, the outcome and the registry after, and one theorem that every run of
the method under the repository contract stays within it:
`createGroup_effect`, `addMembership_effect`, `removeMembership_effect`,
`applyPlan_effect`, `registerSelf_effect`, `getSelfProfile_effect`;
`getSelfProfile_returns` says what a profile lists.
-/
import GofrSec.Registry.Rules
import GofrSec.Services.AdminGroup
import GofrSec.Services.Bootstrap
import GofrSec.Services.UserRegistration

namespace GofrSec

open Calls Text Regime

/-- The group is defined and active. -/
def Registry.Active (reg : Registry) (g : String) : Prop :=
  ∃ group, reg.groups.find g = some group ∧ group.isActive

variable {P : Platform} {R : Regime} {reg : Registry}

/-! ### Groups -/

/-- `create_group` fails without effect, or files a new active group, not a system
one, under the normal form of the name, which is not `admin` and was not taken. -/
def CreateGroupEffect (P : Platform) (reg : Registry) (name : String) :
    Except PyError GroupDefinition → Registry → Prop
  | .error _, reg' => reg'.Agrees reg
  | .ok group, reg' => normalizeGroupName P name = .ok group.name ∧ group.name ≠ "admin"
      ∧ reg.groups.find group.name = none ∧ group.isActive ∧ group.isSystem = false
      ∧ reg'.Agrees (RepoCall.effect (.groupUpsert group) reg)

/-- Every run of `create_group` stays within its effect: a name is looked up before a group is
filed under it, and a call that raises has filed nothing. -/
theorem createGroup_effect (name : String) (description : Option String) (actorSub : String)
    (correlationId : Option String) (clock : Clock) :
    (createGroup P name description actorSub correlationId clock).wp R.contract
      (CreateGroupEffect P reg name) reg := by
  have hfail : ∀ e event, CreateGroupEffect P reg name (.error e) (reg.audit event) :=
    fun e event => reg.audit_agrees event
  refine wp_audited ((Prog.wp_bind _ _ _ _).mpr ((Prog.wp_lift _ _ _).mpr ?_))
  cases hname : normalizeGroupName P name with
  | error e => exact hfail e
  | ok n =>
      have hn := (normalizeGroupName_eq_ok hname).1
      rw [Prog.onReturn_ok, isReservedGroup_self P hn, Prog.wp_bind, Prog.wp_lift,
        Prog.onReturn_ok]
      split_ifs with hreserved
      · exact hfail _
      · rw [Prog.wp_bind, wp_groupGet]
        refine ⟨?_, fun _ e => hfail e⟩
        rw [Prog.onReturn_ok]
        split_ifs with htaken
        · exact hfail _
        · rw [wp_groupUpsert]
          refine ⟨fun event => ⟨hname, ?_, by simpa using htaken, rfl, rfl, ?_⟩, fun _ e => hfail e⟩
          · exact fun hadmin => hreserved (decide_eq_true hadmin)
          · exact Registry.audit_agrees _ event

/-! ### Adding a member -/

/-- `add_membership` fails without effect, or returns the membership of a
registered user in an active group, which is the one there was or a new one. -/
def AddMembershipEffect (P : Platform) (reg : Registry) (u g actorSub : String)
    (clock : Clock) : Except PyError UserGroupMembership → Registry → Prop
  | .error _, reg' => reg'.Agrees reg
  | .ok m, reg' => ∃ n, normalizeGroupName P g = .ok n ∧ reg.Active n
      ∧ (reg.profiles.find u).isSome
      ∧ (reg.memberships.find (u, n) = some m ∧ reg'.Agrees reg
        ∨ reg.memberships.find (u, n) = none
          ∧ m = { keycloakSub := u
                  groupName := n
                  grantedAt := clock.now
                  grantedBySub := .str actorSub }
          ∧ reg'.Agrees (RepoCall.effect (.membershipAdd m) reg))

/-- `_find_membership` finds the membership there is. -/
lemma wp_findMembership (u g : String)
    {Q : Except PyError (Option UserGroupMembership) → Registry → Prop}
    (hok : Q (.ok (reg.memberships.find (u, g))) reg) (herr : R.faults → ∀ e, Q (.error e) reg) :
    (findMembership u g).wp R.contract Q reg := by
  rw [findMembership, Prog.wp_bind, wp_membershipsForUser]
  refine ⟨fun ms hms => ?_, fun hf e => herr hf e⟩
  rw [Prog.onReturn_ok, Prog.wp_pure]
  have hfind : ms.find? (fun m => m.groupName = g) = reg.memberships.find (u, g) := by
    cases hm : reg.memberships.find (u, g) with
    | none =>
        rw [List.find?_eq_none]
        intro m hmem hg
        have hm' := (hms.2 m).mp hmem
        rw [show m.pair = (u, g) from Prod.ext hm'.2 (of_decide_eq_true hg), hm] at hm'
        exact nomatch hm'.1
    | some m =>
        have hkey := reg.memberships.key_eq _ _ hm
        have hmem : m ∈ ms := hms.mem hm (congrArg Prod.fst hkey)
        cases hfound : ms.find? (fun m => m.groupName = g) with
        | none =>
            have hnone := List.find?_eq_none.mp hfound m hmem
            exact absurd (decide_eq_true (congrArg Prod.snd hkey)) hnone
        | some m' =>
            have hg : m'.groupName = g := by simpa using List.find?_some hfound
            have hm' := (hms.2 m').mp (List.mem_of_find?_eq_some hfound)
            rw [show m'.pair = (u, g) from Prod.ext hm'.2 hg, hm] at hm'
            exact hm'.1.symm
  rw [hfind]
  exact hok

/-- The group of a membership call must be there and active. -/
lemma wp_requireActiveGroup (g : String) {Q : Except PyError GroupDefinition → Registry → Prop}
    (hok : ∀ group, reg.groups.find g = some group → group.isActive → Q (.ok group) reg)
    (hinactive : ¬ reg.Active g → ∀ e, Q (.error e) reg)
    (herr : R.faults → ∀ e, Q (.error e) reg) :
    (requireActiveGroup g).wp R.contract Q reg := by
  rw [requireActiveGroup, Prog.wp_bind, wp_groupGet]
  refine ⟨?_, fun hf e => herr hf e⟩
  rw [Prog.onReturn_ok]
  cases hg : reg.groups.find g with
  | none => exact hinactive (fun ⟨group, hfind, _⟩ => nomatch hg.symm.trans hfind) _
  | some group =>
      dsimp only
      split_ifs with hactive
      · exact hok group hg hactive
      · refine hinactive (fun ⟨group', hfind, hactive'⟩ => hactive ?_) _
        rw [Option.some.inj (hg.symm.trans hfind)]
        exact hactive'

/-- So does every run of `add_membership`: it adds a membership only past the checks of the
group and of the user, and only where there is none yet. -/
theorem addMembership_effect (u g actorSub : String) (correlationId : Option String)
    (clock : Clock) (hplain : R.plain → IsSegment u) :
    (addMembership P u g actorSub correlationId clock).wp R.contract
      (AddMembershipEffect P reg u g actorSub clock) reg := by
  have hfail : ∀ e event, AddMembershipEffect P reg u g actorSub clock (.error e)
      (reg.audit event) := fun e event => reg.audit_agrees event
  refine wp_audited ((Prog.wp_bind _ _ _ _).mpr ((Prog.wp_lift _ _ _).mpr ?_))
  cases hname : normalizeGroupName P g with
  | error e => exact hfail e
  | ok n =>
      rw [Prog.onReturn_ok, Prog.wp_bind]
      refine wp_requireActiveGroup n (fun group hgroup hactive => ?_) (fun _ e => hfail e)
        fun _ e => hfail e
      rw [Prog.onReturn_ok, Prog.wp_bind, wp_isRegistered]
      refine ⟨?_, fun _ e => hfail e⟩
      rw [Prog.onReturn_ok]
      split_ifs with hregistered
      · rw [Prog.wp_bind]
        refine wp_findMembership u n ?_ fun _ e => hfail e
        rw [Prog.onReturn_ok]
        cases hm : reg.memberships.find (u, n) with
        | some m =>
            intro event
            exact ⟨n, hname, ⟨group, hgroup, hactive⟩, hregistered,
              Or.inl ⟨hm, reg.audit_agrees event⟩⟩
        | none =>
            refine (wp_membershipAdd _ _).mpr ⟨hplain, fun event => ?_, fun _ e => hfail e⟩
            exact ⟨n, hname, ⟨group, hgroup, hactive⟩, hregistered,
              Or.inr ⟨hm, rfl, Registry.audit_agrees _ event⟩⟩
      · exact hfail _

/-! ### Removing a member -/

/-- The error of a removal that would leave no admin. -/
def lastAdminError : PyError := .lastAdminRemoval "At least one admin membership must remain"

/-- `remove_membership` removes an existing membership, or fails without
effect. It does not take the last admin away; and while storage does not fail,
that is the only membership of an active group that it does not remove. -/
def RemoveMembershipEffect {α : Type} (P : Platform) (R : Regime) (reg : Registry)
    (u g : String) : Except PyError α → Registry → Prop
  | .error e, reg' => reg'.Agrees reg ∧ (R.faults ∨ ∀ n, normalizeGroupName P g = .ok n →
      reg.Active n → reg.Member u n → R.plain →
        n = "admin" ∧ (∀ v, reg.IsAdmin v → v = u) ∧ e = lastAdminError)
  | .ok _, reg' => ∃ n, normalizeGroupName P g = .ok n ∧ reg.Member u n
      ∧ (n = "admin" → R.plain → ∃ v, v ≠ u ∧ reg.IsAdmin v)
      ∧ reg'.Agrees (RepoCall.effect (.membershipRemove u n) reg)

/-- The members that a listing of a group shows. -/
lemma Registry.mem_lists_group {reg : Registry} {g : String} {ms : List UserGroupMembership}
    (h : reg.memberships.Lists (·.groupName = g) ms) (v : String) :
    reg.Member v g ↔ ∃ m ∈ ms, m.keycloakSub = v := by
  constructor
  · rintro ⟨m, hm⟩
    have hkey := reg.memberships.key_eq _ _ hm
    exact ⟨m, h.mem hm (congrArg Prod.snd hkey), congrArg Prod.fst hkey⟩
  · rintro ⟨m, hm, rfl⟩
    have hm' := (h.2 m).mp hm
    refine ⟨m, ?_⟩
    rw [← hm'.2]
    exact hm'.1

/-- A group has at most one member exactly when a listing of it has at most one
entry, given that `u` is one of them. -/
lemma Registry.only_member_iff {reg : Registry} {u g : String} {ms : List UserGroupMembership}
    (h : reg.memberships.Lists (·.groupName = g) ms) (hu : reg.Member u g) :
    (∀ v, reg.Member v g → v = u) ↔ ms.length ≤ 1 := by
  obtain ⟨m, hm, hmu⟩ := (mem_lists_group h u).mp hu
  constructor
  · intro honly
    have hall : ∀ m' ∈ ms, m' = m := by
      intro m' hm'
      have hsub := honly _ ((mem_lists_group h _).mpr ⟨m', hm', rfl⟩)
      have h₁ := (h.2 m').mp hm'
      have h₂ := (h.2 m).mp hm
      have hpair : m'.pair = m.pair := Prod.ext (hsub.trans hmu.symm) (h₁.2.trans h₂.2.symm)
      exact Option.some.inj (h₁.1.symm.trans (hpair ▸ h₂.1))
    have hnodup := h.nodup
    match ms, hall, hnodup with
    | [], _, _ => exact Nat.zero_le 1
    | [_], _, _ => exact le_refl 1
    | a :: b :: rest, hall, hnodup =>
        have hab : a = b := (hall a (by simp)).trans (hall b (by simp)).symm
        exact absurd (hab ▸ List.mem_cons_self) (List.nodup_cons.mp hnodup).1
  · intro hlen v hv
    obtain ⟨m', hm', rfl⟩ := (mem_lists_group h v).mp hv
    have hpos := List.length_pos_of_mem hm
    obtain ⟨a, rfl⟩ := List.length_eq_one_iff.mp (show ms.length = 1 by omega)
    rw [List.mem_singleton.mp hm', ← List.mem_singleton.mp hm, hmu]

/-- The removal itself, once the guard has passed. -/
lemma wp_remove_effect {u g n : String} {m : UserGroupMembership}
    (hname : normalizeGroupName P g = .ok n) (hm : reg.memberships.find (u, n) = some m)
    (hguard : n = "admin" → R.plain → ∃ v, v ≠ u ∧ reg.IsAdmin v) :
    (do
      let removed ← membershipRemove u n
      if removed then pure n else throw (membershipNotFound u n) : RepoProg String).wp R.contract
      (fun r reg' => ∀ event, RemoveMembershipEffect P R reg u g r (reg'.audit event)) reg := by
  refine (Prog.wp_bind _ _ _ _).mpr ((wp_membershipRemove _ _ _).mpr ⟨?_, ?_⟩)
  · rw [Prog.onReturn_ok, hm, Option.isSome_some, if_pos rfl]
    exact fun event => ⟨n, hname, ⟨m, hm⟩, hguard, Registry.audit_agrees _ event⟩
  · exact fun hf e event => ⟨reg.audit_agrees event, Or.inl hf⟩

lemma removeMembershipBody_effect (u g : String) :
    (removeMembershipBody P u g).wp R.contract
      (fun r reg' => ∀ event, RemoveMembershipEffect P R reg u g r (reg'.audit event)) reg := by
  have hfault : R.faults → ∀ e event, RemoveMembershipEffect (α := String) P R reg u g (.error e)
      (reg.audit event) := fun hf e event => ⟨reg.audit_agrees event, Or.inl hf⟩
  refine (Prog.wp_bind _ _ _ _).mpr ((Prog.wp_lift _ _ _).mpr ?_)
  cases hname : normalizeGroupName P g with
  | error e =>
      exact fun event => ⟨reg.audit_agrees event, Or.inr fun n hn => nomatch hname.symm.trans hn⟩
  | ok n =>
      have hsame : ∀ n', normalizeGroupName P g = .ok n' → n' = n :=
        fun n' hn' => Except.ok.inj (hn'.symm.trans hname)
      rw [Prog.onReturn_ok, Prog.wp_bind]
      refine wp_requireActiveGroup n (fun group hgroup hactive => ?_) (fun hinactive e event => ?_)
        hfault
      swap
      · refine ⟨reg.audit_agrees event, Or.inr fun n' hn' hactive => ?_⟩
        exact absurd (hsame n' hn' ▸ hactive) hinactive
      rw [Prog.onReturn_ok, Prog.wp_bind]
      refine wp_findMembership u n ?_ hfault
      rw [Prog.onReturn_ok]
      cases hm : reg.memberships.find (u, n) with
      | none =>
          -- no such membership: one of two errors
          have hnone : ∀ e event, RemoveMembershipEffect (α := String) P R reg u g (.error e)
              (reg.audit event) := by
            refine fun e event => ⟨reg.audit_agrees event, Or.inr fun n' hn' _ hmember => ?_⟩
            obtain ⟨m, hfind⟩ := hmember
            rw [hsame n' hn', hm] at hfind
            exact nomatch hfind
          refine (Prog.wp_bind _ _ _ _).mpr ((wp_isRegistered _ _).mpr ⟨?_, fun _ e => hnone e⟩)
          rw [Prog.onReturn_ok]
          split_ifs with hregistered
          · exact hnone _
          · exact hnone _
      | some m =>
          dsimp only
          split_ifs with hadmin
          · refine (Prog.wp_bind _ _ _ _).mpr ((wp_countMembers _ _).mpr
              ⟨fun count hcount => ?_, hfault⟩)
            rw [Prog.onReturn_ok, Prog.wp_bind, Prog.wp_lift, ensureAdminMembershipRemains]
            have hmember : reg.Member u "admin" := ⟨m, by rw [← hm, hadmin]; rfl⟩
            split_ifs with hlast
            · -- the guard refuses: one admin was counted
              intro event
              refine ⟨reg.audit_agrees event, Or.inr fun n' hn' _ _ hR => ?_⟩
              obtain ⟨ms, hms, rfl⟩ := hcount hR
              refine ⟨(hsame n' hn').trans hadmin, ?_, rfl⟩
              exact (Registry.only_member_iff hms hmember).mpr (by omega)
            · refine wp_remove_effect hname hm fun _ hR => ?_
              obtain ⟨ms, hms, rfl⟩ := hcount hR
              by_contra hnone
              have honly : ∀ v, reg.Member v "admin" → v = u := by
                intro v hv
                by_contra hne
                exact hnone ⟨v, hne, hv⟩
              have hlen := (Registry.only_member_iff hms hmember).mp honly
              omega
          · exact wp_remove_effect hname hm fun h => absurd h hadmin

/-- So does every run of `remove_membership`, whose effect is that of its body: the audit
event around it changes no record. -/
theorem removeMembership_effect (u g actorSub : String) (correlationId : Option String)
    (clock : Clock) :
    (removeMembership P u g actorSub correlationId clock).wp R.contract
      (RemoveMembershipEffect P R reg u g) reg := by
  rw [removeMembership, Prog.wp_bind]
  refine wp_audited (Prog.wp_mono (fun r reg' h event => ?_) (removeMembershipBody_effect u g))
  cases r with
  | ok _ => exact h event
  | error e => exact h event

/-! ### Start-up -/

/-- `apply_plan` defines `admin` if it is missing and then makes admins of the
subjects that are none; nothing else changes, a plan that completes has done all
of it, and only storage keeps it from that. -/
structure ApplyPlanEffect (R : Regime) (reg : Registry) (subjects : List String)
    (createdAt : DateTime) (grantedAt : String → DateTime) (r : Except PyError BootstrapPlan)
    (reg' : Registry) : Prop where
  profiles : reg'.profiles = reg.profiles
  tokens : reg'.tokens = reg.tokens
  groups : reg'.groups = reg.groups ∨ reg.groups.find "admin" = none
    ∧ reg'.groups = reg.groups.insert (buildReservedAdminGroup createdAt)
  memberships : ∀ u g, reg'.memberships.find (u, g) = reg.memberships.find (u, g) ∨
    reg.memberships.find (u, g) = none ∧ g = "admin" ∧ u ∈ normalizeSubjects subjects
      ∧ reg'.memberships.find (u, g) = some
        { keycloakSub := u
          groupName := "admin"
          grantedAt := grantedAt u
          grantedBySub := .null }
  reserved : (∃ group, reg'.groups.find "admin" = some group) ∨ reg'.memberships = reg.memberships
  completes : ∀ plan, r = .ok plan → (∃ group, reg'.groups.find "admin" = some group)
    ∧ ∀ u ∈ normalizeSubjects subjects, reg'.IsAdmin u
  raises : ∀ e, r = .error e → R.faults

/-- The loop over the subjects. -/
lemma wp_ensureAdminMembers {grantedAt : String → DateTime} {subs : List String}
    (hplain : R.plain → ∀ u ∈ subs, IsSegment u) {Q : Except PyError Unit → Registry → Prop}
    (hQ : ∀ r reg', reg'.profiles = reg.profiles → reg'.tokens = reg.tokens →
      reg'.groups = reg.groups →
      (∀ u g, reg'.memberships.find (u, g) = reg.memberships.find (u, g) ∨
        reg.memberships.find (u, g) = none ∧ g = "admin" ∧ u ∈ subs
          ∧ reg'.memberships.find (u, g) = some
            { keycloakSub := u
              groupName := "admin"
              grantedAt := grantedAt u
              grantedBySub := .null }) →
      (r = .ok () → ∀ u ∈ subs, reg'.IsAdmin u) → (∀ e, r = .error e → R.faults) → Q r reg') :
    (ensureAdminMembers grantedAt subs).wp R.contract Q reg := by
  induction subs generalizing reg Q with
  | nil => exact hQ _ _ rfl rfl rfl (fun _ _ => Or.inl rfl) (by simp) (by simp)
  | cons s subs ih =>
      have hfault : R.faults → ∀ e, Q (.error e) reg :=
        fun hf e => hQ _ _ rfl rfl rfl (fun _ _ => Or.inl rfl) (by simp) fun _ _ => hf
      have hsubs : R.plain → ∀ u ∈ subs, IsSegment u :=
        fun hR u hu => hplain hR u (List.mem_cons_of_mem _ hu)
      rw [ensureAdminMembers, Prog.wp_bind, wp_hasMembership]
      refine ⟨?_, fun hf e => hfault hf e⟩
      rw [Prog.onReturn_ok]
      cases hs : reg.memberships.find (s, reservedAdminGroup) with
      | some m =>
          refine ih hsubs fun r reg' hp ht hg hm hc he => hQ r reg' hp ht hg ?_ ?_ he
          · intro u g
            rcases hm u g with h | ⟨h, hga, hu, h'⟩
            · exact Or.inl h
            · exact Or.inr ⟨h, hga, List.mem_cons_of_mem _ hu, h'⟩
          · intro hr u hu
            rcases List.mem_cons.mp hu with rfl | hu
            · rcases hm u reservedAdminGroup with h | ⟨h, -⟩
              · exact ⟨m, h.trans hs⟩
              · exact nomatch hs.symm.trans h
            · exact hc hr u hu
      | none =>
          refine (Prog.wp_bind _ _ _ _).mpr ((wp_membershipAdd _ _).mpr
            ⟨fun hR => hplain hR s List.mem_cons_self, ?_, fun hf e => hfault hf e⟩)
          refine ih hsubs fun r reg' hp ht hg hm hc he => hQ r reg' hp ht hg ?_ ?_ he
          · intro u g
            by_cases hkey : (u, g) = (s, reservedAdminGroup)
            · obtain ⟨rfl, rfl⟩ := Prod.mk.inj hkey
              refine Or.inr ⟨hs, rfl, List.mem_cons_self, ?_⟩
              rcases hm u reservedAdminGroup with h | ⟨h, -⟩
              · rw [h]
                exact Keyed.find_insert_self _ _
              · exact absurd h (by simp [RepoCall.effect])
            · have hsame := Keyed.find_insert_of_ne reg.memberships (v :=
                { keycloakSub := s
                  groupName := reservedAdminGroup
                  grantedAt := grantedAt s
                  grantedBySub := .null }) hkey
              rcases hm u g with h | ⟨h, hga, hu, h'⟩
              · exact Or.inl (h.trans hsame)
              · exact Or.inr ⟨hsame.symm.trans h, hga, List.mem_cons_of_mem _ hu, h'⟩
          · intro hr u hu
            rcases List.mem_cons.mp hu with rfl | hu
            · rcases hm u reservedAdminGroup with h | ⟨h, -⟩
              · exact ⟨_, h.trans (Keyed.find_insert_self _ _)⟩
              · exact absurd h (by simp [RepoCall.effect])
            · exact hc hr u hu

/-- So does every run of `apply_plan`, also one that is cut short: what it has filed by then
is part of the plan. -/
theorem applyPlan_effect (subjects : List String) (createdAt : DateTime)
    (grantedAt : String → DateTime)
    (hplain : R.plain → ∀ u ∈ normalizeSubjects subjects, IsSegment u) :
    (applyPlan subjects createdAt grantedAt).wp R.contract
      (ApplyPlanEffect R reg subjects createdAt grantedAt) reg := by
  have hfault : R.faults → ∀ e,
      ApplyPlanEffect R reg subjects createdAt grantedAt (.error e) reg := fun hf e =>
    ⟨rfl, rfl, Or.inl rfl, fun _ _ => Or.inl rfl, Or.inr rfl, (fun _ h => nomatch h), fun _ _ => hf⟩
  simp only [applyPlan, buildPlan, ensureReservedGroups]
  refine (Prog.wp_bind _ _ _ _).mpr ((Prog.wp_bind _ _ _ _).mpr ((wp_groupGet _ _).mpr
    ⟨?_, fun hf e => hfault hf e⟩))
  rw [Prog.onReturn_ok]
  cases hadmin : reg.groups.find (buildReservedAdminGroup createdAt).name with
  | some group =>
      refine (Prog.wp_bind _ _ _ _).mpr (wp_ensureAdminMembers hplain ?_)
      intro r reg' hp ht hg hm hc he
      have hdefined : reg'.groups.find "admin" = some group := hg ▸ hadmin
      cases r with
      | error e =>
          exact ⟨hp, ht, Or.inl hg, hm, Or.inl ⟨group, hdefined⟩, (fun _ h => nomatch h),
            fun _ _ => he e rfl⟩
      | ok _ =>
          exact ⟨hp, ht, Or.inl hg, hm, Or.inl ⟨group, hdefined⟩,
            fun _ _ => ⟨⟨group, hdefined⟩, hc rfl⟩, fun _ h => nomatch h⟩
  | none =>
      refine (Prog.wp_bind _ _ _ _).mpr ((wp_groupUpsert _ _).mpr ⟨?_, fun hf e => hfault hf e⟩)
      refine (Prog.wp_bind _ _ _ _).mpr (wp_ensureAdminMembers hplain ?_)
      intro r reg' hp ht hg hm hc he
      have hdefined : reg'.groups.find "admin" = some (buildReservedAdminGroup createdAt) := by
        rw [hg]
        exact Keyed.find_insert_self _ _
      cases r with
      | error e =>
          exact ⟨hp, ht, Or.inr ⟨hadmin, hg⟩, hm, Or.inl ⟨_, hdefined⟩, (fun _ h => nomatch h),
            fun _ _ => he e rfl⟩
      | ok _ =>
          exact ⟨hp, ht, Or.inr ⟨hadmin, hg⟩, hm, Or.inl ⟨_, hdefined⟩,
            fun _ _ => ⟨⟨_, hdefined⟩, hc rfl⟩, fun _ h => nomatch h⟩

/-! ### Profiles -/

/-- `register_self` files a profile under the caller's own subject, or fails
without effect. -/
def RegisterSelfEffect (reg : Registry) (u : String) :
    Except PyError RegistrationResult → Registry → Prop
  | .error _, reg' => reg'.Agrees reg
  | .ok result, reg' => result.profile.keycloakSub = u
      ∧ reg'.Agrees (RepoCall.effect (.profileUpsert result.profile) reg)

lemma refreshedProfile_keycloakSub (existing : Option UserProfile) (identity : VerifiedIdentity)
    (timestamp : DateTime) :
    (refreshedProfile existing identity timestamp).keycloakSub = identity.subject := by
  cases existing <;> rfl

/-- Every run of `register_self` stays within its effect: it raises before it has filed the
profile, or not at all. -/
theorem registerSelf_effect (identity : VerifiedIdentity) (correlationId : Option String)
    (clock : Clock) (hplain : R.plain → IsSegment identity.subject) :
    (registerSelf identity correlationId clock).wp R.contract
      (RegisterSelfEffect reg identity.subject) reg := by
  have hsub := refreshedProfile_keycloakSub (reg.profiles.find identity.subject) identity clock.now
  rw [registerSelf, Prog.wp_bind, wp_profileGet]
  refine ⟨?_, fun _ e => .refl reg⟩
  rw [Prog.onReturn_ok, Prog.wp_bind]
  refine wp_audited ((wp_profileUpsert _ _).mpr ⟨?_, ?_, ?_⟩)
  · intro hR
    rw [hsub]
    exact hplain hR
  · exact fun event => ⟨hsub, Registry.audit_agrees _ event⟩
  · exact fun _ e event => reg.audit_agrees event

/-- `get_self_profile` only reads. -/
theorem getSelfProfile_effect (identity : VerifiedIdentity) :
    (getSelfProfile identity).wp R.contract (fun _ reg' => reg' = reg) reg := by
  rw [getSelfProfile, Prog.wp_bind, wp_profileGet]
  refine ⟨?_, fun _ e => rfl⟩
  rw [Prog.onReturn_ok, Prog.wp_bind, wp_membershipsForUser]
  refine ⟨fun ms _ => ?_, fun _ e => rfl⟩
  rw [Prog.onReturn_ok]
  cases reg.profiles.find identity.subject <;> rfl

/-- While storage does not fail, `get_self_profile` lists the groups of the user, in
order and each once. -/
theorem getSelfProfile_returns (hfaults : ¬ R.faults) (identity : VerifiedIdentity) :
    (getSelfProfile identity).wp R.contract (fun r _ => ∃ view, r = .ok view
      ∧ view.groups.Pairwise (· ≤ ·) ∧ view.groups.Nodup
      ∧ ∀ g, g ∈ view.groups ↔ reg.Member identity.subject g) reg := by
  rw [getSelfProfile, Prog.wp_bind, wp_profileGet]
  refine ⟨?_, fun hf => absurd hf hfaults⟩
  rw [Prog.onReturn_ok, Prog.wp_bind, wp_membershipsForUser]
  refine ⟨fun ms hms => ?_, fun hf => absurd hf hfaults⟩
  rw [Prog.onReturn_ok]
  have hperm := List.perm_insertionSort (· ≤ ·) (ms.map UserGroupMembership.groupName)
  have hsorted := List.pairwise_insertionSort (· ≤ ·) (ms.map UserGroupMembership.groupName)
  have hnodup := Registry.nodup_groupName hms
  have hmem : ∀ g, g ∈ (ms.map UserGroupMembership.groupName).insertionSort (· ≤ ·)
      ↔ reg.Member identity.subject g := by
    intro g
    rw [hperm.mem_iff, List.mem_map, Registry.mem_lists_user hms]
  cases reg.profiles.find identity.subject with
  | none => exact ⟨_, rfl, hsorted, hperm.nodup_iff.mpr hnodup, hmem⟩
  | some profile => exact ⟨_, rfl, hsorted, hperm.nodup_iff.mpr hnodup, hmem⟩

end GofrSec
