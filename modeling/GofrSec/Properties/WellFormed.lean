/-
The stores are well-formed after every run.

* `PlannedIn`: a start-up plan of the history names a subject;
* `IssuedTokenRecord.WellFormed`: what a token record is like by itself;
* `WellFormed`: the six conditions between the stores; every operation keeps them
  (`wellFormed_step`), whether storage fails or not;
* `store_wellFormed`: they hold of what the stores answer after every run from empty
  stores, on either backend, and no group definition ever changes.
-/
import GofrSec.Services.Runs

namespace GofrSec

open Calls

/-- A start-up plan named the subject. -/
def PlannedIn (h : OpHistory) (u : String) : Prop :=
  ∃ subjects createdAt grantedAt r,
    (Op.applyPlan subjects createdAt grantedAt, r) ∈ h ∧ u ∈ normalizeSubjects subjects

/-- The record grants groups other than `admin`, each once, for a positive time, and
is revoked exactly when it has a time of revocation. -/
structure IssuedTokenRecord.WellFormed (record : IssuedTokenRecord) : Prop where
  nonempty : record.grantedGroups ≠ []
  nodup : record.grantedGroups.Nodup
  runtime : "admin" ∉ record.grantedGroups
  expires : ∃ t, record.expiresAt = some t ∧ record.issuedAt < t
  revoked : record.status = "revoked" ↔ record.revokedAt.isSome

/-- The conditions on the stores, and between them. -/
structure WellFormed (P : Platform) (h : OpHistory) (reg : Registry) : Prop where
  groups : ∀ g group, reg.groups.find g = some group → group.WellFormed P
  memberGroup : ∀ u g, reg.Member u g → (reg.groups.find g).isSome
  member : ∀ u g, reg.Member u g → (reg.profiles.find u).isSome ∨ g = "admin" ∧ PlannedIn h u
  tokens : ∀ t record, reg.tokens.find t = some record → record.WellFormed
  owner : ∀ t record, reg.tokens.find t = some record → (reg.profiles.find record.ownerSub).isSome
  granted : ∀ t record, reg.tokens.find t = some record →
    ∀ g ∈ record.grantedGroups, (reg.groups.find g).isSome

variable {P : Platform} {R : Regime} {reg reg' : Registry} {h : OpHistory} {o : Op}
  {r : Except PyError Value}

lemma WellFormed.empty (P : Platform) (h : OpHistory) : WellFormed P h .empty := by
  have hgroup : ∀ g group, Registry.empty.groups.find g ≠ some group := fun _ _ hg => nomatch hg
  have hmember : ∀ u g, ¬ Registry.empty.Member u g := by
    rintro u g ⟨m, hm⟩
    exact nomatch hm
  have htoken : ∀ t record, Registry.empty.tokens.find t ≠ some record := fun _ _ ht => nomatch ht
  exact ⟨fun g group hg => absurd hg (hgroup g group), fun u g hm => absurd hm (hmember u g),
    fun u g hm => absurd hm (hmember u g), fun t record ht => absurd ht (htoken t record),
    fun t record ht => absurd ht (htoken t record), fun t record ht => absurd ht (htoken t record)⟩

lemma PlannedIn.cons {u : String} (hu : PlannedIn h u) : PlannedIn ((o, r) :: h) u := by
  obtain ⟨subjects, createdAt, grantedAt, r', hmem, hsub⟩ := hu
  exact ⟨subjects, createdAt, grantedAt, r', List.mem_cons_of_mem _ hmem, hsub⟩

/-- What a mint stores is well-formed. -/
lemma MintedRecord.wellFormed {request : MintRequest} {clock : Clock} {record : IssuedTokenRecord}
    (hrecord : MintedRecord P reg request clock record) : record.WellFormed := by
  obtain ⟨-, hadmin, -, hnonempty, hnodup⟩ := hrecord.grantedGroups
  obtain ⟨t, ht, hmicros⟩ := hrecord.expiresAt
  have hpositive := hrecord.positive
  refine ⟨hnonempty, hnodup, hadmin, ⟨t, ht, ?_⟩, ?_⟩
  · rw [hrecord.issuedAt, DateTime.lt_def, hmicros]
    omega
  · rw [hrecord.status, hrecord.revokedAt]
    decide

/-- So is the revoked copy of a well-formed record. -/
lemma IssuedTokenRecord.WellFormed.revoke {record : IssuedTokenRecord} (h : record.WellFormed)
    (now : DateTime) : (revokedRecord record now).WellFormed :=
  ⟨h.nonempty, h.nodup, h.runtime, h.expires, iff_of_true rfl rfl⟩

lemma Op.Change.group_isSome (hchange : o.Change P R reg reg') {g : String}
    (hg : (reg.groups.find g).isSome) : (reg'.groups.find g).isSome := by
  obtain ⟨group, hgroup⟩ := Option.isSome_iff_exists.mp hg
  exact Option.isSome_iff_exists.mpr ⟨group, hchange.group_kept hgroup⟩

/-- The definitions after an operation. -/
lemma WellFormed.groups_step (hformed : WellFormed P h reg) (hchange : o.Change P R reg reg')
    {g : String} {group : GroupDefinition} (hg : reg'.groups.find g = some group) :
    group.WellFormed P := by
  rcases hchange.groups with heq | ⟨group', -, hgroup', heq⟩
  · exact hformed.groups g group (heq ▸ hg)
  · rw [heq, Keyed.find_insert] at hg
    split_ifs at hg
    · rw [← Option.some.inj hg]
      exact hgroup'
    · exact hformed.groups g group hg

/-- A membership after an operation is of an existing group, and of a registered user
or a subject of a plan. -/
lemma WellFormed.member_step (hformed : WellFormed P h reg) (heffect : o.Effect P R reg r reg')
    {u g : String} (hm : reg'.Member u g) : (reg'.groups.find g).isSome
      ∧ ((reg'.profiles.find u).isSome ∨ g = "admin" ∧ PlannedIn ((o, r) :: h) u) := by
  have hchange := heffect.change
  obtain ⟨m, hm⟩ := hm
  have hcase := hchange.membership u g
  rw [hm] at hcase
  generalize hfind : some m = after at hcase
  cases hcase with
  | kept =>
      have hmember : reg.Member u g := ⟨m, hfind.symm⟩
      refine ⟨hchange.group_isSome (hformed.memberGroup u g hmember), ?_⟩
      rcases hformed.member u g hmember with hu | ⟨hg, hu⟩
      · exact Or.inl (hchange.profile_kept hu)
      · exact Or.inr ⟨hg, hu.cons⟩
  | @planned subjects createdAt grantedAt hnone hg hu =>
      obtain ⟨r', -, hplan⟩ := heffect
      refine ⟨?_, Or.inr ⟨hg, subjects, createdAt, grantedAt, r, List.mem_cons_self, hu⟩⟩
      rcases hplan.reserved with ⟨group, hgroup⟩ | hsame
      · rw [hg, hgroup]
        rfl
      · rw [hsame, hnone] at hm
        exact nomatch hm
  | added hn hactive hregistered hnone =>
      obtain ⟨group, hgroup, -⟩ := hactive
      refine ⟨hchange.group_isSome ?_, Or.inl (hchange.profile_kept hregistered)⟩
      rw [hgroup]
      rfl
  | removed => exact nomatch hfind

/-- A token after an operation: one from before, one just minted, or the revoked copy
of one. -/
lemma Op.Change.token_cases (hchange : o.Change P R reg reg') {t : String}
    {record : IssuedTokenRecord} (ht : reg'.tokens.find t = some record) :
    reg.tokens.find t = some record ∨ (∃ request clock, MintedRecord P reg request clock record) ∨
      ∃ current now, reg.tokens.find t = some current ∧ record = revokedRecord current now := by
  rcases hchange.tokens with heq | ⟨request, clock, minted, -, hminted, heq⟩ |
    ⟨t', actorSub, correlationId, clock, current, -, hcurrent, heq⟩
  · exact Or.inl (heq ▸ ht)
  · rw [heq, Keyed.find_insert] at ht
    split_ifs at ht
    · rw [← Option.some.inj ht]
      exact Or.inr (Or.inl ⟨request, clock, hminted⟩)
    · exact Or.inl ht
  · have hid : current.tokenId = t' := reg.tokens.key_eq _ _ hcurrent
    rw [heq, Keyed.find_insert, show (revokedRecord current clock.now).tokenId = t' from hid] at ht
    split_ifs at ht with htt
    · rw [htt]
      exact Or.inr (Or.inr ⟨current, clock.now, hcurrent, (Option.some.inj ht).symm⟩)
    · exact Or.inl ht

/-- **Every operation keeps the stores well-formed.** -/
theorem wellFormed_step (hformed : WellFormed P h reg) (heffect : o.Effect P R reg r reg') :
    WellFormed P ((o, r) :: h) reg' := by
  have hchange := heffect.change
  refine ⟨fun g group hg => hformed.groups_step hchange hg, fun u g hm => ?_, fun u g hm => ?_,
    fun t record ht => ?_, fun t record ht => hchange.profile_kept ?_,
    fun t record ht g hg => hchange.group_isSome ?_⟩
  · exact (hformed.member_step heffect hm).1
  · exact (hformed.member_step heffect hm).2
  · rcases hchange.token_cases ht with
      hold | ⟨request, clock, hminted⟩ | ⟨current, now, hcurrent, rfl⟩
    · exact hformed.tokens t record hold
    · exact hminted.wellFormed
    · exact (hformed.tokens t current hcurrent).revoke now
  · rcases hchange.token_cases ht with
      hold | ⟨request, clock, hminted⟩ | ⟨current, now, hcurrent, rfl⟩
    · exact hformed.owner t record hold
    · rw [hminted.ownerSub]
      exact hminted.registered
    · exact hformed.owner t current hcurrent
  · rcases hchange.token_cases ht with
      hold | ⟨request, clock, hminted⟩ | ⟨current, now, hcurrent, rfl⟩
    · exact hformed.granted t record hold g hg
    · obtain ⟨-, -, hactive, -⟩ := hminted.grantedGroups
      obtain ⟨group, hgroup, -⟩ := hactive g hg
      rw [hgroup]
      rfl
    · exact hformed.granted t current hcurrent g hg

/-- **The stores are well-formed after every run.** From empty stores, on either
backend, whether storage fails or not, and at every later point of the run:
* a stored group keeps the definition that was first stored under its name, which is
  its own normal form; it is active, and of the system only under `admin`;
* a membership names a stored group, and a registered user unless it makes an admin of
  a subject of some start-up plan;
* a token has a registered owner, grants stored groups other than `admin`, at least one
  and each once, expires after it was issued, and is revoked exactly when it has a time
  of revocation. -/
theorem store_wellFormed (P : Platform) (st : Storage) (faults : Prop) {s₀ s₁ s₂ : st.State}
    {h₁ h₂ : OpHistory} (hfresh : st.Fresh s₀)
    (hfirst : Session (st.act P faults) (Op.prog P) s₀ h₁ s₁)
    (hrest : Session (st.act P faults) (Op.prog P) s₁ h₂ s₂)
    (hops₁ : ValidOps False (h₁.map Prod.fst)) (hops₂ : ValidOps False (h₂.map Prod.fst)) :
    (∀ g group, st.groupAt P s₁ g = .ok (some group) → st.groupAt P s₂ g = .ok (some group))
      ∧ (∀ g group, st.groupAt P s₂ g = .ok (some group) → group.name = g
        ∧ normalizeGroupName P g = .ok g ∧ group.isActive ∧ (group.isSystem → g = "admin"))
      ∧ (∀ u, ∃ ms, st.membershipsAt P s₂ u = .ok ms ∧ ∀ m ∈ ms, m.keycloakSub = u
        ∧ (∃ group, st.groupAt P s₂ m.groupName = .ok (some group))
        ∧ ((∃ profile, st.profileAt P s₂ u = .ok (some profile))
          ∨ m.groupName = "admin" ∧ PlannedIn (h₂ ++ h₁) u))
      ∧ ∀ t record, st.tokenAt P s₂ t = .ok (some record) → record.tokenId = t
        ∧ record.WellFormed
        ∧ (∃ profile, st.profileAt P s₂ record.ownerSub = .ok (some profile))
        ∧ ∀ g ∈ record.grantedGroups, ∃ group, st.groupAt P s₂ g = .ok (some group) := by
  obtain ⟨reg₁, hrep₁, hsound₁, hformed₁⟩ := runs_invariant faults False (WellFormed P)
    (ValidOps False) (fun _ _ hos => hos.tail) (fun _ _ hos => hos.head)
    (fun _ _ _ _ _ _ _ hformed heffect => wellFormed_step hformed heffect)
    (Storage.represents_fresh hfresh) Registry.sound_empty (WellFormed.empty P []) hfirst hops₁
  -- the run goes on from there
  obtain ⟨reg, hrep, -, hformed, hkept⟩ := runs_invariant faults False
    (fun h reg => WellFormed P (h ++ h₁) reg
      ∧ ∀ g group, reg₁.groups.find g = some group → reg.groups.find g = some group)
    (ValidOps False) (fun _ _ hos => hos.tail) (fun _ _ hos => hos.head)
    (fun _ _ _ _ _ _ _ hkept heffect => ⟨wellFormed_step hkept.1 heffect,
      fun g group hg => heffect.change.group_kept (hkept.2 g group hg)⟩)
    hrep₁ hsound₁ ⟨hformed₁, fun _ _ hg => hg⟩ hrest hops₂
  have hgroup : ∀ g, (reg.groups.find g).isSome →
      ∃ group, st.groupAt P s₂ g = .ok (some group) := by
    intro g hg
    obtain ⟨group, hgroup⟩ := Option.isSome_iff_exists.mp hg
    exact ⟨group, by rw [Storage.groupAt_eq hrep, hgroup]⟩
  have hprofile : ∀ u, (reg.profiles.find u).isSome →
      ∃ profile, st.profileAt P s₂ u = .ok (some profile) := by
    intro u hu
    obtain ⟨profile, hprofile⟩ := Option.isSome_iff_exists.mp hu
    exact ⟨profile, by rw [Storage.profileAt_eq hrep, hprofile]⟩
  refine ⟨fun g group hg => ?_, fun g group hg => ?_, fun u => ?_, fun t record ht => ?_⟩
  · rw [Storage.groupAt_eq hrep₁, Except.ok.injEq] at hg
    rw [Storage.groupAt_eq hrep, hkept g group hg]
  · rw [Storage.groupAt_eq hrep, Except.ok.injEq] at hg
    obtain ⟨hnormal, hactive, hsystem⟩ := hformed.groups g group hg
    obtain rfl := reg.groups.key_eq _ _ hg
    exact ⟨rfl, hnormal, hactive, hsystem⟩
  · obtain ⟨ms, hms, hlists⟩ := Storage.membershipsAt_lists hrep u
    refine ⟨ms, hms, fun m hm => ?_⟩
    obtain ⟨hfind, rfl⟩ := (hlists.2 m).mp hm
    have hmember : reg.Member m.keycloakSub m.groupName := ⟨m, hfind⟩
    refine ⟨rfl, hgroup _ (hformed.memberGroup _ _ hmember), ?_⟩
    exact (hformed.member _ _ hmember).imp_left (hprofile _)
  · rw [Storage.tokenAt_eq hrep, Except.ok.injEq] at ht
    refine ⟨reg.tokens.key_eq _ _ ht, hformed.tokens t record ht, hprofile _ ?_, fun g hg => ?_⟩
    · exact hformed.owner t record ht
    · exact hgroup g (hformed.granted t record ht g hg)

/-- The token that `teamDay` mints over Vault has a registered owner. -/
theorem store_wellFormed_teamDay :
    ∃ profile, (Storage.vault .python .inOrder).profileAt .python
      (play ((Storage.vault .python .inOrder).exec .python) (Op.prog .python)
        VaultWorld.empty teamDay).2 "alice" = .ok (some profile) := by
  have hstored : (Storage.vault .python .inOrder).tokenAt .python
      (play ((Storage.vault .python .inOrder).exec .python) (Op.prog .python)
        VaultWorld.empty teamDay).2 teamMint.tokenId = .ok (some teamRecord) := by
    decide +kernel
  obtain ⟨-, -, -, htokens⟩ := store_wellFormed .python (.vault .python .inOrder) True
    fresh_vaultEmpty (Storage.session_of_exec (play_trace _ teamDay).session) .start
    (by rw [map_fst_play]; exact validOps_teamDay) (fun _ ho => nomatch ho)
  obtain ⟨-, -, howner, -⟩ := htokens _ _ hstored
  exact howner

end GofrSec
