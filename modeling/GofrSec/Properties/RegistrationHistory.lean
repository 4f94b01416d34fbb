/-
A profile is the fold of its user's registrations.

* `registrationsOf`: the registrations of a subject in a history;
* `lastText`: the last text that they claim under a name;
* `Folded`: what a profile has to be after them;
* `registerSelf_exact`: what one registration returns and stores;
* `Storage.OnlyProfile`: nothing but the profile of one user has changed;
* `registration_history`: after any run each registered user's profile is folded, the
  first registration and no other has created it, and none touches anything else.
-/
import GofrSec.Properties.FailedRegistration

namespace GofrSec

open Calls Text

variable {P : Platform}

/-- A registration, by its claims and its time. -/
structure Registration where
  claims : Doc
  time : DateTime

/-- The registrations of `u` in a history, the newest first. -/
def registrationsOf (u : String) : OpHistory → List Registration
  | [] => []
  | (.registerSelf identity _ clock, _) :: h =>
      if identity.subject = u then ⟨identity.claims, clock.now⟩ :: registrationsOf u h
      else registrationsOf u h
  | _ :: h => registrationsOf u h

/-- The text that a registration claims under a name, if it is one and not blank. -/
def textClaim (name : String) (registration : Registration) : Option String :=
  match registration.claims.field name with
  | some (.str text) => if strip text = "" then none else some text
  | _ => none

/-- The last text that was claimed under a name, `None` if there was none. -/
def lastText (name : String) (registrations : List Registration) : Json :=
  Json.ofOption (registrations.findSome? (textClaim name))

/-- The profile of `u` after its registrations, the newest first. -/
structure Folded (u : String) (registrations : List Registration) (profile : UserProfile) :
    Prop where
  keycloakSub : profile.keycloakSub = u
  registeredAt : registrations.getLast?.map (·.time) = some profile.registeredAt
  updatedAt : registrations.head?.map (·.time) = some profile.updatedAt
  displayName : profile.displayName = lastText "name" registrations
  email : profile.email = lastText "email" registrations

/-- A registration after the operations `older` has returned, and reports that it has made
the profile exactly if it is the first of its subject. -/
def Reported (older : OpHistory) : Op → Except PyError Value → Prop
  | .registerSelf identity _ _, r => ∃ result : RegistrationResult,
      r = .ok (.registration result)
        ∧ (result.registrationStatus = .created ↔ registrationsOf identity.subject older = [])
  | _, _ => True

/-- Nothing that the stores answer has changed but the profile of `u`. -/
structure Storage.OnlyProfile (P : Platform) (st : Storage) (u : String) (s s' : st.State) :
    Prop where
  profiles : ∀ v, v ≠ u → st.profileAt P s' v = st.profileAt P s v
  memberships : ∀ v, st.membershipsAt P s' v = st.membershipsAt P s v
  groups : ∀ g, st.groupAt P s' g = st.groupAt P s g
  tokens : ∀ t, st.tokenAt P s' t = st.tokenAt P s t

/-! ### One registration -/

/-- `_string_claim` is what a registration claims. -/
lemma stringClaim_eq (name : String) (registration : Registration) :
    stringClaim registration.claims name = Json.ofOption (textClaim name registration) := by
  rw [stringClaim, textClaim]
  cases registration.claims.field name with
  | none => rfl
  | some value =>
      cases value with
      | str text =>
          dsimp only
          split_ifs <;> rfl
      | _ => rfl

/-- A text that is claimed is not empty. -/
lemma ne_empty_of_textClaim {name text : String} {registration : Registration}
    (h : textClaim name registration = some text) : text ≠ "" := by
  rintro rfl
  rw [textClaim] at h
  split at h
  · split_ifs at h with hblank
    rw [Option.some.inj h] at hblank
    exact hblank (by decide)
  · cases h

/-- A claimed text is taken over, and otherwise what was there before. -/
lemma orElse_stringClaim (name : String) (registration : Registration)
    (older : List Registration) : orElse (stringClaim registration.claims name)
      (lastText name older) = lastText name (registration :: older) := by
  rw [stringClaim_eq, lastText, lastText, List.findSome?_cons]
  cases hclaim : textClaim name registration with
  | none => rfl
  | some text => simp [orElse, Json.ofOption, Json.truthy, ne_empty_of_textClaim hclaim]

lemma first_text (name : String) (registration : Registration) :
    stringClaim registration.claims name = lastText name [registration] := by
  rw [stringClaim_eq, lastText, List.findSome?_cons]
  cases textClaim name registration <;> rfl

/-- The first registration makes the profile. -/
lemma folded_first (identity : VerifiedIdentity) (time : DateTime) :
    Folded identity.subject [⟨identity.claims, time⟩] (refreshedProfile none identity time) where
  keycloakSub := rfl
  registeredAt := rfl
  updatedAt := rfl
  displayName := first_text "name" ⟨identity.claims, time⟩
  email := first_text "email" ⟨identity.claims, time⟩

/-- A later one refreshes it. -/
lemma Folded.next {identity : VerifiedIdentity} {older : List Registration} {old : UserProfile}
    (h : Folded identity.subject older old) (time : DateTime) :
    Folded identity.subject (⟨identity.claims, time⟩ :: older)
      (refreshedProfile (some old) identity time) where
  keycloakSub := rfl
  registeredAt := by
    have hregistered := h.registeredAt
    rw [List.getLast?_cons]
    cases hlast : older.getLast? with
    | none =>
        rw [hlast] at hregistered
        cases hregistered
    | some first =>
        rw [hlast] at hregistered
        exact hregistered
  updatedAt := rfl
  displayName := by
    rw [← orElse_stringClaim, ← h.displayName]
    rfl
  email := by
    rw [← orElse_stringClaim, ← h.email]
    rfl

/-- Without failures a registration returns the profile that it makes of the stored one,
stores it, and reports whether there was one. -/
lemma registerSelf_exact {R : Regime} {reg : Registry} (hfaults : ¬ R.faults)
    (identity : VerifiedIdentity) (correlationId : Option String) (clock : Clock)
    (hplain : R.plain → IsSegment identity.subject) :
    (registerSelf identity correlationId clock).wp R.contract (fun r reg' =>
      let existing := reg.profiles.find identity.subject
      let profile := refreshedProfile existing identity clock.now
      r = .ok { profile := profile, registrationStatus := statusOf existing }
        ∧ reg'.Agrees (RepoCall.effect (.profileUpsert profile) reg)) reg := by
  rw [registerSelf_eq, Prog.wp_bind, Regime.wp_profileGet]
  refine ⟨?_, fun hf => absurd hf hfaults⟩
  rw [Prog.onReturn_ok, Prog.wp_bind]
  refine Regime.wp_audited ((Regime.wp_profileUpsert _ _).mpr ⟨fun hR => ?_, fun event => ?_, ?_⟩)
  · rw [refreshedProfile_keycloakSub]
    exact hplain hR
  · exact ⟨rfl, Registry.audit_agrees _ event⟩
  · exact fun hf => absurd hf hfaults

/-! ### The whole history -/

/-- What the registry and the answers have to be after a history. -/
structure Recorded (h : OpHistory) (reg : Registry) : Prop where
  unregistered : ∀ u, registrationsOf u h = [] → reg.profiles.find u = none
  registered : ∀ u, registrationsOf u h ≠ [] → ∃ profile, reg.profiles.find u = some profile
    ∧ Folded u (registrationsOf u h) profile
  reported : ∀ newer o r older, h = newer ++ (o, r) :: older → Reported older o r

/-- An operation that is no registration registers nobody. -/
lemma registrationsOf_other {o : Op} {r : Except PyError Value} {h : OpHistory} (u : String)
    (ho : ∀ identity correlationId clock, o ≠ .registerSelf identity correlationId clock) :
    registrationsOf u ((o, r) :: h) = registrationsOf u h := by
  cases o with
  | registerSelf identity correlationId clock => exact absurd rfl (ho _ _ _)
  | _ => rfl

/-- It changes no profile. -/
lemma Op.Change.profiles_other {R : Regime} {o : Op} {reg reg' : Registry}
    (h : o.Change P R reg reg')
    (ho : ∀ identity correlationId clock, o ≠ .registerSelf identity correlationId clock) :
    reg'.profiles = reg.profiles := by
  cases h with
  | same h => exact h.profiles
  | planned h => exact h.profiles
  | registered _ h => exact absurd rfl (ho _ _ _)
  | created _ _ _ h => exact h.profiles
  | added _ _ _ _ _ h => exact h.profiles
  | removed _ _ _ h => exact h.profiles
  | minted _ h => exact h.profiles
  | revoked _ h => exact h.profiles

/-- The newest operation has to report rightly, and those before it have. -/
lemma reported_cons {o : Op} {r : Except PyError Value} {h : OpHistory} {reg : Registry}
    (hrecorded : Recorded h reg) (hhead : Reported h o r) :
    ∀ newer o' r' older, (o, r) :: h = newer ++ (o', r') :: older → Reported older o' r' := by
  intro newer o' r' older hsplit
  cases newer with
  | nil =>
      obtain ⟨hpair, rfl⟩ := List.cons.inj hsplit
      obtain ⟨rfl, rfl⟩ := Prod.mk.inj hpair
      exact hhead
  | cons _ newer => exact hrecorded.reported newer o' r' older (List.cons.inj hsplit).2

/-- An operation that is no registration keeps what is recorded. -/
lemma Recorded.other {R : Regime} {o : Op} {r : Except PyError Value} {h : OpHistory}
    {reg reg' : Registry} (hrecorded : Recorded h reg) (hchange : o.Change P R reg reg')
    (ho : ∀ identity correlationId clock, o ≠ .registerSelf identity correlationId clock) :
    Recorded ((o, r) :: h) reg' where
  unregistered := by
    intro u hnone
    rw [registrationsOf_other u ho] at hnone
    rw [hchange.profiles_other ho]
    exact hrecorded.unregistered u hnone
  registered := by
    intro u hne
    rw [registrationsOf_other u ho] at hne ⊢
    rw [hchange.profiles_other ho]
    exact hrecorded.registered u hne
  reported := by
    refine reported_cons hrecorded ?_
    cases o with
    | registerSelf identity correlationId clock => exact absurd rfl (ho _ _ _)
    | _ => trivial

/-- The profile that a registration makes is folded from the older ones and itself. -/
lemma Recorded.folded {h : OpHistory} {reg : Registry} (hrecorded : Recorded h reg)
    (identity : VerifiedIdentity) (time : DateTime) :
    Folded identity.subject (⟨identity.claims, time⟩ :: registrationsOf identity.subject h)
      (refreshedProfile (reg.profiles.find identity.subject) identity time) := by
  by_cases hnone : registrationsOf identity.subject h = []
  · rw [hnone, hrecorded.unregistered _ hnone]
    exact folded_first identity time
  · obtain ⟨old, hold, hfolded⟩ := hrecorded.registered _ hnone
    rw [hold]
    exact hfolded.next time

/-- The status that a registration reports says whether it is the first. -/
lemma Recorded.status {h : OpHistory} {reg : Registry} (hrecorded : Recorded h reg) (u : String) :
    statusOf (reg.profiles.find u) = .created ↔ registrationsOf u h = [] := by
  by_cases hnone : registrationsOf u h = []
  · rw [hrecorded.unregistered u hnone]
    exact iff_of_true rfl hnone
  · obtain ⟨old, hold, -⟩ := hrecorded.registered u hnone
    rw [hold]
    exact iff_of_false (by rintro ⟨⟩) hnone

/-- A registration files the folded profile of its subject and reports rightly. -/
lemma Recorded.registration {h : OpHistory} {reg reg' : Registry} (hrecorded : Recorded h reg)
    (identity : VerifiedIdentity) (correlationId : Option String) (clock : Clock)
    (hprofiles : reg'.profiles = reg.profiles.insert
      (refreshedProfile (reg.profiles.find identity.subject) identity clock.now)) :
    Recorded ((.registerSelf identity correlationId clock, .ok (.registration
      { profile := refreshedProfile (reg.profiles.find identity.subject) identity clock.now
        registrationStatus := statusOf (reg.profiles.find identity.subject) })) :: h) reg' where
  unregistered := by
    intro u hnone
    rw [registrationsOf] at hnone
    split_ifs at hnone with hu
    rw [hprofiles, Keyed.find_insert_of_ne, hrecorded.unregistered u hnone]
    rw [refreshedProfile_keycloakSub]
    exact fun h => hu h.symm
  registered := by
    intro u hne
    by_cases hu : identity.subject = u
    · subst hu
      rw [registrationsOf, if_pos rfl, hprofiles]
      refine ⟨_, ?_, hrecorded.folded identity clock.now⟩
      rw [Keyed.find_insert, if_pos (refreshedProfile_keycloakSub _ _ _).symm]
    · rw [registrationsOf, if_neg hu] at hne ⊢
      rw [hprofiles, Keyed.find_insert_of_ne]
      · exact hrecorded.registered u hne
      · rw [refreshedProfile_keycloakSub]
        exact fun h => hu h.symm
  reported := reported_cons hrecorded ⟨_, rfl, hrecorded.status identity.subject⟩

/-- **Every operation keeps what is recorded**, while storage does not fail. -/
lemma Recorded.step {h : OpHistory} {reg : Registry} (hrecorded : Recorded h reg)
    (hsound : reg.Sound (runRegime False False)) (o : Op) (hvalid : o.Valid False) :
    (o.prog P).wp (runRegime False False).contract
      (fun r reg' => reg'.Sound (runRegime False False) ∧ Recorded ((o, r) :: h) reg') reg := by
  cases o with
  | registerSelf identity correlationId clock =>
      refine (Prog.wp_map _ _ _ _).mpr (Prog.wp_mono ?_
        (registerSelf_exact id identity correlationId clock hvalid))
      rintro _ reg' ⟨rfl, hagrees⟩
      have hchange : (Op.registerSelf identity correlationId clock).Change P
          (runRegime False False) reg reg' :=
        .registered (refreshedProfile_keycloakSub _ _ _) hagrees
      exact ⟨hchange.sound hsound hvalid,
        hrecorded.registration identity correlationId clock hagrees.profiles⟩
  | _ =>
      refine Prog.wp_mono (fun r reg' heffect => ?_) (op_effect hsound _ hvalid)
      refine ⟨heffect.change.sound hsound hvalid, hrecorded.other heffect.change ?_⟩
      rintro _ _ _ ⟨⟩

/-! ### What a registration leaves alone -/

variable {st : Storage}

namespace Storage.OnlyProfile

variable {u : String}

lemma refl (s : st.State) : OnlyProfile P st u s s :=
  ⟨fun _ _ => rfl, fun _ => rfl, fun _ => rfl, fun _ => rfl⟩

lemma trans {s₁ s₂ s₃ : st.State} (h₁ : OnlyProfile P st u s₁ s₂)
    (h₂ : OnlyProfile P st u s₂ s₃) : OnlyProfile P st u s₁ s₃ where
  profiles := fun v hv => (h₂.profiles v hv).trans (h₁.profiles v hv)
  memberships := fun v => (h₂.memberships v).trans (h₁.memberships v)
  groups := fun g => (h₂.groups g).trans (h₁.groups g)
  tokens := fun t => (h₂.tokens t).trans (h₁.tokens t)

/-- Over Vault the profile has a document of its own. -/
lemma of_read {D : VaultDeployment} {server : VaultServer} {w w' : VaultWorld}
    (h : ∀ k, k ≠ D.paths.userProfilePath u → w'.read k = w.read k) :
    OnlyProfile P (.vault D server) u w w' where
  profiles := by
    intro v hv
    have hread := h (D.paths.userProfilePath v) fun heq => hv (D.paths.userProfilePath_inj heq)
    rw [profileAt_vault, profileAt_vault, hread]
  memberships := by
    intro v
    have hread := h (D.paths.userGroupsPath v) (D.paths.userProfilePath_ne_userGroupsPath u v).symm
    rw [membershipsAt_vault, membershipsAt_vault, hread]
  groups := by
    intro g
    have hread := h (D.paths.groupDefinitionPath g) (D.paths.ne_of_area (by decide)
      (D.paths.under_groupDefinitionPath g) (D.paths.under_userProfilePath u))
    rw [groupAt_vault, groupAt_vault, hread]
  tokens := by
    intro t
    have hread := h (D.paths.tokenPath t) (D.paths.ne_of_area (by decide)
      (D.paths.under_tokenPath t) (D.paths.under_userProfilePath u))
    rw [tokenAt_vault, tokenAt_vault, hread]

lemma profileUpsert (profile : UserProfile) (s : st.State) :
    OnlyProfile P st profile.keycloakSub s (st.exec P (.profileUpsert profile) s).2 := by
  cases st with
  | memory C signer =>
      refine ⟨fun v hv => ?_, fun _ => rfl, fun _ => rfl, fun _ => rfl⟩
      exact congrArg Except.ok (Dict.get_set_of_ne _ _ hv)
  | vault D server => exact of_read fun k hk => VaultWorld.read_write_of_ne _ _ hk

lemma auditAppend (event : AuditEvent) (s : st.State) :
    OnlyProfile P st u s (st.exec P (.auditAppend event) s).2 := by
  cases st with
  | memory C signer => exact ⟨fun _ _ => rfl, fun _ => rfl, fun _ => rfl, fun _ => rfl⟩
  | vault D server => exact of_read fun k _ => VaultWorld.read_append _ _ k

/-- **A registration touches nothing but the profile of its subject**, in any state. -/
lemma registerSelf (identity : VerifiedIdentity) (correlationId : Option String) (clock : Clock)
    (s : st.State) : OnlyProfile P st identity.subject s
      ((registerSelf identity correlationId clock).run (st.exec P) s).2 := by
  have huses : (GofrSec.registerSelf identity correlationId clock).Uses fun c =>
      ∀ s, OnlyProfile P st identity.subject s (st.exec P c s).2 := by
    rw [registerSelf_eq]
    refine Prog.Uses.bind (uses_call fun s => ?_) fun existing => ?_
    · rw [exec_profileGet]
      exact refl s
    · refine Prog.Uses.bind (uses_audited (uses_call fun s => ?_) auditAppend) fun _ =>
        Prog.uses_pure _
      have hupsert := profileUpsert (P := P) (refreshedProfile existing identity clock.now) s
      rwa [refreshedProfile_keycloakSub] at hupsert
  refine (Prog.wp_graph_iff _ (fun _ s' => OnlyProfile P st identity.subject s s') s).mp ?_
  refine Prog.wp_of_uses (fun c s₁ hc h₁ => ⟨trivial, fun r s₂ hgraph => ?_⟩) huses (refl s)
  have hnext := hc s₁
  rw [show st.exec P c s₁ = (r, s₂) from hgraph] at hnext
  exact h₁.trans hnext

end Storage.OnlyProfile

end GofrSec
