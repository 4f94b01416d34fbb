/-
No privilege escalation, whatever server processes share a Vault.

* `wp_next`, `wp_quiet`, `wp_auditedAuthority`: the rules of the contract of authority;
* `returns_prepareMint_minted`: what a mint prepares is what its request asks for;
* one lemma for each service method that stores something, and `honest_request` for
  every route: it owes nothing that it does not have, and its success is honest;
* `secure_activity`: whatever a server process does, it does by the protocol.
-/
import GofrSec.Properties.AuthorityCalls
import GofrSec.Properties.Provenance

namespace GofrSec

open Calls Protocol Text VaultPathLayout

variable {π : Type} {V : SharedVault} {p : π} {a : Activity} {L : ServerLedger π}

namespace Authority

/-! ### The rules of the contract -/

section

variable {α β : Type}

/-- A call, and what follows it. -/
lemma wp_next {c : RepoCall} {f : c.Res → RepoProg β} {Q : Except PyError β → ServerLedger π → Prop}
    (hdue : Due V p a c L)
    (herr : ∀ e L', (authority V).Leads p L L' → Q (.error e) L')
    (hok : ∀ v L', (authority V).Leads p L L' → Sound V L' → Attested V p a c (.ok v) L' →
      (f v).wp (authorityContract V p a) Q L') :
    (RepoCall.perform c >>= f).wp (authorityContract V p a) Q L := by
  refine (wp_telling_bind c f Q).mpr ⟨hdue, fun r L' hleads htold => ?_⟩
  have hsound : Sound V L' := keeps_sound.leads hdue.sound hleads
  cases r with
  | ok v => exact hok v L' hleads hsound htold
  | error e => exact herr e L' hleads

/-- A program, and what follows it. -/
lemma wp_then {c : RepoProg α} {f : α → RepoProg β} {Q : Except PyError α → ServerLedger π → Prop}
    {Q' : Except PyError β → ServerLedger π → Prop} (hsound : Sound V L)
    (hc : c.wp (authorityContract V p a) Q L) (herr : ∀ e L', Q' (.error e) L')
    (hok : ∀ v L', (authority V).Leads p L L' → Sound V L' → Q (.ok v) L' →
      (f v).wp (authorityContract V p a) Q' L') :
    (c >>= f).wp (authorityContract V p a) Q' L := by
  rw [Prog.wp_bind]
  refine Prog.wp_mono (fun r L' ⟨hleads, hpost⟩ => ?_) (wp_telling_leads .refl hc)
  cases r with
  | ok v => exact hok v L' hleads (keeps_sound.leads hsound hleads) hpost
  | error e => exact herr e L'

/-- A call with nothing after it. -/
lemma wp_last {c : RepoCall} (hdue : Due V p a c L) :
    (RepoCall.perform c).wp (authorityContract V p a) (fun _ _ => True) L :=
  (Prog.wp_perform _ _ _).mpr ⟨hdue, fun _ _ _ => trivial⟩

lemma due_of_not_stores {c : RepoCall} (hc : ¬ c.Stores) (hsound : Sound V L) :
    Due V p a c L := by
  cases c with
  | profileUpsert profile => exact absurd trivial hc
  | groupUpsert group => exact absurd trivial hc
  | membershipAdd m => exact absurd trivial hc
  | membershipRemove u g => exact absurd trivial hc
  | tokenUpsert record => exact absurd trivial hc
  | _ => exact hsound

/-- A program that stores nothing owes nothing. -/
lemma wp_quiet {c : RepoProg α} (hc : c.Uses fun i => ¬ i.Stores) (hsound : Sound V L) :
    c.wp (authorityContract V p a) (fun _ _ => True) L := by
  refine Prog.wp_mono (fun _ _ _ => trivial) (Prog.wp_of_uses (I := Sound V) ?_ hc hsound)
  intro i L' hi hsound'
  exact ⟨due_of_not_stores hi hsound', fun r L'' hpost => keeps_sound.leads hsound' hpost.1⟩

/-- The frame of a service method keeps what its body has established. -/
lemma wp_auditedAuthority {body : RepoProg α} {failure : AuditEvent} {success : α → AuditEvent}
    {Q : Except PyError α → ServerLedger π → Prop} (hQ : ∀ r, (authority V).KeepsWithin p (Q r))
    (hsound : Sound V L) (h : body.wp (authorityContract V p a) Q L) :
    (audited body failure success).wp (authorityContract V p a) Q L := by
  rw [audited, Prog.wp_handle]
  refine Prog.wp_mono (fun r L' hout => ?_) (wp_telling_leads .refl h)
  obtain ⟨hleads, hpost⟩ := hout
  have hsound' : Sound V L' := keeps_sound.leads hsound hleads
  have happend : ∀ event (out : Except PyError α), Q out L' →
      (auditAppend event >>= fun _ => Prog.done out).wp (authorityContract V p a) Q L' := by
    intro event out hout
    refine (wp_telling_bind (RepoCall.auditAppend event) _ Q).mpr ⟨hsound', ?_⟩
    rintro r' L'' hleads' rfl
    exact (Prog.wp_done _ _ _).mpr ((hQ out).leads hout hleads')
  cases r with
  | ok v => exact happend (success v) (.ok v) hpost
  | error e => exact happend failure (.error e) hpost

/-- The frame of a service method owes nothing more than its body. -/
lemma wp_auditedQuiet {body : RepoProg α} {failure : AuditEvent} {success : α → AuditEvent}
    (hsound : Sound V L) (h : body.wp (authorityContract V p a) (fun _ _ => True) L) :
    (audited body failure success).wp (authorityContract V p a) (fun _ _ => True) L :=
  wp_auditedAuthority (fun _ _ _ _ _ _ => trivial) hsound h

/-- A computation, and what follows it. -/
lemma wp_lift_bind {x : Except PyError α} {f : α → RepoProg β}
    {Q : Except PyError β → ServerLedger π → Prop} (herr : ∀ e, Q (.error e) L)
    (h : ∀ v, x = .ok v → (f v).wp (authorityContract V p a) Q L) :
    (Prog.lift x >>= f).wp (authorityContract V p a) Q L := by
  rw [Prog.wp_bind, Prog.wp_lift]
  cases x with
  | ok v => exact h v rfl
  | error e => exact herr e

end

/-! ### The service methods that store -/

/-- The caller of a route for admins may change what the route is about. -/
lemma rightful_of_vouched {app : AppState} {q : Request} {u : String} {key : RecordKey}
    (hcontrols : (Activity.serve app q).Controls V.platform key) (hsubject : q.subject = some u)
    (hvouched : Vouched V p (.serve app q) u L) : Rightful V p (.serve app q) key L :=
  ⟨hcontrols, fun _ => ⟨u, hsubject, hvouched⟩⟩

section

variable {app : AppState} {identity : VerifiedIdentity} {correlationId : Option String}
  {clock : Clock}

lemma wp_ensureAdminMembers {subjects : List String} {createdAt : DateTime}
    {grantedAt : String → DateTime} {subs : List String}
    (hsubs : ∀ u ∈ subs, u ∈ normalizeSubjects subjects) (hsound : Sound V L)
    (hgroup : V.HasGroup (V.documents L) "admin") :
    (ensureAdminMembers grantedAt subs).wp
      (authorityContract V p (.startUp subjects createdAt grantedAt)) (fun _ _ => True) L := by
  induction subs generalizing L with
  | nil => trivial
  | cons u subs ih =>
      have hu := hsubs u List.mem_cons_self
      have hrest := fun v hv => hsubs v (List.mem_cons_of_mem _ hv)
      refine wp_next hsound (fun _ _ _ => trivial) fun member L₁ hleads hsound₁ htold => ?_
      have hgroup₁ := (keeps_hasGroup "admin").leads hgroup hleads
      have hran := (htold member rfl).1
      dsimp only
      split_ifs
      · refine wp_next ⟨hsound₁, ⟨Or.inr ⟨u, hu, rfl⟩, trivial⟩, ?_⟩ (fun _ _ _ => trivial)
          fun _ L₂ hleads' hsound₂ _ => ?_
        · exact .planned hran hu rfl rfl hgroup₁
        · exact ih hrest hsound₂ ((keeps_hasGroup "admin").leads hgroup₁ hleads')
      · exact ih hrest hsound₁ hgroup₁

lemma wp_applyPlan {subjects : List String} {createdAt : DateTime}
    {grantedAt : String → DateTime} (hsound : Sound V L) :
    (applyPlan subjects createdAt grantedAt).wp
      (authorityContract V p (.startUp subjects createdAt grantedAt)) (fun _ _ => True) L := by
  have hmembers : ∀ L', Sound V L' → V.HasGroup (V.documents L') "admin" →
      (ensureAdminMembers grantedAt (normalizeSubjects subjects) >>= fun _ =>
        (pure (buildPlan subjects createdAt) : RepoProg BootstrapPlan)).wp
        (authorityContract V p (.startUp subjects createdAt grantedAt)) (fun _ _ => True) L' := by
    intro L' hsound' hgroup
    exact wp_then hsound' (wp_ensureAdminMembers (fun _ h => h) hsound' hgroup)
      (fun _ _ => trivial) fun _ _ _ _ _ => trivial
  rw [applyPlan, buildPlan, ensureReservedGroups, bind_assoc]
  refine wp_next hsound (fun _ _ _ => trivial) fun found L₁ _ hsound₁ htold => ?_
  obtain ⟨hran, hfound⟩ := htold found rfl
  cases found with
  | some group => exact hmembers L₁ hsound₁ (hfound rfl)
  | none =>
      simp only [Option.isNone_none, if_true, bind_assoc]
      refine wp_next ⟨hsound₁, ⟨Or.inl rfl, trivial⟩, .planned hran⟩ (fun _ _ _ => trivial)
        fun _ L₂ _ hsound₂ htold => ?_
      exact hmembers L₂ hsound₂ (htold rfl)

lemma wp_registerSelf (hsound : Sound V L) :
    (registerSelf identity correlationId clock).wp
      (authorityContract V p (.serve app (.registerMe identity correlationId clock)))
      (fun _ _ => True) L := by
  refine wp_next hsound (fun _ _ _ => trivial) fun existing L₁ _ hsound₁ hran => ?_
  refine wp_then hsound₁ (wp_auditedQuiet hsound₁ (wp_last ⟨hsound₁, ?_, ?_⟩))
    (fun _ _ => trivial) fun _ _ _ _ _ => trivial
  · refine ⟨?_, by rintro ⟨⟩⟩
    rw [refreshedProfile_keycloakSub]
    exact rfl
  · refine .registered (hran rfl) (refreshedProfile_keycloakSub existing identity clock.now) ?_
    cases existing <;> rfl

lemma wp_createGroup {name : String} {description : Option String} (hsound : Sound V L)
    (hvouched : Vouched V p (.serve app
      (.createGroup identity name description correlationId clock)) identity.subject L) :
    (createGroup V.platform name description identity.subject correlationId clock).wp
      (authorityContract V p (.serve app
        (.createGroup identity name description correlationId clock))) (fun _ _ => True) L := by
  refine wp_auditedQuiet hsound (wp_lift_bind (fun _ => trivial) fun n hname => ?_)
  rw [isReservedGroup_self V.platform (normalizeGroupName_eq_ok hname).1]
  refine wp_lift_bind (fun _ => trivial) fun reserved hreserved => ?_
  obtain rfl := Except.ok.inj hreserved
  split_ifs with hadmin
  · trivial
  · have hne : n ≠ "admin" := fun h => hadmin (decide_eq_true h)
    refine wp_next hsound (fun _ _ _ => trivial) fun existing L₁ hleads hsound₁ _ => ?_
    split_ifs
    · trivial
    · have hvouched₁ := (within_vouched _).leads hvouched hleads
      refine wp_last ⟨hsound₁, ?_, .created (.now hvouched₁) hname hne rfl rfl rfl⟩
      exact rightful_of_vouched ⟨n, hname, hne, rfl⟩ rfl hvouched₁

/-- The group that a request names, once it is found. -/
lemma wp_requireActiveGroup {β : Type} {g : String} {f : GroupDefinition → RepoProg β}
    (hsound : Sound V L)
    (hf : ∀ group L', (authority V).Leads p L L' → Sound V L' → V.HasGroup (V.documents L') g →
      (f group).wp (authorityContract V p a) (fun _ _ => True) L') :
    (requireActiveGroup g >>= f).wp (authorityContract V p a) (fun _ _ => True) L := by
  rw [requireActiveGroup, bind_assoc]
  refine wp_next hsound (fun _ _ _ => trivial) fun found L₁ hleads hsound₁ htold => ?_
  obtain ⟨-, hgroup⟩ := htold found rfl
  cases found with
  | none => trivial
  | some group =>
      dsimp only
      split_ifs
      · exact hf group L₁ hleads hsound₁ (hgroup rfl)
      · trivial

lemma wp_addMembership {u g : String} (hsound : Sound V L)
    (hvouched : Vouched V p (.serve app
      (.addGroupMembership identity u g correlationId clock)) identity.subject L) :
    (addMembership V.platform u g identity.subject correlationId clock).wp
      (authorityContract V p (.serve app
        (.addGroupMembership identity u g correlationId clock))) (fun _ _ => True) L := by
  refine wp_auditedQuiet hsound (wp_lift_bind (fun _ => trivial) fun n hname => ?_)
  refine wp_requireActiveGroup hsound fun _ L₁ hleads₁ hsound₁ hgroup => ?_
  refine wp_next hsound₁ (fun _ _ _ => trivial) fun registered L₂ hleads₂ hsound₂ htold => ?_
  split_ifs with hregistered
  · have hprofile := htold (congrArg Except.ok hregistered)
    rw [findMembership, bind_assoc]
    refine wp_next hsound₂ (fun _ _ _ => trivial) fun ms L₃ hleads₃ hsound₃ _ => ?_
    rw [pure_bind]
    split
    · trivial
    · have hvouched₃ := (within_vouched _).leads hvouched (hleads₁.trans (hleads₂.trans hleads₃))
      have hprofile₃ := (keeps_hasProfile u).leads hprofile hleads₃
      have hgroup₃ := (keeps_hasGroup n).leads hgroup (hleads₂.trans hleads₃)
      refine wp_last ⟨hsound₃, rightful_of_vouched rfl rfl hvouched₃, ?_⟩
      exact .granted (.now hvouched₃) hname rfl rfl hprofile₃ hgroup₃
  · trivial

lemma wp_removeMembership {u g : String} (hsound : Sound V L)
    (hvouched : Vouched V p (.serve app
      (.removeGroupMembership identity u g correlationId clock)) identity.subject L) :
    (removeMembership V.platform u g identity.subject correlationId clock).wp
      (authorityContract V p (.serve app
        (.removeGroupMembership identity u g correlationId clock))) (fun _ _ => True) L := by
  have hremove : ∀ n L', (authority V).Leads p L L' → Sound V L' → (do
      let removed ← membershipRemove u n
      if removed then pure n else throw (membershipNotFound u n) : RepoProg String).wp
        (authorityContract V p (.serve app
          (.removeGroupMembership identity u g correlationId clock))) (fun _ _ => True) L' := by
    intro n L' hleads hsound'
    refine wp_next ⟨hsound', ?_⟩ (fun _ _ _ => trivial) fun removed L'' _ _ _ => ?_
    · exact rightful_of_vouched rfl rfl ((within_vouched _).leads hvouched hleads)
    · split_ifs
      · trivial
      · trivial
  refine wp_then hsound (wp_auditedQuiet hsound (wp_lift_bind (fun _ => trivial) fun n _ => ?_))
    (fun _ _ => trivial) fun _ _ _ _ _ => trivial
  refine wp_requireActiveGroup hsound fun _ L₁ hleads₁ hsound₁ _ => ?_
  rw [findMembership, bind_assoc]
  refine wp_next hsound₁ (fun _ _ _ => trivial) fun ms L₂ hleads₂ hsound₂ _ => ?_
  rw [pure_bind]
  have hleads := hleads₁.trans hleads₂
  split
  · refine wp_next hsound₂ (fun _ _ _ => trivial) fun registered L₃ _ _ _ => ?_
    split_ifs
    · trivial
    · trivial
  · split_ifs
    · refine wp_next hsound₂ (fun _ _ _ => trivial) fun count L₃ hleads₃ hsound₃ _ => ?_
      refine wp_lift_bind (fun _ => trivial) fun _ _ => ?_
      exact hremove n L₃ (hleads.trans hleads₃) hsound₃
    · exact hremove n L₂ hleads hsound₂

lemma wp_revokeToken {t : String} (hsound : Sound V L)
    (hvouched : Vouched V p (.serve app
      (.revokeToken identity t correlationId clock)) identity.subject L) :
    (revokeToken t identity.subject correlationId clock).wp
      (authorityContract V p (.serve app
        (.revokeToken identity t correlationId clock))) (fun _ _ => True) L := by
  refine wp_auditedQuiet hsound ?_
  rw [revokeTokenBody, getTokenOrRaise, bind_assoc]
  refine wp_next hsound (fun _ _ _ => trivial) fun found L₁ hleads hsound₁ htold => ?_
  cases found with
  | none => trivial
  | some current =>
      obtain ⟨-, rfl, hjust⟩ := htold current rfl
      rw [pure_bind]
      split_ifs with hstatus
      · trivial
      · have hvouched₁ := (within_vouched _).leads hvouched hleads
        refine wp_last ⟨hsound₁, fun key hkey => ?_, .revoked hjust hstatus (.now hvouched₁)⟩
        exact rightful_of_vouched hkey rfl hvouched₁

/-- The names that pass the lookup are those looked up, each once. -/
lemma returns_lookUpGroups_iff (seen names : List String) :
    (lookUpGroups seen names).Returns fun ns =>
      (∀ n, n ∈ ns ↔ n ∈ names ∧ n ∉ seen) ∧ ns.Nodup := by
  induction names generalizing seen with
  | nil => exact ⟨by simp, List.nodup_nil⟩
  | cons g names ih =>
      rw [lookUpGroups]
      split_ifs with hseen
      · refine (ih seen).mono fun ns hfound => ⟨fun n => ?_, hfound.2⟩
        rw [hfound.1, List.mem_cons]
        constructor
        · exact fun h => ⟨Or.inr h.1, h.2⟩
        · rintro ⟨rfl | hn, hnseen⟩
          · exact absurd hseen hnseen
          · exact ⟨hn, hnseen⟩
      · refine Prog.Returns.bind (Prog.returns_true _) fun found _ => ?_
        cases found with
        | none => trivial
        | some group =>
            dsimp only
            split_ifs
            · refine Prog.Returns.bind (ih (g :: seen)) fun ns hfound => ?_
              obtain ⟨hns, hnodup⟩ := hfound
              refine ⟨fun n => ?_, ?_⟩
              · rw [List.mem_cons, hns, List.mem_cons, List.mem_cons]
                constructor
                · rintro (rfl | ⟨hn, hnseen⟩)
                  · exact ⟨Or.inl rfl, hseen⟩
                  · exact ⟨Or.inr hn, fun h => hnseen (Or.inr h)⟩
                · rintro ⟨hn, hnseen⟩
                  by_cases heq : n = g
                  · exact Or.inl heq
                  · exact Or.inr ⟨hn.resolve_left heq, not_or.mpr ⟨heq, hnseen⟩⟩
              · refine List.nodup_cons.mpr ⟨fun hmem => ?_, hnodup⟩
                exact ((hns g).mp hmem).2 List.mem_cons_self
            · trivial

/-- What a mint prepares is what its request asks for. -/
lemma returns_prepareMint_minted (P : Platform) (request : MintRequest) (clock : Clock) :
    (prepareMint P request clock.now).Returns fun prepared =>
      Minted P request clock prepared.1 := by
  refine Prog.Returns.bind (Prog.returns_true _) fun registered _ => ?_
  split_ifs with _ hlifetime
  · exact Prog.Returns.bind (Prog.returns_true _) fun _ _ => trivial
  · refine Prog.Returns.bind (V := fun ns =>
      (∀ n, n ∈ ns ↔ ∃ name ∈ request.groups, normalizeGroupName P name = .ok n) ∧ "admin" ∉ ns
        ∧ ns ≠ [] ∧ ns.Nodup) ?_ fun ns ⟨hns, hadmin, hne, hnodup⟩ => ?_
    · refine Prog.Returns.bind (Prog.returns_lift fun names hnames => hnames) fun names hnames => ?_
      obtain ⟨hmap, hadmin⟩ := ensureRuntimeGroupsAllowed_eq_ok hnames
      split_ifs with hempty
      · trivial
      · refine (returns_lookUpGroups_iff [] names).mono fun ns ⟨hns, hnodup⟩ =>
          ⟨fun n => ?_, fun h => hadmin ((hns _).mp h).1, ?_, hnodup⟩
        · rw [hns, and_iff_left List.not_mem_nil]
          exact mem_of_mapM_normalizeGroupName hmap n
        · rintro rfl
          refine hempty (List.eq_nil_iff_forall_not_mem.mpr fun n hn => ?_)
          exact List.not_mem_nil ((hns n).mpr ⟨hn, List.not_mem_nil⟩)
    · refine Prog.Returns.bind (Prog.returns_lift fun t ht => ht) fun expiresAt hexpires => ?_
      refine Prog.Returns.bind (Prog.returns_true _) fun rawToken _ => ?_
      refine Prog.Returns.bind (Prog.returns_true _) fun hash _ => ?_
      exact
        { tokenId := rfl
          ownerSub := rfl
          mem_groups := hns
          runtime := hadmin
          nonempty := hne
          nodup := hnodup
          status := rfl
          issuedAt := rfl
          positive := not_le.mp hlifetime
          expiresAt := ⟨expiresAt, rfl, DateTime.addSeconds_eq_ok hexpires⟩
          issuedBySub := rfl
          revokedAt := rfl }
  · trivial

/-- The groups that pass the lookup are defined. -/
lemma wp_lookUpGroups {seen names : List String} (hsound : Sound V L) :
    (lookUpGroups seen names).wp (authorityContract V p a)
      (fun r L' => ∀ ns, r = .ok ns → ∀ n ∈ ns, V.HasGroup (V.documents L') n) L := by
  induction names generalizing seen L with
  | nil =>
      rintro _ ⟨⟩ n hn
      cases hn
  | cons g names ih =>
      rw [lookUpGroups]
      split_ifs
      · exact ih hsound
      · refine wp_next hsound (by rintro _ _ _ _ ⟨⟩) fun found L₁ _ hsound₁ htold => ?_
        obtain ⟨-, hgroup⟩ := htold found rfl
        cases found with
        | none => rintro _ ⟨⟩
        | some group =>
            dsimp only
            split_ifs
            · refine wp_then hsound₁ (ih hsound₁) (by rintro _ _ _ ⟨⟩)
                fun ns L₂ hleads _ hns => ?_
              rintro _ ⟨⟩
              refine List.forall_mem_cons.mpr ⟨?_, hns ns rfl⟩
              exact (keeps_hasGroup g).leads (hgroup rfl) hleads
            · rintro _ ⟨⟩

lemma wp_validateGroups {groups : List String} (hsound : Sound V L) :
    (validateGroups V.platform groups).wp (authorityContract V p a)
      (fun r L' => ∀ ns, r = .ok ns → ∀ n ∈ ns, V.HasGroup (V.documents L') n) L := by
  refine wp_lift_bind (by rintro _ _ ⟨⟩) fun names _ => ?_
  split_ifs
  · rintro _ ⟨⟩
  · exact wp_lookUpGroups hsound

/-- A mint prepares a token of a registered owner, for defined groups. -/
lemma wp_prepareMint {request : MintRequest} {issuedAt : DateTime} (hsound : Sound V L) :
    (prepareMint V.platform request issuedAt).wp (authorityContract V p a)
      (fun r L' => ∀ prepared, r = .ok prepared →
        V.HasProfile (V.documents L') request.ownerSub
          ∧ ∀ g ∈ prepared.1.grantedGroups, V.HasGroup (V.documents L') g) L := by
  rw [prepareMint]
  refine wp_next hsound (by rintro _ _ _ _ ⟨⟩) fun registered L₁ _ hsound₁ htold => ?_
  split_ifs with hregistered hlifetime
  · exact wp_then hsound₁ (Q := fun _ _ => True)
      (Prog.wp_mono (fun _ _ _ => trivial) (wp_validateGroups hsound₁)) (by rintro _ _ _ ⟨⟩)
      (by rintro _ _ _ _ _ _ ⟨⟩)
  · have hprofile := htold (congrArg Except.ok hregistered)
    refine wp_then hsound₁ (wp_validateGroups hsound₁) (by rintro _ _ _ ⟨⟩)
      fun ns L₂ hleads₂ hsound₂ hns => ?_
    refine wp_lift_bind (by rintro _ _ ⟨⟩) fun expiresAt _ => ?_
    refine wp_next hsound₂ (by rintro _ _ _ _ ⟨⟩) fun rawToken L₃ hleads₃ hsound₃ _ => ?_
    refine wp_lift_bind (by rintro _ _ ⟨⟩) fun hash _ => ?_
    rintro _ ⟨⟩
    refine ⟨(keeps_hasProfile _).leads hprofile (hleads₂.trans hleads₃), fun g hg => ?_⟩
    exact (keeps_hasGroup g).leads (hns ns rfl g hg) hleads₃
  · rintro _ ⟨⟩

lemma wp_mintToken {request : MintRequest} {q : Request}
    (hop : q.op app = some (.mintToken request clock)) (hid : IsTokenId request.tokenId)
    (hcontrols : ∀ key : RecordKey, key.tokenId = some request.tokenId →
      (Activity.serve app q).Controls V.platform key)
    (hsubject : q.subject = some request.actorSub) (hsound : Sound V L)
    (hvouched : Vouched V p (.serve app q) request.actorSub L) :
    (mintToken V.platform request clock).wp (authorityContract V p (.serve app q))
      (fun _ _ => True) L := by
  refine wp_then hsound (wp_auditedQuiet hsound ?_) (fun _ _ => trivial) fun _ _ _ _ _ => trivial
  rw [mintTokenBody_eq]
  refine wp_then hsound ((returns_prepareMint_minted V.platform request clock).wp
    (wp_prepareMint hsound)) (fun _ _ => trivial) fun prepared L₁ hleads hsound₁ hpost => ?_
  obtain ⟨hprofile, hgroups⟩ := hpost.1 prepared rfl
  have hminted := hpost.2 prepared rfl
  have hvouched₁ := (within_vouched _).leads hvouched hleads
  rw [← hminted.ownerSub] at hprofile
  refine wp_next ⟨hsound₁, fun key hkey => ?_, ?_⟩ (fun _ _ _ => trivial) fun _ _ _ _ _ => trivial
  · rw [hminted.tokenId] at hkey
    exact rightful_of_vouched (hcontrols key hkey) hsubject hvouched₁
  · exact .minted hop hid (.now hvouched₁) hminted hprofile hgroups

end

/-! ### Routes -/

section

variable {app : AppState} {q : Request}

/-- A route owes nothing more than its service method. -/
lemma wp_respondQuiet {α : Type} {service : RepoProg α} {statusOf : PyError → Option ℕ}
    {success : ℕ} {body : α → Except PyError Body}
    (h : service.wp (authorityContract V p a) (fun _ _ => True) L) :
    (respond service statusOf success body).wp (authorityContract V p a) (fun _ _ => True) L := by
  rw [respond, Prog.wp_handle]
  refine Prog.wp_mono (fun r L' _ => ?_) h
  cases r with
  | ok v => exact (Prog.wp_lift _ _ _).mpr trivial
  | error e =>
      dsimp only
      cases statusOf e with
      | some status => trivial
      | none => trivial

/-- Any answer to an admin is honest, on a route for admins. -/
lemma honest_of_vouched {u : String} {r : Except PyError Outcome} (hadmin : q.isAdmin)
    (hsubject : q.subject = some u) (hvouched : Vouched V p (.serve app q) u L) :
    Honest V p L (.serve app q) r := by
  cases r with
  | error e => trivial
  | ok outcome =>
      cases outcome with
      | plan plan => trivial
      | response response =>
          cases response with
          | error status detail => trivial
          | success status body =>
              refine ⟨fun _ => ⟨u, hsubject, hvouched⟩, ?_⟩
              rintro payload correlationId clock rfl
              cases hadmin

/-- So is any answer of a route that asks for no admin and authorizes nothing. -/
lemma honest_of_open {r : Except PyError Outcome} (hopen : q.isAdmin = false)
    (hq : ∀ payload correlationId clock, q ≠ .authorizeRuntimeRequest payload correlationId clock) :
    Honest V p L (.serve app q) r := by
  cases r with
  | error e => trivial
  | ok outcome =>
      cases outcome with
      | plan plan => trivial
      | response response =>
          cases response with
          | error status detail => trivial
          | success status body =>
              refine ⟨fun hadmin => ?_, fun payload correlationId clock heq => ?_⟩
              · rw [hopen] at hadmin
                cases hadmin
              · exact absurd heq (hq payload correlationId clock)

/-- A route for admins, behind its guard. -/
lemma wp_adminRoute {identity : VerifiedIdentity} {route : RepoProg Response}
    (hadmin : q.isAdmin) (hsubject : q.subject = some identity.subject) (hsound : Sound V L)
    (hroute : ∀ L', Sound V L' → Vouched V p (.serve app q) identity.subject L' →
      route.wp (authorityContract V p (.serve app q)) (fun _ _ => True) L') :
    (requireAdminIdentity identity route).wp (authorityContract V p (.serve app q))
      (fun r L' => Honest V p L' (.serve app q) (r.map Outcome.response)) L := by
  refine wp_next hsound (fun _ _ _ => trivial) fun member L₁ _ hsound₁ htold => ?_
  split_ifs with hmember
  · have hvouched := (htold member rfl).2 hmember rfl
    refine Prog.wp_mono (fun r L' ⟨hleads, _⟩ => ?_)
      (wp_telling_leads .refl (hroute L₁ hsound₁ hvouched))
    exact honest_of_vouched hadmin hsubject ((within_vouched _).leads hvouched hleads)
  · trivial

/-- A route that asks for no admin and authorizes nothing. -/
lemma wp_openRoute {route : RepoProg Response} (hopen : q.isAdmin = false)
    (hq : ∀ payload correlationId clock, q ≠ .authorizeRuntimeRequest payload correlationId clock)
    (hroute : route.wp (authorityContract V p (.serve app q)) (fun _ _ => True) L) :
    route.wp (authorityContract V p (.serve app q))
      (fun r L' => Honest V p L' (.serve app q) (r.map Outcome.response)) L :=
  Prog.wp_mono (fun _ _ _ => honest_of_open hopen hq) hroute

/-- An authorization that allows has read a justified token that permits it. -/
lemma wp_authorize {request : AuthorizationRequest} {correlationId : Option String} {clock : Clock}
    (hsound : Sound V L) :
    (authorize request correlationId clock).wp (authorityContract V p a)
      (fun r L' => ∀ decision, r = .ok decision → decision.allowed = true →
        ∃ record, Found V p a request.tokenId record L' ∧ record.tokenId = request.tokenId
          ∧ JustifiedToken V L' record ∧ permits request clock.now record) L := by
  refine wp_then hsound (wp_auditedAuthority (Q := fun r L' => r = .ok true →
    ∃ record, Found V p a request.tokenId record L' ∧ record.tokenId = request.tokenId
      ∧ JustifiedToken V L' record ∧ permits request clock.now record)
    (fun r L₁ e h he hends hr => ?_) hsound ?_) (by rintro _ _ _ ⟨⟩) fun allowed L₁ _ _ hpost => ?_
  · obtain ⟨record, hfound, hid, hjust, hpermits⟩ := h hr
    have hjust' := keeps_justifiedToken record L₁ e hjust he
    exact ⟨record, hfound.cons hends, hid, hjust', hpermits⟩
  · refine wp_next hsound (by rintro _ _ _ ⟨⟩) fun found L₁ _ _ htold => ?_
    cases found with
    | none => rintro ⟨⟩
    | some record =>
        intro h
        obtain ⟨hfound, hid, hjust⟩ := htold record rfl
        exact ⟨record, hfound, hid, hjust, Except.ok.inj h⟩
  · rintro _ ⟨⟩ hallowed
    exact hpost (congrArg Except.ok hallowed)

/-- **Every route is honest**, and owes nothing that it does not have. -/
theorem honest_request (hdrawn : (Activity.serve app q).Drawn) (hsound : Sound V L) :
    (q.prog V.platform app).wp (authorityContract V p (.serve app q))
      (fun r L' => Honest V p L' (.serve app q) (r.map Outcome.response)) L := by
  have hread : ∀ c : RepoCall, c.Reads → ¬ c.Stores := fun c hc => hc.1
  have haudit : ∀ event, ¬ (RepoCall.auditAppend event).Stores := fun event h => h
  cases q with
  | root => exact wp_openRoute rfl (by rintro _ _ _ ⟨⟩) trivial
  | ping => exact wp_openRoute rfl (by rintro _ _ _ ⟨⟩) trivial
  | status => exact wp_openRoute rfl (by rintro _ _ _ ⟨⟩) trivial
  | createGroup identity name description correlationId clock =>
      refine wp_adminRoute rfl rfl hsound fun L' hsound' hvouched => wp_respondQuiet ?_
      exact wp_createGroup hsound' hvouched
  | addGroupMembership identity u g correlationId clock =>
      refine wp_adminRoute rfl rfl hsound fun L' hsound' hvouched => wp_respondQuiet ?_
      exact wp_addMembership hsound' hvouched
  | removeGroupMembership identity u g correlationId clock =>
      refine wp_adminRoute rfl rfl hsound fun L' hsound' hvouched => wp_respondQuiet ?_
      exact wp_removeMembership hsound' hvouched
  | createToken identity u groups expiresInSeconds t correlationId clock =>
      refine wp_adminRoute rfl rfl hsound fun L' hsound' hvouched => ?_
      rw [withTokenSigner]
      split_ifs
      · refine wp_respondQuiet (wp_mintToken rfl ?_ (fun key hkey => hkey) rfl hsound' hvouched)
        exact (hdrawn _ rfl).1
      · trivial
  | getToken identity t correlationId clock =>
      refine wp_adminRoute rfl rfl hsound fun L' hsound' _ => wp_respondQuiet ?_
      exact wp_quiet (uses_audited (uses_getTokenOrRaise hread t) haudit) hsound'
  | revokeToken identity t correlationId clock =>
      refine wp_adminRoute rfl rfl hsound fun L' hsound' hvouched => wp_respondQuiet ?_
      exact wp_revokeToken hsound' hvouched
  | registerMe identity correlationId clock =>
      rw [Request.prog]
      refine wp_openRoute rfl (by rintro _ _ _ ⟨⟩) (wp_respondQuiet ?_)
      exact wp_registerSelf hsound
  | getMe identity =>
      rw [Request.prog]
      refine wp_openRoute rfl (by rintro _ _ _ ⟨⟩) (wp_respondQuiet (wp_quiet ?_ hsound))
      refine Prog.Uses.bind (uses_call id) fun profile => ?_
      refine Prog.Uses.bind (uses_call id) fun memberships => ?_
      cases profile <;> exact Prog.uses_pure _
  | getMyTokens identity correlationId clock =>
      rw [Request.prog]
      refine wp_openRoute rfl (by rintro _ _ _ ⟨⟩) (wp_respondQuiet (wp_quiet ?_ hsound))
      exact uses_audited (Prog.Uses.bind (uses_call id) fun _ => Prog.uses_pure _) haudit
  | getRuntimePublicKeys =>
      refine wp_openRoute rfl (by rintro _ _ _ ⟨⟩) ?_
      rw [Request.prog, withTokenSigner]
      split_ifs
      · exact wp_respondQuiet (wp_quiet (uses_call id) hsound)
      · trivial
  | authorizeRuntimeRequest payload correlationId clock =>
      rw [Request.prog]
      cases hpayload : payload.validateTarget with
      | error detail => trivial
      | ok request =>
          dsimp only
          rw [respond, Prog.wp_handle]
          refine Prog.wp_mono (fun r L' hallowed => ?_) (wp_authorize hsound)
          cases r with
          | error e => trivial
          | ok decision =>
              refine (Prog.wp_lift _ _ _).mpr ⟨by rintro ⟨⟩, ?_⟩
              rintro _ _ _ ⟨⟩ hbody
              obtain ⟨record, hfound, hid, hjust, hpermits⟩ :=
                hallowed decision rfl (Body.decision.inj hbody)
              exact ⟨request, record, hpayload, hfound, hid, hjust, hpermits⟩

/-- Until the activity ends, no step makes its answer less honest. -/
lemma within_honest (r : Except PyError Outcome) :
    (authority V).KeepsWithin p fun L : ServerLedger π => Honest V p L a r := by
  intro L e h he hends
  cases a with
  | startUp subjects createdAt grantedAt => trivial
  | serve app q =>
      cases r with
      | error e => trivial
      | ok outcome =>
          cases outcome with
          | plan plan => trivial
          | response response =>
              cases response with
              | error status detail => trivial
              | success status body =>
                  refine ⟨h.1.cons hends, fun payload correlationId clock hq hbody => ?_⟩
                  obtain ⟨request, record, hpayload, hfound, hid, hjust, hpermits⟩ :=
                    h.2 payload correlationId clock hq hbody
                  have hjust' := keeps_justifiedToken record L e hjust he
                  exact ⟨request, record, hpayload, hfound.cons hends, hid, hjust', hpermits⟩

/-- **Every activity is secure** under the protocol of authority. -/
theorem secure_activity (ha : a.Drawn) (hsound : Sound V L) :
    (authority V).Secure p a (V.carryOut a)
      (fun r L' => (authority V).Guar L' (.finish p a r)) L := by
  refine secure_of_telling ha (fun c L' hdue => secure_authorityCall ha c L' hdue)
    (fun r => (within_honest r).stable) ?_
  cases a with
  | startUp subjects createdAt grantedAt =>
      refine (Prog.wp_map _ _ _ _).mpr (Prog.wp_mono (fun r L' _ => ?_) (wp_applyPlan hsound))
      exact trivial
  | serve app q => exact (Prog.wp_map _ _ _ _).mpr (honest_request ha hsound)

end

end Authority

end GofrSec
