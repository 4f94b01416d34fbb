/-
No privilege escalation over the HTTP API.

* `Storage.SameDocuments`: what is stored is the very same, index entries
  included, but for the profile of one user; `Storage.SameStores`: so are the
  groups, memberships, tokens and profiles that the stores answer with; a request of
  a caller who is no admin leaves such a state (`sameDocuments_of_request`,
  `sameStores_of_registries`);
* `GrantedIn`, `MintedByAdmin`: a membership was made by the start-up plan, or
  granted in the run by a caller who was an admin at that moment; a token was
  minted by one;
* `Provenance`: every membership and every token of a registry is of that kind;
  every request keeps it (`provenance_step`);
* `no_privilege_escalation`: both, in every state that requests reach after
  start-up.
-/
import GofrSec.Api.Routes
import GofrSec.Services.Runs

namespace GofrSec

open Calls

variable {P : Platform} {app : AppState} {st : Storage}

/-! ### Callers who are no admins -/

/-- All that is stored is the same but the profile of one user: in memory the
dictionaries, in Vault every document, index entries included. -/
def Storage.SameDocuments : (st : Storage) → Option String → st.State → st.State → Prop
  | .memory _ _, own, s, s' => s'.groups = s.groups ∧ s'.memberships = s.memberships
      ∧ s'.tokens = s.tokens ∧ ∀ u, own ≠ some u → s'.profiles.get u = s.profiles.get u
  | .vault D _, own, w, w' => ∀ k, (∀ u, own = some u → k ≠ D.paths.userProfilePath u) →
      w'.read k = w.read k

/-- Nothing has changed but the profile of one user. -/
structure Storage.SameStores (P : Platform) (st : Storage) (own : Option String)
    (s s' : st.State) : Prop where
  documents : st.SameDocuments own s s'
  groups : ∀ g, st.groupAt P s' g = st.groupAt P s g
  memberships : ∀ u, ∃ ms ms', st.membershipsAt P s u = .ok ms ∧ st.membershipsAt P s' u = .ok ms'
    ∧ ms'.Perm ms
  tokens : ∀ t, st.tokenAt P s' t = st.tokenAt P s t
  profiles : ∀ u, own ≠ some u → st.profileAt P s' u = st.profileAt P s u

lemma sameStores_of_registries {faults plain : Prop} {s s' : st.State} {reg reg' : Registry}
    {own : Option String} (hdocuments : st.SameDocuments own s s')
    (hrep : st.Represents P (runRegime faults plain) s reg)
    (hrep' : st.Represents P (runRegime faults plain) s' reg') (hgroups : reg'.groups = reg.groups)
    (hmemberships : reg'.memberships = reg.memberships) (htokens : reg'.tokens = reg.tokens)
    (hprofiles : ∀ u, own ≠ some u → reg'.profiles.find u = reg.profiles.find u) :
    st.SameStores P own s s' where
  documents := hdocuments
  groups g := by rw [Storage.groupAt_eq hrep', Storage.groupAt_eq hrep, hgroups]
  memberships u := by
    obtain ⟨ms, hms, hlists⟩ := Storage.membershipsAt_lists hrep u
    obtain ⟨ms', hms', hlists'⟩ := Storage.membershipsAt_lists hrep' u
    rw [hmemberships] at hlists'
    exact ⟨ms, ms', hms, hms', hlists'.perm hlists⟩
  tokens t := by rw [Storage.tokenAt_eq hrep', Storage.tokenAt_eq hrep, htokens]
  profiles u hu := by rw [Storage.profileAt_eq hrep', Storage.profileAt_eq hrep, hprofiles u hu]

/-! ### Documents -/

namespace Storage

lemma SameDocuments.refl {own : Option String} {s : st.State} : st.SameDocuments own s s := by
  cases st with
  | memory C signer => exact ⟨rfl, rfl, rfl, fun _ _ => rfl⟩
  | vault D server => exact fun _ _ => rfl

lemma SameDocuments.trans {own : Option String} {s₁ s₂ s₃ : st.State}
    (h : st.SameDocuments own s₁ s₂) (h' : st.SameDocuments own s₂ s₃) :
    st.SameDocuments own s₁ s₃ := by
  cases st with
  | memory C signer =>
      obtain ⟨hgroups, hmemberships, htokens, hprofiles⟩ := h
      obtain ⟨hgroups', hmemberships', htokens', hprofiles'⟩ := h'
      exact ⟨hgroups'.trans hgroups, hmemberships'.trans hmemberships, htokens'.trans htokens,
        fun u hu => (hprofiles' u hu).trans (hprofiles u hu)⟩
  | vault D server => exact fun k hk => (h' k hk).trans (h k hk)

end Storage

/-- The call stores nothing but a profile of one user. -/
def RepoCall.OwnProfile (own : Option String) (c : RepoCall) : Prop :=
  c.Stores → ∃ profile, c = .profileUpsert profile ∧ own = some profile.keycloakSub

/-- Such a call leaves all else as it is, whether or not it raises. -/
lemma sameDocuments_of_call {faults : Prop} {own : Option String} {c : RepoCall}
    (hc : c.OwnProfile own) {s s' : st.State} {r : Except PyError c.Res}
    (h : st.act P faults c s r s') : st.SameDocuments own s s' := by
  cases st with
  | memory C signer =>
      rcases h with hexec | ⟨-, -, rfl⟩
      · have hstate : (MemoryStores.exec C signer c s).2 = s' := congrArg Prod.snd hexec
        subst hstate
        by_cases hstores : c.Stores
        · obtain ⟨profile, rfl, rfl⟩ := hc hstores
          refine ⟨rfl, rfl, rfl, fun u hu => Dict.get_set_of_ne _ _ ?_⟩
          exact fun h => hu (congrArg some h.symm)
        · cases c with
          | profileUpsert profile => exact absurd trivial hstores
          | groupUpsert group => exact absurd trivial hstores
          | membershipAdd m => exact absurd trivial hstores
          | membershipRemove u g => exact absurd trivial hstores
          | tokenUpsert record => exact absurd trivial hstores
          | _ => exact ⟨rfl, rfl, rfl, fun _ _ => rfl⟩
      · exact .refl
  | vault D server =>
      intro k hk
      have hrun : (vaultProgram P D c).Runs (server.act faults) s r s' := h
      refine hrun.keeps (f := fun w : VaultWorld => w.read k) (uses_vaultProgram P D c)
        fun i w r w' hi hact => read_of_act hact fun _ _ htarget => ?_
      have hwrites : c.Writes D.paths k := hi k htarget
      by_cases hstores : c.Stores
      · obtain ⟨profile, rfl, rfl⟩ := hc hstores
        exact hk _ rfl hwrites
      · cases c with
        | profileUpsert profile => exact hstores trivial
        | groupUpsert group => exact hstores trivial
        | membershipAdd m => exact hstores trivial
        | membershipRemove u g => exact hstores trivial
        | tokenUpsert record => exact hstores trivial
        | _ => exact hwrites

/-- So does a run of a program that makes only such calls. -/
lemma sameDocuments_of_uses {faults : Prop} {own : Option String} {α : Type} {p : RepoProg α}
    (hp : p.Uses (RepoCall.OwnProfile own)) {s s' : st.State} {r : Except PyError α}
    (hrun : p.Runs (st.act P faults) s r s') : st.SameDocuments own s s' := by
  refine (Prog.wp_contract_iff p (fun _ t => st.SameDocuments own s t) s).mp ?_ r s' hrun
  refine Prog.wp_of_uses (fun c t hc ht => ⟨trivial, fun r' t' hact => ?_⟩) hp .refl
  exact ht.trans (sameDocuments_of_call hc hact)

/-- A route that is open to every caller stores nothing but the caller's own profile. -/
lemma uses_openRoute {q : Request} (hopen : q.isAdmin = false) :
    (q.prog P app).Uses (RepoCall.OwnProfile q.subject) := by
  by_cases hlooks : q.looks
  · exact (uses_looks app hlooks).mono fun c hc hstores => absurd hstores hc
  · cases q with
    | registerMe identity correlationId clock =>
        rw [Request.prog]
        have hread : ∀ c : RepoCall, c.Reads → c.OwnProfile (some identity.subject) :=
          fun c hc hstores => absurd hstores hc.1
        refine uses_respond (uses_registerSelf hread (fun event hstores => hstores.elim) ?_) _ _ _
        exact fun profile hprofile _ => ⟨profile, rfl, congrArg some hprofile.symm⟩
    | createGroup => cases hopen
    | addGroupMembership => cases hopen
    | removeGroupMembership => cases hopen
    | createToken => cases hopen
    | revokeToken => cases hopen
    | _ => exact absurd rfl hlooks

/-- A route for admins turns away a caller who is none. -/
lemma sameDocuments_of_guard {faults : Prop} {own : Option String} {s s' : st.State}
    {identity : VerifiedIdentity} (hcaller : ¬ st.HasMembership P s identity.subject "admin")
    {route : RepoProg Response} {r : Except PyError Response}
    (hrun : (requireAdminIdentity identity route).Runs (st.act P faults) s r s') :
    st.SameDocuments own s s' := by
  obtain ⟨member, s₁, hcall, hrest⟩ := (Prog.runs_handle_iff _ _).mp hrun
  have hact := Prog.runs_perform_iff.mp hcall
  have hguard : st.SameDocuments own s s₁ :=
    sameDocuments_of_call (c := .hasMembership identity.subject "admin") (fun h => h.elim) hact
  cases member with
  | error e =>
      obtain ⟨-, rfl⟩ := hrest
      exact hguard
  | ok member =>
      cases member with
      | true => exact absurd (congrArg Prod.fst (Storage.exec_of_ok hact)) hcaller
      | false =>
          obtain ⟨-, rfl⟩ := hrest
          exact hguard

/-- **A request of a caller who is no admin** changes at most the caller's own profile. -/
theorem sameDocuments_of_request {faults : Prop} {q : Request} {s s' : st.State}
    {r : Except PyError Response}
    (hcaller : ∀ u, q.subject = some u → ¬ st.HasMembership P s u "admin")
    (hrun : (q.prog P app).Runs (st.act P faults) s r s') :
    st.SameDocuments q.subject s s' := by
  cases hopen : q.isAdmin with
  | false => exact sameDocuments_of_uses (uses_openRoute hopen) hrun
  | true =>
      cases q with
      | createGroup => exact sameDocuments_of_guard (hcaller _ rfl) hrun
      | addGroupMembership => exact sameDocuments_of_guard (hcaller _ rfl) hrun
      | removeGroupMembership => exact sameDocuments_of_guard (hcaller _ rfl) hrun
      | createToken => exact sameDocuments_of_guard (hcaller _ rfl) hrun
      | getToken => exact sameDocuments_of_guard (hcaller _ rfl) hrun
      | revokeToken => exact sameDocuments_of_guard (hcaller _ rfl) hrun
      | _ => cases hopen

/-! ### Records -/

/-- The operations that routes run for every caller. -/
lemma open_op {q : Request} {o : Op} (ho : q.op app = some o) (hopen : q.isAdmin = false) :
    (∃ identity correlationId clock, o = .registerSelf identity correlationId clock
        ∧ q.subject = some identity.subject)
      ∨ (∃ identity, o = .getSelfProfile identity)
      ∨ (∃ identity correlationId clock, o = .listSelfTokens identity correlationId clock)
      ∨ ∃ request correlationId clock, o = .authorize request correlationId clock := by
  cases q with
  | registerMe identity correlationId clock =>
      obtain rfl := Option.some.inj ho
      exact Or.inl ⟨_, _, _, rfl, rfl⟩
  | getMe identity =>
      obtain rfl := Option.some.inj ho
      exact Or.inr (Or.inl ⟨_, rfl⟩)
  | getMyTokens identity correlationId clock =>
      obtain rfl := Option.some.inj ho
      exact Or.inr (Or.inr (Or.inl ⟨_, _, _, rfl⟩))
  | authorizeRuntimeRequest payload correlationId clock =>
      obtain ⟨request, -, rfl⟩ := Option.map_eq_some_iff.mp ho
      exact Or.inr (Or.inr (Or.inr ⟨_, _, _, rfl⟩))
  | root => exact nomatch ho
  | ping => exact nomatch ho
  | status => exact nomatch ho
  | getRuntimePublicKeys => exact nomatch ho
  | _ => exact nomatch hopen

/-- They change at most the caller's own profile. -/
lemma open_change {R : Regime} {reg reg' : Registry} {q : Request} {o : Op}
    (ho : q.op app = some o) (hopen : q.isAdmin = false) (h : o.Change P R reg reg') :
    reg'.groups = reg.groups ∧ reg'.memberships = reg.memberships ∧ reg'.tokens = reg.tokens
      ∧ ∀ u, q.subject ≠ some u → reg'.profiles.find u = reg.profiles.find u := by
  have hagrees : reg'.Agrees reg → reg'.groups = reg.groups
      ∧ reg'.memberships = reg.memberships ∧ reg'.tokens = reg.tokens
      ∧ ∀ u, q.subject ≠ some u → reg'.profiles.find u = reg.profiles.find u :=
    fun h => ⟨h.groups, h.memberships, h.tokens, fun u _ => by rw [h.profiles]⟩
  rcases open_op ho hopen with ⟨identity, correlationId, clock, rfl, hsubject⟩ | ⟨identity, rfl⟩ |
    ⟨identity, correlationId, clock, rfl⟩ | ⟨request, correlationId, clock, rfl⟩
  · cases h with
    | same h => exact hagrees h
    | @registered _ _ _ profile _ hsub h =>
        refine ⟨h.groups, h.memberships, h.tokens, fun u hu => ?_⟩
        have hne : u ≠ profile.keycloakSub := by
          rintro rfl
          exact hu (hsubject.trans (congrArg some hsub.symm))
        have hprofiles : reg'.profiles = reg.profiles.insert profile := h.profiles
        rw [hprofiles, Keyed.find_insert_of_ne _ hne]
  · cases h with
    | same h => exact hagrees h
  · cases h with
    | same h => exact hagrees h
  · cases h with
    | same h => exact hagrees h

/-! ### Where memberships and tokens come from -/

/-- The moments of a run of the API. -/
abbrev ApiTrace (st : Storage) : Type := List (Moment Request PyError Response st.State)

/-- A membership was made by the start-up plan, or it was granted in the run by a
caller who was an admin at that moment. -/
def GrantedIn (P : Platform) (st : Storage) (subjects : List String) (ms : ApiTrace st)
    (m : UserGroupMembership) : Prop :=
  (m.keycloakSub ∈ normalizeSubjects subjects ∧ m.groupName = "admin" ∧ m.grantedBySub = .null)
    ∨ ∃ moment ∈ ms, ∃ identity g correlationId clock,
      moment.op = .addGroupMembership identity m.keycloakSub g correlationId clock
        ∧ normalizeGroupName P g = .ok m.groupName ∧ m.grantedBySub = .str identity.subject
        ∧ st.HasMembership P moment.before identity.subject "admin"

/-- A token was minted in the run by a caller who was an admin at that moment. -/
def MintedByAdmin (P : Platform) (st : Storage) (ms : ApiTrace st) (record : IssuedTokenRecord) :
    Prop :=
  ∃ moment ∈ ms, ∃ identity keycloakSub groups expiresInSeconds correlationId clock,
    moment.op = .createToken identity keycloakSub groups expiresInSeconds record.tokenId
        correlationId clock
      ∧ record.issuedBySub = some identity.subject
      ∧ st.HasMembership P moment.before identity.subject "admin"

/-- Every membership and every token has such an origin. -/
structure Provenance (P : Platform) (st : Storage) (subjects : List String) (ms : ApiTrace st)
    (reg : Registry) : Prop where
  memberships : ∀ u g m, reg.memberships.find (u, g) = some m → GrantedIn P st subjects ms m
  tokens : ∀ t record, reg.tokens.find t = some record → MintedByAdmin P st ms record

variable {subjects : List String} {ms : ApiTrace st}
  {moment : Moment Request PyError Response st.State}

lemma GrantedIn.cons {m : UserGroupMembership} (h : GrantedIn P st subjects ms m) :
    GrantedIn P st subjects (moment :: ms) m := by
  rcases h with hplan | ⟨moment', hmem, hgrant⟩
  · exact Or.inl hplan
  · exact Or.inr ⟨moment', List.mem_cons_of_mem _ hmem, hgrant⟩

lemma MintedByAdmin.cons {record : IssuedTokenRecord} (h : MintedByAdmin P st ms record) :
    MintedByAdmin P st (moment :: ms) record := by
  obtain ⟨moment', hmem, hmint⟩ := h
  exact ⟨moment', List.mem_cons_of_mem _ hmem, hmint⟩

/-- The only route to a grant is one for admins. -/
lemma request_of_addMembership {q : Request} {u g actorSub : String}
    {correlationId : Option String} {clock : Clock}
    (ho : q.op app = some (.addMembership u g actorSub correlationId clock)) :
    ∃ identity, q = .addGroupMembership identity u g correlationId clock
      ∧ identity.subject = actorSub := by
  cases q with
  | addGroupMembership identity u' g' correlationId' clock' =>
      obtain ⟨rfl, rfl, rfl, rfl, rfl⟩ := Op.addMembership.inj (Option.some.inj ho)
      exact ⟨identity, rfl, rfl⟩
  | authorizeRuntimeRequest payload correlationId' clock' =>
      obtain ⟨_, -, h⟩ := Option.map_eq_some_iff.mp ho
      exact nomatch h
  | _ => exact nomatch ho

/-- The only route to a mint is one for admins. -/
lemma request_of_mintToken {q : Request} {request : MintRequest} {clock : Clock}
    (ho : q.op app = some (.mintToken request clock)) :
    ∃ identity, q = .createToken identity request.ownerSub request.groups
        request.expiresInSeconds request.tokenId request.correlationId clock
      ∧ identity.subject = request.actorSub := by
  cases q with
  | createToken identity keycloakSub groups expiresInSeconds tokenId correlationId clock' =>
      obtain ⟨rfl, rfl⟩ := Op.mintToken.inj (Option.some.inj ho)
      exact ⟨identity, rfl, rfl⟩
  | authorizeRuntimeRequest payload correlationId' clock' =>
      obtain ⟨_, -, h⟩ := Option.map_eq_some_iff.mp ho
      exact nomatch h
  | _ => exact nomatch ho

/-- No route runs the start-up plan. -/
lemma request_ne_applyPlan {q : Request} {subjects : List String} {createdAt : DateTime}
    {grantedAt : String → DateTime} :
    q.op app ≠ some (.applyPlan subjects createdAt grantedAt) := by
  intro ho
  cases q with
  | authorizeRuntimeRequest payload correlationId clock =>
      obtain ⟨_, -, h⟩ := Option.map_eq_some_iff.mp ho
      exact nomatch h
  | _ => exact nomatch ho

/-- **Every request keeps the provenance.** -/
theorem provenance_step {faults plain : Prop} {s : st.State} {reg reg' : Registry} {q : Request}
    {r : Except PyError Response} (hrep : st.Represents P (runRegime faults plain) s reg)
    (hprov : Provenance P st subjects ms reg)
    (h : q.Change P app (runRegime faults plain) reg reg') :
    Provenance P st subjects ({ before := s, op := q, outcome := r } :: ms) reg' := by
  rcases h with hagrees | ⟨o, ho, hchange, hadmin⟩
  · refine ⟨fun u g m hm => ?_, fun t record hrecord => ?_⟩
    · exact (hprov.memberships u g m (hagrees.memberships ▸ hm)).cons
    · exact (hprov.tokens t record (hagrees.tokens ▸ hrecord)).cons
  · refine ⟨fun u g m hm => ?_, fun t record hrecord => ?_⟩
    · -- a membership: what there was, or a grant by the caller
      have hmembership := hchange.membership u g
      rw [hm] at hmembership
      generalize hout : some m = out at hmembership
      cases hmembership with
      | kept => exact (hprov.memberships u g m hout.symm).cons
      | planned _ _ _ => exact absurd ho request_ne_applyPlan
      | @added g' actorSub correlationId clock hg _ =>
          obtain ⟨identity, rfl, rfl⟩ := request_of_addMembership ho
          obtain ⟨_, hsubject, hcaller⟩ := hadmin rfl
          obtain rfl := Option.some.inj hsubject
          obtain rfl := Option.some.inj hout
          exact Or.inr ⟨_, List.mem_cons_self, identity, g', correlationId, clock, rfl, hg, rfl,
            (Storage.hasMembership_iff hrep).mpr hcaller⟩
      | removed _ _ _ => exact nomatch hout
    · -- a token: what there was, its revoked copy, or a mint by the caller
      rcases hchange.tokens with heq | ⟨request, clock, minted, rfl, hminted, heq⟩ |
        ⟨t', actorSub, correlationId, clock, current, -, hcurrent, heq⟩
      · exact (hprov.tokens t record (heq ▸ hrecord)).cons
      · rw [heq, Keyed.find_insert] at hrecord
        split_ifs at hrecord with ht
        · obtain rfl := Option.some.inj hrecord
          obtain ⟨identity, rfl, hsub⟩ := request_of_mintToken ho
          obtain ⟨_, hsubject, hcaller⟩ := hadmin rfl
          obtain rfl := Option.some.inj hsubject
          refine ⟨_, List.mem_cons_self, identity, request.ownerSub, request.groups,
            request.expiresInSeconds, request.correlationId, clock, ?_, ?_,
            (Storage.hasMembership_iff hrep).mpr hcaller⟩
          · rw [hminted.tokenId]
          · rw [hminted.issuedBySub, hsub]
        · exact (hprov.tokens t record hrecord).cons
      · rw [heq, Keyed.find_insert] at hrecord
        split_ifs at hrecord with ht
        · obtain rfl := Option.some.inj hrecord
          exact (hprov.tokens t' current hcurrent).cons
        · exact (hprov.tokens t record hrecord).cons

/-! ### Runs of the API -/

/-- The ids that the server draws for the tokens of a request have the shape of
`uuid4().hex`. -/
def Request.Drawn (app : AppState) (q : Request) : Prop :=
  ∀ o, q.op app = some o → o.Valid False

/-- What requests keep, they keep over a whole run. -/
lemma provenance_trace {faults : Prop} {s s' : st.State} {reg : Registry}
    (hrep : st.Represents P (runRegime faults False) s reg)
    (hsound : reg.Sound (runRegime faults False)) (hprov : Provenance P st subjects [] reg)
    (htrace : Trace (st.act P faults) (Request.prog P app) s ms s')
    (hdrawn : ∀ moment ∈ ms, moment.op.Drawn app) :
    ∃ reg', st.Represents P (runRegime faults False) s' reg'
      ∧ reg'.Sound (runRegime faults False) ∧ Provenance P st subjects ms reg' := by
  induction htrace with
  | start => exact ⟨reg, hrep, hsound, hprov⟩
  | @step ms t t' q r _ hrun ih =>
      obtain ⟨reg₁, hrep₁, hsound₁, hprov₁⟩ :=
        ih fun moment hmem => hdrawn moment (List.mem_cons_of_mem _ hmem)
      have hq : q.Drawn app := hdrawn _ List.mem_cons_self
      obtain ⟨reg₂, hrep₂, hchange⟩ := Prog.Runs.refine
        (Storage.implements (R := runRegime faults False) (Storage.signsIn_runRegime st)) hrep₁
        (request_change hsound₁ q hq) hrun
      refine ⟨reg₂, hrep₂, ?_, provenance_step hrep₁ hprov₁ hchange⟩
      rcases hchange with hagrees | ⟨o, ho, hchange, -⟩
      · intro t record hfind
        exact hsound₁ t record (hagrees.tokens ▸ hfind)
      · exact hchange.sound hsound₁ (hq o ho)

/-- **No privilege escalation.** Start from empty stores with a completed
start-up plan, and let any callers make any requests, with storage failures
wherever they strike. In every state reached, each membership was made by the
plan or granted by a caller who was an admin at that moment, each token was
minted by one, and any further request of a caller who is no admin leaves all that is
stored as it is, the index entries of the tokens included, but for the caller's own
profile: the groups, the memberships, the tokens and everybody else's profile. -/
theorem no_privilege_escalation (P : Platform) (st : Storage) (app : AppState) (faults : Prop)
    {s₀ s₁ s : st.State} {ms : ApiTrace st} {subjects : List String} {createdAt : DateTime}
    {grantedAt : String → DateTime} {plan : BootstrapPlan} (hfresh : st.Fresh s₀)
    (hplan : (applyPlan subjects createdAt grantedAt).Runs (st.act P faults) s₀ (.ok plan) s₁)
    (htrace : Trace (st.act P faults) (Request.prog P app) s₁ ms s)
    (hdrawn : ∀ moment ∈ ms, moment.op.Drawn app) :
    (∀ (q : Request) r s', q.Drawn app → (q.prog P app).Runs (st.act P faults) s r s' →
        (∀ u, q.subject = some u → ¬ st.HasMembership P s u "admin") →
          st.SameStores P q.subject s s')
      ∧ (∀ u l m, st.membershipsAt P s u = .ok l → m ∈ l → GrantedIn P st subjects ms m)
      ∧ ∀ t record, st.tokenAt P s t = .ok (some record) → MintedByAdmin P st ms record := by
  -- the plan
  obtain ⟨reg₁, hrep₁, hstart⟩ := Prog.Runs.refine
    (Storage.implements (R := runRegime faults False) (Storage.signsIn_runRegime st))
    (Storage.represents_fresh hfresh)
    (applyPlan_effect subjects createdAt grantedAt fun h => h.elim) hplan
  have hsound₁ : reg₁.Sound (runRegime faults False) := by
    intro t record hfind
    rw [hstart.tokens] at hfind
    exact nomatch hfind
  have hprov₁ : Provenance P st subjects [] reg₁ := by
    refine ⟨fun u g m hm => ?_, fun t record hfind => ?_⟩
    · rcases hstart.memberships u g with heq | ⟨-, rfl, hu, heq⟩
      · rw [heq] at hm
        exact nomatch hm
      · obtain rfl := Option.some.inj (heq.symm.trans hm)
        exact Or.inl ⟨hu, rfl, rfl⟩
    · rw [hstart.tokens] at hfind
      exact nomatch hfind
  -- the requests
  obtain ⟨reg, hrep, hsound, hprov⟩ := provenance_trace hrep₁ hsound₁ hprov₁ htrace hdrawn
  refine ⟨fun q r s' hq hrun hcaller => ?_, fun u l m hl hm => ?_, fun t record hrecord => ?_⟩
  · have hdocuments := sameDocuments_of_request hcaller hrun
    obtain ⟨reg', hrep', hchange⟩ := Prog.Runs.refine
      (Storage.implements (R := runRegime faults False) (Storage.signsIn_runRegime st)) hrep
      (request_change hsound q hq) hrun
    rcases hchange with hagrees | ⟨o, ho, hchange, hadmin⟩
    · exact sameStores_of_registries hdocuments hrep hrep' hagrees.groups hagrees.memberships
        hagrees.tokens fun u _ => by rw [hagrees.profiles]
    · have hopen : q.isAdmin = false := by
        by_contra hclosed
        obtain ⟨u, hu, hmember⟩ := hadmin (Bool.not_eq_false _ ▸ hclosed)
        exact hcaller u hu ((Storage.hasMembership_iff hrep).mpr hmember)
      obtain ⟨hgroups, hmemberships, htokens, hprofiles⟩ := open_change ho hopen hchange
      exact sameStores_of_registries hdocuments hrep hrep' hgroups hmemberships htokens hprofiles
  · obtain ⟨l', hl', hlists⟩ := Storage.membershipsAt_lists hrep u
    obtain rfl := Except.ok.inj (hl.symm.trans hl')
    exact hprov.memberships _ _ m ((hlists.2 m).mp hm).1
  · rw [Storage.tokenAt_eq hrep] at hrecord
    exact hprov.tokens t record (Except.ok.inj hrecord)

/-- `alice` registers, and `root` makes the group `team` and mints a token of it
for her; the newest request stands first. -/
def teamRequests : List Request :=
  [.createToken (keycloakUser "root") "alice" ["team"] none teamMint.tokenId none newYear,
    .createGroup (keycloakUser "root") "team" none none newYear,
    .registerMe (keycloakUser "alice") none newYear]

/-- The token that `teamRequests` leave was minted by an admin, and `alice` cannot change
it by asking for its revocation. -/
theorem no_privilege_escalation_teamRequests :
    let st := Storage.vault .python .inOrder
    let s₁ := (rootPlan.run (st.exec .python) VaultWorld.empty).2
    let out := play (st.exec .python) (Request.prog .python ⟨true, 60⟩) s₁ teamRequests
    let revocation := Request.revokeToken (keycloakUser "alice") teamMint.tokenId none newYear
    MintedByAdmin .python st out.1 teamRecord ∧ ∀ r s',
      (revocation.prog .python ⟨true, 60⟩).Runs (st.act .python True) out.2 r s' →
        st.SameStores .python (some "alice") out.2 s' := by
  intro st s₁ out revocation
  have hplan : (rootPlan.run (st.exec .python) VaultWorld.empty).1
      = .ok (buildPlan ["root"] newYear.now) := by decide +kernel
  have htrace : Trace (st.act .python True) (Request.prog .python ⟨true, 60⟩) s₁ out.1 out.2 :=
    (play_trace s₁ teamRequests).mono Storage.act_of_graph
  have hops : out.1.map Moment.op = teamRequests := map_op_play s₁ teamRequests
  have hdrawn : ∀ q ∈ teamRequests, q.Drawn ⟨true, 60⟩ := by
    intro q hq o ho
    simp only [teamRequests, List.mem_cons, List.not_mem_nil, or_false] at hq
    rcases hq with rfl | rfl | rfl
    · obtain rfl := Option.some.inj ho
      exact ⟨by decide, fun h => h.elim⟩
    · obtain rfl := Option.some.inj ho
      exact trivial
    · obtain rfl := Option.some.inj ho
      exact fun h => h.elim
  obtain ⟨hrequest, -, htokens⟩ := no_privilege_escalation .python st ⟨true, 60⟩ True
    fresh_vaultEmpty (Storage.runs_of_run_fst hplan) htrace fun moment hmem =>
      hdrawn _ (hops ▸ List.mem_map_of_mem hmem)
  have hstored : st.tokenAt .python out.2 teamMint.tokenId = .ok (some teamRecord) := by
    decide +kernel
  have hstranger : (st.exec .python (.hasMembership "alice" "admin") out.2).1 = .ok false := by
    decide +kernel
  refine ⟨htokens _ _ hstored, fun r s' hrun => hrequest revocation r s' ?_ hrun ?_⟩
  · intro o ho
    obtain rfl := Option.some.inj ho
    exact trivial
  · rintro _ ⟨⟩ hmember
    cases hstranger.symm.trans hmember

end GofrSec
