/-
What server processes that share a Vault can do to it, and to whom they answer.

* `serves_sound`: in every run every step keeps to the protocol of authority, and at
  every moment the documents are sound;
* `changes_authorised`: every change of a document is made by an activity that is about
  it and, on a route for admins, for a caller who was made an admin before;
* `shared_stores_wellFormed`: what the stores answer is well-formed, and what was defined
  or registered stays so;
* `answers_honest`: a route for admins succeeds for admins only, and a runtime
  authorization allows only what an admin has granted by a token.
-/
import GofrSec.Properties.AuthorisedRoutes
import GofrSec.Properties.WellFormed

namespace GofrSec

open Calls Protocol Text VaultPathLayout

variable {π : Type} {V : SharedVault} {L L₁ L₂ : ServerLedger π}

/-! ### Runs -/

lemma sound_start (hfresh : V.StartsFresh) : Sound V ([] : ServerLedger π) := by
  intro b k d hunder hread
  have hread' : V.start.read k = some d := hread
  rw [hfresh b k hunder] at hread'
  cases hread'

section

variable [DecidableEq π] {todo : π → List Activity}
  {S : System π Activity VaultCall VaultCall.Res PyError Outcome VaultWorld}

/-- **Every run keeps to the protocol of authority.** -/
theorem serves_sound (hfresh : V.StartsFresh) (hdrawn : ∀ p, ∀ a ∈ todo p, a.Drawn)
    (hserves : V.Serves todo S) :
    Meets (authority V).Allowed S.ledger ∧ Sound V S.ledger :=
  Reachable.keeps keeps_sound (sound_start hfresh) (fun _ _ => trivial) hdrawn
    (fun _ _ _ ha hsound => Authority.secure_activity ha hsound) hserves

end

/-! ### Who is made an admin -/

lemma Ran.of_suffix {p : π} {a : Activity} (h : Ran p a L₁) : Ran p a (L₂ ++ L₁) := by
  induction L₂ with
  | nil => exact h
  | cons e L₂ ih => exact ih.cons

/-- Every chain of grants goes back to a subject that a start-up was configured with. -/
lemma Appointed.configuration {u : String} (h : Appointed V L u) :
    ∃ p subjects createdAt grantedAt v, Ran p (.startUp subjects createdAt grantedAt) L
      ∧ v ∈ normalizeSubjects subjects := by
  induction h with
  | configured hran hu => exact ⟨_, _, _, _, _, hran, hu⟩
  | granted hL _ _ _ ih =>
      obtain ⟨p, subjects, createdAt, grantedAt, v, hran, hv⟩ := ih
      refine ⟨p, subjects, createdAt, grantedAt, v, ?_, hv⟩
      rw [hL]
      exact hran.cons.of_suffix

/-! ### A run -/

/-- A Vault without documents. -/
def SharedVault.python : SharedVault := .afterOps []

lemma SharedVault.startsFresh_python : SharedVault.python.StartsFresh := fun _ _ _ => rfl

/-- Two server processes: both start up; then `root` creates a group at the one, while
`alice` registers at the other, and mints a token of it for `alice`, which is authorized. -/
def twoServers : Bool → List Activity
  | true => [.startUp ["root"] newYear.now fun _ => newYear.now,
      .serve ⟨true, 60⟩ (.createGroup (keycloakUser "root") "blue" none none newYear),
      .serve ⟨true, 60⟩ (.createToken (keycloakUser "root") "alice" ["blue"] none
        teamMint.tokenId none newYear),
      .serve ⟨true, 60⟩ (.authorizeRuntimeRequest
        ⟨teamMint.tokenId, "alice", some "blue", none⟩ none newYear)]
  | false => [.startUp [" root "] newYear.now fun _ => newYear.now,
      .serve ⟨true, 60⟩ (.registerMe (keycloakUser "alice") none newYear)]

lemma drawn_twoServers : ∀ p, ∀ a ∈ twoServers p, a.Drawn := by
  intro p a ha o ho
  cases p with
  | true =>
      simp only [twoServers, List.mem_cons, List.not_mem_nil, or_false] at ha
      rcases ha with rfl | rfl | rfl | rfl
      · obtain rfl := Option.some.inj ho
        exact fun h => h.elim
      · obtain rfl := Option.some.inj ho
        exact trivial
      · obtain rfl := Option.some.inj ho
        exact ⟨by decide, fun h => h.elim⟩
      · obtain rfl := Option.some.inj ho
        exact trivial
  | false =>
      simp only [twoServers, List.mem_cons, List.not_mem_nil, or_false] at ha
      rcases ha with rfl | rfl
      · obtain rfl := Option.some.inj ho
        exact fun h => h.elim
      · obtain rfl := Option.some.inj ho
        exact fun h => h.elim

/-- They take turns, call by call. -/
def twoServersRun : System Bool Activity VaultCall VaultCall.Res PyError Outcome VaultWorld :=
  SharedVault.python.serveSchedule twoServers (List.replicate 40 [true, false]).flatten

lemma serves_twoServersRun : SharedVault.python.Serves twoServers twoServersRun :=
  SharedVault.python.serves_serveSchedule _ _

/-! ### Changes -/

/-- A request of a caller who is no admin is about the caller's own profile at most. -/
lemma Rightful.own {p : π} {app : AppState} {q : Request} {key : RecordKey} {u : String}
    (h : Rightful V p (.serve app q) key L) (hsubject : q.subject = some u)
    (hu : ¬ Appointed V L u) : key = .userProfile u := by
  obtain ⟨hcontrols, hauthorised⟩ := h
  have hopen : q.isAdmin = false := by
    cases hadmin : q.isAdmin with
    | false => rfl
    | true =>
        obtain ⟨v, hv, hvouched⟩ := hauthorised hadmin
        obtain rfl := Option.some.inj (hv.symm.trans hsubject)
        exact absurd hvouched.appointed hu
  cases q with
  | registerMe identity correlationId clock =>
      obtain rfl := Option.some.inj hsubject
      exact hcontrols
  | createGroup => cases hopen
  | addGroupMembership => cases hopen
  | removeGroupMembership => cases hopen
  | createToken => cases hopen
  | revokeToken => cases hopen
  | _ => exact hcontrols.elim

section

variable [DecidableEq π] {todo : π → List Activity}
  {S : System π Activity VaultCall VaultCall.Res PyError Outcome VaultWorld}

/-- **Every change is authorised.** From a Vault without documents of the service, let any
number of server processes start up and serve any requests, their client calls interleaved
in any way and raising wherever they may:
* a document is changed only by an activity that is about it and, on a route for admins,
  whose caller held `admin` at an earlier call of that very activity;
* the requests of a caller who was never made an admin change nothing but the caller's
  own profile;
* whoever holds `admin`, in whatever state is reached, was made an admin by a chain of
  grants that goes back to a subject which a start-up was configured with. -/
theorem changes_authorised (V : SharedVault) (hfresh : V.StartsFresh)
    (hdrawn : ∀ p, ∀ a ∈ todo p, a.Drawn) (hserves : V.Serves todo S) :
    (∀ L₂ p a i r w L₁, S.ledger = L₂ ++ .call p a i r w :: L₁ →
        ∀ k, w.read k ≠ (V.documents L₁).read k → ∃ key : RecordKey, key.Hex
          ∧ k = V.paths.pathOf key ∧ a.Controls V.platform key ∧ Authorised V p L₁ a)
      ∧ (∀ L₂ p app q i r w L₁ u, S.ledger = L₂ ++ .call p (.serve app q) i r w :: L₁ →
        q.subject = some u → ¬ Appointed V S.ledger u →
          ∀ k, w.read k ≠ (V.documents L₁).read k → k = V.paths.userProfilePath u)
      ∧ ∀ u, V.hasMembership (V.documents S.ledger) u "admin" = .ok true →
        Appointed V S.ledger u ∧ ∃ p subjects createdAt grantedAt v,
          Ran p (.startUp subjects createdAt grantedAt) S.ledger
            ∧ v ∈ normalizeSubjects subjects := by
  obtain ⟨hmeets, hsound⟩ := serves_sound hfresh hdrawn hserves
  have hchange : ∀ L₂ p a i r w L₁, S.ledger = L₂ ++ .call p a i r w :: L₁ →
      ∀ k, w.read k ≠ (V.documents L₁).read k → ∃ key : RecordKey, key.Hex
        ∧ k = V.paths.pathOf key ∧ Rightful V p a key L₁ := by
    intro L₂ p a i r w L₁ hL k hk
    rw [hL] at hmeets
    exact hmeets.at.guar.2.2 k hk
  refine ⟨hchange, fun L₂ p app q i r w L₁ u hL hsubject hu k hk => ?_, fun u hmember => ?_⟩
  · obtain ⟨key, -, rfl, hrightful⟩ := hchange L₂ p _ i r w L₁ hL k hk
    have hu₁ : ¬ Appointed V L₁ u := by
      intro happointed
      rw [hL] at hu
      exact hu happointed.cons.of_suffix
    rw [hrightful.own hsubject hu₁]
    rfl
  · obtain ⟨ms, hms, hall⟩ := hsound.memberships u
    rw [SharedVault.hasMembership_of_memberships hms] at hmember
    obtain ⟨m, hm, hadmin⟩ := inGroup_iff.mp (Except.ok.inj hmember)
    have happointed := (hall m hm).2.appointed hadmin
    rw [(hall m hm).1] at happointed
    exact ⟨happointed, happointed.configuration⟩

/-- `root` holds `admin` after the run, and was made an admin. -/
theorem changes_authorised_twoServers :
    Appointed SharedVault.python twoServersRun.ledger "root" := by
  obtain ⟨-, -, hadmins⟩ := changes_authorised SharedVault.python SharedVault.startsFresh_python
    drawn_twoServers serves_twoServersRun
  exact (hadmins "root" (by decide +kernel)).1

/-- **Answers are honest.** In such a run, a success on a route for admins answers a
caller who held `admin` at an earlier call of that very request; and a runtime
authorization that allows has itself read a record under the id of the token, which permits the
request at its time, and which is that of a token that an admin minted, for a registered owner
and defined groups. -/
theorem answers_honest (V : SharedVault) (hfresh : V.StartsFresh)
    (hdrawn : ∀ p, ∀ a ∈ todo p, a.Drawn) (hserves : V.Serves todo S) {L₂ L₁ : ServerLedger π}
    {p : π} {app : AppState} {q : Request} {status : ℕ} {body : Body}
    (hfinish : S.ledger
      = L₂ ++ .finish p (.serve app q) (.ok (.response (.success status body))) :: L₁) :
    (q.isAdmin → ∃ u, q.subject = some u ∧ Vouched V p (.serve app q) u L₁)
      ∧ ∀ payload correlationId clock, q = .authorizeRuntimeRequest payload correlationId clock →
        body = .decision true → ∃ request record, payload.validateTarget = .ok request
          ∧ Found V p (.serve app q) request.tokenId record L₁
          ∧ record.tokenId = request.tokenId ∧ JustifiedToken V L₁ record
          ∧ permits request clock.now record := by
  have hmeets := (serves_sound hfresh hdrawn hserves).1
  rw [hfinish] at hmeets
  exact hmeets.at.guar

/-- The creation of a group by `root` has succeeded. -/
def createdByRoot : ServerEvent Bool → Bool
  | .finish _ (.serve _ (.createGroup identity _ _ _ _)) (.ok (.response (.success _ _))) =>
      identity.subject = "root"
  | _ => false

/-- An authorization has just allowed. -/
def hasAllowed : ServerLedger Bool → Bool
  | .finish _ (.serve _ (.authorizeRuntimeRequest _ _ _))
      (.ok (.response (.success _ (.decision true)))) :: _ => true
  | _ => false

/-- The creation succeeded for a caller who held `admin` when it was checked, and the
authorization allowed for a record that it had read and that permits it. -/
theorem answers_honest_twoServers : ∃ S, SharedVault.python.Serves twoServers S
    ∧ (∃ p app q r L₂ L₁, S.ledger = L₂ ++ .finish p (.serve app q) r :: L₁ ∧ q.isAdmin
      ∧ Vouched SharedVault.python p (.serve app q) "root" L₁)
    ∧ ∃ p app q r L request record clock, S.ledger = .finish p (.serve app q) r :: L
      ∧ Found SharedVault.python p (.serve app q) request.tokenId record L
      ∧ JustifiedToken SharedVault.python L record ∧ permits request clock record := by
  have hserves := serves_twoServersRun
  have hcreated : twoServersRun.ledger.any createdByRoot := by decide +kernel
  have hallowed : hasAllowed twoServersRun.ledger := by decide +kernel
  refine ⟨_, hserves, ?_⟩
  generalize twoServersRun = S at hserves hcreated hallowed
  constructor
  · obtain ⟨e, he, hcreation⟩ := List.any_eq_true.mp hcreated
    unfold createdByRoot at hcreation
    split at hcreation
    · next p app identity name description correlationId clock status body =>
        obtain ⟨L₂, L₁, hledger⟩ := List.append_of_mem he
        obtain ⟨hadmin, -⟩ := answers_honest SharedVault.python SharedVault.startsFresh_python
          drawn_twoServers hserves hledger
        obtain ⟨u, hu, hvouched⟩ := hadmin rfl
        obtain rfl := Option.some.inj hu
        obtain hroot : identity.subject = "root" := of_decide_eq_true hcreation
        refine ⟨p, app, _, _, L₂, L₁, hledger, rfl, ?_⟩
        rw [← hroot]
        exact hvouched
    · cases hcreation
  · unfold hasAllowed at hallowed
    split at hallowed
    · next p app payload correlationId clock status L heq =>
        have hledger : S.ledger = [] ++ _ :: L := heq
        obtain ⟨-, hdecision⟩ := answers_honest SharedVault.python SharedVault.startsFresh_python
          drawn_twoServers hserves hledger
        obtain ⟨request, record, -, hfound, -, hjust, hpermits⟩ := hdecision _ _ _ rfl rfl
        exact ⟨p, app, _, _, L, request, record, clock.now, heq, hfound, hjust, hpermits⟩
    · cases hallowed

end

/-! ### Well-formed stores -/

/-- The definition is one that the service files: under a normal form, active, and of the
system only under `admin`. -/
lemma JustifiedGroup.wellFormed {group : GroupDefinition} (h : JustifiedGroup V L group) :
    group.WellFormed V.platform := by
  cases h with
  | planned _ =>
      exact ⟨normalizeGroupName_self _ isGroupName_reservedAdminGroup, rfl, fun _ => rfl⟩
  | created _ hname _ hsystem hactive _ =>
      refine ⟨normalizeGroupName_self _ (normalizeGroupName_eq_ok hname).1, hactive, fun h => ?_⟩
      rw [hsystem] at h
      cases h

lemma JustifiedToken.wellFormed {record : IssuedTokenRecord} (h : JustifiedToken V L record) :
    record.WellFormed := by
  induction h with
  | minted _ _ _ hminted _ _ =>
      obtain ⟨t, ht, hmicros⟩ := hminted.expiresAt
      have hpositive := hminted.positive
      refine ⟨hminted.nonempty, hminted.nodup, hminted.runtime, ⟨t, ht, ?_⟩, ?_⟩
      · rw [hminted.issuedAt, DateTime.lt_def, hmicros]
        omega
      · rw [hminted.status, hminted.revokedAt]
        decide
  | revoked _ _ _ ih => exact ih.revoke _

lemma JustifiedToken.hasProfile {record : IssuedTokenRecord} (h : JustifiedToken V L record) :
    V.HasProfile (V.documents L) record.ownerSub := by
  induction h with
  | minted _ _ _ _ hprofile _ => exact hprofile
  | revoked _ _ _ ih => exact ih

lemma JustifiedToken.hasGroup {record : IssuedTokenRecord} (h : JustifiedToken V L record) :
    ∀ g ∈ record.grantedGroups, V.HasGroup (V.documents L) g := by
  induction h with
  | minted _ _ _ _ _ hgroup => exact hgroup
  | revoked _ _ _ ih => exact ih

/-- The stores of a shared Vault. -/
abbrev SharedVault.store (V : SharedVault) : Storage := .vault V.deployment V.server

/-- What is read as a group definition is one. -/
lemma Sound.group (h : Sound V L) (g : String) :
    ∃ found, V.store.groupAt V.platform (V.documents L) g = .ok found
      ∧ (∀ group, found = some group → group.name = g ∧ JustifiedGroup V L group)
      ∧ (V.HasGroup (V.documents L) g → ∃ group, found = some group) := by
  rw [Storage.groupAt_vault, SharedVault.HasGroup]
  cases hread : (V.documents L).read (V.paths.groupDefinitionPath g) with
  | none => exact ⟨none, rfl, by rintro _ ⟨⟩, by rintro ⟨⟩⟩
  | some d =>
      have hjust : Justified V L (.groupDefinition g) d :=
        h.justified (hex_of_tokenId_none rfl) (by rintro ⟨⟩) hread
      obtain ⟨group, rfl, hname, hgroup⟩ := hjust
      refine ⟨some group, ?_, ?_, fun _ => ⟨group, rfl⟩⟩
      · rw [decodeRecord, deserializeGroup_serializeGroup]
        rfl
      · rintro _ ⟨⟩
        exact ⟨hname, hgroup⟩

/-- What is read as a profile is one. -/
lemma Sound.profile (h : Sound V L) (u : String) :
    ∃ found, V.store.profileAt V.platform (V.documents L) u = .ok found
      ∧ (∀ profile, found = some profile → profile.keycloakSub = u ∧ JustifiedProfile V L profile)
      ∧ (V.HasProfile (V.documents L) u → ∃ profile, found = some profile) := by
  rw [Storage.profileAt_vault, SharedVault.HasProfile]
  cases hread : (V.documents L).read (V.paths.userProfilePath u) with
  | none => exact ⟨none, rfl, by rintro _ ⟨⟩, by rintro ⟨⟩⟩
  | some d =>
      have hjust : Justified V L (.userProfile u) d :=
        h.justified (hex_of_tokenId_none rfl) (by rintro ⟨⟩) hread
      obtain ⟨profile, rfl, hsub, hprofile⟩ := hjust
      refine ⟨some profile, ?_, ?_, fun _ => ⟨profile, rfl⟩⟩
      · rw [decodeRecord, deserializeProfile_serializeProfile]
        rfl
      · rintro _ ⟨⟩
        exact ⟨hsub, hprofile⟩

/-- What was defined or registered stays so. -/
lemma lasts_of_meets (hmeets : Meets (authority V).Allowed (L₂ ++ L₁)) :
    V.Lasts (V.documents L₁) (V.documents (L₂ ++ L₁)) :=
  ⟨fun u hu => (keeps_hasProfile u).later hmeets hu, fun g hg => (keeps_hasGroup g).later hmeets hg⟩

section

variable [DecidableEq π] {todo : π → List Activity}
  {S : System π Activity VaultCall VaultCall.Res PyError Outcome VaultWorld}

/-- **The shared stores are well-formed**, at every moment of every such run. All that the
repositories look up decodes, and
* a profile is that of its user, who has registered;
* a group is filed under its own normal form, active, and of the system only as `admin`;
* a membership is of its user and of a defined group, and of a registered user unless a
  start-up made an admin of one of its subjects;
* a token is filed under its id, grants defined groups other than `admin`, at least one and
  each once, to a registered owner, expires after it was issued, and is revoked exactly
  when it has a time of revocation;
* an index entry is of a token that an admin minted, and of its owner or of a group that it
  grants;
* no group and no profile is ever lost, whichever processes race. -/
theorem shared_stores_wellFormed (V : SharedVault) (hfresh : V.StartsFresh)
    (hdrawn : ∀ p, ∀ a ∈ todo p, a.Drawn) (hserves : V.Serves todo S) :
    (∀ u, ∃ found, V.store.profileAt V.platform (V.documents S.ledger) u = .ok found
        ∧ ∀ profile, found = some profile → profile.keycloakSub = u
          ∧ JustifiedProfile V S.ledger profile)
      ∧ (∀ g, ∃ found, V.store.groupAt V.platform (V.documents S.ledger) g = .ok found
        ∧ ∀ group, found = some group → group.name = g ∧ group.WellFormed V.platform)
      ∧ (∀ u, ∃ ms, V.store.membershipsAt V.platform (V.documents S.ledger) u = .ok ms
        ∧ ∀ m ∈ ms, m.keycloakSub = u
          ∧ (∃ group, V.store.groupAt V.platform (V.documents S.ledger) m.groupName
            = .ok (some group))
          ∧ ((∃ profile, V.store.profileAt V.platform (V.documents S.ledger) u
              = .ok (some profile))
            ∨ m.groupName = "admin" ∧ ∃ p subjects createdAt grantedAt,
              Ran p (.startUp subjects createdAt grantedAt) S.ledger
                ∧ u ∈ normalizeSubjects subjects))
      ∧ (∀ t, ∃ found, V.store.tokenAt V.platform (V.documents S.ledger) t = .ok found
        ∧ ∀ record, found = some record → record.tokenId = t ∧ record.WellFormed
          ∧ (∃ profile, V.store.profileAt V.platform (V.documents S.ledger) record.ownerSub
            = .ok (some profile))
          ∧ ∀ g ∈ record.grantedGroups, ∃ group,
            V.store.groupAt V.platform (V.documents S.ledger) g = .ok (some group))
      ∧ (∀ u t d, IsHexId t → (V.documents S.ledger).read (V.paths.userTokenPath u t) = some d →
        ∃ record, record.ownerSub = u ∧ record.tokenId = t ∧ JustifiedToken V S.ledger record)
      ∧ (∀ g t d, IsHexId t → (V.documents S.ledger).read (V.paths.groupTokenPath g t) = some d →
        ∃ record, g ∈ record.grantedGroups ∧ record.tokenId = t
          ∧ JustifiedToken V S.ledger record)
      ∧ ∀ L₂ L₁, S.ledger = L₂ ++ L₁ →
        V.Lasts (V.documents L₁) (V.documents S.ledger) := by
  obtain ⟨hmeets, hsound⟩ := serves_sound hfresh hdrawn hserves
  have hgroup : ∀ g, V.HasGroup (V.documents S.ledger) g → ∃ group,
      V.store.groupAt V.platform (V.documents S.ledger) g = .ok (some group) := by
    intro g hg
    obtain ⟨found, hfound, -, hsome⟩ := hsound.group g
    obtain ⟨group, rfl⟩ := hsome hg
    exact ⟨group, hfound⟩
  have hprofile : ∀ u, V.HasProfile (V.documents S.ledger) u → ∃ profile,
      V.store.profileAt V.platform (V.documents S.ledger) u = .ok (some profile) := by
    intro u hu
    obtain ⟨found, hfound, -, hsome⟩ := hsound.profile u
    obtain ⟨profile, rfl⟩ := hsome hu
    exact ⟨profile, hfound⟩
  refine ⟨fun u => ?_, fun g => ?_, fun u => ?_, fun t => ?_, fun u t d ht hread => ?_,
    fun g t d ht hread => ?_, fun L₂ L₁ hL => ?_⟩
  · obtain ⟨found, hfound, hall, -⟩ := hsound.profile u
    exact ⟨found, hfound, hall⟩
  · obtain ⟨found, hfound, hall, -⟩ := hsound.group g
    exact ⟨found, hfound, fun group hg => ⟨(hall group hg).1, (hall group hg).2.wellFormed⟩⟩
  · obtain ⟨ms, hms, hall⟩ := hsound.memberships u
    refine ⟨ms, (Storage.membershipsAt_vault _ _ _ _ _).trans hms, fun m hm => ?_⟩
    obtain ⟨rfl, hjust⟩ := hall m hm
    cases hjust with
    | planned hran hu hadmin _ hdefined =>
        exact ⟨rfl, hgroup _ hdefined, Or.inr ⟨hadmin, _, _, _, _, hran, hu⟩⟩
    | granted _ _ _ _ hregistered hdefined =>
        exact ⟨rfl, hgroup _ hdefined, Or.inl (hprofile _ hregistered)⟩
  · obtain ⟨found, hfound, hall⟩ := hsound.token t
    refine ⟨found, (Storage.tokenAt_vault _ _ _ _ _).trans hfound, fun record hrecord => ?_⟩
    obtain ⟨hid, hjust⟩ := hall record hrecord
    exact ⟨hid, hjust.wellFormed, hprofile _ hjust.hasProfile,
      fun g hg => hgroup g (hjust.hasGroup g hg)⟩
  · have hhex : (RecordKey.userToken u t).Hex := by
      rintro _ ⟨⟩
      exact ht
    have hjust : Justified V S.ledger (.userToken u t) d :=
      hsound.justified hhex (by rintro ⟨⟩) hread
    obtain ⟨record, -, hu, hid, hrecord⟩ := hjust
    exact ⟨record, hu, hid, hrecord⟩
  · have hhex : (RecordKey.groupToken g t).Hex := by
      rintro _ ⟨⟩
      exact ht
    have hjust : Justified V S.ledger (.groupToken g t) d :=
      hsound.justified hhex (by rintro ⟨⟩) hread
    obtain ⟨record, -, hgranted, hid, hrecord⟩ := hjust
    exact ⟨record, hgranted, hid, hrecord⟩
  · rw [hL] at hmeets ⊢
    exact lasts_of_meets hmeets

end

/-- The group that `root` created is filed as the service files groups, and the entry of the
token that it minted for the group is of a justified record. -/
theorem shared_stores_wellFormed_twoServers :
    (∃ group, SharedVault.python.store.groupAt .python
      (SharedVault.python.documents twoServersRun.ledger) "blue" = .ok (some group)
        ∧ group.WellFormed .python)
      ∧ ∃ record, "blue" ∈ record.grantedGroups ∧ record.tokenId = teamMint.tokenId
        ∧ JustifiedToken SharedVault.python twoServersRun.ledger record := by
  have hstored : (SharedVault.python.store.groupAt .python
      (SharedVault.python.documents twoServersRun.ledger) "blue").toOption.join.isSome := by
    decide +kernel
  have hindexed : ((SharedVault.python.documents twoServersRun.ledger).read
      (SharedVault.python.paths.groupTokenPath "blue" teamMint.tokenId)).isSome := by
    decide +kernel
  obtain ⟨-, hgroups, -, -, -, hentries, -⟩ := shared_stores_wellFormed SharedVault.python
    SharedVault.startsFresh_python drawn_twoServers serves_twoServersRun
  constructor
  · obtain ⟨found, hfound, hall⟩ := hgroups "blue"
    cases found with
    | none =>
        have hnone : (SharedVault.python.store.groupAt .python
            (SharedVault.python.documents twoServersRun.ledger) "blue") = .ok none := hfound
        rw [hnone] at hstored
        cases hstored
    | some group => exact ⟨group, hfound, (hall group rfl).2⟩
  · obtain ⟨d, hread⟩ := Option.isSome_iff_exists.mp hindexed
    have hid : IsTokenId teamMint.tokenId := by decide
    exact hentries "blue" teamMint.tokenId d hid.isHexId hread

end GofrSec
