/-
Racing start-ups enrol every configured admin.

* `Activity.Alters`: the requests that are about the memberships of a user;
* `SharedVault.ShowsAdmin`, `Enrols`: a memberships document that makes its user an admin, and
  the answers to client calls after which there is one;
* `hears_applyPlan`: a start-up that ends without raising has read or written such a document
  for each of its subjects; `uses_startUp`: it writes no others;
* `isAdmin_lasts`: as long as no request is about the memberships of a user, nobody takes
  `admin` from him;
* `startUps_enrol`: so, however start-ups race with each other and with requests, the admins
  among such users are the subjects of the start-ups.
-/
import GofrSec.Calls.Conclusions
import GofrSec.Properties.ConcurrentAdmins
import GofrSec.Properties.SharedAccess

namespace GofrSec

open Calls VaultPathLayout

/-- The request is about the memberships of the user. -/
def Activity.Alters (u : String) : Activity → Prop
  | .serve _ (.addGroupMembership _ v _ _ _) => v = u
  | .serve _ (.removeGroupMembership _ v _ _ _) => v = u
  | _ => False

/-! ### Documents of admins -/

/-- The document is there, and makes its user an admin. -/
def SharedVault.ShowsAdmin (V : SharedVault) (d : Option Doc) : Prop :=
  ∃ ms, membershipsOf V.platform V.deployment.now d = .ok ms ∧ inGroup "admin" ms = true

/-- After this answer to the call, the memberships document makes the user an admin. -/
def Enrols (V : SharedVault) (u : String) : (i : VaultCall) → Except PyError i.Res → Prop
  | .readSecret path, .ok d => path = V.paths.userGroupsPath u ∧ V.ShowsAdmin d
  | .writeSecret path d, .ok _ => path = V.paths.userGroupsPath u ∧ V.ShowsAdmin (some d)
  | _, _ => False

/-- After this answer to the repository call, the user is an admin. -/
def RepoCall.Enrols (u : String) : (c : RepoCall) → Except PyError c.Res → Prop
  | .hasMembership v g, .ok member => member = true ∧ v = u ∧ g = "admin"
  | .membershipAdd m, .ok _ => m.keycloakSub = u ∧ m.groupName = "admin"
  | _, _ => False

variable {V : SharedVault} {u : String} {w w' : VaultWorld}

lemma isAdmin_of_enrols {i : VaultCall} {r : Except PyError i.Res} (h : Enrols V u i r)
    (hact : V.act i w r w') : V.IsAdmin w' u := by
  cases r with
  | error e => cases i <;> exact h.elim
  | ok v =>
      refine isAdmin_iff.mpr ?_
      obtain ⟨hout, rfl⟩ := act_ok hact
      cases i with
      | readSecret path =>
          obtain ⟨rfl, hshows⟩ := h
          obtain rfl := Except.ok.inj hout
          exact hshows
      | writeSecret path d =>
          obtain ⟨rfl, ms, hms, hadmin⟩ := h
          refine ⟨ms, ?_, hadmin⟩
          rw [SharedVault.memberships]
          show membershipsOf _ _ ((w.write _ d).read _) = _
          rw [VaultWorld.read_write_self]
          exact hms
      | _ => exact h.elim

/-- A membership that is added to a list is stored with it. -/
lemma showsAdmin_membershipsDoc {ms : List UserGroupMembership} (hne : ms ≠ [])
    (hadmin : inGroup "admin" ms = true) :
    V.ShowsAdmin (some (membershipsDoc V.platform u ms)) := by
  refine ⟨sortByGroupName ms, ?_, ?_⟩
  · have hstored : storedMemberships V.platform u ms = some (membershipsDoc V.platform u ms) := by
      cases ms with
      | nil => exact absurd rfl hne
      | cons m ms => rfl
    rw [← hstored, membershipsOf_stored]
  · rw [inGroup_sort, hadmin]

/-- A list that is not empty is stored by one write. -/
lemma storeMemberships_of_ne {P : Platform} {D : VaultDeployment} {ms : List UserGroupMembership}
    (hne : ms ≠ []) : VaultGroupMembershipRepository.storeMemberships P D u ms
      = writeSecret (D.paths.userGroupsPath u) (membershipsDoc P u ms) := by
  cases ms with
  | nil => exact absurd rfl hne
  | cons m ms => rfl

/-! ### Start-ups -/

/-- The calls that hear of an admin tell so. -/
lemma hears_vaultProgram (c : RepoCall) (b : Bool) :
    (vaultProgram V.platform V.deployment c).wp (hearing (Enrols V u))
      (fun r b' => b = true ∨ c.Enrols u r → b' = true) b := by
  have hother : (∀ r, ¬ c.Enrols u r) → (vaultProgram V.platform V.deployment c).wp
      (hearing (Enrols V u)) (fun r b' => b = true ∨ c.Enrols u r → b' = true) b :=
    fun hc => Prog.wp_mono (fun r b' h hor => hor.elim h fun hr => absurd hr (hc r))
      (Prog.wp_hearing _ b)
  cases c with
  | hasMembership v g =>
      refine (Prog.wp_bind _ _ _ _).mpr ((Prog.wp_bind _ _ _ _).mpr ?_)
      refine (Prog.wp_perform _ _ _).mpr ⟨trivial, fun r b' hpost => ?_⟩
      cases r with
      | error e =>
          rintro (hb | h)
          · exact hpost (Or.inl hb)
          · exact h.elim
      | ok d =>
          rw [Prog.onReturn_ok]
          refine (Prog.wp_lift _ _ _).mpr ?_
          cases hms : membershipsOf V.platform V.deployment.now d with
          | error e =>
              rintro (hb | h)
              · exact hpost (Or.inl hb)
              · exact h.elim
          | ok ms =>
              rintro (hb | ⟨hmember, rfl, rfl⟩)
              · exact hpost (Or.inl hb)
              · exact hpost (Or.inr ⟨rfl, ms, hms, hmember⟩)
  | membershipAdd m =>
      refine (Prog.wp_bind _ _ _ _).mpr (Prog.wp_mono (fun r b' hb' => ?_)
        (Prog.wp_hearing (VaultGroupMembershipRepository.loadMemberships V.platform V.deployment
          m.keycloakSub) b))
      cases r with
      | error e =>
          rintro (hb | h)
          · exact hb' hb
          · exact h.elim
      | ok loaded =>
          have hadmin : m.groupName = "admin" → inGroup "admin"
              (loaded.filter (fun m' => m'.groupName ≠ m.groupName) ++ [m]) = true := by
            intro hg
            rw [inGroup_append]
            simp [inGroup, hg]
          have hne : loaded.filter (fun m' => m'.groupName ≠ m.groupName) ++ [m] ≠ [] := by simp
          rw [Prog.onReturn_ok]
          dsimp only
          rw [storeMemberships_of_ne hne]
          refine (Prog.wp_bind _ _ _ _).mpr ((Prog.wp_perform _ _ _).mpr
            ⟨trivial, fun r b'' hpost => ?_⟩)
          cases r with
          | error e =>
              rintro (hb | h)
              · exact hpost (Or.inl (hb' hb))
              · exact h.elim
          | ok _ =>
              rintro (hb | ⟨rfl, hg⟩)
              · exact hpost (Or.inl (hb' hb))
              · exact hpost (Or.inr ⟨rfl, showsAdmin_membershipsDoc hne (hadmin hg)⟩)
  | _ => exact hother fun r h => by cases r <;> exact h.elim

lemma hears_ensureAdminMembers (grantedAt : String → DateTime) (subs : List String) (b : Bool) :
    (ensureAdminMembers grantedAt subs).wp (hearing (RepoCall.Enrols u))
      (fun r b' => (b = true → b' = true) ∧ ∀ x, r = .ok x → u ∈ subs → b' = true) b := by
  induction subs generalizing b with
  | nil => exact ⟨id, fun _ _ hu => absurd hu List.not_mem_nil⟩
  | cons v subs ih =>
      -- once the first subject is known to be an admin, the others are enrolled
      have hrest : ∀ b₁, (b = true → b₁ = true) → (u = v → b₁ = true) →
          (ensureAdminMembers grantedAt subs).wp (hearing (RepoCall.Enrols u))
            (fun r b' => (b = true → b' = true) ∧ ∀ x, r = .ok x → u ∈ v :: subs → b' = true)
            b₁ := by
        intro b₁ hb hv
        refine Prog.wp_mono (fun r b' ⟨hkept, hsubs⟩ => ?_) (ih b₁)
        refine ⟨fun h => hkept (hb h), fun x hx hu => ?_⟩
        rcases List.mem_cons.mp hu with h | h
        · exact hkept (hv h)
        · exact hsubs x hx h
      refine (Prog.wp_bind _ _ _ _).mpr ((Prog.wp_perform _ _ _).mpr
        ⟨trivial, fun r b₁ hpost => ?_⟩)
      cases r with
      | error e => exact ⟨fun h => hpost (Or.inl h), by rintro _ ⟨⟩⟩
      | ok member =>
          rw [Prog.onReturn_ok]
          cases member with
          | true =>
              exact hrest b₁ (fun h => hpost (Or.inl h)) fun huv =>
                hpost (Or.inr ⟨rfl, huv.symm, rfl⟩)
          | false =>
              refine (Prog.wp_bind _ _ _ _).mpr ((Prog.wp_perform _ _ _).mpr
                ⟨trivial, fun r b₂ hpost₂ => ?_⟩)
              cases r with
              | error e => exact ⟨fun h => hpost₂ (Or.inl (hpost (Or.inl h))), by rintro _ ⟨⟩⟩
              | ok m =>
                  exact hrest b₂ (fun h => hpost₂ (Or.inl (hpost (Or.inl h)))) fun huv =>
                    hpost₂ (Or.inr ⟨huv.symm, rfl⟩)

/-- **A start-up that ends without raising has made each of its subjects an admin**, or found
that it is one. -/
theorem hears_applyPlan (subjects : List String) (createdAt : DateTime)
    (grantedAt : String → DateTime) :
    (applyPlan subjects createdAt grantedAt).wp (hearing (RepoCall.Enrols u))
      (fun r b => ∀ plan, r = .ok plan → u ∈ normalizeSubjects subjects → b = true) false := by
  refine (Prog.wp_bind _ _ _ _).mpr (Prog.wp_mono (fun r b _ => ?_) (Prog.wp_hearing _ false))
  cases r with
  | error e => rintro _ ⟨⟩
  | ok _ =>
      refine (Prog.wp_bind _ _ _ _).mpr (Prog.wp_mono (fun r b' ⟨_, henrolled⟩ => ?_)
        (hears_ensureAdminMembers grantedAt (normalizeSubjects subjects) b))
      cases r with
      | error e => rintro _ ⟨⟩
      | ok x => exact fun _ _ hu => henrolled x rfl hu

/-- The activity is a start-up with the user among its subjects, and it ends without raising. -/
def StartedUp (u : String) : Activity → Except PyError Outcome → Prop
  | .startUp subjects _ _, .ok _ => u ∈ normalizeSubjects subjects
  | _, _ => False

lemma hears_carryOut (a : Activity) :
    (V.carryOut a).wp (hearing (Enrols V u)) (fun r b => StartedUp u a r → b = true) false := by
  refine Prog.wp_translate (D := hearing (RepoCall.Enrols u))
    (fun c b _ => hears_vaultProgram c b) ?_
  cases a with
  | startUp subjects createdAt grantedAt =>
      refine (Prog.wp_map _ _ _ _).mpr (Prog.wp_mono (fun r b h => ?_)
        (hears_applyPlan subjects createdAt grantedAt))
      cases r with
      | error e => exact False.elim
      | ok plan => exact h plan rfl
  | serve app q =>
      refine Prog.wp_mono (fun r b _ => ?_) (Prog.wp_hearing _ false)
      cases r <;> exact False.elim

/-! ### What start-ups write -/

/-- A call that has the memberships document of the user as its target writes one that makes
him an admin. -/
def WritesAdmin (V : SharedVault) (u : String) (i : VaultCall) : Prop :=
  i.target = some (V.paths.userGroupsPath u) →
    ∃ d, i = .writeSecret (V.paths.userGroupsPath u) d ∧ V.ShowsAdmin (some d)

lemma writesAdmin_of_untargeted {i : VaultCall} (h : i.target ≠ some (V.paths.userGroupsPath u)) :
    WritesAdmin V u i := fun htarget => absurd htarget h

lemma writesAdmin_vaultProgram {c : RepoCall} (hadd : ∀ m, c = .membershipAdd m →
    m.groupName = "admin") (hremove : ∀ v g, c ≠ .membershipRemove v g)
    (htoken : ∀ record, c ≠ .tokenUpsert record) :
    (vaultProgram V.platform V.deployment c).Uses (WritesAdmin V u) := by
  by_cases hc : ∃ m, c = .membershipAdd m
  · obtain ⟨m, rfl⟩ := hc
    have hg := hadd m rfl
    refine Prog.Uses.bind ?_ fun loaded => Prog.Uses.bind ?_ fun _ => Prog.uses_pure _
    · exact Prog.Uses.bind ((Prog.uses_perform _).mpr (writesAdmin_of_untargeted (by rintro ⟨⟩)))
        fun _ => Prog.uses_lift _
    · have hne : loaded.filter (fun m' => m'.groupName ≠ m.groupName) ++ [m] ≠ [] := by simp
      rw [storeMemberships_of_ne hne]
      refine (Prog.uses_perform _).mpr fun htarget => ?_
      obtain rfl := userGroupsPath_inj (Option.some.inj htarget)
      refine ⟨_, rfl, showsAdmin_membershipsDoc hne ?_⟩
      rw [inGroup_append]
      simp [inGroup, hg]
  · refine (uses_vaultProgram V.platform V.deployment c).mono fun i hi => ?_
    exact writesAdmin_of_untargeted (keepsMemberships_of_writes hi (fun m h => hc ⟨m, h⟩) hremove
      htoken u)

/-- The activity is a start-up. -/
def Activity.isStartUp : Activity → Bool
  | .startUp _ _ _ => true
  | .serve _ _ => false

/-- Start-ups write memberships documents of admins only. -/
lemma uses_carryOut (V : SharedVault) (u : String) (a : Activity) :
    (V.carryOut a).Uses fun i => a.isStartUp = true → WritesAdmin V u i := by
  cases a with
  | serve app q =>
      refine Prog.uses_translate (fun c => (uses_vaultProgram V.platform V.deployment c).mono ?_) _
      rintro i - ⟨⟩
  | startUp subjects createdAt grantedAt =>
      let Plans (c : RepoCall) : Prop := (∀ m, c = .membershipAdd m → m.groupName = "admin")
        ∧ (∀ v g, c ≠ .membershipRemove v g) ∧ ∀ record, c ≠ .tokenUpsert record
      have hread : ∀ c : RepoCall, c.Reads → Plans c := by
        rintro c ⟨hc, -⟩
        refine ⟨?_, ?_, ?_⟩
        · rintro m rfl
          exact absurd trivial hc
        · rintro v g rfl
          exact absurd trivial hc
        · rintro record rfl
          exact absurd trivial hc
      have hgroup : ∀ g : GroupDefinition, Plans (.groupUpsert g) := by
        intro g
        refine ⟨?_, ?_, ?_⟩
        · rintro _ ⟨⟩
        · rintro _ _ ⟨⟩
        · rintro _ ⟨⟩
      have hadd : ∀ m : UserGroupMembership, m.groupName = "admin" → Plans (.membershipAdd m) := by
        intro m hm
        refine ⟨?_, ?_, ?_⟩
        · rintro _ ⟨⟩
          exact hm
        · rintro _ _ ⟨⟩
        · rintro _ ⟨⟩
      have hplan : (applyPlan subjects createdAt grantedAt).Uses Plans :=
        (uses_ensureReservedGroups hread fun g _ => hgroup g).bind fun _ =>
          (uses_ensureAdminMembers hread fun m hm _ => hadd m hm).bind fun _ => Prog.uses_pure _
      refine Prog.Uses.translate (W := Plans) (fun c hc => ?_) (uses_map _ hplan)
      exact (writesAdmin_vaultProgram hc.1 hc.2.1 hc.2.2).mono fun i hi _ => hi

/-! ### Runs -/

section

variable {π : Type} {todo : π → List Activity} {L L₁ L₂ : ServerLedger π} {e : ServerEvent π}

/-- The steps of a run of server processes. -/
abbrev MakesCalls (V : SharedVault) (u : String) (todo : π → List Activity) :
    ServerLedger π → ServerEvent π → Prop :=
  Makes V.act V.start todo fun a i => a.isStartUp = true → WritesAdmin V u i

/-- A step leaves the user an admin, if it is not of a request that is about his memberships. -/
lemma isAdmin_cons (hunaltered : ∀ p, ∀ a ∈ todo p, ¬ a.Alters u)
    (hmakes : MakesCalls V u todo L e) (hallowed : (authority V).Allowed L e)
    (h : V.IsAdmin (V.documents L) u) : V.IsAdmin (V.documents (e :: L)) u := by
  cases e with
  | finish p a r => exact h
  | call p a i r w =>
      by_cases hsame : w.read (V.paths.userGroupsPath u)
          = (V.documents L).read (V.paths.userGroupsPath u)
      · show V.hasMembership w u "admin" = .ok true
        rw [SharedVault.hasMembership_congr hsame]
        exact h
      · -- the document changes, so the activity is a start-up, and its call has returned
        obtain ⟨key, hhex, hkey, hcontrols, -⟩ := hallowed.guar.2.2 _ hsame
        have hgroups : RecordKey.Hex (.userGroups u) := hex_of_tokenId_none rfl
        obtain rfl := pathOf_inj (L := V.paths) hhex hgroups hkey.symm
        have ha := hunaltered p a hmakes.todo
        cases a with
        | startUp subjects createdAt grantedAt =>
            have hact : V.act i (V.documents L) r w := hmakes.fits
            obtain ⟨v, rfl, htarget⟩ : ∃ v, r = .ok v
                ∧ i.target = some (V.paths.userGroupsPath u) := by
              by_contra hnone
              exact hsame (read_of_act hact fun v hv ht => hnone ⟨v, hv, ht⟩)
            obtain ⟨d, rfl, hshows⟩ := hmakes.call rfl htarget
            have henrols : Enrols V u (.writeSecret (V.paths.userGroupsPath u) d) (.ok v) :=
              ⟨rfl, hshows⟩
            exact isAdmin_of_enrols henrols hact
        | serve app q =>
            cases q with
            | addGroupMembership => exact absurd (RecordKey.userGroups.inj hcontrols).symm ha
            | removeGroupMembership => exact absurd (RecordKey.userGroups.inj hcontrols).symm ha
            | createGroup => obtain ⟨g, -, -, ⟨⟩⟩ := hcontrols
            | registerMe => cases hcontrols
            | createToken => cases hcontrols
            | revokeToken => cases hcontrols
            | _ => exact hcontrols.elim

/-- **An admin remains one**, as long as no request is about his memberships. -/
theorem isAdmin_lasts (hunaltered : ∀ p, ∀ a ∈ todo p, ¬ a.Alters u)
    (hmakes : Meets (MakesCalls V u todo) (L₂ ++ L₁))
    (hallowed : Meets (authority V).Allowed (L₂ ++ L₁)) (h : V.IsAdmin (V.documents L₁) u) :
    V.IsAdmin (V.documents (L₂ ++ L₁)) u := by
  induction L₂ with
  | nil => exact h
  | cons e L₂ ih =>
      obtain ⟨hstep, hmakes⟩ := meets_cons.mp hmakes
      obtain ⟨hguar, hallowed⟩ := meets_cons.mp hallowed
      exact isAdmin_cons hunaltered hstep hguar (ih hmakes hallowed)

variable [DecidableEq π]
  {S : System π Activity VaultCall VaultCall.Res PyError Outcome VaultWorld}

/-- **Racing start-ups enrol every configured admin.** From a Vault without documents of the
service, let any number of server processes start up and serve any requests, their client calls
interleaved in any way and raising wherever they may. Take a user whose memberships no request
is about:
* once a start-up that has him among its subjects has ended without raising, he is an admin, in
  every state from then on;
* once he is an admin, he remains one;
* he is in no group but `admin`, and there only if some start-up has him among its subjects. -/
theorem startUps_enrol (V : SharedVault) (hfresh : V.StartsFresh)
    (hdrawn : ∀ p, ∀ a ∈ todo p, a.Drawn) (hserves : V.Serves todo S) {u : String}
    (hunaltered : ∀ p, ∀ a ∈ todo p, ¬ a.Alters u) :
    (∀ p subjects createdAt grantedAt outcome,
        .finish p (.startUp subjects createdAt grantedAt) (.ok outcome) ∈ S.ledger →
          u ∈ normalizeSubjects subjects → V.IsAdmin (V.documents S.ledger) u)
      ∧ (∀ L₂ L₁, S.ledger = L₂ ++ L₁ → V.IsAdmin (V.documents L₁) u →
        V.IsAdmin (V.documents S.ledger) u)
      ∧ ∀ g, V.hasMembership (V.documents S.ledger) u g = .ok true → g = "admin"
        ∧ ∃ p subjects createdAt grantedAt, Ran p (.startUp subjects createdAt grantedAt) S.ledger
          ∧ u ∈ normalizeSubjects subjects := by
  obtain ⟨hallowed, hsound⟩ := serves_sound hfresh hdrawn hserves
  have hmakes : Meets (MakesCalls V u todo) S.ledger :=
    Reachable.makes (uses_carryOut V u) hserves
  have hlasts : ∀ L₂ L₁, S.ledger = L₂ ++ L₁ → V.IsAdmin (V.documents L₁) u →
      V.IsAdmin (V.documents S.ledger) u := by
    intro L₂ L₁ hL h
    rw [hL] at hmakes hallowed ⊢
    exact isAdmin_lasts hunaltered hmakes hallowed h
  refine ⟨fun p subjects createdAt grantedAt outcome hend hu => ?_, hlasts, fun g hmember => ?_⟩
  · obtain ⟨A, B, hL⟩ := List.append_of_mem hend
    obtain ⟨q, a, i, r, w, hmem, henrols⟩ := Reachable.hears hears_carryOut hserves A _ B hL hu
    obtain ⟨A', B', hB⟩ := List.append_of_mem (mem_of_mem_ongoing hmem)
    have hledger : S.ledger
        = (A ++ .finish p (.startUp subjects createdAt grantedAt) (.ok outcome) :: A')
          ++ .call q a i r w :: B' := by
      rw [hL, hB]
      simp
    refine hlasts _ _ hledger ?_
    have hact : V.act i (V.documents B') r w := (hmakes _ _ _ hledger).fits
    exact isAdmin_of_enrols henrols hact
  · obtain ⟨ms, hms, hall⟩ := hsound.memberships u
    rw [SharedVault.hasMembership_of_memberships hms] at hmember
    obtain ⟨m, hm, rfl⟩ := inGroup_iff.mp (Except.ok.inj hmember)
    obtain ⟨rfl, hjust⟩ := hall m hm
    cases hjust with
    | planned hran hu hadmin _ _ => exact ⟨hadmin, _, _, _, _, hran, hu⟩
    | granted hvouched _ _ _ _ _ =>
        obtain ⟨i, r, w, hcall⟩ := ran_of_vouched hvouched
        obtain ⟨A, B, hL⟩ := List.append_of_mem hcall
        exact absurd rfl (hunaltered _ _ (hmakes _ _ _ hL).todo)

end

/-- A start-up for `root` has ended without raising. -/
def rootStarted : ServerEvent Bool → Bool
  | .finish _ (.startUp subjects _ _) (.ok _) => "root" ∈ normalizeSubjects subjects
  | _ => false

/-- Two processes that both start up for `root` make him an admin, and nothing else. -/
theorem startUps_enrol_twoServers :
    SharedVault.python.IsAdmin (SharedVault.python.documents twoServersRun.ledger) "root"
      ∧ ∀ g, SharedVault.python.hasMembership (SharedVault.python.documents twoServersRun.ledger)
        "root" g = .ok true → g = "admin" := by
  have hunaltered : ∀ p, ∀ a ∈ twoServers p, ¬ a.Alters "root" := by
    intro p a ha
    cases p with
    | true =>
        simp only [twoServers, List.mem_cons, List.not_mem_nil, or_false] at ha
        rcases ha with rfl | rfl | rfl | rfl <;> exact id
    | false =>
        simp only [twoServers, List.mem_cons, List.not_mem_nil, or_false] at ha
        rcases ha with rfl | rfl <;> exact id
  obtain ⟨henrolled, -, honly⟩ := startUps_enrol SharedVault.python SharedVault.startsFresh_python
    drawn_twoServers serves_twoServersRun hunaltered
  refine ⟨?_, fun g hg => (honly g hg).1⟩
  have hany : twoServersRun.ledger.any rootStarted = true := by decide +kernel
  obtain ⟨e, he, hstarted⟩ := List.any_eq_true.mp hany
  unfold rootStarted at hstarted
  split at hstarted
  · exact henrolled _ _ _ _ _ he (of_decide_eq_true hstarted)
  · cases hstarted

end GofrSec
