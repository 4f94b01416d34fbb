/-
Requests that are answered with an error have written nothing.

* `PyError.OfClient`: what the Vault client raises, which no route catches;
* `RepoCall.Wrote`, `repoNoise`: the answers to a repository call after which a record may
  have been written, and the contract that tells whether there was one; `vaultNoise` is the
  same of the calls of the Vault client (`noise_vaultProgram`);
* `Hushed`: a service method that raises anything but an error of the client has written
  nothing; it is so of all those of the admin routes (`hushed_mintToken` and its siblings);
* `Activity.harmless`, `unnoticed_activity`: a request that is answered with an error, or
  that is to a route that only looks, has written nothing.
-/
import GofrSec.Calls.Conclusions
import GofrSec.Services.Servers

namespace GofrSec

open Calls

/-! ### Writing -/

/-- An exception of the Vault client, which no route catches. -/
def PyError.OfClient (e : PyError) : Prop := ∃ cls msg, e = .other cls msg

/-- After this answer to the call a record may have been written. -/
def RepoCall.Wrote : (c : RepoCall) → Except PyError c.Res → Prop
  | .membershipRemove _ _, .ok removed => removed = true
  | c, .ok _ => c.Stores
  | c, .error e => c.Stores ∧ e.OfClient

/-- Appending an audit event raises no exception of the service's own. -/
def RepoCall.MayAnswer : (c : RepoCall) → Except PyError c.Res → Prop
  | .auditAppend _, .error e => e.OfClient
  | _, _ => True

/-- Whether repository calls may have written a record. -/
def repoNoise : Contract RepoCall RepoCall.Res PyError Bool :=
  noise RepoCall.MayAnswer RepoCall.Wrote

/-- Whether client calls that raise exceptions of the client only may have written. -/
def vaultNoise : Contract VaultCall VaultCall.Res PyError Bool :=
  noise (fun _ r => ∀ e, r = .error e → e.OfClient) fun i _ => i.target.isSome = true

variable {α β : Type} {P : Platform} {D : VaultDeployment}

lemma stores_of_wrote {c : RepoCall} {r : Except PyError c.Res} (h : c.Wrote r) : c.Stores := by
  cases r with
  | ok v =>
      cases c with
      | membershipRemove u g => trivial
      | _ => exact h
  | error e =>
      cases c with
      | _ => exact h.1

/-! ### Over Vault -/

/-- What a client call leaves to show, if it changes no document. -/
lemma vaultNoise_of_uses {p : VaultProg α} (hp : p.Uses fun i => i.target = none) (b : Bool) :
    p.wp vaultNoise (fun _ b' => b' = true → b = true) b := by
  refine Prog.wp_of_uses (I := fun b' : Bool => b' = true → b = true) ?_ hp id
  intro i b' hi hb'
  refine ⟨trivial, ?_⟩
  rintro r b'' ⟨-, hloud⟩ hb''
  rcases hloud hb'' with h | h
  · exact hb' h
  · rw [hi] at h
    cases h

/-- Client calls one after another raise exceptions of the client only. -/
lemma vaultNoise_performAll (cs : List VaultCall) (b : Bool) :
    (Prog.performAll cs).wp vaultNoise (fun r _ => ∀ e, r = .error e → e.OfClient) b := by
  induction cs generalizing b with
  | nil =>
      intro e he
      cases he
  | cons c cs ih =>
      refine ⟨trivial, ?_⟩
      rintro r b' ⟨hcan, -⟩
      cases r with
      | ok v => exact ih b'
      | error e => exact fun e' he' => hcan e' (congrArg Except.error (Except.error.inj he'))

/-- So does one of them. -/
lemma vaultNoise_perform (c : VaultCall) (b : Bool) :
    (VaultCall.perform c).wp vaultNoise (fun r _ => ∀ e, r = .error e → e.OfClient) b := by
  refine (Prog.wp_perform _ _ _).mpr ⟨trivial, ?_⟩
  rintro r b' ⟨hcan, -⟩
  exact hcan

lemma vaultNoise_storeMemberships (u : String) (ms : List UserGroupMembership) (b : Bool) :
    (VaultGroupMembershipRepository.storeMemberships P D u ms).wp vaultNoise
      (fun r _ => ∀ e, r = .error e → e.OfClient) b := by
  cases ms with
  | nil =>
      refine (Prog.wp_bind _ _ _ _).mpr (Prog.wp_mono (fun r b' hr => ?_)
        (vaultNoise_perform (.deleteSecret _) b))
      cases r with
      | ok v =>
          intro e he
          cases he
      | error e => exact fun e' he' => hr e' (congrArg Except.error (Except.error.inj he'))
  | cons m ms => exact vaultNoise_perform _ b

/-- A repository call that ends with writes. -/
lemma noise_of_writes (c : RepoCall) (hc : c.Stores) {q : VaultProg β} {v : c.Res}
    (hv : c.Wrote (.ok v)) {b b₀ : Bool}
    (hq : q.wp vaultNoise (fun r _ => ∀ e, r = .error e → e.OfClient) b) :
    (q >>= fun _ => pure v).wp vaultNoise (fun r b' => repoNoise.post c b₀ r b') b := by
  have hmay : ∀ r, c.MayAnswer r := by
    intro r
    cases c with
    | auditAppend event => exact hc.elim
    | _ => trivial
  refine (Prog.wp_bind _ _ _ _).mpr (Prog.wp_mono (fun r b' hr => ?_) hq)
  cases r with
  | ok _ => exact ⟨hmay _, fun _ => Or.inr hv⟩
  | error e =>
      refine ⟨hmay _, fun _ => Or.inr ?_⟩
      cases c with
      | auditAppend event => exact hc.elim
      | _ => exact ⟨hc, hr e rfl⟩

/-- A repository call that looks before it does anything else. -/
lemma noise_after_looking (c : RepoCall) (hc : c.Stores) {q : VaultProg β}
    {f : β → VaultProg c.Res} (hq : q.Uses fun i => i.target = none) {b : Bool}
    (hf : ∀ v b', (b' = true → b = true) →
      (f v).wp vaultNoise (fun r b' => repoNoise.post c b r b') b') :
    (q >>= f).wp vaultNoise (fun r b' => repoNoise.post c b r b') b := by
  refine (Prog.wp_bind _ _ _ _).mpr (Prog.wp_mono (fun r b' hb' => ?_) (vaultNoise_of_uses hq b))
  cases r with
  | ok v => exact hf v b' hb'
  | error e =>
      cases c with
      | auditAppend event => exact hc.elim
      | _ => exact ⟨trivial, fun h => Or.inl (hb' h)⟩

lemma looks_of_visits {p : VaultProg α} (hp : p.Uses (VaultCall.Visits fun _ => False)) :
    p.Uses fun i => i.target = none := by
  refine hp.mono fun i hi => ?_
  cases htarget : i.target with
  | none => rfl
  | some k => exact (hi.2 k htarget).elim

variable (P D) in
/-- **A repository call writes no document before it is sure to raise no exception of its
own.** -/
theorem noise_vaultProgram (c : RepoCall) (b : Bool) :
    (vaultProgram P D c).wp vaultNoise (fun r b' => repoNoise.post c b r b') b := by
  have hlooks : (∀ k, ¬ c.Writes D.paths k) → c.mayFail → (vaultProgram P D c).wp vaultNoise
      (fun r b' => repoNoise.post c b r b') b := by
    intro hwrites hmay
    have huses : (vaultProgram P D c).Uses fun i => i.target = none :=
      looks_of_visits ((uses_vaultProgram_of_mayFail P D hmay).mono fun i hi =>
        ⟨hi.1, fun k hk => hwrites k (hi.2 k hk)⟩)
    refine Prog.wp_mono (fun r b' hb' => ⟨?_, fun h => Or.inl (hb' h)⟩)
      (vaultNoise_of_uses huses b)
    cases c with
    | auditAppend event => exact hmay.elim
    | _ => trivial
  cases c with
  | profileUpsert profile =>
      exact noise_of_writes (.profileUpsert profile) trivial trivial (vaultNoise_perform _ b)
  | groupUpsert group =>
      exact noise_of_writes (.groupUpsert group) trivial trivial (vaultNoise_perform _ b)
  | membershipAdd m =>
      refine noise_after_looking (.membershipAdd m) trivial
        (looks_of_visits (uses_loadMemberships _)) fun loaded b' _ => ?_
      exact noise_of_writes (.membershipAdd m) trivial trivial (vaultNoise_storeMemberships _ _ b')
  | membershipRemove u g =>
      refine noise_after_looking (.membershipRemove u g) trivial
        (looks_of_visits (uses_loadMemberships _)) fun loaded b' hb' => ?_
      dsimp only
      split_ifs
      · exact ⟨trivial, fun h => Or.inl (hb' h)⟩
      · exact noise_of_writes (.membershipRemove u g) trivial rfl
          (vaultNoise_storeMemberships _ _ b')
  | tokenUpsert record =>
      show (VaultTokenRepository.upsert P D record).wp _ _ _
      rw [VaultTokenRepository.upsert_eq]
      refine noise_after_looking (.tokenUpsert record) trivial
        (looks_of_visits (uses_getRecord _ _)) fun previous b' _ => ?_
      exact noise_of_writes (.tokenUpsert record) trivial trivial (vaultNoise_performAll _ b')
  | auditAppend event =>
      refine (Prog.wp_perform _ _ _).mpr ⟨trivial, ?_⟩
      rintro r b' ⟨hcan, hloud⟩
      refine ⟨?_, fun hb' => Or.inl ((hloud hb').resolve_right (by rintro ⟨⟩))⟩
      cases r with
      | ok v => trivial
      | error e => exact hcan e rfl
  | _ => exact hlooks (fun _ h => h) trivial

/-! ### The service methods -/

/-- The program has written nothing if it raises anything but an exception of the client. -/
def Hushed (p : RepoProg α) : Prop :=
  p.wp repoNoise (fun r b => b = true → ∀ e, r = .error e → e.OfClient) false

/-- The contract asks nothing of a program. -/
lemma wp_repoNoise (p : RepoProg α) (b : Bool) : p.wp repoNoise (fun _ _ => True) b := by
  induction p generalizing b with
  | ret a => trivial
  | raise e => trivial
  | call c k ih => exact ⟨trivial, fun r b' _ => ih r b'⟩

/-- A program that stores nothing has written nothing. -/
lemma silent_of_uses {p : RepoProg α} (hp : p.Uses fun c => ¬ c.Stores) :
    p.wp repoNoise (fun _ b => b = false) false := by
  refine Prog.wp_of_uses (I := fun b : Bool => b = false) ?_ hp rfl
  intro c b hc hb
  refine ⟨trivial, ?_⟩
  rintro r b' ⟨-, hloud⟩
  cases b' with
  | false => rfl
  | true =>
      rcases hloud rfl with h | h
      · exact h.symm.trans hb
      · exact absurd (stores_of_wrote h) hc

lemma Hushed.after {q : RepoProg β} {f : β → RepoProg α} (hq : q.Uses fun c => ¬ c.Stores)
    (hf : ∀ v, Hushed (f v)) : Hushed (q >>= f) := by
  refine (Prog.wp_bind _ _ _ _).mpr (Prog.wp_mono (fun r b hb => ?_) (silent_of_uses hq))
  subst hb
  cases r with
  | ok v => exact hf v
  | error e =>
      intro h
      cases h

lemma hushed_of_uses {p : RepoProg α} (hp : p.Uses fun c => ¬ c.Stores) : Hushed p := by
  refine Prog.wp_mono (fun r b hb h => ?_) (silent_of_uses hp)
  rw [hb] at h
  cases h

/-- A call that stores a record raises exceptions of its own only before it does. -/
lemma hushed_store (c : RepoCall) : Hushed (RepoCall.perform c) := by
  refine (Prog.wp_perform _ _ _).mpr ⟨trivial, ?_⟩
  rintro r b ⟨-, hloud⟩ hb e rfl
  rcases hloud hb with h | h
  · cases h
  · cases c with
    | _ => exact h.2

lemma Hushed.map {p : RepoProg α} (h : Hushed p) (f : α → β) :
    Hushed (p >>= fun a => pure (f a)) := by
  refine (Prog.wp_bind _ _ _ _).mpr (Prog.wp_mono (fun r b hr => ?_) h)
  cases r with
  | ok a =>
      intro _ e he
      cases he
  | error e => exact fun hb e' he' => hr hb e' (congrArg Except.error (Except.error.inj he'))

/-- The frame of a service method keeps to it. -/
lemma Hushed.audited {body : RepoProg α} (h : Hushed body) (failure : AuditEvent)
    (success : α → AuditEvent) : Hushed (audited body failure success) := by
  rw [Hushed, GofrSec.audited, Prog.wp_handle]
  refine Prog.wp_mono (fun r b hr => ?_) h
  have happend : ∀ event (out : Except PyError α),
      (b = true → ∀ e, out = .error e → e.OfClient) →
      (auditAppend event >>= fun _ => Prog.done out).wp repoNoise
        (fun r b => b = true → ∀ e, r = .error e → e.OfClient) b := by
    intro event out hout
    refine (Prog.wp_bind _ _ _ _).mpr ((Prog.wp_perform _ _ _).mpr ⟨trivial, ?_⟩)
    rintro r' b' ⟨hmay, hloud⟩
    cases r' with
    | ok v =>
        refine (Prog.wp_done _ _ _).mpr fun hb' => hout ?_
        exact (hloud hb').resolve_right id
    | error e =>
        rintro - e' ⟨⟩
        exact hmay
  cases r with
  | ok v => exact happend (success v) (.ok v) hr
  | error e => exact happend failure (.error e) hr

section

variable {correlationId : Option String} {clock : Clock}

lemma hushed_createGroup (name : String) (description : Option String) (actorSub : String) :
    Hushed (createGroup P name description actorSub correlationId clock) := by
  refine Hushed.audited (Hushed.after (Prog.uses_lift _) fun n => ?_) _ _
  refine Hushed.after (Prog.uses_lift _) fun reserved => ?_
  split_ifs
  · exact hushed_of_uses (Prog.uses_throw _)
  · refine Hushed.after (uses_call id) fun existing => ?_
    split_ifs
    · exact hushed_of_uses (Prog.uses_throw _)
    · exact hushed_store _

lemma hushed_addMembership (u g actorSub : String) :
    Hushed (addMembership P u g actorSub correlationId clock) := by
  refine Hushed.audited (Hushed.after (Prog.uses_lift _) fun n => ?_) _ _
  refine Hushed.after (uses_requireActiveGroup reads_not_stores n) fun _ => ?_
  refine Hushed.after (uses_call id) fun registered => ?_
  split_ifs
  · refine Hushed.after (uses_findMembership reads_not_stores u n) fun found => ?_
    cases found with
    | some existing => exact hushed_of_uses (Prog.uses_pure _)
    | none => exact hushed_store _
  · exact hushed_of_uses (Prog.uses_throw _)

/-- Nothing has been written where there was no membership to remove. -/
lemma hushed_remove (u n : String) : Hushed (do
    let removed ← membershipRemove u n
    if removed then pure n else throw (membershipNotFound u n)) := by
  refine (Prog.wp_bind _ _ _ _).mpr ((Prog.wp_perform _ _ _).mpr ⟨trivial, ?_⟩)
  rintro r b ⟨-, hloud⟩
  cases r with
  | ok removed =>
      dsimp only [Prog.onReturn_ok]
      split_ifs with hremoved
      · intro _ e he
        cases he
      · intro hb
        rcases hloud hb with h | h
        · cases h
        · exact absurd h hremoved
  | error e =>
      rintro hb e' ⟨⟩
      rcases hloud hb with h | h
      · cases h
      · exact h.2

lemma hushed_removeMembership (u g actorSub : String) :
    Hushed (removeMembership P u g actorSub correlationId clock) := by
  refine Hushed.map (Hushed.audited (Hushed.after (Prog.uses_lift _) fun n => ?_) _ _) _
  refine Hushed.after (uses_requireActiveGroup reads_not_stores n) fun _ => ?_
  refine Hushed.after (uses_findMembership reads_not_stores u n) fun found => ?_
  cases found with
  | none =>
      refine Hushed.after (uses_call id) fun registered => ?_
      split_ifs
      · exact hushed_of_uses (Prog.uses_throw _)
      · exact hushed_of_uses (Prog.uses_throw _)
  | some m =>
      dsimp only
      split_ifs
      · refine Hushed.after (uses_call id) fun count => ?_
        exact Hushed.after (Prog.uses_lift _) fun _ => hushed_remove u n
      · exact hushed_remove u n

lemma hushed_mintToken (request : MintRequest) : Hushed (mintToken P request clock) := by
  refine Hushed.map (Hushed.audited ?_ _ _) _
  rw [mintTokenBody_eq]
  refine Hushed.after (uses_prepareMint reads_not_stores _ _) fun prepared => ?_
  exact Hushed.map (hushed_store _) _

lemma hushed_revokeToken (t actorSub : String) :
    Hushed (revokeToken t actorSub correlationId clock) := by
  refine Hushed.audited ?_ _ _
  refine Hushed.after (uses_getTokenOrRaise reads_not_stores t) fun current => ?_
  split_ifs
  · exact hushed_of_uses (Prog.uses_pure _)
  · exact hushed_store _

end

/-! ### The routes -/

/-- The request is answered with an error. -/
def Refused : Except PyError Response → Prop
  | .ok (.error _ _) => True
  | _ => False

/-- Nothing has been written if the request is answered with an error. -/
def Unnoticed (p : RepoProg Response) : Prop :=
  p.wp repoNoise (fun r b => Refused r → b = false) false

lemma unnoticed_of_uses {p : RepoProg Response} (hp : p.Uses fun c => ¬ c.Stores) :
    Unnoticed p := by
  refine Prog.wp_mono (fun r b hb => ?_) (silent_of_uses hp)
  exact fun _ => hb

/-- A route answers with an error only to exceptions of the service. -/
lemma unnoticed_respond {service : RepoProg α} {statusOf : PyError → Option ℕ} {success : ℕ}
    {body : α → Except PyError Body} (hstatus : ∀ e, e.OfClient → statusOf e = none)
    (h : Hushed service) : Unnoticed (respond service statusOf success body) := by
  refine (Prog.wp_handle _ _ _ _).mpr (Prog.wp_mono (fun r b hr => ?_) h)
  cases r with
  | ok a =>
      refine (Prog.wp_lift _ _ _).mpr ?_
      cases body a with
      | ok _ => exact fun h => h.elim
      | error e => exact fun h => h.elim
  | error e =>
      dsimp only
      cases b with
      | false => cases statusOf e <;> exact fun _ => rfl
      | true =>
          rw [hstatus e (hr rfl e rfl)]
          exact fun h => h.elim

/-- A route that catches nothing answers with no error. -/
lemma unnoticed_respond_uncaught {service : RepoProg α} {success : ℕ}
    {body : α → Except PyError Body} :
    Unnoticed (respond service (fun _ => none) success body) := by
  refine (Prog.wp_handle _ _ _ _).mpr (Prog.wp_mono (Q := fun _ _ => True) (fun r b _ => ?_) ?_)
  · cases r with
    | ok a =>
        refine (Prog.wp_lift _ _ _).mpr ?_
        cases body a with
        | ok _ => exact fun h => h.elim
        | error e => exact fun h => h.elim
    | error e => exact fun h => h.elim
  · exact wp_repoNoise service false

lemma Unnoticed.requireAdmin {identity : VerifiedIdentity} {route : RepoProg Response}
    (h : Unnoticed route) : Unnoticed (requireAdminIdentity identity route) := by
  refine (Prog.wp_bind _ _ _ _).mpr (Prog.wp_mono (fun r b hb => ?_)
    (silent_of_uses (uses_call (c := .hasMembership identity.subject reservedAdminGroup) id)))
  subst hb
  cases r with
  | ok member =>
      dsimp only [Prog.onReturn_ok]
      split_ifs
      · exact h
      · exact fun _ => rfl
  | error e => exact fun _ => rfl

lemma Unnoticed.withTokenSigner {app : AppState} {route : RepoProg Response}
    (h : Unnoticed route) : Unnoticed (withTokenSigner app route) := by
  rw [GofrSec.withTokenSigner]
  split_ifs
  · exact h
  · exact fun _ => rfl

/-- **A request that is answered with an error has written nothing.** -/
theorem unnoticed_request (app : AppState) (q : Request) : Unnoticed (q.prog P app) := by
  by_cases hq : q.looks
  · exact unnoticed_of_uses (uses_looks app hq)
  cases q with
  | createGroup identity name description correlationId clock =>
      refine (unnoticed_respond ?_ (hushed_createGroup name description _)).requireAdmin
      rintro e ⟨cls, msg, rfl⟩
      rfl
  | addGroupMembership identity u g correlationId clock =>
      refine (unnoticed_respond ?_ (hushed_addMembership u g _)).requireAdmin
      rintro e ⟨cls, msg, rfl⟩
      rfl
  | removeGroupMembership identity u g correlationId clock =>
      refine (unnoticed_respond ?_ (hushed_removeMembership u g _)).requireAdmin
      rintro e ⟨cls, msg, rfl⟩
      rfl
  | createToken identity u groups expiresInSeconds tokenId correlationId clock =>
      refine (unnoticed_respond ?_ (hushed_mintToken _)).withTokenSigner.requireAdmin
      rintro e ⟨cls, msg, rfl⟩
      rfl
  | revokeToken identity t correlationId clock =>
      refine (unnoticed_respond ?_ (hushed_revokeToken t _)).requireAdmin
      rintro e ⟨cls, msg, rfl⟩
      rfl
  | registerMe identity correlationId clock => exact unnoticed_respond_uncaught
  | _ => exact absurd rfl hq

/-! ### Activities -/

/-- The outcome is an error response. -/
def Outcome.isRefusal : Except PyError Outcome → Bool
  | .ok (.response (.error _ _)) => true
  | _ => false

/-- The activity is a request that only looks, or that was answered with an error. -/
def Activity.harmless : Activity → Except PyError Outcome → Bool
  | .serve _ q, r => q.looks || Outcome.isRefusal r
  | .startUp _ _ _, _ => false

/-- **A harmless activity has written nothing.** -/
theorem unnoticed_activity (a : Activity) :
    (a.prog P).wp repoNoise (fun r b => a.harmless r = true → b = false) false := by
  cases a with
  | startUp subjects createdAt grantedAt =>
      refine Prog.wp_mono (fun r b _ h => ?_) (wp_repoNoise _ _)
      cases h
  | serve app q =>
      refine (Prog.wp_map _ _ _ _).mpr ?_
      by_cases hq : q.looks
      · refine Prog.wp_mono (fun r b hb => ?_) (silent_of_uses (uses_looks app hq))
        exact fun _ => hb
      · refine Prog.wp_mono (fun r b hb hharmless => hb ?_) (unnoticed_request app q)
        rw [Activity.harmless, Bool.eq_false_iff.mpr hq, Bool.false_or] at hharmless
        cases r with
        | ok response =>
            cases response with
            | success _ _ => cases hharmless
            | error _ _ => trivial
        | error e => cases hharmless

end GofrSec
