/-
The services do not look at a JWT, nor at its hash.

* `SameRecord`: token records that differ in the hash of the JWT at most;
* `hashBlind`: repository calls and answers that differ in that, and in the JWT that the
  signer returns;
* `Blind`: programs coupled so, with results that may differ in hashes; `Oblivious`: a program
  that is, with the same result;
* `ButForJwt`, `blind_activity`: on such answers, an activity ends the same, but for the JWT
  that a mint hands out.
-/
import GofrSec.Calls.Coupled
import GofrSec.Services.Servers

namespace GofrSec

open Calls

variable {P : Platform} {α β : Type}

/-- Records that differ in the hash of the JWT at most. -/
def SameRecord (a b : IssuedTokenRecord) : Prop := ∃ hash, a = { b with jwtHash := hash }

lemma SameRecord.refl (a : IssuedTokenRecord) : SameRecord a a := ⟨a.jwtHash, rfl⟩

/-- `str.isascii`. -/
def IsAscii (text : String) : Prop := (text.toList.all fun c => c.toNat < 128) = true

/-- The calls that neither a token record nor a JWT goes through. -/
def RepoCall.Recordless : RepoCall → Prop
  | .tokenGet _ => False
  | .tokenUpsert _ => False
  | .tokensForUser _ => False
  | .signToken _ => False
  | _ => True

/-- The same call, but for the hash in a record that it stores. -/
inductive RepoCall.SameCall : RepoCall → RepoCall → Prop
  | refl (c : RepoCall) : SameCall c c
  | upsert {a b : IssuedTokenRecord} : SameRecord a b → SameCall (.tokenUpsert a) (.tokenUpsert b)

/-- The same answer, but for the hashes in the records, or for the JWT. -/
inductive RepoCall.SameAnswers :
    (i j : RepoCall) → Except PyError i.Res → Except PyError j.Res → Prop
  | refl {c : RepoCall} (hc : c.Recordless) (r : Except PyError c.Res) : SameAnswers c c r r
  | get (t : String) {r r' : Except PyError (Option IssuedTokenRecord)} :
      Likewise (Option.Rel SameRecord) r r' → SameAnswers (.tokenGet t) (.tokenGet t) r r'
  | upsert {a b : IssuedTokenRecord} {r r' : Except PyError IssuedTokenRecord} :
      Likewise SameRecord r r' → SameAnswers (.tokenUpsert a) (.tokenUpsert b) r r'
  | list (u : String) {r r' : Except PyError (List IssuedTokenRecord)} :
      Likewise (List.Forall₂ SameRecord) r r' →
        SameAnswers (.tokensForUser u) (.tokensForUser u) r r'
  | sign (request : SigningRequest) {r r' : Except PyError String} :
      Likewise (fun t t' => IsAscii t ∧ IsAscii t') r r' →
        SameAnswers (.signToken request) (.signToken request) r r'

/-- Calls that are the same but for the hashes of JWTs, and answers but for JWTs and their
hashes. -/
def hashBlind : Coupling RepoCall RepoCall.Res RepoCall RepoCall.Res PyError :=
  { Call := RepoCall.SameCall, Answer := RepoCall.SameAnswers }

/-- Programs that make the same calls, whatever the JWTs and their hashes are. -/
abbrev Blind (W : α → β → Prop) (p : RepoProg α) (q : RepoProg β) : Prop :=
  p.Coupled hashBlind (Likewise W) q

/-- A program that makes the same calls, and ends the same, whatever the JWTs and their hashes
are. -/
abbrev Oblivious (p : RepoProg α) : Prop := Blind Eq p p

/-! ### Calls -/

lemma oblivious_call {c : RepoCall} (hc : c.Recordless) : Oblivious c.perform := by
  refine (Prog.coupled_perform (K := hashBlind) (RepoCall.SameCall.refl c)).mono fun r r' h => ?_
  cases h with
  | refl _ r => exact likewise_refl (fun _ => rfl) r
  | get t _ => exact hc.elim
  | upsert _ => exact hc.elim
  | list u _ => exact hc.elim
  | sign request _ => exact hc.elim

lemma blind_tokenGet (t : String) : Blind (Option.Rel SameRecord) (tokenGet t) (tokenGet t) := by
  refine (Prog.coupled_perform (K := hashBlind) (RepoCall.SameCall.refl (.tokenGet t))).mono ?_
  intro r r' h
  cases h with
  | refl hc _ => exact hc.elim
  | get t h => exact h

lemma blind_tokenUpsert {a b : IssuedTokenRecord} (hab : SameRecord a b) :
    Blind SameRecord (tokenUpsert a) (tokenUpsert b) := by
  refine (Prog.coupled_perform (K := hashBlind) (RepoCall.SameCall.upsert hab)).mono ?_
  intro r r' h
  cases h with
  | refl hc _ => exact hc.elim
  | upsert h => exact h

lemma blind_tokensForUser (u : String) :
    Blind (List.Forall₂ SameRecord) (tokensForUser u) (tokensForUser u) := by
  refine (Prog.coupled_perform (K := hashBlind) (RepoCall.SameCall.refl (.tokensForUser u))).mono ?_
  intro r r' h
  cases h with
  | refl hc _ => exact hc.elim
  | list u h => exact h

lemma blind_signToken (request : SigningRequest) :
    Blind (fun t t' => IsAscii t ∧ IsAscii t') (signToken request) (signToken request) := by
  refine (Prog.coupled_perform (K := hashBlind)
    (RepoCall.SameCall.refl (.signToken request))).mono fun r r' h => ?_
  cases h with
  | refl hc _ => exact hc.elim
  | sign request h => exact h

lemma oblivious_pure (a : α) : Oblivious (pure a) := Prog.coupled_pure rfl

lemma oblivious_throw (e : PyError) : Oblivious (throw e : RepoProg α) := Prog.coupled_throw e

lemma blind_throw {W : α → β → Prop} (e : PyError) : Blind W (throw e) (throw e) :=
  Prog.coupled_throw e

lemma oblivious_lift (o : Except PyError α) : Oblivious (Prog.lift o) :=
  Prog.coupled_lift (likewise_refl (fun _ => rfl) o)

/-- Sequencing, after a value that is the same. -/
lemma Oblivious.then {γ δ : Type} {X : γ → δ → Prop} {p : RepoProg α} {f : α → RepoProg γ}
    {g : α → RepoProg δ} (h : Oblivious p) (hfg : ∀ a, Blind X (f a) (g a)) :
    Blind X (p >>= f) (p >>= g) :=
  Prog.Coupled.bind h fun a _ hab => hab ▸ hfg a

lemma Oblivious.bind {γ : Type} {p : RepoProg α} {f : α → RepoProg γ} (h : Oblivious p)
    (hf : ∀ a, Oblivious (f a)) : Oblivious (p >>= f) :=
  h.then hf

/-- The frame of a service method, around results that are audited alike. -/
lemma blind_audited {W : α → β → Prop} {body : RepoProg α} {body' : RepoProg β}
    (hbody : Blind W body body') {failure : AuditEvent} {success : α → AuditEvent}
    {success' : β → AuditEvent} (hsuccess : ∀ a b, W a b → success a = success' b) :
    Blind W (audited body failure success) (audited body' failure success') := by
  refine Prog.Coupled.handle hbody fun r r' hW => ?_
  cases hW with
  | @ok a b hab =>
      dsimp only
      rw [hsuccess a b hab]
      have happend : Oblivious (auditAppend (success' b)) := oblivious_call (by trivial)
      exact happend.then fun _ => Prog.coupled_pure hab
  | error e =>
      have happend : Oblivious (auditAppend failure) := oblivious_call (by trivial)
      exact happend.then fun _ => blind_throw e

lemma oblivious_audited {body : RepoProg α} (hbody : Oblivious body) (failure : AuditEvent)
    (success : α → AuditEvent) : Oblivious (audited body failure success) :=
  blind_audited hbody fun _ _ => congrArg success

/-! ### Groups, memberships and profiles -/

lemma oblivious_requireActiveGroup (g : String) :
    Oblivious (requireActiveGroup g) := by
  refine Oblivious.bind (oblivious_call (by trivial)) fun found => ?_
  cases found with
  | none => exact oblivious_throw _
  | some group =>
      dsimp only
      split_ifs
      · exact oblivious_pure _
      · exact oblivious_throw _

lemma oblivious_findMembership (u g : String) :
    Oblivious (findMembership u g) :=
  Oblivious.bind (oblivious_call (by trivial)) fun _ => oblivious_pure _

lemma oblivious_ensureReservedGroups (groups : List GroupDefinition) :
    Oblivious (ensureReservedGroups groups) := by
  induction groups with
  | nil => exact oblivious_pure ()
  | cons group groups ih =>
      refine Oblivious.bind (oblivious_call (by trivial)) fun existing => ?_
      split_ifs
      · exact Oblivious.bind (oblivious_call (by trivial)) fun _ => ih
      · exact ih

lemma oblivious_ensureAdminMembers (grantedAt : String → DateTime) (subs : List String) :
    Oblivious (ensureAdminMembers grantedAt subs) := by
  induction subs with
  | nil => exact oblivious_pure ()
  | cons u subs ih =>
      refine Oblivious.bind (oblivious_call (by trivial)) fun member => ?_
      split_ifs
      · exact Oblivious.bind (oblivious_call (by trivial)) fun _ => ih
      · exact ih

lemma oblivious_applyPlan (subjects : List String) (createdAt : DateTime)
    (grantedAt : String → DateTime) :
    Oblivious (applyPlan subjects createdAt grantedAt) :=
  (oblivious_ensureReservedGroups _).bind fun _ =>
    (oblivious_ensureAdminMembers grantedAt _).bind fun _ => oblivious_pure _

lemma oblivious_registerSelf (identity : VerifiedIdentity) (correlationId : Option String)
    (clock : Clock) :
    Oblivious (registerSelf identity correlationId clock) := by
  refine Oblivious.bind (oblivious_call (by trivial)) fun existing => ?_
  exact (oblivious_audited (oblivious_call (by trivial)) _ _).bind fun _ => oblivious_pure _

lemma oblivious_getSelfProfile (identity : VerifiedIdentity) :
    Oblivious (getSelfProfile identity) := by
  refine Oblivious.bind (oblivious_call (by trivial)) fun profile => ?_
  refine Oblivious.bind (oblivious_call (by trivial)) fun memberships => ?_
  cases profile <;> exact oblivious_pure _

lemma oblivious_createGroup (P : Platform) (name : String) (description : Option String)
    (actorSub : String) (correlationId : Option String) (clock : Clock) :
    Oblivious (createGroup P name description actorSub correlationId clock) := by
  refine oblivious_audited ((oblivious_lift _).bind fun n =>
    (oblivious_lift _).bind fun reserved => ?_) _ _
  split_ifs
  · exact oblivious_throw _
  · refine Oblivious.bind (oblivious_call (by trivial)) fun existing => ?_
    split_ifs
    · exact oblivious_throw _
    · exact oblivious_call (by trivial)

lemma oblivious_addMembership (P : Platform) (u g actorSub : String)
    (correlationId : Option String) (clock : Clock) :
    Oblivious (addMembership P u g actorSub correlationId clock) := by
  refine oblivious_audited ((oblivious_lift _).bind fun n =>
    (oblivious_requireActiveGroup n).bind fun _ => ?_) _ _
  refine Oblivious.bind (oblivious_call (by trivial)) fun registered => ?_
  split_ifs
  · refine (oblivious_findMembership u n).bind fun found => ?_
    cases found with
    | none => exact oblivious_call (by trivial)
    | some membership => exact oblivious_pure membership
  · exact oblivious_throw _

lemma oblivious_removeMembershipBody (P : Platform) (u g : String) :
    Oblivious (removeMembershipBody P u g) := by
  refine (oblivious_lift _).bind fun n => (oblivious_requireActiveGroup n).bind fun _ => ?_
  have hremove : Oblivious (do
        let removed ← membershipRemove u n
        if removed then pure n else throw (membershipNotFound u n)) := by
    refine Oblivious.bind (oblivious_call (by trivial)) fun removed => ?_
    split_ifs
    · exact oblivious_pure n
    · exact oblivious_throw _
  refine (oblivious_findMembership u n).bind fun found => ?_
  cases found with
  | none =>
      refine Oblivious.bind (oblivious_call (by trivial)) fun registered => ?_
      split_ifs
      · exact oblivious_throw _
      · exact oblivious_throw _
  | some membership =>
      dsimp only
      split_ifs
      · refine Oblivious.bind (oblivious_call (by trivial)) fun count => ?_
        exact (oblivious_lift _).bind fun _ => hremove
      · exact hremove

lemma oblivious_removeMembership (P : Platform) (u g actorSub : String)
    (correlationId : Option String) (clock : Clock) :
    Oblivious (removeMembership P u g actorSub correlationId clock) :=
  (oblivious_audited (oblivious_removeMembershipBody P u g) _ _).bind fun _ => oblivious_pure ()

/-! ### Tokens -/

lemma oblivious_lookUpGroups (seen names : List String) :
    Oblivious (lookUpGroups seen names) := by
  induction names generalizing seen with
  | nil => exact oblivious_pure []
  | cons name names ih =>
      rw [lookUpGroups]
      split_ifs
      · exact ih seen
      · refine Oblivious.bind (oblivious_call (by trivial)) fun found => ?_
        cases found with
        | none => exact oblivious_throw _
        | some group =>
            dsimp only
            split_ifs
            · exact (ih _).bind fun _ => oblivious_pure _
            · exact oblivious_throw _

lemma oblivious_validateGroups (P : Platform) (groups : List String) :
    Oblivious (validateGroups P groups) := by
  refine (oblivious_lift _).bind fun names => ?_
  split_ifs
  · exact oblivious_throw _
  · exact oblivious_lookUpGroups [] names

/-- A JWT in ASCII has a hash. -/
lemma likewise_jwtHash {t t' : String} (h : IsAscii t ∧ IsAscii t') :
    Likewise (fun _ _ => True) (jwtHash P t) (jwtHash P t') := by
  have hash : ∀ {t : String}, IsAscii t → jwtHash P t = .ok (P.sha256 t) := fun h => if_pos h
  rw [hash h.1, hash h.2]
  exact .ok trivial

/-- A mint makes one record, but for the hash of the JWT. -/
lemma blind_mintTokenBody (P : Platform) (request : MintRequest) (issuedAt : DateTime) :
    Blind (fun x y => SameRecord x.1 y.1) (mintTokenBody P request issuedAt)
      (mintTokenBody P request issuedAt) := by
  refine Oblivious.then (oblivious_call (by trivial)) fun registered => ?_
  split_ifs
  · exact (oblivious_validateGroups P _).then fun _ => blind_throw _
  · refine (oblivious_validateGroups P _).then fun groups =>
      (oblivious_lift _).then fun expiresAt => ?_
    refine Prog.Coupled.bind (blind_signToken _) fun t t' ht => ?_
    refine Prog.Coupled.bind (Prog.coupled_lift (likewise_jwtHash ht)) fun hash hash' _ => ?_
    exact Prog.Coupled.bind (blind_tokenUpsert ⟨hash, rfl⟩) fun _ _ h => Prog.coupled_pure h
  · exact blind_throw _

lemma blind_mintToken (P : Platform) (request : MintRequest) (clock : Clock) :
    Blind (fun m m' => SameRecord m.record m'.record) (mintToken P request clock)
      (mintToken P request clock) := by
  refine Prog.Coupled.map (blind_audited (blind_mintTokenBody P request clock.now) ?_)
    fun _ _ h => h
  rintro ⟨a, t⟩ ⟨b, t'⟩ ⟨hash, h⟩
  obtain rfl : a = _ := h
  rfl

lemma blind_getTokenOrRaise (t : String) :
    Blind SameRecord (getTokenOrRaise t) (getTokenOrRaise t) := by
  refine Prog.Coupled.bind (blind_tokenGet t) fun found found' h => ?_
  cases h with
  | some h => exact Prog.coupled_pure h
  | none => exact blind_throw _

lemma blind_getToken (t actorSub : String) (correlationId : Option String) (clock : Clock) :
    Blind SameRecord (getToken t actorSub correlationId clock)
      (getToken t actorSub correlationId clock) := by
  refine blind_audited (blind_getTokenOrRaise t) ?_
  rintro _ b ⟨hash, rfl⟩
  rfl

lemma blind_revokeToken (t actorSub : String) (correlationId : Option String) (clock : Clock) :
    Blind SameRecord (revokeToken t actorSub correlationId clock)
      (revokeToken t actorSub correlationId clock) := by
  refine blind_audited (Prog.Coupled.bind (blind_getTokenOrRaise t) ?_) ?_
  · rintro _ b ⟨hash, rfl⟩
    split_ifs
    · exact Prog.coupled_pure ⟨hash, rfl⟩
    · exact blind_tokenUpsert ⟨hash, rfl⟩
  · rintro _ b ⟨hash, rfl⟩
    rfl

/-- The order of the tokens of a listing does not depend on the hashes. -/
lemma forall₂_sortByIssuedAt {l l' : List IssuedTokenRecord} (h : List.Forall₂ SameRecord l l') :
    List.Forall₂ SameRecord (sortByIssuedAt l) (sortByIssuedAt l') := by
  have hinsert : ∀ {a b : IssuedTokenRecord} {l l' : List IssuedTokenRecord}, SameRecord a b →
      List.Forall₂ SameRecord l l' →
      List.Forall₂ SameRecord (l.orderedInsert (fun a b => b.issuedAt ≤ a.issuedAt) a)
        (l'.orderedInsert (fun a b => b.issuedAt ≤ a.issuedAt) b) := by
    intro a b l l' hab hl
    induction hl with
    | nil => exact .cons hab .nil
    | @cons c d l l' hcd hrest ih =>
        have hiff : c.issuedAt ≤ a.issuedAt ↔ d.issuedAt ≤ b.issuedAt := by
          obtain ⟨_, rfl⟩ := hab
          obtain ⟨_, rfl⟩ := hcd
          exact Iff.rfl
        rw [List.orderedInsert, List.orderedInsert]
        by_cases hle : d.issuedAt ≤ b.issuedAt
        · rw [if_pos (hiff.mpr hle), if_pos hle]
          exact .cons hab (.cons hcd hrest)
        · rw [if_neg (fun h => hle (hiff.mp h)), if_neg hle]
          exact .cons hcd ih
  induction h with
  | nil => exact .nil
  | cons hab _ ih => exact hinsert hab ih

lemma blind_listSelfTokens (identity : VerifiedIdentity) (correlationId : Option String)
    (clock : Clock) :
    Blind (List.Forall₂ SameRecord) (listSelfTokens identity correlationId clock)
      (listSelfTokens identity correlationId clock) :=
  blind_audited ((blind_tokensForUser _).map fun _ _ => forall₂_sortByIssuedAt)
    fun _ _ _ => rfl

lemma oblivious_authorize (request : AuthorizationRequest) (correlationId : Option String)
    (clock : Clock) :
    Oblivious (authorize request correlationId clock) := by
  refine Oblivious.then (oblivious_audited ?_ _ _) fun _ => oblivious_pure _
  refine Prog.Coupled.bind (blind_tokenGet request.tokenId) fun found found' h => ?_
  cases h with
  | none => exact oblivious_pure false
  | some h =>
      obtain ⟨hash, rfl⟩ := h
      exact oblivious_pure _

/-! ### Requests -/

/-- Responses that differ at most in the JWT that a mint hands out. -/
def SameButJwt (r r' : Response) : Prop :=
  r = r' ∨ ∃ status metadata jwt jwt',
    r = .success status (.minted metadata jwt) ∧ r' = .success status (.minted metadata jwt')

/-- A route answers alike to results that have the same body, but for the JWT. -/
lemma blind_respond {W : α → α → Prop} {service : RepoProg α} (hservice : Blind W service service)
    {X : Response → Response → Prop} (statusOf : PyError → Option ℕ) (success : ℕ)
    {body : α → Except PyError Body} (herror : ∀ r, X r r)
    (hbody : ∀ a b, W a b → Likewise (fun x y => X (.success success x) (.success success y))
      (body a) (body b)) :
    Blind X (respond service statusOf success body) (respond service statusOf success body) := by
  refine Prog.Coupled.handle hservice fun r r' hW => ?_
  cases hW with
  | @ok a b hab =>
      refine Prog.coupled_lift ?_
      have hab := hbody a b hab
      generalize body a = x at hab
      generalize body b = y at hab
      cases hab with
      | ok h => exact .ok h
      | error e => exact .error e
  | error e =>
      dsimp only
      cases statusOf e with
      | some status => exact Prog.coupled_pure (herror _)
      | none => exact blind_throw e

/-- A route whose body shows nothing of the hash. -/
lemma oblivious_respond {W : α → α → Prop} {service : RepoProg α}
    (hservice : Blind W service service) (statusOf : PyError → Option ℕ) (success : ℕ)
    {body : α → Except PyError Body} (hbody : ∀ a b, W a b → body a = body b) :
    Oblivious (respond service statusOf success body) := by
  refine blind_respond hservice statusOf success (fun _ => rfl) fun a b hab => ?_
  rw [hbody a b hab]
  exact likewise_refl (W := fun x y => Response.success success x = .success success y)
    (fun _ => rfl) _

lemma blind_requireAdminIdentity {X : Response → Response → Prop} (hX : ∀ r, X r r)
    (identity : VerifiedIdentity) {route : RepoProg Response} (hroute : Blind X route route) :
    Blind X (requireAdminIdentity identity route) (requireAdminIdentity identity route) := by
  refine Oblivious.then (oblivious_call (by trivial)) fun member => ?_
  split_ifs
  · exact hroute
  · exact Prog.coupled_pure (hX _)

lemma blind_withTokenSigner {X : Response → Response → Prop} (hX : ∀ r, X r r) (app : AppState)
    {route : RepoProg Response} (hroute : Blind X route route) :
    Blind X (withTokenSigner app route) (withTokenSigner app route) := by
  rw [withTokenSigner]
  split_ifs
  · exact hroute
  · exact Prog.coupled_pure (hX _)

lemma tokenBody_same {a b : IssuedTokenRecord} (h : SameRecord a b) :
    tokenBody a = tokenBody b := by
  obtain ⟨hash, rfl⟩ := h
  rfl

lemma tokensBody_same {l l' : List IssuedTokenRecord} (h : List.Forall₂ SameRecord l l') :
    tokensBody l = tokensBody l' := by
  have hmap : l.mapM meToken = l'.mapM meToken := by
    induction h with
    | nil => rfl
    | cons hab _ ih =>
        obtain ⟨hash, rfl⟩ := hab
        rw [List.mapM_cons, List.mapM_cons, ih]
        rfl
  rw [tokensBody, hmap]
  rfl

lemma mintedBody_same {m m' : MintedTokenResult} (h : SameRecord m.record m'.record) :
    Likewise (fun x y => SameButJwt (.success 201 x) (.success 201 y)) (mintedBody m)
      (mintedBody m') := by
  obtain ⟨a, jwt⟩ := m
  obtain ⟨b, jwt'⟩ := m'
  obtain ⟨hash, h⟩ := h
  obtain rfl : a = _ := h
  show Likewise _ ((toMetadataResponse b).map fun metadata => Body.minted metadata jwt)
    ((toMetadataResponse b).map fun metadata => Body.minted metadata jwt')
  cases toMetadataResponse b with
  | ok metadata => exact .ok (Or.inr ⟨_, _, _, _, rfl, rfl⟩)
  | error e => exact .error e

/-- The request is one for a mint. -/
def Request.Mints : Request → Prop
  | .createToken .. => True
  | _ => False

/-- Every request but a mint ends the same. -/
lemma oblivious_request (app : AppState) {q : Request} (hq : ¬ q.Mints) :
    Oblivious (q.prog P app) := by
  have hsame : ∀ r : Response, r = r := fun _ => rfl
  cases q with
  | root => exact oblivious_pure _
  | ping => exact oblivious_pure _
  | status => exact oblivious_pure _
  | createGroup identity name description correlationId clock =>
      exact blind_requireAdminIdentity hsame _
        (oblivious_respond (oblivious_createGroup P _ _ _ _ _) _ _ fun _ _ => congrArg _)
  | addGroupMembership identity u g correlationId clock =>
      exact blind_requireAdminIdentity hsame _
        (oblivious_respond (oblivious_addMembership P _ _ _ _ _) _ _ fun _ _ => congrArg _)
  | removeGroupMembership identity u g correlationId clock =>
      exact blind_requireAdminIdentity hsame _
        (oblivious_respond (oblivious_removeMembership P _ _ _ _ _) _ _ fun _ _ _ => rfl)
  | createToken => exact absurd trivial hq
  | getToken identity t correlationId clock =>
      exact blind_requireAdminIdentity hsame _
        (oblivious_respond (blind_getToken _ _ _ _) _ _ fun _ _ => tokenBody_same)
  | revokeToken identity t correlationId clock =>
      exact blind_requireAdminIdentity hsame _
        (oblivious_respond (blind_revokeToken _ _ _ _) _ _ fun _ _ => tokenBody_same)
  | registerMe identity correlationId clock =>
      rw [Request.prog]
      exact oblivious_respond (oblivious_registerSelf _ _ _) _ _ fun _ _ => congrArg _
  | getMe identity =>
      rw [Request.prog]
      exact oblivious_respond (oblivious_getSelfProfile _) _ _ fun _ _ => congrArg _
  | getMyTokens identity correlationId clock =>
      rw [Request.prog]
      exact oblivious_respond (blind_listSelfTokens _ _ _) _ _ fun _ _ => tokensBody_same
  | getRuntimePublicKeys =>
      refine blind_withTokenSigner hsame app ?_
      exact oblivious_respond (oblivious_call (by trivial)) _ _ fun _ _ h => by rw [h]
  | authorizeRuntimeRequest payload correlationId clock =>
      rw [Request.prog]
      cases payload.validateTarget with
      | error detail => exact oblivious_pure _
      | ok request =>
          exact oblivious_respond (oblivious_authorize _ _ _) _ _ fun _ _ h => by rw [h]

lemma blind_request (app : AppState) (q : Request) :
    Blind (fun r r' => r = r' ∨ q.Mints ∧ SameButJwt r r') (q.prog P app) (q.prog P app) := by
  by_cases hq : q.Mints
  · cases q with
    | createToken identity u groups expiresInSeconds t correlationId clock =>
        refine blind_requireAdminIdentity (fun _ => Or.inl rfl) _
          (blind_withTokenSigner (fun _ => Or.inl rfl) app ?_)
        refine blind_respond (blind_mintToken P _ clock) _ _ (fun _ => Or.inl rfl) fun _ _ h => ?_
        exact (mintedBody_same h).mono fun _ _ hsame => Or.inr ⟨trivial, hsame⟩
    | _ => exact hq.elim
  · exact (oblivious_request app hq).mono fun _ _ h => h.mono fun _ _ => Or.inl

/-- How an activity ends, but for the JWT that a mint hands out. -/
def ButForJwt : Activity → Outcome → Outcome → Prop
  | .serve _ q, .response r, .response r' => r = r' ∨ q.Mints ∧ SameButJwt r r'
  | _, o, o' => o = o'

/-- **Activities end the same**, but for the JWT that a mint hands out, whatever the JWTs and
their hashes are. -/
theorem blind_activity (P : Platform) (a : Activity) :
    Blind (ButForJwt a) (a.prog P) (a.prog P) := by
  cases a with
  | startUp subjects createdAt grantedAt =>
      exact (oblivious_applyPlan subjects createdAt grantedAt).map fun _ _ h => congrArg _ h
  | serve app q => exact (blind_request app q).map fun _ _ h => h

end GofrSec
