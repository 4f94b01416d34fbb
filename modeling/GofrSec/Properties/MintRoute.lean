/-
How `POST /v1/users/{sub}/tokens` answers.

* `run_requireAdminIdentity`: the guard of the route, run;
* `MintRequest.Lifeless`, `MintRequest.AtFault`, `LacksKey`, `Unloadable`: what can be
  wrong with the lifetime, with a request and with the signing secret;
* `Crypto.Documented`: what the signing libraries are relied on for;
* `Classified`: the answers that the route is meant to give;
* `Classifiable`: when it gives them, and `createToken_classified_iff`: exactly then.
-/
import GofrSec.Api.Routes
import GofrSec.Properties.ExactMint

namespace GofrSec

open Calls Text

/-! ### The route, run -/

section

variable {P : Platform} {st : Storage} {s : st.State}

/-- Past `require_admin_identity` the route runs, on the same state. -/
lemma run_requireAdminIdentity {identity : VerifiedIdentity} {route : RepoProg Response}
    (hadmin : (st.exec P (.hasMembership identity.subject reservedAdminGroup) s).1 = .ok true) :
    (requireAdminIdentity identity route).run (st.exec P) s = route.run (st.exec P) s := by
  rw [requireAdminIdentity, Prog.run_bind, Prog.run_perform,
    Storage.read_exec (by exact ⟨id, trivial⟩), hadmin, Prog.onReturn_ok, if_pos rfl]

end

/-! ### Failures -/

/-- One of the exceptions that the service defines itself. -/
def PyError.ofService : PyError → Bool
  | .reservedGroup _ => true
  | .lastAdminRemoval _ => true
  | .groupAlreadyExists _ => true
  | .groupNotFound _ => true
  | .groupMembershipNotFound _ => true
  | .unregisteredUser _ => true
  | .tokenNotFound _ => true
  | .signingKeyUnavailable _ => true
  | _ => false

/-- Of the other exceptions the route catches a `ValueError` only. -/
lemma createTokenStatus_of_foreign {e : PyError} (h : e.ofService = false) :
    (∃ m, e = .valueError m) ∨ createTokenStatus e = none := by
  cases e with
  | valueError m => exact Or.inl ⟨m, rfl⟩
  | keyError k => exact Or.inr rfl
  | typeError m => exact Or.inr rfl
  | attributeError m => exact Or.inr rfl
  | overflowError m => exact Or.inr rfl
  | other cls m => exact Or.inr rfl
  | _ => exact nomatch h

/-- What the signing libraries are relied on for: they raise none of the service's own
exceptions, and a JWT is ASCII text. -/
structure Crypto.Documented (C : Crypto) : Prop where
  load : ∀ pem e, C.publicKeyPem pem = .error e → e.ofService = false
  encode : ∀ claims pem algorithm keyId e,
    C.jwtEncode claims pem algorithm keyId = .error e → e.ofService = false
  ascii : ∀ claims pem algorithm keyId raw,
    C.jwtEncode claims pem algorithm keyId = .ok raw → ∀ c ∈ raw.toList, c.toNat < 128

/-- The lifetime of a token is not positive, or its expiry cannot be represented. -/
def MintRequest.Lifeless (request : MintRequest) (issuedAt : DateTime) : Prop :=
  request.lifetimeSeconds ≤ 0 ∨ ∃ e, issuedAt.addSeconds request.lifetimeSeconds = .error e

/-- The request is at fault: a name is invalid, there is none, or the lifetime is wrong. -/
def MintRequest.AtFault (P : Platform) (request : MintRequest) (issuedAt : DateTime) : Prop :=
  (∃ g ∈ request.groups, ∃ e, normalizeGroupName P g = .error e) ∨ request.groups = []
    ∨ request.Lifeless issuedAt

/-- There is no signing secret, or no text in its `private_key_pem`. -/
def LacksKey (secret : Option Doc) : Prop :=
  ∀ d pem, secret = some d → d.getOrNone "private_key_pem" = .str pem → strip pem = ""

/-- The private key of a signing secret cannot be loaded. -/
def Unloadable (C : Crypto) (secret : Option Doc) : Prop :=
  ∃ d pem e, secret = some d ∧ d.getOrNone "private_key_pem" = .str pem
    ∧ C.publicKeyPem pem = .error e

/-- The private key of a signing secret is loaded, and signs the request. -/
def Signs (P : Platform) (D : VaultDeployment) (signer : VaultTokenSigner) (secret : Option Doc)
    (signing : SigningRequest) : Prop :=
  ∃ material raw, signingMaterial P D signer secret = .ok material
    ∧ D.crypto.jwtEncode (signingClaims signer.issuer signing) material.privateKeyPem
      signer.algorithm (nonEmpty material.keyId) = .ok raw

section

variable {P : Platform} {D : VaultDeployment} {server : VaultServer} {signer : VaultTokenSigner}
  {w : VaultWorld}

variable (P D signer) in
/-- How the loading of the key ends. -/
lemma signingMaterial_cases (secret : Option Doc) :
    (LacksKey secret
        ∧ ∃ m, signingMaterial P D signer secret = .error (.signingKeyUnavailable m))
      ∨ ∃ d pem, secret = some d ∧ d.getOrNone "private_key_pem" = .str pem ∧ strip pem ≠ ""
        ∧ ((∃ e, D.crypto.publicKeyPem pem = .error e
            ∧ signingMaterial P D signer secret = .error e)
          ∨ ∃ publicKeyPem material, D.crypto.publicKeyPem pem = .ok publicKeyPem
            ∧ signingMaterial P D signer secret = .ok material) := by
  cases secret with
  | none => exact Or.inl ⟨by rintro _ _ ⟨⟩, _, rfl⟩
  | some d =>
      cases hfield : d.getOrNone "private_key_pem" with
      | str pem =>
          by_cases hblank : strip pem = ""
          · refine Or.inl ⟨fun d' pem' hd hpem => ?_,
              "Signing key secret is invalid at Vault path: " ++ signer.vaultPath, ?_⟩
            · obtain rfl := Option.some.inj hd
              rw [← Json.str.inj (hfield.symm.trans hpem)]
              exact hblank
            · simp only [signingMaterial, hfield, if_pos hblank]
          · refine Or.inr ⟨d, pem, rfl, hfield, hblank, ?_⟩
            cases hload : D.crypto.publicKeyPem pem with
            | error e =>
                refine Or.inl ⟨e, rfl, ?_⟩
                simp only [signingMaterial, hfield, if_neg hblank, hload]
                rfl
            | ok publicKeyPem =>
                cases hmaterial : signingMaterial P D signer (some d) with
                | ok material => exact Or.inr ⟨publicKeyPem, material, rfl, rfl⟩
                | error e =>
                    simp only [signingMaterial, hfield, if_neg hblank, hload] at hmaterial
                    cases hmaterial
      | _ =>
          refine Or.inl ⟨fun d' pem' hd hpem => ?_,
            "Signing key secret is invalid at Vault path: " ++ signer.vaultPath, ?_⟩
          · obtain rfl := Option.some.inj hd
            cases hfield.symm.trans hpem
          · simp only [signingMaterial, hfield]

/-- A key that is loaded is there and can be loaded. -/
lemma key_of_signingMaterial {secret : Option Doc} {material : LoadedSigningMaterial}
    (h : signingMaterial P D signer secret = .ok material) :
    ¬ (LacksKey secret ∨ Unloadable D.crypto secret) := by
  rcases signingMaterial_cases P D signer secret with
    ⟨-, m, herror⟩ | ⟨d, pem, rfl, hpem, hblank, ⟨e, -, herror⟩ | ⟨publicKeyPem, _, hload, -⟩⟩
  · exact nomatch h.symm.trans herror
  · exact nomatch h.symm.trans herror
  · rintro (hlacks | ⟨d', pem', e, hd, hpem', herror⟩)
    · exact hblank (hlacks d pem rfl hpem)
    · obtain rfl := Option.some.inj hd
      obtain rfl := Json.str.inj (hpem.symm.trans hpem')
      exact nomatch hload.symm.trans herror

/-- The signer from Vault loads the key and encodes the claims. -/
lemma signAt_vault (hsigner : D.signer = .vault signer) (signing : SigningRequest) :
    (Storage.vault D server).signAt P w signing
      = (signingMaterial P D signer (w.read signer.vaultPath) >>= fun material =>
          D.crypto.jwtEncode (signingClaims signer.issuer signing) material.privateKeyPem
            signer.algorithm (nonEmpty material.keyId)) := by
  show ((D.signer.signToken P D signing).run server.exec w).1 = _
  rw [hsigner, TokenSigner.signToken, VaultTokenSigner.signToken, Prog.run_bind,
    VaultTokenSigner.loadSigningMaterial, Prog.run_bind, Prog.run_perform]
  show (Prog.run _ (Prog.onReturn _ ((Prog.lift _).run _ _).1) ((Prog.lift _).run _ _).2).1 = _
  rw [Prog.run_lift]
  cases signingMaterial P D signer (w.read signer.vaultPath) with
  | error e => rfl
  | ok material => exact congrArg Prod.fst (Prog.run_lift _ _)

/-- Reading a time raises an exception of Python's own. -/
lemma parseDatetime_error {value : Json} {e : PyError} (h : parseDatetime P value = .error e) :
    e.ofService = false := by
  unfold parseDatetime at h
  split_ifs at h
  cases value with
  | str text =>
      dsimp only at h
      cases htime : P.fromisoformat text with
      | none =>
          rw [htime] at h
          rw [← Except.error.inj h]
          rfl
      | some t =>
          rw [htime] at h
          exact nomatch h
  | _ =>
      rw [← Except.error.inj h]
      rfl

/-- Reading a group raises an exception of Python's own. -/
lemma deserializeGroup_error {now : DateTime} {data : Doc} {e : PyError}
    (h : deserializeGroup P now data = .error e) : e.ofService = false := by
  rw [deserializeGroup] at h
  rcases except_bind_eq_error h with htime | ⟨createdAt, -, h⟩
  · exact parseDatetime_error htime
  rcases except_bind_eq_error h with hname | ⟨name, -, h⟩
  · rcases except_bind_eq_error hname with hfield | ⟨value, -, htext⟩
    · rw [Doc.require] at hfield
      split at hfield
      · cases hfield
      · rw [← Except.error.inj hfield]
        rfl
    · cases htext
  · cases h

/-- A group document that cannot be read raises an exception of Python's own. -/
lemma groupAt_error {g : String} {e : PyError}
    (h : (Storage.vault D server).groupAt P w g = .error e) : e.ofService = false := by
  have hrun : ((VaultGroupRepository.get P D g).run server.exec w).1 = .error e := h
  rw [VaultGroupRepository.get, getRecord, Prog.run_bind, Prog.run_perform] at hrun
  have hlift : ∀ x : Except PyError (Option GroupDefinition),
      ((Prog.lift x : VaultProg (Option GroupDefinition)).run server.exec w).1 = x :=
    fun x => congrArg Prod.fst (Prog.run_lift x w)
  have hdecode : decodeRecord (deserializeGroup P D.now)
      (w.read (D.paths.groupDefinitionPath g)) = .error e := (hlift _).symm.trans hrun
  cases hdata : w.read (D.paths.groupDefinitionPath g) with
  | none =>
      rw [hdata] at hdecode
      cases hdecode
  | some data =>
      rw [hdata] at hdecode
      rcases except_bind_eq_error hdecode with hgroup | ⟨group, -, h⟩
      · exact deserializeGroup_error hgroup
      · cases h

end

/-! ### The answers -/

/-- The answers that the route is meant to give: one of its documented status codes; 422
only to a request at fault; 503 when the request is in order and the key is not there or
cannot be loaded. -/
structure Classified (P : Platform) (D : VaultDeployment) (server : VaultServer)
    (signer : VaultTokenSigner) (w : VaultWorld) (request : MintRequest) (issuedAt : DateTime)
    (out : Except PyError Response) : Prop where
  answered : ∃ response, out = .ok response
    ∧ (response.code = 201 ∨ response.code = 404 ∨ response.code = 409 ∨ response.code = 422
      ∨ response.code = 503)
  faulty : ∀ response, out = .ok response → response.code = 422 → request.AtFault P issuedAt
  unavailable : request.InOrder P (.vault D server) w → ¬ request.Lifeless issuedAt →
    LacksKey (w.read signer.vaultPath) ∨ Unloadable D.crypto (w.read signer.vaultPath) →
      ∃ response, out = .ok response ∧ response.code = 503

/-- When the route gives them. For a registered owner and well-named groups: the first
group that is not active can be read, or raises a `ValueError` while the lifetime is at
fault as well; and when all groups are active and the lifetime is positive, its expiry can
be represented, and the secret lacks a key or its key is loaded and signs. -/
def Classifiable (P : Platform) (D : VaultDeployment) (server : VaultServer)
    (signer : VaultTokenSigner) (w : VaultWorld) (request : MintRequest) (issuedAt : DateTime) :
    Prop :=
  ∀ names, Accepts P (.vault D server) w request names →
    (∀ pre n post e, names = pre ++ n :: post →
      (∀ m ∈ pre, (Storage.vault D server).ActiveAt P w m) →
      (Storage.vault D server).groupAt P w n = .error e →
        (∃ m, e = .valueError m) ∧ request.Lifeless issuedAt)
    ∧ ((∀ n ∈ names, (Storage.vault D server).ActiveAt P w n) → 0 < request.lifetimeSeconds →
      ∃ expiresAt, issuedAt.addSeconds request.lifetimeSeconds = .ok expiresAt
        ∧ (LacksKey (w.read signer.vaultPath)
          ∨ Signs P D signer (w.read signer.vaultPath) (request.signing issuedAt expiresAt)))

section

variable {P : Platform} {D : VaultDeployment} {server : VaultServer} {signer : VaultTokenSigner}
  {w : VaultWorld} {request : MintRequest} {issuedAt : DateTime}

/-- The first name that is not active is determined. -/
lemma first_inactive {active : String → Prop} {names pre pre' post post' : List String}
    {n n' : String} (h : names = pre ++ n :: post) (hpre : ∀ m ∈ pre, active m) (hn : ¬ active n)
    (h' : names = pre' ++ n' :: post') (hpre' : ∀ m ∈ pre', active m) (hn' : ¬ active n') :
    n = n' := by
  induction pre generalizing names pre' with
  | nil =>
      cases pre' with
      | nil => exact (List.cons.inj (h.symm.trans h')).1
      | cons m pre' =>
          have hm : n = m := (List.cons.inj (h.symm.trans h')).1
          exact absurd (hm ▸ hpre' m List.mem_cons_self) hn
  | cons m pre ih =>
      cases pre' with
      | nil =>
          have hm : m = n' := (List.cons.inj (h.symm.trans h')).1
          exact absurd (hm ▸ hpre m List.mem_cons_self) hn'
      | cons m' pre' =>
          have hrest := (List.cons.inj (h.symm.trans h')).2
          exact ih rfl (fun x hx => hpre x (List.mem_cons_of_mem _ hx)) hrest
            fun x hx => hpre' x (List.mem_cons_of_mem _ hx)

/-- An active group can be read. -/
lemma Storage.ActiveAt.groupAt_ne_error {st : Storage} {s : st.State} {n : String} {e : PyError}
    (h : st.ActiveAt P s n) : st.groupAt P s n ≠ .error e := by
  obtain ⟨group, hgroup, -⟩ := h
  rw [hgroup]
  exact fun h => nomatch h

/-- The request is in order when it is accepted, its groups are active and its lifetime is
positive; and only then. -/
lemma Accepts.inOrder_iff {names : List String}
    (haccepts : Accepts P (.vault D server) w request names) :
    request.InOrder P (.vault D server) w
      ↔ (∀ n ∈ names, (Storage.vault D server).ActiveAt P w n) ∧ 0 < request.lifetimeSeconds := by
  constructor
  · rintro ⟨-, -, hgroups, hpositive⟩
    refine ⟨fun n hn => ?_, hpositive⟩
    obtain ⟨g, hg, hname⟩ := (mem_of_mapM_normalizeGroupName haccepts.normal n).mp hn
    obtain ⟨n', hn', -, hactive⟩ := hgroups g hg
    rwa [Except.ok.inj (hn'.symm.trans hname)] at hactive
  · rintro ⟨hactive, hpositive⟩
    exact inOrder_of_ready haccepts hactive hpositive

/-- What the route answers to the outcome of a mint. -/
abbrev mintAnswer : Except PyError MintedTokenResult → Except PyError Response :=
  answer createTokenStatus 201 mintedBody

/-- An answer that is neither 422 nor asked to be 503 is right. -/
lemma classified_of_code {response : Response}
    (hcode : response.code = 201 ∨ response.code = 404 ∨ response.code = 409)
    (hkey : request.InOrder P (.vault D server) w →
      ¬ (LacksKey (w.read signer.vaultPath) ∨ Unloadable D.crypto (w.read signer.vaultPath))) :
    Classified P D server signer w request issuedAt (.ok response) := by
  refine ⟨⟨response, rfl, by omega⟩, fun r hr h422 => ?_, fun horder _ h => ?_⟩
  · rw [← Except.ok.inj hr] at h422
    omega
  · exact absurd h (hkey horder)

/-- An answer of 422 is right for a request at fault. -/
lemma classified_of_fault {response : Response} (hcode : response.code = 422)
    (hfault : request.AtFault P issuedAt)
    (hnot : ¬ (request.InOrder P (.vault D server) w ∧ ¬ request.Lifeless issuedAt)) :
    Classified P D server signer w request issuedAt (.ok response) :=
  ⟨⟨response, rfl, by omega⟩, fun _ _ _ => hfault,
    fun horder hlife _ => absurd ⟨horder, hlife⟩ hnot⟩

/-- An exception that the route lets through is never right. -/
lemma not_classified_error {e : PyError} :
    ¬ Classified P D server signer w request issuedAt (.error e) :=
  fun h => nomatch h.answered.choose_spec.1

/-- An answer of 422 is wrong for a request that is not at fault. -/
lemma not_classified_of_code {response : Response} (hcode : response.code = 422)
    (hfault : ¬ request.AtFault P issuedAt) :
    ¬ Classified P D server signer w request issuedAt (.ok response) :=
  fun h => hfault (h.faulty _ rfl hcode)


/-- An exception of Python's own is wrong for a request that is not at fault. -/
lemma not_classified_of_foreign {e : PyError} (hforeign : e.ofService = false)
    (hfault : ¬ request.AtFault P issuedAt) :
    ¬ Classified P D server signer w request issuedAt (mintAnswer (.error e)) := by
  rcases createTokenStatus_of_foreign hforeign with ⟨m, rfl⟩ | hstatus
  · exact not_classified_of_code rfl hfault
  · rw [mintAnswer, answer, hstatus]
    exact not_classified_error

/-- A request with accepted names is at fault for its lifetime only. -/
lemma Accepts.not_atFault {names : List String}
    (haccepts : Accepts P (.vault D server) w request names)
    (hlife : ¬ request.Lifeless issuedAt) : ¬ request.AtFault P issuedAt := by
  rintro (⟨g, hg, e, hname⟩ | hempty | h)
  · obtain ⟨n, -, hn⟩ := exists_of_mapM_normalizeGroupName haccepts.normal hg
    exact nomatch hn.symm.trans hname
  · have hnormal := haccepts.normal
    rw [hempty] at hnormal
    exact haccepts.nonempty (Except.ok.inj hnormal).symm
  · exact hlife h

lemma not_lifeless {expiresAt : DateTime} (hpositive : 0 < request.lifetimeSeconds)
    (hexpires : issuedAt.addSeconds request.lifetimeSeconds = .ok expiresAt) :
    ¬ request.Lifeless issuedAt := by
  rintro (h | ⟨e, h⟩)
  · omega
  · exact nomatch hexpires.symm.trans h

/-- The names of a request are determined. -/
lemma Accepts.names_eq {names names' : List String}
    (h : Accepts P (.vault D server) w request names)
    (h' : Accepts P (.vault D server) w request names') : names' = names :=
  Except.ok.inj (h'.normal.symm.trans h.normal)

/-- A request whose groups are active is answered as it is meant to be when its token is
signed, or when the key is missing. -/
lemma classifiable_of_active {names : List String}
    (haccepts : Accepts P (.vault D server) w request names)
    (hactive : ∀ n ∈ names, (Storage.vault D server).ActiveAt P w n)
    (hsigns : 0 < request.lifetimeSeconds →
      ∃ expiresAt, issuedAt.addSeconds request.lifetimeSeconds = .ok expiresAt
        ∧ (LacksKey (w.read signer.vaultPath)
          ∨ Signs P D signer (w.read signer.vaultPath) (request.signing issuedAt expiresAt))) :
    Classifiable P D server signer w request issuedAt := by
  intro names' haccepts'
  obtain rfl := haccepts.names_eq haccepts'
  refine ⟨fun pre n post e hsplit _ hn => ?_, fun _ hpositive => hsigns hpositive⟩
  exact absurd hn (hactive n (by rw [hsplit]; simp)).groupAt_ne_error

/-- A request with a group that is not active is answered as it is meant to be when that
group can be read, or raises a `ValueError` while the lifetime is at fault as well. -/
lemma classifiable_of_inactive {names pre post : List String} {n : String}
    (haccepts : Accepts P (.vault D server) w request names)
    (hsplit : names = pre ++ n :: post)
    (hpre : ∀ m ∈ pre, (Storage.vault D server).ActiveAt P w m)
    (hnot : ¬ (Storage.vault D server).ActiveAt P w n)
    (hread : ∀ e, (Storage.vault D server).groupAt P w n = .error e →
      (∃ m, e = .valueError m) ∧ request.Lifeless issuedAt) :
    Classifiable P D server signer w request issuedAt := by
  intro names' haccepts'
  obtain rfl := haccepts.names_eq haccepts'
  refine ⟨fun pre' n' post' e hsplit' hpre' hn' => ?_, fun hactive _ => ?_⟩
  · have hnot' : ¬ (Storage.vault D server).ActiveAt P w n' :=
      fun hactive => hactive.groupAt_ne_error hn'
    obtain rfl := first_inactive hsplit hpre hnot hsplit' hpre' hnot'
    exact hread e hn'
  · exact absurd (hactive n (by rw [hsplit]; simp)) hnot

/-- **A prepared mint is answered as it is meant to be exactly when the condition holds.** -/
theorem mintAnswer_classified_iff (hcrypto : D.crypto.Documented)
    (hsigner : D.signer = .vault signer) {r : Except PyError (IssuedTokenRecord × String)}
    (hprepared : MintPrepared P (.vault D server) w request issuedAt r) :
    Classified P D server signer w request issuedAt
        (mintAnswer (r.map fun prepared => { record := prepared.1, rawToken := prepared.2 }))
      ↔ Classifiable P D server signer w request issuedAt := by
  cases hprepared with
  | unregistered hnot =>
      refine iff_of_true (classified_of_code (Or.inr (Or.inl rfl)) fun horder => ?_) ?_
      · exact absurd horder.registered hnot
      · exact fun names haccepts => absurd haccepts.registered hnot
  | misnamed hmem hname =>
      refine iff_of_true (classified_of_fault rfl (Or.inl ⟨_, hmem, _, hname⟩) ?_) ?_
      · rintro ⟨horder, -⟩
        obtain ⟨n, hn, -⟩ := horder.groups _ hmem
        cases hn.symm.trans hname
      · intro names haccepts
        obtain ⟨n, -, hn⟩ := exists_of_mapM_normalizeGroupName haccepts.normal hmem
        cases hn.symm.trans hname
  | reserved hnormal hadmin =>
      refine iff_of_true (classified_of_code (Or.inr (Or.inr rfl)) fun horder => ?_) ?_
      · obtain ⟨g, hg, hname⟩ := (mem_of_mapM_normalizeGroupName hnormal _).mp hadmin
        obtain ⟨n, hn, hne, -⟩ := horder.groups g hg
        exact absurd (Except.ok.inj (hn.symm.trans hname)) hne
      · intro names haccepts
        rw [Except.ok.inj (hnormal.symm.trans haccepts.normal)] at hadmin
        exact absurd hadmin haccepts.runtime
  | groupless hempty =>
      refine iff_of_true (classified_of_fault rfl (Or.inr (Or.inl hempty)) ?_) ?_
      · exact fun h => h.1.nonempty hempty
      · intro names haccepts
        have hnormal := haccepts.normal
        rw [hempty] at hnormal
        exact absurd (Except.ok.inj hnormal).symm haccepts.nonempty
  | @unknown names e haccepts hlooked =>
      cases hlooked with
      | @unreadable pre post n _ hsplit hpre hn =>
          have hnot : ¬ (Storage.vault D server).ActiveAt P w n :=
            fun hactive => hactive.groupAt_ne_error hn
          have hforeign := groupAt_error hn
          by_cases hgood : (∃ m, e = .valueError m) ∧ request.Lifeless issuedAt
          · obtain ⟨⟨m, rfl⟩, hlife⟩ := hgood
            refine iff_of_true (classified_of_fault rfl (Or.inr (Or.inr hlife)) ?_) ?_
            · exact fun h => h.2 hlife
            · refine classifiable_of_inactive haccepts hsplit hpre hnot fun e he => ?_
              exact ⟨⟨m, (Except.error.inj (hn.symm.trans he)).symm⟩, hlife⟩
          · refine iff_of_false ?_ fun h => hgood ((h _ haccepts).1 pre n post e hsplit hpre hn)
            rcases createTokenStatus_of_foreign hforeign with ⟨m, rfl⟩ | hstatus
            · refine not_classified_of_code rfl (haccepts.not_atFault fun hlife => ?_)
              exact hgood ⟨⟨m, rfl⟩, hlife⟩
            · show ¬ Classified P D server signer w request issuedAt (mintAnswer (.error e))
              rw [mintAnswer, answer, hstatus]
              exact not_classified_error
      | @notFound pre post n m found hsplit hpre hfound hnot =>
          refine iff_of_true (classified_of_code (Or.inr (Or.inl rfl)) fun horder => ?_) ?_
          · have hactive := (haccepts.inOrder_iff.mp horder).1
            exact absurd (hactive n (by rw [hsplit]; simp)) hnot
          · refine classifiable_of_inactive haccepts hsplit hpre hnot fun e he => ?_
            cases hfound.symm.trans he
  | lifeless haccepts hactive hle =>
      refine iff_of_true (classified_of_fault rfl (Or.inr (Or.inr (Or.inl hle))) ?_) ?_
      · exact fun h => h.2 (Or.inl hle)
      · exact classifiable_of_active haccepts hactive fun hpositive => absurd hle (by omega)
  | overflow haccepts hactive hpositive hexpires =>
      refine iff_of_false not_classified_error fun h => ?_
      obtain ⟨expiresAt, hok, -⟩ := (h _ haccepts).2 hactive hpositive
      cases hok.symm.trans hexpires
  | @unsigned names expiresAt e haccepts hactive hpositive hexpires hsigned =>
      rw [signAt_vault hsigner] at hsigned
      have hfault := haccepts.not_atFault (not_lifeless hpositive hexpires)
      rcases signingMaterial_cases P D signer
        (w.read signer.vaultPath) with ⟨hlacks, m, hmaterial⟩
          | ⟨d, pem, hsecret, hpem, hblank, hload⟩
      · rw [hmaterial] at hsigned
        obtain rfl := Except.error.inj hsigned
        refine iff_of_true ⟨⟨_, rfl, by simp [Response.code]⟩, ?_, fun _ _ _ => ⟨_, rfl, rfl⟩⟩ ?_
        · rintro _ ⟨⟩ h
          have hcode : 503 = 422 := h
          omega
        · exact classifiable_of_active haccepts hactive
            fun _ => ⟨expiresAt, hexpires, Or.inl hlacks⟩
      · -- the key is there: its loading or the encoding has raised
        have hforeign : e.ofService = false := by
          rcases hload with ⟨e', hload, hmaterial⟩ | ⟨publicKeyPem, material, -, hmaterial⟩
          · rw [hmaterial] at hsigned
            rw [← Except.error.inj hsigned]
            exact hcrypto.load _ _ hload
          · rw [hmaterial] at hsigned
            exact hcrypto.encode _ _ _ _ _ hsigned
        refine iff_of_false (not_classified_of_foreign hforeign hfault) fun h => ?_
        obtain ⟨expiresAt', hok, hkey⟩ := (h _ haccepts).2 hactive hpositive
        obtain rfl := Except.ok.inj (hexpires.symm.trans hok)
        rcases hkey with hlacks | ⟨material, raw, hmaterial, hraw⟩
        · exact hblank (hlacks d pem hsecret hpem)
        · rw [hmaterial] at hsigned
          cases hraw.symm.trans hsigned
  | unhashed _ _ _ _ hsigned hhash =>
      rw [signAt_vault hsigner] at hsigned
      obtain ⟨material, -, hraw⟩ := except_bind_eq_ok hsigned
      have hascii := hcrypto.ascii _ _ _ _ _ hraw
      rw [jwtHash, if_pos (List.all_eq_true.mpr fun c hc => decide_eq_true (hascii c hc))] at hhash
      cases hhash
  | @ready names expiresAt raw hash haccepts hactive hpositive hexpires hsigned hhash =>
      rw [signAt_vault hsigner] at hsigned
      obtain ⟨material, hmaterial, hraw⟩ := except_bind_eq_ok hsigned
      refine iff_of_true (classified_of_code (Or.inl rfl) fun _ => ?_) ?_
      · exact key_of_signingMaterial hmaterial
      · exact classifiable_of_active haccepts hactive
          fun _ => ⟨expiresAt, hexpires, Or.inr ⟨material, raw, hmaterial, hraw⟩⟩

end

/-- The mint that a request to the route asks for. -/
def createTokenMint (app : AppState) (identity : VerifiedIdentity) (keycloakSub : String)
    (groups : List String) (expiresInSeconds : Option Int) (tokenId : String)
    (correlationId : Option String) : MintRequest :=
  { ownerSub := keycloakSub
    groups := groups
    actorSub := identity.subject
    correlationId := correlationId
    expiresInSeconds := expiresInSeconds
    defaultLifetimeSeconds := app.defaultLifetimeSeconds
    tokenId := tokenId }

/-- **When the mint route answers as it is meant to.** For an admin, over Vault and with
the signer that loads its key from there, in every state and for every request: the
answer is one of the documented ones, 422 only for a request at fault, and 503 for a
request in order without a key, exactly when no signer is configured or the condition
`Classifiable` holds. -/
theorem createToken_classified_iff (P : Platform) (D : VaultDeployment) (server : VaultServer)
    {signer : VaultTokenSigner} (app : AppState) {w : VaultWorld} {identity : VerifiedIdentity}
    (keycloakSub : String) (groups : List String) (expiresInSeconds : Option Int)
    {tokenId : String} (correlationId : Option String) (clock : Clock)
    (hcrypto : D.crypto.Documented) (hsigner : D.signer = .vault signer)
    (hadmin : (Storage.vault D server).HasMembership P w identity.subject reservedAdminGroup)
    (hstored : ∃ previous, (Storage.vault D server).tokenAt P w tokenId = .ok previous) :
    Classified P D server signer w
        (createTokenMint app identity keycloakSub groups expiresInSeconds tokenId correlationId)
        clock.now
        (((Request.createToken identity keycloakSub groups expiresInSeconds tokenId correlationId
          clock).prog P app).run ((Storage.vault D server).exec P) w).1
      ↔ (app.hasTokenSigner = true → Classifiable P D server signer w
          (createTokenMint app identity keycloakSub groups expiresInSeconds tokenId correlationId)
          clock.now) := by
  rw [Request.prog, run_requireAdminIdentity hadmin, withTokenSigner]
  cases happ : app.hasTokenSigner with
  | false =>
      refine iff_of_true ⟨⟨_, rfl, by simp [Response.code]⟩, ?_, fun _ _ _ => ⟨_, rfl, rfl⟩⟩
        (by rintro ⟨⟩)
      rintro _ ⟨⟩ h
      have hcode : 503 = 422 := h
      omega
  | true =>
      obtain ⟨previous, hprevious⟩ := hstored
      let request :=
        createTokenMint app identity keycloakSub groups expiresInSeconds tokenId correlationId
      have hfree : (Storage.vault D server).tokenAt P w request.tokenId = .ok previous := hprevious
      obtain ⟨r, hprepared, hout, -⟩ := mintToken_run hfree clock
      have hanswer := mintAnswer_classified_iff hcrypto hsigner hprepared
      rw [← hout] at hanswer
      rw [if_pos rfl, run_respond]
      exact hanswer.trans ⟨fun h _ => h, fun h => h rfl⟩

/-! ### A damaged key, and a far expiry -/

/-- A deployment that loads its key from Vault. -/
def VaultDeployment.keyInVault : VaultDeployment :=
  { VaultDeployment.python with
    signer := .vault
      { vaultPath := VaultDeployment.python.paths.signingKeyPath
        algorithm := "RS256"
        issuer := "gofr-sec" } }

/-- The Vault in which `teamDay` mints, with a signing secret. -/
def keyVault (pem : String) : VaultWorld :=
  teamSetUp.write VaultDeployment.python.paths.signingKeyPath [("private_key_pem", .str pem)]

/-- The request of `root` for a token of `alice` and `team`. -/
def teamTokenRequest (expiresInSeconds : Option Int) : Request :=
  .createToken (keycloakUser "root") "alice" ["team"] expiresInSeconds teamMint.tokenId none newYear

/-- The signer of `keyInVault`. -/
def keySigner : VaultTokenSigner :=
  { vaultPath := VaultDeployment.python.paths.signingKeyPath
    algorithm := "RS256"
    issuer := "gofr-sec" }

lemma teamMint_not_atFault : ¬ teamMint.AtFault .python newYear.now := by
  rintro (⟨g, hg, e, hname⟩ | hempty | hlife | ⟨e, hexpires⟩)
  · rw [List.mem_singleton.mp hg, normalizeGroupName_self _ (by decide)] at hname
    cases hname
  · cases hempty
  · exact absurd hlife (by decide)
  · rw [DateTime.addSeconds, dif_pos (by decide)] at hexpires
    cases hexpires

/-- A key that cannot be loaded is blamed on the request, and an expiry that cannot be
represented leaves the route as an exception. -/
theorem createToken_unclassified :
    let st := Storage.vault .keyInVault .inOrder
    ¬ Classified .python .keyInVault .inOrder keySigner (keyVault "damaged") teamMint newYear.now
        (((teamTokenRequest none).prog .python ⟨true, 60⟩).run (st.exec .python)
          (keyVault "damaged")).1
      ∧ ¬ Classified .python .keyInVault .inOrder keySigner (keyVault runtimeKeyPem)
        { teamMint with expiresInSeconds := some 1000000000000000 } newYear.now
        (((teamTokenRequest (some 1000000000000000)).prog .python ⟨true, 60⟩).run (st.exec .python)
          (keyVault runtimeKeyPem)).1 := by
  intro st
  refine ⟨fun h => ?_, fun h => ?_⟩
  · have hcode : ((((teamTokenRequest none).prog .python ⟨true, 60⟩).run (st.exec .python)
        (keyVault "damaged")).1).map Response.code = .ok 422 := by decide +kernel
    obtain ⟨response, hout, -⟩ := h.answered
    rw [hout] at hcode
    exact teamMint_not_atFault (h.faulty response hout (Except.ok.inj hcode))
  · have hraised : ((((teamTokenRequest (some 1000000000000000)).prog .python ⟨true, 60⟩).run
        (st.exec .python) (keyVault runtimeKeyPem)).1).map Response.code
          = .error (.overflowError "date value out of range") := by decide +kernel
    obtain ⟨response, hout, -⟩ := h.answered
    rw [hout] at hraised
    exact nomatch hraised

/-- The crypto of `keyInVault` is as it is relied on. -/
lemma documented_keyInVault : VaultDeployment.keyInVault.crypto.Documented := by
  refine ⟨fun pem e h => ?_, fun _ _ _ _ e h => (nomatch h), fun _ _ _ _ raw h => ?_⟩
  · have hload : (if pem = runtimeKeyPem then Except.ok runtimePublicKeyPem
        else Except.error (PyError.valueError "Unable to load PEM file.")) = .error e := h
    split_ifs at hload
    rw [← Except.error.inj hload]
    rfl
  · rw [← Except.ok.inj h]
    simp

/-- With a key that loads, the request for `teamMint` is answered as it is meant to be. -/
theorem createToken_classified_teamMint :
    let st := Storage.vault .keyInVault .inOrder
    Classified .python .keyInVault .inOrder keySigner (keyVault runtimeKeyPem)
      teamMint newYear.now
      (((teamTokenRequest none).prog .python ⟨true, 60⟩).run (st.exec .python)
        (keyVault runtimeKeyPem)).1 := by
  intro st
  have hadmin : st.HasMembership .python (keyVault runtimeKeyPem)
      (keycloakUser "root").subject reservedAdminGroup := by
    show (st.exec .python (.hasMembership "root" "admin") _).1 = _
    decide +kernel
  have hstored : ∃ previous, st.tokenAt .python (keyVault runtimeKeyPem)
      teamMint.tokenId = .ok previous := ⟨none, by decide +kernel⟩
  have hgroup : st.ActiveAt .python (keyVault runtimeKeyPem) "team" :=
    ⟨{ name := "team"
       description := none
       isSystem := false
       isActive := true
       createdAt := newYear.now }, by decide +kernel, rfl⟩
  refine (createToken_classified_iff .python .keyInVault .inOrder ⟨true, 60⟩ "alice" ["team"] none
    none newYear documented_keyInVault rfl hadmin hstored).mpr fun _ names haccepts => ?_
  have hactive : ∀ n ∈ names, st.ActiveAt .python (keyVault runtimeKeyPem) n := by
    intro n hn
    obtain ⟨g, hg, hname⟩ := (mem_of_mapM_normalizeGroupName haccepts.normal n).mp hn
    rw [List.mem_singleton.mp hg, normalizeGroupName_self _ (by decide)] at hname
    rw [← Except.ok.inj hname]
    exact hgroup
  refine classifiable_of_active haccepts hactive (fun _ => ?_) names haccepts
  refine ⟨⟨1767225660000000, by decide, by decide⟩, ?_, ?_⟩
  · rw [DateTime.addSeconds, dif_pos (by decide)]
    rfl
  · have hread : (keyVault runtimeKeyPem).read keySigner.vaultPath
        = some [("private_key_pem", .str runtimeKeyPem)] :=
      VaultWorld.read_write_self _ _ _
    rcases signingMaterial_cases .python .keyInVault keySigner
      ((keyVault runtimeKeyPem).read keySigner.vaultPath) with
        ⟨hlacks, -⟩ | ⟨d, pem, hd, hpem, -, ⟨e, hload, -⟩ | ⟨_, material, -, hmaterial⟩⟩
    · exact Or.inl hlacks
    · rw [hread] at hd
      obtain rfl := Option.some.inj hd
      obtain rfl : pem = runtimeKeyPem := Json.str.inj hpem.symm
      have hloaded : VaultDeployment.keyInVault.crypto.publicKeyPem runtimeKeyPem
          = .ok runtimePublicKeyPem := if_pos rfl
      cases hloaded.symm.trans hload
    · exact Or.inr ⟨material, _, hmaterial, rfl⟩

end GofrSec
