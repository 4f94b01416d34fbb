/-
A mint is exact, and its JWT agrees with its record.

* `jwt_of_signAt`: a signed token encodes the claims of its request;
* `claims_agree`: the claims of a token, in whole seconds, against the times of its
  record;
* `MintRequest.InOrder.ready`: a request in order is prepared;
* `mint_exact`: when a mint succeeds, and what it then stores, returns and signs.
-/
import GofrSec.Services.MintOutcomes

namespace GofrSec

open Calls

/-- `issuer` of the signer. -/
def TokenSigner.issuer : TokenSigner → String
  | .static signer => signer.issuer
  | .vault signer => signer.issuer

namespace Storage

/-- The third-party functions that the signer of a backend calls. -/
def crypto : Storage → Crypto
  | .memory C _ => C
  | .vault D _ => D.crypto

/-- `issuer` of the signer of a backend. -/
def issuer : Storage → String
  | .memory _ signer => signer.issuer
  | .vault D _ => D.signer.issuer

end Storage

variable {P : Platform} {st : Storage} {s : st.State} {request : MintRequest} {clock : Clock}

/-- A signed token encodes the claims of its request. -/
lemma jwt_of_signAt {signing : SigningRequest} {raw : String}
    (h : st.signAt P s signing = .ok raw) : ∃ pem algorithm keyId,
      st.crypto.jwtEncode (signingClaims st.issuer signing) pem algorithm keyId = .ok raw := by
  cases st with
  | memory C signer => exact ⟨_, _, _, h⟩
  | vault D server =>
      have hrun : ((D.signer.signToken P D signing).run server.exec s).1 = .ok raw := h
      show ∃ pem algorithm keyId,
        D.crypto.jwtEncode (signingClaims D.signer.issuer signing) pem algorithm keyId = .ok raw
      cases hsigner : D.signer with
      | static signer =>
          rw [hsigner] at hrun
          exact ⟨_, _, _, (congrArg Prod.fst (Prog.run_lift _ s)).symm.trans hrun⟩
      | vault signer =>
          rw [hsigner, TokenSigner.signToken, VaultTokenSigner.signToken, Prog.run_bind] at hrun
          cases hload : ((signer.loadSigningMaterial P D).run server.exec s).1 with
          | error e =>
              rw [hload] at hrun
              cases hrun
          | ok material =>
              rw [hload, Prog.onReturn_ok, Prog.run_lift] at hrun
              exact ⟨_, _, _, hrun⟩

/-- The claims of a token issued at or after the epoch: the time of issue cut to seconds,
and the expiry of the record cut to seconds, which is the lifetime later. -/
lemma claims_agree {issuer : String} {expiresAt : DateTime} (hepoch : 0 ≤ clock.now.micros)
    (hpositive : 0 < request.lifetimeSeconds)
    (hexpires : expiresAt.micros = clock.now.micros + request.lifetimeSeconds * 1000000) :
    let claims := signingClaims issuer (request.signing clock.now expiresAt)
    claims.jti = request.tokenId ∧ claims.sub = request.ownerSub
      ∧ claims.iat = clock.now.micros / 1000000 ∧ claims.nbf = claims.iat
      ∧ claims.exp = some (claims.iat + request.lifetimeSeconds) := by
  have hissued : clock.now.timestamp = clock.now.micros / 1000000 :=
    Int.tdiv_eq_ediv_of_nonneg hepoch
  have hexp : expiresAt.timestamp = clock.now.micros / 1000000 + request.lifetimeSeconds := by
    rw [DateTime.timestamp, hexpires, Int.tdiv_eq_ediv_of_nonneg (by omega)]
    omega
  refine ⟨rfl, rfl, hissued, rfl, ?_⟩
  show some expiresAt.timestamp = some (clock.now.timestamp + request.lifetimeSeconds)
  rw [hexp, hissued]

/-- Each of several names that can be normalized has its normal form among theirs. -/
lemma exists_of_mapM_normalizeGroupName {names ns : List String}
    (h : names.mapM (normalizeGroupName P) = .ok ns) {name : String} (hname : name ∈ names) :
    ∃ n ∈ ns, normalizeGroupName P name = .ok n := by
  cases hn : normalizeGroupName P name with
  | ok n => exact ⟨n, (mem_of_mapM_normalizeGroupName h n).mpr ⟨name, hname, hn⟩, rfl⟩
  | error e =>
      -- then the whole list could not have been normalized
      exfalso
      induction names generalizing ns with
      | nil => exact nomatch hname
      | cons head names ih =>
          rw [List.mapM_cons] at h
          obtain ⟨m, hm, h⟩ := except_bind_eq_ok h
          obtain ⟨ms, hms, -⟩ := except_bind_eq_ok h
          rcases List.mem_cons.mp hname with rfl | hname
          · exact nomatch hn.symm.trans hm
          · exact ih hms hname

/-- What the request of a mint has to be. -/
structure MintRequest.InOrder (P : Platform) (st : Storage) (s : st.State)
    (request : MintRequest) : Prop where
  registered : st.IsRegistered P s request.ownerSub
  nonempty : request.groups ≠ []
  groups : ∀ g ∈ request.groups,
    ∃ n, normalizeGroupName P g = .ok n ∧ n ≠ "admin" ∧ st.ActiveAt P s n
  positive : 0 < request.lifetimeSeconds

/-- A preparation that returns had a request in order. -/
lemma inOrder_of_ready {names : List String} (haccepts : Accepts P st s request names)
    (hactive : ∀ n ∈ names, st.ActiveAt P s n) (hpositive : 0 < request.lifetimeSeconds) :
    request.InOrder P st s := by
  refine ⟨haccepts.registered, fun hempty => ?_, fun g hg => ?_, hpositive⟩
  · have hnormal := haccepts.normal
    rw [hempty] at hnormal
    exact haccepts.nonempty (Except.ok.inj hnormal).symm
  · obtain ⟨n, hn, hname⟩ := exists_of_mapM_normalizeGroupName haccepts.normal hg
    refine ⟨n, hname, ?_, hactive n hn⟩
    rintro rfl
    exact haccepts.runtime hn

/-- A request in order is prepared, when its expiry can be represented and signing
succeeds. -/
lemma MintRequest.InOrder.ready (horder : request.InOrder P st s)
    (hepoch : 0 ≤ clock.now.micros)
    (hrange : clock.now.micros + request.lifetimeSeconds * 1000000 ≤ 253402300799999999)
    (hsigns : ∀ expiresAt, ∃ raw, st.signAt P s (request.signing clock.now expiresAt) = .ok raw
      ∧ ∀ c ∈ raw.toList, c.toNat < 128)
    {r : Except PyError (IssuedTokenRecord × String)}
    (hprepared : MintPrepared P st s request clock.now r) : ∃ prepared, r = .ok prepared := by
  obtain ⟨hregistered, hnonempty, hgroups, hpositive⟩ := horder
  cases hprepared with
  | unregistered h => exact absurd hregistered h
  | misnamed hmem hname =>
      obtain ⟨n, hn, -⟩ := hgroups _ hmem
      cases hn.symm.trans hname
  | reserved hnormal hadmin =>
      obtain ⟨g, hg, hname⟩ := (mem_of_mapM_normalizeGroupName hnormal _).mp hadmin
      obtain ⟨n, hn, hne, -⟩ := hgroups g hg
      exact absurd (Except.ok.inj (hn.symm.trans hname)) hne
  | groupless h => exact absurd h hnonempty
  | @unknown names e haccepts hlooked =>
      have hactive : ∀ n ∈ names, st.ActiveAt P s n := by
        intro n hn
        obtain ⟨g, hg, hname⟩ := (mem_of_mapM_normalizeGroupName haccepts.normal n).mp hn
        obtain ⟨n', hn', -, hactive⟩ := hgroups g hg
        rwa [Except.ok.inj (hn'.symm.trans hname)] at hactive
      cases hlooked with
      | @unreadable pre post n _ hsplit hpre hn =>
          obtain ⟨group, hgroup, -⟩ := hactive n (by rw [hsplit]; simp)
          cases hgroup.symm.trans hn
      | @notFound pre post n m found hsplit hpre hn hnot =>
          exact absurd (hactive n (by rw [hsplit]; simp)) hnot
  | lifeless _ _ h => omega
  | overflow _ _ _ h =>
      rw [DateTime.addSeconds, dif_pos ⟨by omega, hrange⟩] at h
      cases h
  | @unsigned names expiresAt e _ _ _ _ h =>
      obtain ⟨raw, hraw, -⟩ := hsigns expiresAt
      cases hraw.symm.trans h
  | @unhashed names expiresAt raw m _ _ _ _ hsigned h =>
      obtain ⟨raw', hraw, hascii⟩ := hsigns expiresAt
      obtain rfl := Except.ok.inj (hraw.symm.trans hsigned)
      rw [jwtHash, if_pos (List.all_eq_true.mpr fun c hc => decide_eq_true (hascii c hc))] at h
      cases h
  | ready => exact ⟨_, rfl⟩

/-- **A mint is exact, and its JWT agrees with its record.** In every state of either
backend, for a time of issue at or after the epoch and an expiry that can be represented,
when the signer answers with a token in ASCII and what is stored under the new id can be
read:
* `mint_token` succeeds exactly when the owner is registered, the list of groups is not
  empty, each of them normalizes to the name of an active group other than `admin`, and
  the lifetime is positive;
* the record that it returns is the one that is stored then; it grants the normal forms
  in the order of their first occurrence, is active and expires the lifetime after its
  issue, and no other token has changed;
* the token encodes `jti`, `sub`, `iat = nbf`, the whole seconds of the issue, and `exp`,
  the lifetime after it, so that it is good from the issue on, and until less than a
  second before the record expires. -/
theorem mint_exact (P : Platform) (st : Storage) {s : st.State} {request : MintRequest}
    {clock : Clock} (hepoch : 0 ≤ clock.now.micros)
    (hrange : clock.now.micros + request.lifetimeSeconds * 1000000 ≤ 253402300799999999)
    (hsigns : ∀ expiresAt, ∃ raw, st.signAt P s (request.signing clock.now expiresAt) = .ok raw
      ∧ ∀ c ∈ raw.toList, c.toNat < 128)
    (hstored : ∃ previous, st.tokenAt P s request.tokenId = .ok previous) :
    ((∃ minted, ((mintToken P request clock).run (st.exec P) s).1 = .ok minted)
        ↔ st.IsRegistered P s request.ownerSub ∧ request.groups ≠ []
          ∧ (∀ g ∈ request.groups,
            ∃ n, normalizeGroupName P g = .ok n ∧ n ≠ "admin" ∧ st.ActiveAt P s n)
          ∧ 0 < request.lifetimeSeconds)
      ∧ ∀ minted, ((mintToken P request clock).run (st.exec P) s).1 = .ok minted →
        (∃ names, request.groups.mapM (normalizeGroupName P) = .ok names
          ∧ minted.record.grantedGroups = names.eraseDups)
        ∧ (∀ t, st.tokenAt P ((mintToken P request clock).run (st.exec P) s).2 t
          = if t = request.tokenId then .ok (some minted.record) else st.tokenAt P s t)
        ∧ minted.record.tokenId = request.tokenId ∧ minted.record.ownerSub = request.ownerSub
        ∧ minted.record.status = "active" ∧ minted.record.issuedAt = clock.now
        ∧ ∃ expiresAt, minted.record.expiresAt = some expiresAt
          ∧ expiresAt.micros = clock.now.micros + request.lifetimeSeconds * 1000000
          ∧ ∃ claims pem algorithm keyId exp,
            st.crypto.jwtEncode claims pem algorithm keyId = .ok minted.rawToken
            ∧ claims.jti = request.tokenId ∧ claims.sub = request.ownerSub
            ∧ claims.iat = clock.now.micros / 1000000 ∧ claims.nbf = claims.iat
            ∧ claims.exp = some exp ∧ exp = claims.iat + request.lifetimeSeconds
            ∧ claims.nbf * 1000000 ≤ clock.now.micros
            ∧ exp * 1000000 ≤ expiresAt.micros ∧ expiresAt.micros < (exp + 1) * 1000000 := by
  obtain ⟨previous, hprevious⟩ := hstored
  obtain ⟨r, hprepared, hout, htokens⟩ := mintToken_run hprevious clock
  refine ⟨⟨?_, ?_⟩, ?_⟩
  · rintro ⟨minted, hminted⟩
    rw [hout] at hminted
    cases hprepared with
    | ready haccepts hactive hpositive _ _ _ =>
        obtain ⟨hregistered, hnonempty, hgroups, -⟩ := inOrder_of_ready haccepts hactive hpositive
        exact ⟨hregistered, hnonempty, hgroups, hpositive⟩
    | _ => exact nomatch hminted
  · rintro ⟨hregistered, hnonempty, hgroups, hpositive⟩
    have horder : request.InOrder P st s := ⟨hregistered, hnonempty, hgroups, hpositive⟩
    obtain ⟨prepared, rfl⟩ := horder.ready hepoch hrange hsigns hprepared
    exact ⟨_, hout⟩
  · intro minted hminted
    rw [hout] at hminted
    cases hprepared with
    | @ready names expiresAt raw hash haccepts hactive hpositive hexpires hsigned hhash =>
        obtain rfl := Except.ok.inj hminted
        have hmicros := DateTime.addSeconds_eq_ok hexpires
        obtain ⟨pem, algorithm, keyId, hjwt⟩ := jwt_of_signAt hsigned
        obtain ⟨hjti, hsub, hiat, hnbf, hexp⟩ :=
          claims_agree hepoch hpositive hmicros
        refine ⟨⟨names, haccepts.normal, rfl⟩, htokens _ rfl, rfl, rfl, rfl, rfl, expiresAt, rfl,
          hmicros, _, pem, algorithm, keyId, _, hjwt, hjti, hsub, hiat, hnbf, hexp, rfl, ?_, ?_, ?_⟩
        · rw [hnbf, hiat]
          omega
        · rw [hiat, hmicros]
          omega
        · rw [hiat, hmicros]
          omega
    | _ => exact nomatch hminted

/-- `teamMint`, which names its group three times, in two spellings. -/
def repeatedMint : MintRequest := { teamMint with groups := [" Team ", "team", " Team "] }

/-- The mint succeeds, grants the group once, and its record is what is stored. -/
theorem mint_exact_repeatedMint :
    ∃ minted, ((mintToken .python repeatedMint newYear).run
        ((Storage.vault .python .inOrder).exec .python) teamSetUp).1 = .ok minted
      ∧ minted.record.grantedGroups = ["team"]
      ∧ (Storage.vault .python .inOrder).tokenAt .python
        ((mintToken .python repeatedMint newYear).run
          ((Storage.vault .python .inOrder).exec .python) teamSetUp).2 teamMint.tokenId
        = .ok (some minted.record) := by
  have hepoch : 0 ≤ newYear.now.micros := by decide
  have hrange : newYear.now.micros + repeatedMint.lifetimeSeconds * 1000000
      ≤ 253402300799999999 := by decide
  have hregistered : ((Storage.vault .python .inOrder).exec .python
      (.isRegistered repeatedMint.ownerSub) teamSetUp).1 = .ok true := by decide +kernel
  have hgroup : (Storage.vault .python .inOrder).ActiveAt .python teamSetUp "team" :=
    ⟨{ name := "team"
       description := none
       isSystem := false
       isActive := true
       createdAt := newYear.now }, by decide +kernel, rfl⟩
  have hteam : normalizeGroupName .python "team" = .ok "team" :=
    normalizeGroupName_self _ (by decide)
  have hspaced : normalizeGroupName .python " Team " = .ok "team" := by decide +kernel
  have hgroups : ∀ g ∈ repeatedMint.groups, ∃ n, normalizeGroupName .python g = .ok n ∧ n ≠ "admin"
      ∧ (Storage.vault .python .inOrder).ActiveAt .python teamSetUp n := by
    intro g hg
    refine ⟨"team", ?_, by decide, hgroup⟩
    simp only [repeatedMint, List.mem_cons, List.not_mem_nil, or_false] at hg
    rcases hg with rfl | rfl | rfl
    · exact hspaced
    · exact hteam
    · exact hspaced
  have hstored : ∃ previous, (Storage.vault .python .inOrder).tokenAt .python teamSetUp
      repeatedMint.tokenId = .ok previous := ⟨none, by decide +kernel⟩
  obtain ⟨hiff, hminted⟩ := mint_exact .python (.vault .python .inOrder) hepoch hrange
    (fun _ => ⟨"e30.e30.c2ln", rfl, by simp⟩) hstored
  obtain ⟨minted, hout⟩ := hiff.mpr ⟨hregistered, by decide, hgroups, by decide⟩
  obtain ⟨⟨names, hnames, hgranted⟩, htokens, -⟩ := hminted minted hout
  refine ⟨minted, hout, ?_, by rw [htokens]; exact if_pos rfl⟩
  have hall : repeatedMint.groups.mapM (normalizeGroupName .python)
      = .ok ["team", "team", "team"] := by
    rw [repeatedMint, List.mapM_cons, List.mapM_cons, List.mapM_cons, hspaced, hteam]
    rfl
  rw [hgranted, Except.ok.inj (hnames.symm.trans hall)]
  decide

end GofrSec
