/-
How a mint ends, while storage and the signer answer as functions of the state.

* `Storage.IsRegistered`, `Storage.ActiveAt`, `Storage.signAt`: what the stores and the
  signer answer a mint;
* `Accepts`: the request of a mint is in order, as far as the stores go;
* `LookedUp`, `MintPrepared`: how the lookup of the groups and the preparation of a mint
  end, one case for each exit of the source; `wp_prepareMint` says that it ends so;
* `Storage.tokenUpsert_exec`: an upsert stores its record and leaves the other tokens
  alone, and with it `mintToken_run`: how a mint ends.
-/
import GofrSec.Services.VaultTokenRuns

namespace GofrSec

open Calls Text

namespace Storage

variable {P : Platform} {st : Storage}

/-- A reading call, in a program over calls that are functions. -/
lemma wp_read {c : RepoCall} (hc : c.Reads) {s : st.State}
    {Q : Except PyError c.Res → st.State → Prop} (h : Q (st.exec P c s).1 s) :
    (RepoCall.perform c).wp (st.exec P).graph.contract Q s := by
  rw [Prog.wp_graph_iff, Prog.run_perform, read_exec hc]
  exact h

variable (P) in
/-- `is_registered(u)` answers yes. -/
def IsRegistered (st : Storage) (s : st.State) (u : String) : Prop :=
  (st.exec P (.isRegistered u) s).1 = .ok true

variable (P) in
/-- `get(g)` of the groups answers with an active group. -/
def ActiveAt (st : Storage) (s : st.State) (g : String) : Prop :=
  ∃ group, st.groupAt P s g = .ok (some group) ∧ group.isActive

variable (P) in
/-- What the signer makes of a request. -/
def signAt (st : Storage) (s : st.State) (request : SigningRequest) : Except PyError String :=
  (st.exec P (.signToken request) s).1

/-- `is_registered` always answers. -/
lemma isRegistered_answers (s : st.State) (u : String) :
    ∃ registered, (st.exec P (.isRegistered u) s).1 = .ok registered := by
  cases st with
  | memory C signer => exact ⟨_, rfl⟩
  | vault D server => exact ⟨_, rfl⟩

end Storage

section

variable {P : Platform} {st : Storage} {s : st.State}

/-! ### Group names -/

/-- Normalizing a name raises a `ValueError` or nothing. -/
lemma normalizeGroupName_error {name : String} {e : PyError}
    (h : normalizeGroupName P name = .error e) : ∃ m, e = .valueError m := by
  rw [normalizeGroupName] at h
  split_ifs at h
  exact ⟨_, (Except.error.inj h).symm⟩

/-- Normalizing several names raises what one of them does. -/
lemma mapM_normalizeGroupName_error {names : List String} {e : PyError}
    (h : names.mapM (normalizeGroupName P) = .error e) :
    ∃ name ∈ names, normalizeGroupName P name = .error e := by
  induction names with
  | nil => exact nomatch h
  | cons name names ih =>
      rw [List.mapM_cons] at h
      cases hname : normalizeGroupName P name with
      | error e' =>
          rw [hname] at h
          exact ⟨name, List.mem_cons_self, hname.trans (congrArg _ (Except.error.inj h))⟩
      | ok n =>
          rw [hname] at h
          cases hrest : names.mapM (normalizeGroupName P) with
          | error e' =>
              rw [hrest] at h
              obtain ⟨name', hmem, hname'⟩ := ih (hrest.trans (congrArg _ (Except.error.inj h)))
              exact ⟨name', List.mem_cons_of_mem _ hmem, hname'⟩
          | ok ns =>
              rw [hrest] at h
              exact nomatch h

/-- How the lookup of group names ends: they are all active, and the distinct ones are
kept in the order of their first occurrence; or a first one is not. -/
inductive LookedUp (P : Platform) (st : Storage) (s : st.State) (names : List String) :
    Except PyError (List String) → Prop
  | found : (∀ n ∈ names, st.ActiveAt P s n) → LookedUp P st s names (.ok names.eraseDups)
  | unreadable {pre post : List String} {n : String} {e : PyError} :
      names = pre ++ n :: post → (∀ m ∈ pre, st.ActiveAt P s m) → st.groupAt P s n = .error e →
        LookedUp P st s names (.error e)
  | notFound {pre post : List String} {n m : String} {found : Option GroupDefinition} :
      names = pre ++ n :: post → (∀ m ∈ pre, st.ActiveAt P s m) →
      st.groupAt P s n = .ok found → ¬ st.ActiveAt P s n →
        LookedUp P st s names (.error (.groupNotFound m))

/-- The loop of `_validate_groups`, when the names that it has seen are active. -/
lemma wp_lookUpGroups_exec {seen names : List String} (hseen : ∀ n ∈ seen, st.ActiveAt P s n)
    {Q : Except PyError (List String) → st.State → Prop}
    (hok : (∀ n ∈ names, st.ActiveAt P s n) →
      Q (.ok (names.filter (· ∉ seen)).eraseDups) s)
    (herr : ∀ e, LookedUp P st s names (.error e) → Q (.error e) s) :
    (lookUpGroups seen names).wp (st.exec P).graph.contract Q s := by
  induction names generalizing seen Q with
  | nil => exact hok (by rintro _ ⟨⟩)
  | cons g names ih =>
      -- what a failure further down means for the whole list
      have hlater : st.ActiveAt P s g → ∀ e, LookedUp P st s names (.error e) →
          LookedUp P st s (g :: names) (.error e) := by
        rintro hg e hrest
        cases hrest with
        | @unreadable pre post n _ hsplit hpre hn =>
            have hsplit' : g :: names = g :: pre ++ n :: post := congrArg (g :: ·) hsplit
            exact .unreadable hsplit' (List.forall_mem_cons.mpr ⟨hg, hpre⟩) hn
        | @notFound pre post n m found hsplit hpre hn hnot =>
            have hsplit' : g :: names = g :: pre ++ n :: post := congrArg (g :: ·) hsplit
            exact .notFound hsplit' (List.forall_mem_cons.mpr ⟨hg, hpre⟩) hn hnot
      have hfirst : g :: names = [] ++ g :: names := rfl
      have hnone : ∀ m ∈ ([] : List String), st.ActiveAt P s m := by rintro _ ⟨⟩
      rw [lookUpGroups]
      split_ifs with hmem
      · have hg := hseen g hmem
        refine ih hseen (fun hall => ?_) fun e he => herr e (hlater hg e he)
        rw [List.filter_cons_of_neg (by simpa using hmem)] at hok
        exact hok (List.forall_mem_cons.mpr ⟨hg, hall⟩)
      · refine (Prog.wp_bind _ _ _ _).mpr (Storage.wp_read (by exact ⟨id, trivial⟩) ?_)
        cases hfound : (st.exec P (.groupGet g) s).1 with
        | error e => exact herr e (.unreadable hfirst hnone hfound)
        | ok found =>
            rw [Prog.onReturn_ok]
            cases found with
            | none =>
                refine herr _ (.notFound hfirst hnone hfound ?_)
                rintro ⟨group, hgroup, -⟩
                cases hfound.symm.trans hgroup
            | some group =>
                dsimp only
                split_ifs with hactive
                · have hg : st.ActiveAt P s g := ⟨group, hfound, hactive⟩
                  rw [Prog.wp_bind]
                  refine ih (List.forall_mem_cons.mpr ⟨hg, hseen⟩) (fun hall => ?_)
                    fun e he => herr e (hlater hg e he)
                  have hnames := hok (List.forall_mem_cons.mpr ⟨hg, hall⟩)
                  rw [List.filter_cons_of_pos (by simpa using hmem), List.eraseDups_cons,
                    List.filter_filter] at hnames
                  have hfilter : names.filter (· ∉ g :: seen)
                      = names.filter fun n => (!n == g) && decide (n ∉ seen) := by
                    refine List.filter_congr fun n _ => ?_
                    simp [List.mem_cons, Bool.decide_and, beq_eq_decide]
                  rw [hfilter]
                  exact hnames
                · refine herr _ (.notFound hfirst hnone hfound ?_)
                  rintro ⟨group', hgroup', hactive'⟩
                  rw [Option.some.inj (Except.ok.inj (hfound.symm.trans hgroup'))] at hactive
                  exact hactive hactive'

/-! ### The preparation of a mint -/

/-- What a mint asks of the signer. -/
def MintRequest.signing (request : MintRequest) (issuedAt expiresAt : DateTime) : SigningRequest :=
  { tokenId := request.tokenId
    ownerSub := request.ownerSub
    issuedAt := issuedAt
    expiresAt := some expiresAt }

/-- The record that a mint stores. -/
def MintRequest.record (request : MintRequest) (issuedAt expiresAt : DateTime)
    (grantedGroups : List String) (hash : String) : IssuedTokenRecord :=
  { tokenId := request.tokenId
    ownerSub := request.ownerSub
    grantedGroups := grantedGroups
    status := "active"
    issuedAt := issuedAt
    expiresAt := some expiresAt
    issuedBySub := some request.actorSub
    jwtHash := some hash
    pendingReveal := false
    revokedAt := none }

/-- The owner is registered and the requested groups are well-named; `names` are their
normal forms. -/
structure Accepts (P : Platform) (st : Storage) (s : st.State) (request : MintRequest)
    (names : List String) : Prop where
  registered : st.IsRegistered P s request.ownerSub
  normal : request.groups.mapM (normalizeGroupName P) = .ok names
  runtime : "admin" ∉ names
  nonempty : names ≠ []

/-- How the preparation of a mint ends, in the order of its checks. -/
inductive MintPrepared (P : Platform) (st : Storage) (s : st.State) (request : MintRequest)
    (issuedAt : DateTime) : Except PyError (IssuedTokenRecord × String) → Prop
  | unregistered {m : String} : ¬ st.IsRegistered P s request.ownerSub →
      MintPrepared P st s request issuedAt (.error (.unregisteredUser m))
  | misnamed {name m : String} : name ∈ request.groups →
      normalizeGroupName P name = .error (.valueError m) →
        MintPrepared P st s request issuedAt (.error (.valueError m))
  | reserved {names : List String} {m : String} :
      request.groups.mapM (normalizeGroupName P) = .ok names → "admin" ∈ names →
        MintPrepared P st s request issuedAt (.error (.reservedGroup m))
  | groupless {m : String} : request.groups = [] →
      MintPrepared P st s request issuedAt (.error (.valueError m))
  | unknown {names : List String} {e : PyError} : Accepts P st s request names →
      LookedUp P st s names (.error e) → MintPrepared P st s request issuedAt (.error e)
  | lifeless {names : List String} {m : String} : Accepts P st s request names →
      (∀ n ∈ names, st.ActiveAt P s n) → request.lifetimeSeconds ≤ 0 →
        MintPrepared P st s request issuedAt (.error (.valueError m))
  | overflow {names : List String} {m : String} : Accepts P st s request names →
      (∀ n ∈ names, st.ActiveAt P s n) → 0 < request.lifetimeSeconds →
      issuedAt.addSeconds request.lifetimeSeconds = .error (.overflowError m) →
        MintPrepared P st s request issuedAt (.error (.overflowError m))
  | unsigned {names : List String} {expiresAt : DateTime} {e : PyError} :
      Accepts P st s request names → (∀ n ∈ names, st.ActiveAt P s n) →
      0 < request.lifetimeSeconds →
      issuedAt.addSeconds request.lifetimeSeconds = .ok expiresAt →
      st.signAt P s (request.signing issuedAt expiresAt) = .error e →
        MintPrepared P st s request issuedAt (.error e)
  | unhashed {names : List String} {expiresAt : DateTime} {raw m : String} :
      Accepts P st s request names → (∀ n ∈ names, st.ActiveAt P s n) →
      0 < request.lifetimeSeconds →
      issuedAt.addSeconds request.lifetimeSeconds = .ok expiresAt →
      st.signAt P s (request.signing issuedAt expiresAt) = .ok raw →
      jwtHash P raw = .error (.valueError m) →
        MintPrepared P st s request issuedAt (.error (.valueError m))
  | ready {names : List String} {expiresAt : DateTime} {raw hash : String} :
      Accepts P st s request names → (∀ n ∈ names, st.ActiveAt P s n) →
      0 < request.lifetimeSeconds →
      issuedAt.addSeconds request.lifetimeSeconds = .ok expiresAt →
      st.signAt P s (request.signing issuedAt expiresAt) = .ok raw → jwtHash P raw = .ok hash →
        MintPrepared P st s request issuedAt
          (.ok (request.record issuedAt expiresAt names.eraseDups hash, raw))

lemma addSeconds_error {t : DateTime} {n : Int} {e : PyError} (h : t.addSeconds n = .error e) :
    ∃ m, e = .overflowError m := by
  rw [DateTime.addSeconds] at h
  split_ifs at h
  exact ⟨_, (Except.error.inj h).symm⟩

lemma jwtHash_error {raw : String} {e : PyError} (h : jwtHash P raw = .error e) :
    ∃ m, e = .valueError m := by
  rw [jwtHash] at h
  split_ifs at h
  exact ⟨_, (Except.error.inj h).symm⟩

/-- `_validate_groups`, for a registered owner. -/
lemma wp_validateGroups_exec {request : MintRequest} {issuedAt : DateTime}
    (hregistered : st.IsRegistered P s request.ownerSub)
    {Q : Except PyError (List String) → st.State → Prop}
    (hok : ∀ names, Accepts P st s request names → (∀ n ∈ names, st.ActiveAt P s n) →
      Q (.ok names.eraseDups) s)
    (herr : ∀ e, MintPrepared P st s request issuedAt (.error e) → Q (.error e) s) :
    (validateGroups P request.groups).wp (st.exec P).graph.contract Q s := by
  refine (Prog.wp_bind _ _ _ _).mpr ((Prog.wp_lift _ _ _).mpr ?_)
  rw [ensureRuntimeGroupsAllowed]
  cases hnames : request.groups.mapM (normalizeGroupName P) with
  | error e =>
      obtain ⟨name, hmem, hname⟩ := mapM_normalizeGroupName_error hnames
      obtain ⟨m, rfl⟩ := normalizeGroupName_error hname
      exact herr _ (.misnamed hmem hname)
  | ok names =>
      show Prog.wp _ (Prog.onReturn _ (if _ then _ else _)) _ _
      split_ifs with hadmin
      · exact herr _ (.reserved hnames hadmin)
      · rw [Prog.onReturn_ok]
        split_ifs with hempty
        · refine herr _ (.groupless ?_)
          rw [hempty] at hnames
          cases hgroups : request.groups with
          | nil => rfl
          | cons g gs =>
              rw [hgroups, List.mapM_cons] at hnames
              obtain ⟨n, -, hnames⟩ := except_bind_eq_ok hnames
              obtain ⟨ns, -, hnames⟩ := except_bind_eq_ok hnames
              exact absurd (Except.ok.inj hnames) (List.cons_ne_nil _ _)
        · have haccepts : Accepts P st s request names := ⟨hregistered, hnames, hadmin, hempty⟩
          have hnone : ∀ n ∈ ([] : List String), st.ActiveAt P s n := by rintro _ ⟨⟩
          refine wp_lookUpGroups_exec hnone (fun hactive => ?_)
            fun e he => herr e (.unknown haccepts he)
          have hfilter : names.filter (· ∉ ([] : List String)) = names :=
            List.filter_eq_self.mpr fun n _ => by simp
          rw [hfilter]
          exact hok names haccepts hactive

/-- **The preparation of a mint ends in one of its exits**, and leaves the state alone. -/
theorem wp_prepareMint (request : MintRequest) (issuedAt : DateTime) :
    (prepareMint P request issuedAt).wp (st.exec P).graph.contract
      (fun r s' => s' = s ∧ MintPrepared P st s request issuedAt r) s := by
  refine (Prog.wp_bind _ _ _ _).mpr (Storage.wp_read (by exact ⟨id, trivial⟩) ?_)
  obtain ⟨registered, hanswer⟩ := st.isRegistered_answers (P := P) s request.ownerSub
  rw [hanswer, Prog.onReturn_ok]
  cases registered with
  | false => exact ⟨rfl, .unregistered fun h => nomatch hanswer.symm.trans h⟩
  | true =>
      rw [if_pos rfl, Prog.wp_bind]
      refine wp_validateGroups_exec hanswer (fun names haccepts hactive => ?_)
        fun e he => ⟨rfl, he⟩
      rw [Prog.onReturn_ok]
      split_ifs with hlifetime
      · exact ⟨rfl, .lifeless haccepts hactive hlifetime⟩
      have hpositive := not_le.mp hlifetime
      refine (Prog.wp_bind _ _ _ _).mpr ((Prog.wp_lift _ _ _).mpr ?_)
      cases hexpires : issuedAt.addSeconds request.lifetimeSeconds with
      | error e =>
          obtain ⟨m, rfl⟩ := addSeconds_error hexpires
          exact ⟨rfl, .overflow haccepts hactive hpositive hexpires⟩
      | ok expiresAt =>
          rw [Prog.onReturn_ok]
          refine (Prog.wp_bind _ _ _ _).mpr (Storage.wp_read (by exact ⟨id, trivial⟩) ?_)
          cases hsigned : (st.exec P (.signToken (request.signing issuedAt expiresAt)) s).1 with
          | error e =>
              show Prog.wp _ (Prog.onReturn _
                (st.exec P (.signToken (request.signing issuedAt expiresAt)) s).1) _ _
              rw [hsigned]
              exact ⟨rfl, .unsigned haccepts hactive hpositive hexpires hsigned⟩
          | ok raw =>
              show Prog.wp _ (Prog.onReturn _
                (st.exec P (.signToken (request.signing issuedAt expiresAt)) s).1) _ _
              rw [hsigned, Prog.onReturn_ok, Prog.wp_bind, Prog.wp_lift]
              cases hhash : jwtHash P raw with
              | error e =>
                  obtain ⟨m, rfl⟩ := jwtHash_error hhash
                  exact ⟨rfl, .unhashed haccepts hactive hpositive hexpires hsigned hhash⟩
              | ok hash => exact ⟨rfl, .ready haccepts hactive hpositive hexpires hsigned hhash⟩

/-! ### Storing the record -/

namespace Storage

/-- The append of an audit event returns, and leaves the tokens alone. -/
lemma auditAppend_exec (s : st.State) (event : AuditEvent) :
    (st.exec P (.auditAppend event) s).1 = .ok ()
      ∧ ∀ t, st.tokenAt P (st.exec P (.auditAppend event) s).2 t = st.tokenAt P s t := by
  cases st with
  | memory C signer => exact ⟨rfl, fun _ => rfl⟩
  | vault D server =>
      refine ⟨rfl, fun t => ?_⟩
      rw [tokenAt_vault, tokenAt_vault]
      rfl

/-- An upsert stores its record, and leaves the other tokens alone, when what is stored
under the id can be read. -/
lemma tokenUpsert_exec {s : st.State} {record : IssuedTokenRecord}
    {previous : Option IssuedTokenRecord}
    (hstored : st.tokenAt P s record.tokenId = .ok previous) :
    (st.exec P (.tokenUpsert record) s).1 = .ok record
      ∧ ∀ t, st.tokenAt P (st.exec P (.tokenUpsert record) s).2 t
        = if t = record.tokenId then .ok (some record) else st.tokenAt P s t := by
  cases st with
  | memory C signer =>
      refine ⟨rfl, fun t => ?_⟩
      show Except.ok ((s.tokens.set record.tokenId record).get t) = _
      rw [Dict.get_set]
      split_ifs
      · rfl
      · rfl
  | vault D server =>
      rw [tokenAt_vault] at hstored
      have hwp : (VaultTokenRepository.upsert P D record).wp (server.act False).contract
          (fun r w => r = .ok record ∧ ∀ t, w.read (D.paths.tokenPath t)
            = if t = record.tokenId then some (serializeToken P record)
              else s.read (D.paths.tokenPath t)) s := by
        refine wp_upsertToken hstored ⟨rfl, fun t => ?_⟩ fun hf => hf.elim
        exact read_upsert_tokenPath (fun c hc => hc) t s
      have hact : (Storage.vault D server).act P False (.tokenUpsert record) s _ _ := act_of_exec
      obtain ⟨hout, hread⟩ := (Prog.wp_contract_iff _ _ _).mp hwp _ _ hact
      refine ⟨hout, fun t => ?_⟩
      rw [tokenAt_vault, tokenAt_vault, hread]
      split_ifs
      · rw [decodeRecord, deserializeToken_serializeToken]
        rfl
      · rfl

/-- An upsert that returns has stored its record. -/
lemma tokenAt_of_upsert {s : st.State} {record v : IssuedTokenRecord}
    (hok : (st.exec P (.tokenUpsert record) s).1 = .ok v) : v = record
      ∧ st.tokenAt P (st.exec P (.tokenUpsert record) s).2 record.tokenId = .ok (some record) := by
  cases hstored : st.tokenAt P s record.tokenId with
  | ok previous =>
      obtain ⟨hout, htokens⟩ := tokenUpsert_exec hstored
      rw [htokens, if_pos rfl]
      exact ⟨Except.ok.inj (hok.symm.trans hout), rfl⟩
  | error e =>
      -- Vault raises as it reads the stored record
      cases st with
      | memory C signer => cases hstored
      | vault D server =>
          rw [tokenAt_vault] at hstored
          have hraises : ((VaultTokenRepository.upsert P D record).run server.exec s).1
              = .error e := by
            have hget : (VaultTokenRepository.get P D record.tokenId).run server.exec s
                = (.error e, s) := by
              rw [VaultTokenRepository.get, run_getRecord, hstored]
            rw [VaultTokenRepository.upsert_eq, Prog.run_bind, hget]
            rfl
          cases hok.symm.trans hraises

end Storage

/-- **A mint ends as its preparation does**: it raises what that raises, or stores the
record that it has prepared, and no other token changes. -/
theorem mintToken_run {request : MintRequest} {previous : Option IssuedTokenRecord}
    (hstored : st.tokenAt P s request.tokenId = .ok previous) (clock : Clock) :
    ∃ r, MintPrepared P st s request clock.now r
      ∧ ((mintToken P request clock).run (st.exec P) s).1
        = r.map (fun prepared => { record := prepared.1, rawToken := prepared.2 })
      ∧ ∀ prepared, r = .ok prepared → ∀ t,
        st.tokenAt P ((mintToken P request clock).run (st.exec P) s).2 t
          = if t = request.tokenId then .ok (some prepared.1) else st.tokenAt P s t := by
  rw [← Prog.wp_graph_iff (mintToken P request clock) fun out s' => ∃ r,
    MintPrepared P st s request clock.now r
      ∧ out = r.map (fun prepared => { record := prepared.1, rawToken := prepared.2 })
      ∧ ∀ prepared, r = .ok prepared → ∀ t,
        st.tokenAt P s' t = if t = request.tokenId then .ok (some prepared.1) else st.tokenAt P s t]
  refine (Prog.wp_bind _ _ _ _).mpr (wp_audited_of_append ?_)
  rw [mintTokenBody_eq]
  refine (Prog.wp_bind _ _ _ _).mpr (Prog.wp_mono ?_ (wp_prepareMint request clock.now))
  rintro r s' ⟨rfl, hprepared⟩
  cases r with
  | error e =>
      intro event
      rw [Prog.wp_graph_iff, Prog.run_perform]
      refine ⟨(Storage.auditAppend_exec _ event).1, .error e, hprepared, rfl, ?_⟩
      exact fun _ h => nomatch h
  | ok prepared =>
      have hid : prepared.1.tokenId = request.tokenId := by
        cases hprepared with
        | ready => rfl
      have hstored' : st.tokenAt P s' prepared.1.tokenId = .ok previous := by rw [hid, hstored]
      obtain ⟨hout, htokens⟩ := Storage.tokenUpsert_exec hstored'
      refine (Prog.wp_bind _ _ _ _).mpr ?_
      rw [Prog.wp_graph_iff, Prog.run_perform, hout]
      intro event
      rw [Prog.wp_graph_iff, Prog.run_perform]
      obtain ⟨happend, hsame⟩ := Storage.auditAppend_exec (P := P)
        (st.exec P (.tokenUpsert prepared.1) s').2 event
      refine ⟨happend, .ok prepared, hprepared, rfl, ?_⟩
      rintro _ ⟨⟩ t
      rw [hsame, htokens, hid]

end

end GofrSec
