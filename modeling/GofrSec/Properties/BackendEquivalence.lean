/-
The two backends are the same service.

* `RepoProg.Agrees`: a program that ends with the same outcome on answers that differ in the
  order of lists only; `SameOutcome`, `op_agrees`: so do the service operations, a listing
  of tokens up to the order of those that were issued at one time;
* `exactRegime`: runs without storage failures of callers with plain subjects, for a signer
  with its key in memory;
* `SameState`, `sameState_step`: the two backends hold the records of one registry, and
  still do after an operation;
* `backends_agree`: every sequence of operations has the same outcomes and leaves the same
  audit log on both backends.
-/
import GofrSec.Properties.TokenIndexRuns

namespace GofrSec

open Calls Text

variable {P : Platform} {α β : Type}

/-! ### Lists in another order -/

/-- Names sorted from two orders of one list are the same. -/
lemma insertionSort_names {names names' : List String} (h : names.Perm names') :
    names.insertionSort (· ≤ ·) = names'.insertionSort (· ≤ ·) := by
  have hperm : (names.insertionSort (· ≤ ·)).Perm (names'.insertionSort (· ≤ ·)) :=
    (List.perm_insertionSort _ names).trans (h.trans (List.perm_insertionSort _ names').symm)
  exact hperm.eq_of_pairwise' (List.pairwise_insertionSort _ names)
    (List.pairwise_insertionSort _ names')

/-- Times that are each no later than the other are the same. -/
lemma DateTime.le_antisymm {a b : DateTime} (hab : a ≤ b) (hba : b ≤ a) : a = b := by
  have hmicros : a.micros = b.micros := by
    rw [DateTime.le_def] at hab hba
    omega
  cases a
  cases b
  cases hmicros
  rfl

lemma perm_sortByIssuedAt {records records' : List IssuedTokenRecord}
    (h : records.Perm records') : (sortByIssuedAt records).Perm (sortByIssuedAt records') :=
  (List.perm_insertionSort _ records).trans (h.trans (List.perm_insertionSort _ records').symm)

/-- Tokens sorted from two orders of one list have the same times of issue. -/
lemma issuedAt_sortByIssuedAt {records records' : List IssuedTokenRecord}
    (h : records.Perm records') :
    (sortByIssuedAt records).map IssuedTokenRecord.issuedAt
      = (sortByIssuedAt records').map IssuedTokenRecord.issuedAt := by
  refine List.Perm.eq_of_pairwise (fun a b _ _ hab hba => DateTime.le_antisymm hba hab)
    ?_ ?_ ((perm_sortByIssuedAt h).map _)
  · exact List.pairwise_map.mpr (pairwise_sortByIssuedAt records)
  · exact List.pairwise_map.mpr (pairwise_sortByIssuedAt records')

/-- A user has one membership in a group, whatever the order of the memberships. -/
lemma find_membership_of_perm {u g : String} {l l' : List UserGroupMembership}
    (hperm : l.Perm l') (hnodup : (l.map UserGroupMembership.pair).Nodup)
    (huser : ∀ m ∈ l, m.keycloakSub = u) :
    l.find? (fun m => m.groupName = g) = l'.find? fun m => m.groupName = g := by
  have hone : ∀ m ∈ l, ∀ m' ∈ l, m.groupName = g → m'.groupName = g → m = m' := by
    intro m hm m' hm' hg hg'
    refine List.inj_on_of_nodup_map hnodup hm hm' (Prod.ext ?_ (hg.trans hg'.symm))
    exact (huser m hm).trans (huser m' hm').symm
  cases hfind : l.find? fun m => m.groupName = g with
  | none =>
      symm
      rw [List.find?_eq_none] at hfind ⊢
      exact fun m hm => hfind m (hperm.mem_iff.mpr hm)
  | some m =>
      have hm := List.mem_of_find?_eq_some hfind
      have hg : m.groupName = g := by simpa using List.find?_some hfind
      cases hfind' : l'.find? fun m => m.groupName = g with
      | none =>
          have hnone := List.find?_eq_none.mp hfind' m (hperm.mem_iff.mp hm)
          exact absurd (decide_eq_true hg) hnone
      | some m' =>
          have hm' := hperm.mem_iff.mpr (List.mem_of_find?_eq_some hfind')
          have hg' : m'.groupName = g := by simpa using List.find?_some hfind'
          rw [hone m hm m' hm' hg hg']

/-! ### Programs that do not depend on the order of lists -/

/-- Answers in another order lead to the same outcome. -/
abbrev RepoProg.Agrees (p : RepoProg α) : Prop := Prog.Similar RepoCall.SameAnswer Eq p p

/-- The answer to the call is not a list of records. -/
def RepoCall.Ordered : RepoCall → Prop
  | .membershipsForUser _ => False
  | .tokensForUser _ => False
  | _ => True

lemma agrees_done (o : Except PyError α) : RepoProg.Agrees (Prog.done o) := .stop rfl

lemma agrees_lift (o : Except PyError α) : RepoProg.Agrees (Prog.lift o) := agrees_done o

lemma agrees_pure (a : α) : RepoProg.Agrees (pure a) := agrees_done (.ok a)

lemma agrees_throw (e : PyError) : RepoProg.Agrees (throw e : RepoProg α) :=
  agrees_done (.error e)

lemma agrees_call {c : RepoCall} (hc : c.Ordered) : RepoProg.Agrees (RepoCall.perform c) := by
  refine .call fun r r' h => .stop ?_
  cases c with
  | membershipsForUser u => exact hc.elim
  | tokensForUser u => exact hc.elim
  | _ => exact h

lemma RepoProg.Agrees.bind {p : RepoProg α} {f : α → RepoProg β} (hp : RepoProg.Agrees p)
    (hf : ∀ a, RepoProg.Agrees (f a)) : RepoProg.Agrees (p >>= f) :=
  Prog.Similar.bind_eq hp hf fun _ => rfl

lemma RepoProg.Agrees.map {p : RepoProg α} (hp : RepoProg.Agrees p) (f : α → β) :
    RepoProg.Agrees (f <$> p) :=
  hp.bind fun a => agrees_pure (f a)

/-- Outcomes that are the same, but for values related by `W`. -/
def SameUpTo (W : α → α → Prop) : Except PyError α → Except PyError α → Prop
  | .ok a, .ok a' => W a a'
  | .error e, .error e' => e = e'
  | _, _ => False

lemma sameUpTo_eq {r r' : Except PyError α} : SameUpTo Eq r r' ↔ r = r' := by
  cases r <;> cases r' <;> simp [SameUpTo]

/-- The frame of a service method, around results that are audited alike. -/
lemma similar_audited {W : α → α → Prop} {body body' : RepoProg α}
    (hbody : Prog.Similar RepoCall.SameAnswer (SameUpTo W) body body') {failure : AuditEvent}
    {success : α → AuditEvent} (hsuccess : ∀ a a', W a a' → success a = success a') :
    Prog.Similar RepoCall.SameAnswer (SameUpTo W) (audited body failure success)
      (audited body' failure success) := by
  refine Prog.Similar.handle hbody fun r r' hW => ?_
  match r, r', hW with
  | .ok a, .ok a', hW =>
      dsimp only
      rw [hsuccess a a' hW]
      have happend : RepoProg.Agrees (auditAppend (success a')) := agrees_call (by trivial)
      exact happend.bind_eq (fun _ => Prog.similar_done (.ok a) (.ok a') hW) fun _ => rfl
  | .error e, .error _, rfl =>
      have happend : RepoProg.Agrees (auditAppend failure) := agrees_call (by trivial)
      exact happend.bind_eq (fun _ => Prog.similar_done (.error e) (.error e) rfl) fun _ => rfl

lemma agrees_audited {body : RepoProg α} (hbody : RepoProg.Agrees body) (failure : AuditEvent)
    (success : α → AuditEvent) : RepoProg.Agrees (audited body failure success) := by
  have hsame : Prog.Similar RepoCall.SameAnswer (SameUpTo Eq) body body :=
    hbody.mono fun _ _ => sameUpTo_eq.mpr
  exact (similar_audited hsame fun _ _ => congrArg success).mono fun _ _ => sameUpTo_eq.mp

/-! ### The service methods -/

lemma agrees_requireActiveGroup (g : String) : RepoProg.Agrees (requireActiveGroup g) := by
  refine (agrees_call (by trivial)).bind fun found => ?_
  cases found with
  | none => exact agrees_throw _
  | some group =>
      dsimp only
      split_ifs
      · exact agrees_pure _
      · exact agrees_throw _

lemma agrees_findMembership (u g : String) : RepoProg.Agrees (findMembership u g) := by
  refine Prog.Similar.handle (Prog.similar_perform (RepoCall.membershipsForUser u)) ?_
  rintro _ _ ⟨l, l', rfl, rfl, hperm, hnodup, huser⟩
  refine Prog.similar_done (.ok _) (.ok _) (congrArg Except.ok ?_)
  exact find_membership_of_perm hperm hnodup huser

lemma agrees_ensureReservedGroups (groups : List GroupDefinition) :
    RepoProg.Agrees (ensureReservedGroups groups) := by
  induction groups with
  | nil => exact agrees_pure ()
  | cons group groups ih =>
      refine (agrees_call (by trivial)).bind fun existing => ?_
      split_ifs
      · exact (agrees_call (by trivial)).bind fun _ => ih
      · exact ih

lemma agrees_ensureAdminMembers (grantedAt : String → DateTime) (subs : List String) :
    RepoProg.Agrees (ensureAdminMembers grantedAt subs) := by
  induction subs with
  | nil => exact agrees_pure ()
  | cons u subs ih =>
      refine (agrees_call (by trivial)).bind fun member => ?_
      split_ifs
      · exact (agrees_call (by trivial)).bind fun _ => ih
      · exact ih

lemma agrees_lookUpGroups (seen names : List String) :
    RepoProg.Agrees (lookUpGroups seen names) := by
  induction names generalizing seen with
  | nil => exact agrees_pure []
  | cons name names ih =>
      rw [lookUpGroups]
      split_ifs
      · exact ih seen
      · refine (agrees_call (by trivial)).bind fun found => ?_
        cases found with
        | none => exact agrees_throw _
        | some group =>
            dsimp only
            split_ifs
            · exact (ih _).map _
            · exact agrees_throw _

lemma agrees_validateGroups (P : Platform) (groups : List String) :
    RepoProg.Agrees (validateGroups P groups) := by
  refine (agrees_lift _).bind fun names => ?_
  split_ifs
  · exact agrees_throw _
  · exact agrees_lookUpGroups [] names

lemma agrees_mintTokenBody (P : Platform) (request : MintRequest) (issuedAt : DateTime) :
    RepoProg.Agrees (mintTokenBody P request issuedAt) := by
  refine (agrees_call (by trivial)).bind fun registered => ?_
  split_ifs
  · exact (agrees_validateGroups P _).bind fun _ => agrees_throw _
  · refine (agrees_validateGroups P _).bind fun groups => (agrees_lift _).bind fun expiresAt => ?_
    refine (agrees_call (by trivial)).bind fun rawToken => (agrees_lift _).bind fun hash => ?_
    exact (agrees_call (by trivial)).map _
  · exact agrees_throw _

lemma agrees_getTokenOrRaise (t : String) : RepoProg.Agrees (getTokenOrRaise t) := by
  refine (agrees_call (by trivial)).bind fun found => ?_
  cases found with
  | none => exact agrees_throw _
  | some record => exact agrees_pure record

lemma agrees_removeMembershipBody (P : Platform) (u g : String) :
    RepoProg.Agrees (removeMembershipBody P u g) := by
  refine (agrees_lift _).bind fun n => (agrees_requireActiveGroup n).bind fun _ => ?_
  refine (agrees_findMembership u n).bind fun found => ?_
  cases found with
  | none =>
      refine (agrees_call (by trivial)).bind fun registered => ?_
      split_ifs
      · exact agrees_throw _
      · exact agrees_throw _
  | some membership =>
      have hremove : RepoProg.Agrees (do
          let removed ← membershipRemove u n
          if removed then pure n else throw (membershipNotFound u n)) := by
        refine (agrees_call (by trivial)).bind fun removed => ?_
        split_ifs
        · exact agrees_pure n
        · exact agrees_throw _
      dsimp only
      split_ifs
      · refine (agrees_call (by trivial)).bind fun count => ?_
        exact (agrees_lift _).bind fun _ => hremove
      · exact hremove

/-- A profile view lists the names of the groups sorted. -/
lemma agrees_getSelfProfile (identity : VerifiedIdentity) :
    RepoProg.Agrees (getSelfProfile identity) := by
  refine (agrees_call (by trivial)).bind fun profile => ?_
  refine Prog.Similar.handle
    (Prog.similar_perform (RepoCall.membershipsForUser identity.subject)) ?_
  rintro _ _ ⟨l, l', rfl, rfl, hperm, -, -⟩
  have hgroups := insertionSort_names (hperm.map UserGroupMembership.groupName)
  cases profile with
  | none =>
      refine Prog.similar_done (.ok _) (.ok _) ?_
      rw [hgroups]
  | some profile =>
      refine Prog.similar_done (.ok _) (.ok _) ?_
      rw [hgroups]

/-- Two listings of tokens are the same, but for the order of tokens with one time of
issue. -/
def SameListing (records records' : List IssuedTokenRecord) : Prop :=
  records.Perm records'
    ∧ records.map IssuedTokenRecord.issuedAt = records'.map IssuedTokenRecord.issuedAt

lemma similar_listSelfTokens (identity : VerifiedIdentity) (correlationId : Option String)
    (clock : Clock) :
    Prog.Similar RepoCall.SameAnswer (SameUpTo SameListing)
      (listSelfTokens identity correlationId clock)
      (listSelfTokens identity correlationId clock) := by
  refine similar_audited (Prog.Similar.handle
    (Prog.similar_perform (RepoCall.tokensForUser identity.subject)) ?_) fun _ _ _ => rfl
  rintro _ _ ⟨l, l', rfl, rfl, hperm⟩
  exact Prog.similar_done (.ok _) (.ok _)
    ⟨perm_sortByIssuedAt hperm, issuedAt_sortByIssuedAt hperm⟩

/-- Two results of an operation are the same, listings of tokens as `SameListing` has it. -/
def SameValue : Value → Value → Prop
  | .tokens records, .tokens records' => SameListing records records'
  | v, v' => v = v'

lemma SameValue.refl (v : Value) : SameValue v v := by
  cases v with
  | tokens records => exact ⟨.refl _, rfl⟩
  | _ => rfl

/-- A method whose outcome does not depend on the order of lists. -/
lemma RepoProg.Agrees.sameValue {p : RepoProg α} (h : RepoProg.Agrees p) (f : α → Value) :
    Prog.Similar RepoCall.SameAnswer (SameUpTo SameValue) (f <$> p) (f <$> p) := by
  refine (h.map f).mono ?_
  rintro (e | v) _ rfl
  · exact rfl
  · exact SameValue.refl v

/-- **Every operation has one outcome**, whatever the order in which a backend lists
records. -/
theorem op_agrees (P : Platform) (o : Op) :
    Prog.Similar RepoCall.SameAnswer (SameUpTo SameValue) (o.prog P) (o.prog P) := by
  cases o with
  | applyPlan subjects createdAt grantedAt =>
      refine RepoProg.Agrees.sameValue ?_ _
      refine (agrees_ensureReservedGroups _).bind fun _ => ?_
      exact (agrees_ensureAdminMembers grantedAt _).bind fun _ => agrees_pure _
  | registerSelf identity correlationId clock =>
      refine RepoProg.Agrees.sameValue ((agrees_call (by trivial)).bind fun existing => ?_) _
      exact (agrees_audited (agrees_call (by trivial)) _ _).map _
  | getSelfProfile identity => exact (agrees_getSelfProfile identity).sameValue _
  | createGroup name description actorSub correlationId clock =>
      refine RepoProg.Agrees.sameValue (agrees_audited ?_ _ _) _
      refine (agrees_lift _).bind fun n => (agrees_lift _).bind fun reserved => ?_
      split_ifs
      · exact agrees_throw _
      · refine (agrees_call (by trivial)).bind fun existing => ?_
        split_ifs
        · exact agrees_throw _
        · exact agrees_call (by trivial)
  | addMembership u g actorSub correlationId clock =>
      refine RepoProg.Agrees.sameValue (agrees_audited ?_ _ _) _
      refine (agrees_lift _).bind fun n => (agrees_requireActiveGroup n).bind fun _ => ?_
      refine (agrees_call (by trivial)).bind fun registered => ?_
      split_ifs
      · refine (agrees_findMembership u n).bind fun found => ?_
        cases found with
        | none => exact agrees_call (by trivial)
        | some membership => exact agrees_pure membership
      · exact agrees_throw _
  | removeMembership u g actorSub correlationId clock =>
      refine RepoProg.Agrees.sameValue ?_ _
      exact (agrees_audited (agrees_removeMembershipBody P u g) _ _).bind fun _ => agrees_pure ()
  | mintToken request clock =>
      refine RepoProg.Agrees.sameValue ?_ _
      exact (agrees_audited (agrees_mintTokenBody P request clock.now) _ _).map _
  | getToken t actorSub correlationId clock =>
      exact (agrees_audited (agrees_getTokenOrRaise t) _ _).sameValue _
  | revokeToken t actorSub correlationId clock =>
      refine RepoProg.Agrees.sameValue (agrees_audited ?_ _ _) _
      refine (agrees_getTokenOrRaise t).bind fun current => ?_
      split_ifs
      · exact agrees_pure current
      · exact agrees_call (by trivial)
  | listSelfTokens identity correlationId clock =>
      refine Prog.Similar.handle (similar_listSelfTokens identity correlationId clock) ?_
      intro r r' hsame
      match r, r', hsame with
      | .ok l, .ok l', hsame => exact Prog.similar_done (.ok _) (.ok _) hsame
      | .error e, .error _, rfl => exact Prog.similar_done (.error e) (.error e) rfl
  | authorize request correlationId clock =>
      refine RepoProg.Agrees.sameValue (RepoProg.Agrees.map (agrees_audited ?_ _ _) _) _
      refine (agrees_call (by trivial)).bind fun found => ?_
      cases found with
      | none => exact agrees_pure false
      | some record => exact agrees_pure _

/-! ### Runs on both backends -/

/-- Runs without storage failures, of callers with plain subjects, for a signer with its key
in memory. -/
def exactRegime (C : Crypto) (signer : StaticTokenSigner) : Regime where
  faults := False
  indexed := True
  plain := True
  signs request r := r = signer.signToken C request
  keys r := r = signer.publicKeyDocument C
  reliable _ h := h

variable {D : VaultDeployment} {server : VaultServer} {signer : StaticTokenSigner}
  {s : MemoryStores} {w : VaultWorld}

/-- Every call has one effect in the exact regime, and one answer up to the order of lists. -/
lemma functional_exactRegime (C : Crypto) (signer : StaticTokenSigner) :
    Prog.Contract.Functional (exactRegime C signer).contract RepoCall.SameAnswer :=
  Regime.contract_functional (R := exactRegime C signer) id trivial trivial
    (fun _ _ _ h h' => h.trans h'.symm) fun _ _ h h' => h.trans h'.symm

/-- The two backends hold the records of one registry. -/
def SameState (P : Platform) (D : VaultDeployment) (server : VaultServer)
    (signer : StaticTokenSigner) (s : MemoryStores) (w : VaultWorld) : Prop :=
  ∃ reg : Registry, reg.Sound (exactRegime D.crypto signer)
    ∧ (Storage.memory D.crypto signer).Represents P (exactRegime D.crypto signer) s reg
    ∧ (Storage.vault D server).Represents P (exactRegime D.crypto signer) w reg

/-- **One operation**, made on backends that hold the same, has one outcome, and they hold
the same afterwards. -/
lemma sameState_step (hsigner : D.signer = .static signer) (h : SameState P D server signer s w)
    {o : Op} (ho : o.Valid True) :
    SameUpTo SameValue ((o.prog P).run ((Storage.memory D.crypto signer).exec P) s).1
        ((o.prog P).run ((Storage.vault D server).exec P) w).1
      ∧ SameState P D server signer ((o.prog P).run ((Storage.memory D.crypto signer).exec P) s).2
        ((o.prog P).run ((Storage.vault D server).exec P) w).2 := by
  obtain ⟨reg, hsound, hs, hw⟩ := h
  have hmemory : (Storage.memory D.crypto signer).SignsIn (exactRegime D.crypto signer) :=
    ⟨fun _ => rfl, rfl⟩
  have hvault : (Storage.vault D server).SignsIn (exactRegime D.crypto signer) := by
    rw [Storage.SignsIn, VaultDeployment.SignsIn, hsigner]
    exact ⟨fun _ => rfl, rfl⟩
  have heffect := op_effect (P := P) hsound o ho
  obtain ⟨hsame, reg', hs', hw', heff, -⟩ := Prog.Runs.agree (Storage.implements hmemory)
    (Storage.implements hvault) (functional_exactRegime D.crypto signer) (op_agrees P o) hs hw
    heffect heffect (@Storage.runs_of_run P (.memory D.crypto signer) False _ _ s)
    (@Storage.runs_of_run P (.vault D server) False _ _ w)
  exact ⟨hsame, reg', heff.change.sound hsound ho, hs', hw'⟩

/-- Backends that hold the same have the same audit log. -/
lemma SameState.events (h : SameState P D server signer s w) : s.events = w.events := by
  obtain ⟨reg, -, hs, hw⟩ := h
  calc s.events
    _ = reg.events := MemoryStores.Represents.events hs
    _ = w.events := (Represents.events hw).symm

/-- **The two backends are the same service.** Every sequence of operations, made from empty
stores over the in-memory bundle and over Vault, has the same outcomes on both, up to the
order of tokens with one time of issue, and leaves the same audit log. -/
theorem backends_agree (P : Platform) {D : VaultDeployment} (server : VaultServer)
    {signer : StaticTokenSigner} {w : VaultWorld} {os : List Op}
    (hsigner : D.signer = .static signer) (hw : (Storage.vault D server).Fresh w)
    (hos : ValidOps True os) :
    let memory := play ((Storage.memory D.crypto signer).exec P) (Op.prog P) .empty os
    let vault := play ((Storage.vault D server).exec P) (Op.prog P) w os
    List.Forall₂ (SameUpTo SameValue) (memory.1.map Moment.outcome) (vault.1.map Moment.outcome)
      ∧ memory.2.events = vault.2.events := by
  have hrun : List.Forall₂ (SameUpTo SameValue)
        ((play ((Storage.memory D.crypto signer).exec P) (Op.prog P) .empty os).1.map
          Moment.outcome)
        ((play ((Storage.vault D server).exec P) (Op.prog P) w os).1.map Moment.outcome)
      ∧ SameState P D server signer
        (play ((Storage.memory D.crypto signer).exec P) (Op.prog P) .empty os).2
        (play ((Storage.vault D server).exec P) (Op.prog P) w os).2 := by
    induction os with
    | nil =>
        exact ⟨.nil, .empty, Registry.sound_empty,
          MemoryStores.represents_empty,
          Storage.represents_fresh hw⟩
    | cons o os ih =>
        obtain ⟨hsame, hstate⟩ := ih hos.tail
        obtain ⟨hoSame, hoState⟩ := sameState_step hsigner hstate hos.head
        exact ⟨.cons hoSame hsame, hoState⟩
  exact ⟨hrun.1, hrun.2.events⟩

/-- The first day of a service, on both backends. -/
theorem backends_agree_teamDay :
    let memory := play ((Storage.memory .python .python).exec .python) (Op.prog .python) .empty
      teamDay
    let vault := play ((Storage.vault .python .inOrder).exec .python) (Op.prog .python)
      VaultWorld.empty teamDay
    List.Forall₂ (SameUpTo SameValue) (memory.1.map Moment.outcome) (vault.1.map Moment.outcome)
      ∧ memory.2.events = vault.2.events := by
  refine backends_agree (D := .python) .python .inOrder rfl fresh_vaultEmpty fun o ho => ?_
  rcases List.mem_append.mp ho with ho | ho
  · exact validOps_teamWork o ho
  · obtain rfl := List.mem_singleton.mp ho
    exact fun _ => by decide

end GofrSec
