/-
How processes over one Vault change memberships.

* `Op.Touches`: the pairs of user and group that an operation is about;
* `SharedVault.Unraced`: a change of a memberships document finds the document as
  its process has last read it;
* `membershipProtocol`: the protocol in which every step leaves the pairs of other
  operations alone, and every operation that returns ends with its own pairs as it
  has made them;
* `secure_membershipCall`: every repository call that such operations make keeps
  to the protocol.
-/
import GofrSec.Services.SharedMemberships

namespace GofrSec

open Calls Protocol VaultPathLayout

/-- The operation is about the membership of `u` in `g`. -/
def Op.Touches (P : Platform) (u g : String) : Op → Prop
  | .addMembership u' g' _ _ _ => u' = u ∧ normalizeGroupName P g' = .ok g
  | .removeMembership u' g' _ _ _ => u' = u ∧ normalizeGroupName P g' = .ok g
  | .applyPlan subjects _ _ => u ∈ normalizeSubjects subjects ∧ g = "admin"
  | _ => False

/-- The operations on memberships. -/
def Op.IsMembership : Op → Prop
  | .addMembership _ _ _ _ _ => True
  | .removeMembership _ _ _ _ _ => True
  | .applyPlan _ _ _ => True
  | _ => False

/-- Whether the operation makes members, rather than removing one. -/
def Op.adds : Op → Bool
  | .removeMembership _ _ _ _ _ => false
  | _ => true

variable {π : Type} [DecidableEq π]

/-- A change of a memberships document finds the document as its process has last
read it. -/
def SharedVault.Unraced (V : SharedVault) (L : VaultLedger π) : VaultEvent π → Prop
  | .call p _ i r _ => ∀ u v, i.target = some (V.paths.userGroupsPath u) → r = .ok v →
      (readsOf p (V.paths.userGroupsPath u) L).head?
        = some (.ok ((V.after L).read (V.paths.userGroupsPath u)))
  | .finish _ _ _ => True

/-- Processes that each change their own pairs of user and group. -/
def membershipProtocol (V : SharedVault) (touched : π → String → String → Prop) :
    VaultProtocol π :=
  V.protocol
    (fun p o => o.IsMembership ∧ ∀ u g, o.Touches V.platform u g → touched p u g)
    V.Unraced
    fun L e => match e with
      | .call _ o _ _ w' => ∀ u g b, ¬ o.Touches V.platform u g →
          V.hasMembership (V.after L) u g = .ok b → V.hasMembership w' u g = .ok b
      | .finish _ o r => ∀ u g, o.Touches V.platform u g → r.isOk →
          V.hasMembership (V.after L) u g = .ok o.adds

/-- The last operation about a pair, if it returned, has left it as it made it. -/
def Settled (V : SharedVault) (u g : String) (L : VaultLedger π) : Prop :=
  ∀ L₂ q o v L₁, L = L₂ ++ .finish q o (.ok v) :: L₁ → o.Touches V.platform u g →
    (∀ q' o' r, .finish q' o' r ∈ L₂ → ¬ o'.Touches V.platform u g) →
    V.hasMembership (V.after L) u g = .ok o.adds

variable {V : SharedVault} {touched : π → String → String → Prop} {p : π} {o : Op}
  {L L' : VaultLedger π} {u g : String}

omit [DecidableEq π] in
/-- A step that does not end an operation about the pair, and leaves the pair as it
is. -/
lemma Settled.cons {e : VaultEvent π} (h : Settled V u g L)
    (hfinish : ∀ q o r, e = .finish q o r → ¬ o.Touches V.platform u g)
    (hsame : ∀ b, V.hasMembership (V.after L) u g = .ok b →
      V.hasMembership (V.after (e :: L)) u g = .ok b) : Settled V u g (e :: L) := by
  intro L₂ q o v L₁ hL ho hlast
  rcases List.cons_eq_append_iff.mp hL with ⟨rfl, hcons⟩ | ⟨L₂', rfl, hrest⟩
  · exact absurd ho (hfinish q o (.ok v) (List.cons.inj hcons).1.symm)
  · refine hsame _ (h L₂' q o v L₁ hrest ho fun q' o' r hmem => ?_)
    exact hlast q' o' r (List.mem_cons_of_mem _ hmem)

/-- The answers about a pair of `p` are not for others to change. -/
lemma stable_hasMembership
    (hdisjoint : ∀ p q u g, touched p u g → touched q u g → p = q) (hu : touched p u g) (b : Bool) :
    (membershipProtocol V touched).Stable p fun L => V.hasMembership (V.after L) u g = .ok b := by
  intro L e h ⟨hne, he⟩
  cases e with
  | finish q o r => exact h
  | call q o i r w =>
      refine he.guar u g b (fun ho => ?_) h
      exact hne (hdisjoint _ _ u g (he.runs.2 u g ho) hu)

lemma stable_settled (hdisjoint : ∀ p q u g, touched p u g → touched q u g → p = q)
    (hu : touched p u g) : (membershipProtocol V touched).Stable p (Settled V u g) := by
  intro L e h he
  refine h.cons ?_ fun b hb => stable_hasMembership hdisjoint hu b L e hb he
  rintro q o r rfl ho
  exact he.1 (hdisjoint _ _ u g (he.2.runs.2 u g ho) hu)

/-! ### The repository calls -/

/-- The pairs of the process that the operation it is at is not about are settled. -/
def OthersSettled (V : SharedVault) (touched : π → String → String → Prop) (p : π) (o : Op)
    (L : VaultLedger π) : Prop :=
  ∀ u g, touched p u g → ¬ o.Touches V.platform u g → Settled V u g L

/-- The membership that a repository call changes. -/
def RepoCall.Changes (u g : String) : RepoCall → Prop
  | .membershipAdd m => m.keycloakSub = u ∧ m.groupName = g
  | .membershipRemove u' g' => u' = u ∧ g' = g
  | _ => False

/-- What has happened to the memberships of the process: none but that of the
call. -/
structure Kept (V : SharedVault) (touched : π → String → String → Prop) (p : π) (o : Op)
    (changes : String → String → Prop) (L L' : VaultLedger π) : Prop where
  settled : OthersSettled V touched p o L'
  same : ∀ u g b, touched p u g → ¬ changes u g → V.hasMembership (V.after L) u g = .ok b →
    V.hasMembership (V.after L') u g = .ok b

/-- What a repository call tells about the memberships. -/
def ToldMembership (V : SharedVault) (touched : π → String → String → Prop) (p : π) :
    (c : RepoCall) → Except PyError c.Res → VaultLedger π → Prop
  | .membershipsForUser u, r, L' => ∀ ms, r = .ok ms → ∀ g, touched p u g →
      V.hasMembership (V.after L') u g = .ok (inGroup g ms)
  | .hasMembership u g, r, L' => ∀ b, r = .ok b → touched p u g →
      V.hasMembership (V.after L') u g = .ok b
  | .membershipAdd m, r, L' => r.isOk → touched p m.keycloakSub m.groupName →
      V.hasMembership (V.after L') m.keycloakSub m.groupName = .ok true
  | .membershipRemove u g, r, L' => r.isOk → touched p u g →
      V.hasMembership (V.after L') u g = .ok false
  | .auditAppend _, r, _ => r = .ok ()
  | _, _, _ => True

/-- The repository calls of an operation amid the steps of other processes. -/
def membershipContract (V : SharedVault) (touched : π → String → String → Prop) (p : π) (o : Op) :
    Contract RepoCall RepoCall.Res PyError (VaultLedger π) where
  pre c L := OthersSettled V touched p o L ∧ o.Calls V.platform c
  post c L r L' := Kept V touched p o (fun u g => c.Changes u g) L L'
    ∧ ToldMembership V touched p c r L'

section Calls

variable (hdisjoint : ∀ p q u g, touched p u g → touched q u g → p = q)

include hdisjoint

lemma stable_othersSettled :
    (membershipProtocol V touched).Stable p (OthersSettled V touched p o) := by
  intro L e h he u g hu ho
  exact stable_settled hdisjoint hu L e (h u g hu ho) he

lemma stable_kept (changes : String → String → Prop) :
    (membershipProtocol V touched).Stable p (Kept V touched p o changes L) := by
  intro L' e h he
  refine ⟨stable_othersSettled hdisjoint L' e h.settled he, fun u g b hu hc hb => ?_⟩
  exact stable_hasMembership hdisjoint hu b L' e (h.same u g b hu hc hb) he

lemma stable_toldMembership (c : RepoCall) (r : Except PyError c.Res) :
    (membershipProtocol V touched).Stable p (ToldMembership V touched p c r) := by
  intro L e h he
  cases c with
  | membershipsForUser u =>
      exact fun ms hr g hu => stable_hasMembership hdisjoint hu _ L e (h ms hr g hu) he
  | hasMembership u g =>
      exact fun b hr hu => stable_hasMembership hdisjoint hu _ L e (h b hr hu) he
  | membershipAdd m =>
      exact fun hr hu => stable_hasMembership hdisjoint hu _ L e (h hr hu) he
  | membershipRemove u g =>
      exact fun hr hu => stable_hasMembership hdisjoint hu _ L e (h hr hu) he
  | auditAppend event => exact h
  | _ => trivial

omit hdisjoint in
/-- A call of the process itself that keeps to the protocol. -/
lemma Kept.call {changes : String → String → Prop} (h : Kept V touched p o changes L L')
    {i : VaultCall} {r : Except PyError i.Res} {w' : VaultWorld}
    (hguar : (membershipProtocol V touched).Guar L' (.call p o i r w'))
    (hsame : ∀ u g b, ¬ changes u g → V.hasMembership (V.after L') u g = .ok b →
      V.hasMembership w' u g = .ok b) : Kept V touched p o changes L (.call p o i r w' :: L') := by
  refine ⟨fun u g hu ho => ?_, fun u g b hu hc hb => hsame u g b hc (h.same u g b hu hc hb)⟩
  exact (h.settled u g hu ho).cons (fun _ _ _ h => nomatch h) fun b hb => hguar u g b ho hb

omit hdisjoint [DecidableEq π] in
lemma Kept.refl {changes : String → String → Prop} (h : OthersSettled V touched p o L) :
    Kept V touched p o changes L L := ⟨h, fun _ _ _ _ _ hb => hb⟩

omit hdisjoint [DecidableEq π] in
lemma Kept.mono {changes changes' : String → String → Prop} (h : Kept V touched p o changes L L')
    (hle : ∀ u g, changes u g → changes' u g) : Kept V touched p o changes' L L' :=
  ⟨h.settled, fun u g b hu hc hb => h.same u g b hu (fun hc' => hc (hle u g hc')) hb⟩

omit hdisjoint in
/-- A call that leaves the documents alone. -/
lemma Kept.quiet {changes : String → String → Prop} (h : Kept V touched p o changes L L')
    {i : VaultCall} {r : Except PyError i.Res} {w : VaultWorld}
    (hsame : ∀ u, w.read (V.paths.userGroupsPath u)
      = (V.after L').read (V.paths.userGroupsPath u)) :
    (membershipProtocol V touched).Guar L' (.call p o i r w)
      ∧ Kept V touched p o changes L (.call p o i r w :: L') := by
  have hguar : (membershipProtocol V touched).Guar L' (.call p o i r w) := by
    intro u g b _ hb
    rw [SharedVault.hasMembership_congr (hsame u)]
    exact hb
  refine ⟨hguar, h.call hguar fun u g b _ hb => ?_⟩
  rw [SharedVault.hasMembership_congr (hsame u)]
  exact hb

/-- A program that leaves the memberships documents alone. -/
lemma secure_keepsMemberships {α : Type} {c : VaultProg α} (hc : c.Uses (KeepsMemberships V))
    {changes : String → String → Prop} (h : Kept V touched p o changes L L') :
    (membershipProtocol V touched).Secure p o c
      (fun _ L'' => Kept V touched p o changes L L'') L' := by
  refine secure_of_uses (stable_kept hdisjoint changes) (fun i L₁ r w' hi hkept hact _ => ?_) hc h
  exact hkept.quiet fun u => read_of_act hact fun _ _ => hi u

/-- The list that `_load_memberships` has returned is that of the document which the
process has read last. -/
def Loaded (V : SharedVault) (p : π) (u : String) (loaded : List UserGroupMembership)
    (L : VaultLedger π) : Prop :=
  ∃ found, (readsOf p (V.paths.userGroupsPath u) L).head? = some (.ok found)
    ∧ membershipsOf V.platform V.deployment.now found = .ok loaded

omit hdisjoint in
lemma stable_loaded {Γ : VaultProtocol π} {u : String} {loaded : List UserGroupMembership} :
    Γ.Stable p (Loaded V p u loaded) := by
  rintro L e ⟨found, hread, hfound⟩ he
  refine ⟨found, ?_, hfound⟩
  rw [readsOf_of_ne he.1]
  exact hread

/-- The lookup of the memberships of a user. -/
lemma secure_load {u : String} (h : Kept V touched p o (fun _ _ => False) L L') :
    (membershipProtocol V touched).Secure p o
      (VaultGroupMembershipRepository.loadMemberships V.platform V.deployment u)
      (fun r L'' => Kept V touched p o (fun _ _ => False) L L'' ∧ ∀ ms, r = .ok ms →
        Loaded V p u ms L'' ∧ ∀ g, touched p u g →
          V.hasMembership (V.after L'') u g = .ok (inGroup g ms)) L' := by
  refine secure_loadMemberships (stable_kept hdisjoint _) (fun r => ?_) h
    fun L₁ r hkept hfound => ?_
  · refine stable_and (stable_kept hdisjoint _) (stable_forall fun ms => stable_imp _ ?_)
    exact stable_and stable_loaded (stable_forall fun g => fun L₂ e hg he hu =>
      stable_hasMembership hdisjoint hu _ L₂ e (hg hu) he)
  · obtain ⟨hguar, hkept'⟩ := hkept.quiet (i := .readSecret (V.paths.userGroupsPath u)) (r := r)
      (w := V.after L₁) fun _ => rfl
    refine ⟨hguar, hkept', fun ms hms => ?_⟩
    cases r with
    | error e => exact nomatch hms
    | ok found =>
        obtain rfl := hfound found rfl
        refine ⟨⟨_, ?_, hms⟩, fun g _ => SharedVault.hasMembership_of_memberships hms⟩
        rw [readsOf_readSecret, List.head?_cons]

/-- The write of a changed list, as `add` and `remove` make it. -/
lemma secure_rewrite {u g : String} {loaded ms : List UserGroupMembership}
    (htouches : o.Touches V.platform u g)
    (hms : ∀ g', g' ≠ g → inGroup g' ms = inGroup g' loaded)
    (h : Kept V touched p o (fun _ _ => False) L L') (hloaded : Loaded V p u loaded L') :
    (membershipProtocol V touched).Secure p o
      (VaultGroupMembershipRepository.storeMemberships V.platform V.deployment u ms)
      (fun r L'' => Kept V touched p o (fun u' g' => u = u' ∧ g = g') L L'' ∧ (r.isOk →
        touched p u g → V.hasMembership (V.after L'') u g = .ok (inGroup g ms))) L' := by
  refine secure_storeMemberships (stable_and (stable_kept hdisjoint _) stable_loaded) (fun r => ?_)
    ⟨h, hloaded⟩ fun L₁ i r w' hL₁ htarget herror hok hunraced => ?_
  · refine stable_and (stable_kept hdisjoint _) (stable_imp _ fun L₂ e hg he hu => ?_)
    exact stable_hasMembership hdisjoint hu _ L₂ e (hg hu) he
  obtain ⟨hkept, found, hread, hfound⟩ := hL₁
  have hkept' : Kept V touched p o (fun u' g' => u = u' ∧ g = g') L L₁ :=
    hkept.mono fun _ _ h => h.elim
  cases r with
  | error e =>
      obtain rfl := herror e rfl
      obtain ⟨hguar, hkept''⟩ := hkept'.quiet (i := i) (r := .error e) (w := V.after L₁)
        fun _ => rfl
      exact ⟨hguar, hkept'', fun h => nomatch h⟩
  | ok v =>
      -- the document is still the one that the process has read
      have hcurrent : found = (V.after L₁).read (V.paths.userGroupsPath u) :=
        Except.ok.inj (Option.some.inj (hread.symm.trans (hunraced u v htarget rfl)))
      have hmemberships : V.memberships (V.after L₁) u = .ok loaded := by
        rw [SharedVault.memberships, ← hcurrent]
        exact hfound
      obtain rfl := hok v rfl
      have hsame : ∀ u' g', ¬ (u = u' ∧ g = g') →
          V.hasMembership ((V.after L₁).putMemberships V.platform V.paths u ms) u' g'
            = V.hasMembership (V.after L₁) u' g' := by
        intro u' g' hne
        refine hasMembership_put hmemberships hms fun heq => hne ?_
        obtain ⟨rfl, rfl⟩ := Prod.mk.inj heq
        exact ⟨rfl, rfl⟩
      have hguar : (membershipProtocol V touched).Guar L₁ (.call p o i (.ok v)
          ((V.after L₁).putMemberships V.platform V.paths u ms)) := by
        intro u' g' b hother hb
        rw [hsame u' g']
        · exact hb
        · rintro ⟨rfl, rfl⟩
          exact hother htouches
      refine ⟨hguar, hkept'.call hguar fun u' g' b hne hb => ?_, fun _ _ => hasMembership_put_self⟩
      rw [hsame u' g' hne]
      exact hb

/-- `membership_repository.add`. -/
lemma secure_membershipAdd {m : UserGroupMembership}
    (htouches : o.Touches V.platform m.keycloakSub m.groupName)
    (h : OthersSettled V touched p o L) :
    (membershipProtocol V touched).Secure p o
      (vaultProgram V.platform V.deployment (.membershipAdd m))
      (fun r L' => (membershipContract V touched p o).post (.membershipAdd m) L r L') L := by
  refine (secure_bind _).mpr ((secure_load hdisjoint (Kept.refl h)).mono fun r L₁ hpost => ?_)
  obtain ⟨hkept, hloaded⟩ := hpost
  cases r with
  | error e =>
      refine secure_done_of (x := .error e) ?_ ?_
      · exact stable_and (stable_kept hdisjoint _) (stable_toldMembership hdisjoint _ _)
      · exact ⟨hkept.mono fun _ _ h => h.elim, fun h => nomatch h⟩
  | ok loaded =>
      have hms : ∀ g', g' ≠ m.groupName →
          inGroup g' ((loaded.filter fun m' => m'.groupName ≠ m.groupName) ++ [m])
            = inGroup g' loaded := by
        intro g' hne
        have hlast : inGroup g' [m] = false := by
          simp [inGroup, Ne.symm hne]
        rw [inGroup_append, inGroup_filter hne, hlast, Bool.or_false]
      have hself : inGroup m.groupName
          ((loaded.filter fun m' => m'.groupName ≠ m.groupName) ++ [m]) = true :=
        inGroup_iff.mpr ⟨m, List.mem_append_right _ List.mem_cons_self, rfl⟩
      refine (secure_bind _).mpr ((secure_rewrite hdisjoint htouches hms hkept
        (hloaded loaded rfl).1).mono fun r L₂ hpost => ?_)
      obtain ⟨hkept₂, hdone⟩ := hpost
      rw [hself] at hdone
      cases r with
      | error e =>
          refine secure_done_of (x := .error e) ?_ ⟨hkept₂, fun h => nomatch h⟩
          exact stable_and (stable_kept hdisjoint _) (stable_toldMembership hdisjoint _ _)
      | ok _ =>
          refine secure_done_of (x := .ok m) ?_ ⟨hkept₂, fun _ hu => hdone rfl hu⟩
          exact stable_and (stable_kept hdisjoint _) (stable_toldMembership hdisjoint _ _)

/-- `membership_repository.remove`. -/
lemma secure_membershipRemove {u g : String} (htouches : o.Touches V.platform u g)
    (h : OthersSettled V touched p o L) :
    (membershipProtocol V touched).Secure p o
      (vaultProgram V.platform V.deployment (.membershipRemove u g))
      (fun r L' => (membershipContract V touched p o).post (.membershipRemove u g) L r L') L := by
  have hstable : ∀ r, (membershipProtocol V touched).Stable p fun L' =>
      (membershipContract V touched p o).post (.membershipRemove u g) L r L' := fun r =>
    stable_and (stable_kept hdisjoint _) (stable_toldMembership hdisjoint _ _)
  refine (secure_bind _).mpr ((secure_load hdisjoint (Kept.refl h)).mono fun r L₁ hpost => ?_)
  obtain ⟨hkept, hloaded⟩ := hpost
  have hkept' := hkept.mono (V := V) (p := p) (o := o) fun u' g' h =>
    (h.elim : u = u' ∧ g = g')
  cases r with
  | error e => exact secure_done_of (x := .error e) (hstable _) ⟨hkept', fun h => nomatch h⟩
  | ok loaded =>
      have hself : inGroup g (loaded.filter fun m => m.groupName ≠ g) = false := by
        simp [inGroup]
      obtain ⟨hread, htold⟩ := hloaded loaded rfl
      rw [Prog.onReturn_ok]
      dsimp only
      split_ifs with hlength
      · -- no such membership: the read has shown that
        have hall : loaded.filter (fun m => m.groupName ≠ g) = loaded :=
          List.filter_sublist.eq_of_length hlength
        rw [hall] at hself
        refine secure_done_of (x := .ok false) (hstable _) ⟨hkept', fun _ hu => ?_⟩
        rw [htold g hu, hself]
      · refine (secure_bind _).mpr ((secure_rewrite hdisjoint htouches
          (fun g' hne => inGroup_filter hne loaded) hkept hread).mono fun r L₂ hpost => ?_)
        obtain ⟨hkept₂, hdone⟩ := hpost
        rw [hself] at hdone
        cases r with
        | error e => exact secure_done_of (x := .error e) (hstable _) ⟨hkept₂, fun h => nomatch h⟩
        | ok _ =>
            exact secure_done_of (x := .ok true) (hstable _) ⟨hkept₂, fun _ hu => hdone rfl hu⟩

omit hdisjoint [DecidableEq π] in
/-- What an operation on memberships adds or removes is what it is about. -/
lemma touches_of_mayStore {P : Platform} {c : RepoCall} (h : o.MayStore P c) {u g : String}
    (hc : c.Changes u g) : o.Touches P u g := by
  cases c with
  | membershipAdd m =>
      obtain ⟨rfl, rfl⟩ := hc
      cases o with
      | applyPlan subjects createdAt grantedAt => exact ⟨h.2, h.1⟩
      | addMembership u g actorSub correlationId clock => exact ⟨h.1.symm, h.2⟩
      | _ => exact h.elim
  | membershipRemove u' g' =>
      obtain ⟨rfl, rfl⟩ := hc
      cases o with
      | removeMembership u g actorSub correlationId clock => exact ⟨h.1.symm, h.2⟩
      | _ => exact h.elim
  | _ => exact hc.elim

/-- **Every repository call of an operation on memberships keeps to the protocol.** -/
theorem secure_membershipCall (ho : o.IsMembership) (c : RepoCall) (L : VaultLedger π)
    (hpre : (membershipContract V touched p o).pre c L) :
    (membershipProtocol V touched).Secure p o (vaultProgram V.platform V.deployment c)
      (fun r L' => (membershipContract V touched p o).post c L r L') L := by
  obtain ⟨hsettled, hcalls⟩ := hpre
  have hother : (vaultProgram V.platform V.deployment c).Uses (KeepsMemberships V) →
      (∀ r L', ToldMembership V touched p c r L') →
      (membershipProtocol V touched).Secure p o (vaultProgram V.platform V.deployment c)
        (fun r L' => (membershipContract V touched p o).post c L r L') L := fun huses htold =>
    (secure_keepsMemberships hdisjoint huses (Kept.refl hsettled)).mono fun r L' hkept =>
      ⟨hkept, htold r L'⟩
  cases c with
  | membershipAdd m =>
      have htouches := touches_of_mayStore (hcalls trivial) (⟨rfl, rfl⟩ :
        (RepoCall.membershipAdd m).Changes m.keycloakSub m.groupName)
      exact secure_membershipAdd hdisjoint htouches hsettled
  | membershipRemove u g =>
      have htouches := touches_of_mayStore (hcalls trivial) (⟨rfl, rfl⟩ :
        (RepoCall.membershipRemove u g).Changes u g)
      exact secure_membershipRemove hdisjoint htouches hsettled
  | tokenUpsert record =>
      have hstores := hcalls trivial
      cases o with
      | applyPlan subjects createdAt grantedAt => exact hstores.elim
      | addMembership u g actorSub correlationId clock => exact hstores.elim
      | removeMembership u g actorSub correlationId clock => exact hstores.elim
      | _ => exact ho.elim
  | membershipsForUser u =>
      refine (secure_load hdisjoint (Kept.refl hsettled)).mono fun r L' hpost => ?_
      exact ⟨hpost.1.mono fun _ _ h => h.elim, fun ms hr g hu => (hpost.2 ms hr).2 g hu⟩
  | hasMembership u g =>
      refine (secure_bind _).mpr ((secure_load hdisjoint (Kept.refl hsettled)).mono
        fun r L₁ hpost => ?_)
      have hkept := hpost.1.mono fun u' g' h =>
        (h.elim : (RepoCall.hasMembership u g).Changes u' g')
      have hstable : ∀ r, (membershipProtocol V touched).Stable p fun L' =>
          (membershipContract V touched p o).post (.hasMembership u g) L r L' := fun r =>
        stable_and (stable_kept hdisjoint _) (stable_toldMembership hdisjoint _ _)
      cases r with
      | error e => exact secure_done_of (x := .error e) (hstable _) ⟨hkept, fun _ h => nomatch h⟩
      | ok ms =>
          refine secure_done_of (x := .ok (inGroup g ms)) (hstable _) ⟨hkept, ?_⟩
          rintro _ ⟨⟩ hu
          exact (hpost.2 ms rfl).2 g hu
  | auditAppend event =>
      refine secure_perform_of (stable_kept hdisjoint fun _ _ => False) (fun r => ?_)
        (Kept.refl hsettled) fun L' r w hkept hact _ => ?_
      · exact stable_and (stable_kept hdisjoint _) (stable_toldMembership hdisjoint _ _)
      · obtain ⟨hguar, hkept'⟩ := hkept.quiet (i := .auditAppend event) (r := r) (w := w) fun u =>
          read_of_act hact fun _ _ => fun h => nomatch h
        exact ⟨hguar, hkept'.mono fun _ _ h => h.elim, act_auditAppend hact⟩
  | _ =>
      refine hother ((uses_vaultProgram _ _ _).mono fun i hi => ?_) fun _ _ => trivial
      exact keepsMemberships_of_writes hi (fun _ h => nomatch h) (fun _ _ h => nomatch h)
        fun _ h => nomatch h

end Calls

end GofrSec
