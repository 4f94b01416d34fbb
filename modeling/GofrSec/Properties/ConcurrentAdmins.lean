/-
At least one admin remains between processes.

* `SharedVault.IsAdmin`, `SeenAdmin`: the users whom the documents make admins, and those
  whom the operation that a process is at has last read to be one;
* `SharedVault.AdminsCurrent`: a change of a memberships document is not made from one
  without the `admin` membership that the current one has, and a removal from `admin` is not
  made when all the other admins that its operation has seen are gone;
* `AdminsKept`: some user is an admin, and no document lists `admin` twice;
* `admins_remain`: so it is in every state that processes reach whose changes are as
  `AdminsCurrent` says;
* `admins_removed`: two processes that each remove one of two admins leave none.
-/
import GofrSec.Properties.MembershipProtocol
import GofrSec.Services.Runs

namespace GofrSec

open Calls Protocol VaultPathLayout

/-- The operation takes the user out of `admin`. -/
def Op.RemovesAdmin (P : Platform) (u : String) : Op → Prop
  | .removeMembership u' g _ _ _ => u' = u ∧ normalizeGroupName P g = .ok "admin"
  | _ => False

variable {π : Type} [DecidableEq π]

/-- The documents make the user an admin. -/
abbrev SharedVault.IsAdmin (V : SharedVault) (w : VaultWorld) (u : String) : Prop :=
  V.hasMembership w u "admin" = .ok true

/-- The operation that the process is at has last read the user to be an admin. -/
def SeenAdmin (V : SharedVault) (p : π) (u : String) (L : VaultLedger π) : Prop :=
  ∃ ms, Loaded V p u ms L ∧ inGroup "admin" ms = true

/-- A change of a memberships document rests on admins that are still there: the document
of an admin is changed only as one that has been read to be that of an admin, and the
removal of an admin finds one of the other admins that its operation has seen, if it has
seen any. -/
def SharedVault.AdminsCurrent (V : SharedVault) (L : VaultLedger π) : VaultEvent π → Prop
  | .call p o i r _ => ∀ u v, i.target = some (V.paths.userGroupsPath u) → r = .ok v →
      (V.IsAdmin (V.after L) u → SeenAdmin V p u L)
        ∧ (o.RemovesAdmin V.platform u → (∃ v, v ≠ u ∧ SeenAdmin V p v L) →
          ∃ v, v ≠ u ∧ SeenAdmin V p v L ∧ V.IsAdmin (V.after L) v)
  | .finish _ _ _ => True

/-- The list names `admin` at most once. -/
def AdminOnce (ms : List UserGroupMembership) : Prop :=
  (ms.filter fun m => m.groupName = "admin").length ≤ 1

/-- Some user is an admin, and no document lists `admin` twice. -/
structure AdminsKept (V : SharedVault) (w : VaultWorld) : Prop where
  remains : ∃ u, V.IsAdmin w u
  once : ∀ u ms, V.memberships w u = .ok ms → AdminOnce ms

/-- Processes whose steps each leave an admin. -/
def adminProtocol (π : Type) (V : SharedVault) [DecidableEq π] : VaultProtocol π :=
  V.protocol (fun _ o => o.IsMembership) V.AdminsCurrent
    fun L e => match e with
      | .call _ _ _ _ w' => AdminsKept V (V.after L) → AdminsKept V w'
      | .finish _ _ _ => True

variable {V : SharedVault} {p : π} {o : Op} {L L' : VaultLedger π} {w w' : VaultWorld}
  {u v g : String} {loaded ms : List UserGroupMembership}

/-! ### Admins of the documents -/

lemma isAdmin_iff :
    V.IsAdmin w u ↔ ∃ ms, V.memberships w u = .ok ms ∧ inGroup "admin" ms = true := by
  rw [SharedVault.IsAdmin, SharedVault.hasMembership_eq]
  cases V.memberships w u with
  | error e => exact ⟨fun h => (nomatch h), fun ⟨_, h, _⟩ => (nomatch h)⟩
  | ok ms => simp [Except.map]

/-- Where the memberships documents are the same, so are the admins. -/
lemma AdminsKept.congr (h : AdminsKept V w)
    (hsame : ∀ u, w'.read (V.paths.userGroupsPath u) = w.read (V.paths.userGroupsPath u)) :
    AdminsKept V w' := by
  obtain ⟨⟨u, hu⟩, honce⟩ := h
  refine ⟨⟨u, ?_⟩, fun u' ms hms => ?_⟩
  · rw [SharedVault.IsAdmin, SharedVault.hasMembership_congr (hsame u)]
    exact hu
  · rw [SharedVault.memberships, hsame u'] at hms
    exact honce u' ms hms

lemma adminOnce_filter (q : UserGroupMembership → Bool) (h : AdminOnce ms) :
    AdminOnce (ms.filter q) :=
  (List.Sublist.length_le (List.filter_sublist.filter _)).trans h

/-- A membership takes the place of those in its group. -/
lemma adminOnce_add (h : AdminOnce ms) (m : UserGroupMembership) :
    AdminOnce (ms.filter (fun m' => m'.groupName ≠ m.groupName) ++ [m]) := by
  have hrest := adminOnce_filter (fun m' => m'.groupName ≠ m.groupName) h
  rw [AdminOnce, List.filter_append, List.length_append]
  by_cases hg : m.groupName = "admin"
  · have hnone : (ms.filter fun m' => m'.groupName ≠ m.groupName).filter
        (fun m' => m'.groupName = "admin") = [] := by
      rw [List.filter_eq_nil_iff]
      intro m' hm'
      rw [List.mem_filter, hg] at hm'
      simpa using hm'.2
    rw [hnone]
    simp [hg]
  · have hnot : [m].filter (fun m' => m'.groupName = "admin") = [] := by simp [hg]
    rw [hnot]
    exact hrest

lemma adminOnce_sort : AdminOnce (sortByGroupName ms) ↔ AdminOnce ms := by
  rw [AdminOnce, AdminOnce, ((sortByGroupName_perm ms).filter _).length_eq]

/-- A document put in place of another keeps the admins of all other users. -/
lemma isAdmin_put_of_ne (hne : v ≠ u) :
    V.IsAdmin (w.putMemberships V.platform V.paths u ms) v ↔ V.IsAdmin w v := by
  rw [isAdmin_iff, isAdmin_iff, SharedVault.memberships_put, if_neg hne]

/-- What must be there after a document has been put in place of another: an admin in it or
in another one. -/
lemma AdminsKept.put (h : AdminsKept V w) (honce : AdminOnce ms)
    (hadmin : inGroup "admin" ms = true ∨ ∃ v, v ≠ u ∧ V.IsAdmin w v) :
    AdminsKept V (w.putMemberships V.platform V.paths u ms) := by
  constructor
  · rcases hadmin with hself | ⟨v, hne, hv⟩
    · refine ⟨u, ?_⟩
      rw [SharedVault.IsAdmin, hasMembership_put_self, hself]
    · exact ⟨v, (isAdmin_put_of_ne hne).mpr hv⟩
  · intro v found hfound
    rw [SharedVault.memberships_put] at hfound
    split_ifs at hfound
    · obtain rfl := Except.ok.inj hfound
      exact adminOnce_sort.mpr honce
    · exact h.once v found hfound

/-! ### Reading who is an admin -/

lemma keeps_adminsKept : (adminProtocol π V).Keeps fun L => AdminsKept V (V.after L) := by
  intro L e h he
  cases e with
  | finish q o r => exact h
  | call q o i r w => exact he.guar h

lemma stable_adminsKept :
    (adminProtocol π V).Stable p fun L => AdminsKept V (V.after L) := keeps_adminsKept.stable

lemma stable_seenAdmin {Γ : VaultProtocol π} : Γ.Stable p (SeenAdmin V p u) :=
  stable_exists fun _ => stable_and stable_loaded (stable_const _)

/-- What a process has read at another path does not change with a read. -/
lemma Loaded.readSecret {k : String} (h : Loaded V p u ms L) (hk : k ≠ V.paths.userGroupsPath u)
    (r : Except PyError (Option Doc)) (w : VaultWorld) :
    Loaded V p u ms (.call p o (.readSecret k) r w :: L) := by
  obtain ⟨found, hread, hfound⟩ := h
  refine ⟨found, ?_, hfound⟩
  rw [readsOf_readSecret_of_ne hk]
  exact hread

/-- The list that an operation has loaded last is one. -/
lemma Loaded.unique (h : Loaded V p u ms L) (h' : Loaded V p u loaded L) : ms = loaded := by
  obtain ⟨found, hread, hfound⟩ := h
  obtain ⟨found', hread', hfound'⟩ := h'
  obtain rfl : found = found' := Except.ok.inj (Option.some.inj (hread.symm.trans hread'))
  exact Except.ok.inj (hfound.symm.trans hfound')

/-- A program that leaves the memberships documents alone. -/
lemma secure_quietAdmins {α : Type} {c : VaultProg α} (hc : c.Uses (KeepsMemberships V))
    (h : AdminsKept V (V.after L)) :
    (adminProtocol π V).Secure p o c (fun _ L' => AdminsKept V (V.after L')) L := by
  refine secure_of_uses stable_adminsKept (fun i L₁ r w hi hkept hact _ => ?_) hc h
  have hsame : AdminsKept V w := hkept.congr fun u => read_of_act hact fun _ _ => hi u
  exact ⟨fun _ => hsame, hsame⟩

/-- The lookup of the memberships of a user, who is not among those already seen. -/
lemma secure_loadAdmins {seen : List String} (hu : u ∉ seen) (h : AdminsKept V (V.after L))
    (hseen : ∀ v ∈ seen, SeenAdmin V p v L) :
    (adminProtocol π V).Secure p o
      (VaultGroupMembershipRepository.loadMemberships V.platform V.deployment u)
      (fun r L' => AdminsKept V (V.after L') ∧ (∀ v ∈ seen, SeenAdmin V p v L') ∧
        ∀ ms, r = .ok ms → Loaded V p u ms L' ∧ AdminOnce ms) L := by
  have hstable : (adminProtocol π V).Stable p fun L' => ∀ v ∈ seen, SeenAdmin V p v L' :=
    stable_forall fun v => stable_imp _ stable_seenAdmin
  refine secure_loadMemberships (stable_and stable_adminsKept hstable) (fun r => ?_) ⟨h, hseen⟩
    fun L₁ r hL₁ hfound => ?_
  · refine stable_and stable_adminsKept (stable_and hstable ?_)
    exact stable_forall fun ms => stable_imp _ (stable_and stable_loaded (stable_const _))
  · obtain ⟨hkept, hseen₁⟩ := hL₁
    refine ⟨id, hkept, fun v hv => ?_, fun ms hms => ?_⟩
    · obtain ⟨ms, hloaded, hadmin⟩ := hseen₁ v hv
      refine ⟨ms, hloaded.readSecret (fun hpath => ?_) r _, hadmin⟩
      exact hu (userGroupsPath_inj hpath ▸ hv)
    · cases r with
      | error e => exact nomatch hms
      | ok found =>
          obtain rfl := hfound found rfl
          refine ⟨⟨_, ?_, hms⟩, hkept.once u ms hms⟩
          rw [readsOf_readSecret, List.head?_cons]

/-- Apart from `n u` memberships of each user `u`, the count rests on users whom the
operation has seen to be admins. -/
def CountedAdmins (V : SharedVault) (p : π) (count : ℕ) (n : String → ℕ) (L : VaultLedger π) :
    Prop := ∀ u, (∃ v, v ≠ u ∧ SeenAdmin V p v L) ∨ count ≤ n u

lemma stable_countedAdmins {Γ : VaultProtocol π} (count : ℕ) (n : String → ℕ) :
    Γ.Stable p (CountedAdmins V p count n) := by
  intro L e h he u
  rcases h u with ⟨v, hne, hv⟩ | hle
  · exact Or.inl ⟨v, hne, stable_seenAdmin L e hv he⟩
  · exact Or.inr hle

/-- What the loop of a count leaves, after users of whom `seen` were admins. -/
def MembersFound (V : SharedVault) (p : π) (seen subs : List String)
    (r : Except PyError (List UserGroupMembership)) (L : VaultLedger π) : Prop :=
  AdminsKept V (V.after L) ∧ (∀ v ∈ seen, SeenAdmin V p v L) ∧
    ∀ found, r = .ok found →
      CountedAdmins V p found.length (fun u => if u ∈ subs then 1 else 0) L

lemma stable_membersFound (seen subs : List String)
    (r : Except PyError (List UserGroupMembership)) :
    (adminProtocol π V).Stable p (MembersFound V p seen subs r) := by
  refine stable_and stable_adminsKept (stable_and ?_ ?_)
  · exact stable_forall fun v => stable_imp _ stable_seenAdmin
  · exact stable_forall fun found => stable_imp _ (stable_countedAdmins _ _)

/-- The users seen to be admins, when the memberships of one more have been loaded. -/
def sawAdmin (v : String) (ms : List UserGroupMembership) (seen : List String) : List String :=
  if inGroup "admin" ms then v :: seen else seen

lemma mem_sawAdmin {seen : List String} :
    u ∈ sawAdmin v ms seen ↔ u = v ∧ inGroup "admin" ms = true ∨ u ∈ seen := by
  rw [sawAdmin]
  split_ifs with hadmin
  · simp [hadmin]
  · simp [hadmin]

/-- The loop of a count. -/
lemma secure_membersAmong {subs : List String} (hnodup : subs.Nodup) {seen : List String}
    (hnew : ∀ v ∈ subs, v ∉ seen) (h : AdminsKept V (V.after L))
    (hseen : ∀ v ∈ seen, SeenAdmin V p v L) :
    (adminProtocol π V).Secure p o
      (VaultGroupMembershipRepository.membersAmong V.platform V.deployment "admin" subs)
      (MembersFound V p seen subs) L := by
  induction subs generalizing seen L with
  | nil =>
      refine secure_done_of (x := .ok []) (stable_membersFound seen [] _) ⟨h, hseen, ?_⟩
      rintro _ ⟨⟩ u
      exact Or.inr (Nat.zero_le _)
  | cons v subs ih =>
      obtain ⟨hv, hrest⟩ := List.nodup_cons.mp hnodup
      refine (secure_bind _).mpr ((secure_loadAdmins (hnew v List.mem_cons_self) h hseen).mono
        fun r L₁ hpost => ?_)
      obtain ⟨hkept, hseen₁, hloaded⟩ := hpost
      rcases r with e | ms
      · exact secure_done_of (x := .error e) (stable_membersFound seen _ _)
          ⟨hkept, hseen₁, fun _ h => nomatch h⟩
      obtain ⟨hms, honce⟩ := hloaded ms rfl
      rw [Prog.onReturn_ok]
      have hnew' : ∀ v' ∈ subs, v' ∉ sawAdmin v ms seen := by
        intro v' hv' hmem
        rcases mem_sawAdmin.mp hmem with ⟨rfl, -⟩ | hmem
        · exact hv hv'
        · exact hnew v' (List.mem_cons_of_mem _ hv') hmem
      have hseen' : ∀ v' ∈ sawAdmin v ms seen, SeenAdmin V p v' L₁ := by
        intro v' hmem
        rcases mem_sawAdmin.mp hmem with ⟨rfl, hadmin⟩ | hmem
        · exact ⟨ms, hms, hadmin⟩
        · exact hseen₁ v' hmem
      refine (secure_bind _).mpr ((ih hrest hnew' hkept hseen').mono fun r L₂ hpost => ?_)
      obtain ⟨hkept₂, hseen₂, hfound⟩ := hpost
      have hseen₃ : ∀ v' ∈ seen, SeenAdmin V p v' L₂ :=
        fun v' hv' => hseen₂ v' (mem_sawAdmin.mpr (Or.inr hv'))
      rcases r with e | found
      · exact secure_done_of (x := .error e) (stable_membersFound seen _ _)
          ⟨hkept₂, hseen₃, fun _ h => nomatch h⟩
      refine secure_done_of (x := .ok (ms.filter (fun m => m.groupName = "admin") ++ found))
        (stable_membersFound seen _ _) ⟨hkept₂, hseen₃, ?_⟩
      rintro _ ⟨⟩ u
      rw [List.length_append]
      rcases hfound found rfl u with hother | hle
      · exact Or.inl hother
      by_cases hu : u = v
      · -- the document of `u` names `admin` once
        subst hu
        have hone : (ms.filter fun m => m.groupName = "admin").length ≤ 1 := honce
        have hzero : found.length ≤ 0 := by simpa [hv] using hle
        right
        simp only [List.mem_cons_self, if_true]
        omega
      · by_cases hadmin : inGroup "admin" ms = true
        · exact Or.inl ⟨v, Ne.symm hu, hseen₂ v (mem_sawAdmin.mpr (Or.inl ⟨rfl, hadmin⟩))⟩
        · have hnone : ms.filter (fun m => m.groupName = "admin") = [] := by
            rw [List.filter_eq_nil_iff]
            intro m hm hg
            exact hadmin (inGroup_iff.mpr ⟨m, hm, by simpa using hg⟩)
          rw [hnone]
          simp only [List.length_nil, Nat.zero_add, List.mem_cons, hu, false_or]
          exact Or.inr hle

/-- `count_members("admin")`. -/
lemma secure_countAdmins (h : AdminsKept V (V.after L)) :
    (adminProtocol π V).Secure p o
      (VaultGroupMembershipRepository.countMembers V.platform V.deployment "admin")
      (fun r L' => AdminsKept V (V.after L') ∧ ∀ count, r = .ok count →
        CountedAdmins V p count (fun _ => 1) L') L := by
  have hstable : ∀ r : Except PyError ℕ, (adminProtocol π V).Stable p fun L' =>
      AdminsKept V (V.after L') ∧ ∀ count, r = .ok count →
        CountedAdmins V p count (fun _ => 1) L' := fun r =>
    stable_and stable_adminsKept
      (stable_forall fun count => stable_imp _ (stable_countedAdmins count _))
  have hlist : (listSecrets V.deployment.paths.usersRoot).Uses (KeepsMemberships V) :=
    (Prog.uses_perform _).mpr (by rintro _ ⟨⟩)
  have hprog : VaultGroupMembershipRepository.countMembers V.platform V.deployment "admin" = (do
      let keys ← listSecrets V.deployment.paths.usersRoot
      let members ← VaultGroupMembershipRepository.membersAmong V.platform V.deployment "admin"
        (userIdsOf keys)
      pure members.length) := by
    simp only [VaultGroupMembershipRepository.countMembers,
      VaultGroupMembershipRepository.listForGroup, listKnownUserIds, bind_assoc, pure_bind]
  rw [hprog]
  refine (secure_bind _).mpr ((secure_quietAdmins hlist h).mono fun r L₁ hkept => ?_)
  rcases r with e | keys
  · exact secure_done_of (x := .error e) (hstable _) ⟨hkept, by rintro _ ⟨⟩⟩
  have hnodup : (userIdsOf keys).Nodup :=
    (List.perm_insertionSort _ _).nodup_iff.mpr (List.nodup_dedup _)
  refine (secure_bind _).mpr ((secure_membersAmong hnodup (fun _ _ => List.not_mem_nil)
    hkept (by rintro _ ⟨⟩)).mono fun r L₂ hpost => ?_)
  obtain ⟨hkept₂, -, hfound⟩ := hpost
  rcases r with e | found
  · exact secure_done_of (x := .error e) (hstable _) ⟨hkept₂, by rintro _ ⟨⟩⟩
  refine secure_done_of (x := .ok found.length) (hstable _) ⟨hkept₂, ?_⟩
  rintro _ ⟨⟩ u
  refine (hfound found rfl u).imp_right fun hle => hle.trans ?_
  dsimp only
  split_ifs <;> omega

/-! ### Changing who is an admin -/

/-- The write of a changed list: it has the `admin` membership if the loaded one has, or the
operation takes that one away and has seen another admin. -/
lemma secure_rewriteAdmins (h : AdminsKept V (V.after L)) (hloaded : Loaded V p u loaded L)
    (honce : AdminOnce ms)
    (hadmin : (inGroup "admin" loaded = true → inGroup "admin" ms = true)
      ∨ o.RemovesAdmin V.platform u ∧ ∃ v, v ≠ u ∧ SeenAdmin V p v L) :
    (adminProtocol π V).Secure p o
      (VaultGroupMembershipRepository.storeMemberships V.platform V.deployment u ms)
      (fun _ L' => AdminsKept V (V.after L')) L := by
  have hstable : (adminProtocol π V).Stable p fun L' =>
      (inGroup "admin" loaded = true → inGroup "admin" ms = true)
        ∨ o.RemovesAdmin V.platform u ∧ ∃ v, v ≠ u ∧ SeenAdmin V p v L' := by
    intro L₁ e h he
    refine h.imp_right fun ⟨hremoves, v, hne, hv⟩ => ?_
    exact ⟨hremoves, v, hne, stable_seenAdmin L₁ e hv he⟩
  refine secure_storeMemberships (stable_and stable_adminsKept (stable_and stable_loaded hstable))
    (fun _ => stable_adminsKept) ⟨h, hloaded, hadmin⟩
    fun L₁ i r w' hL₁ htarget herror hok hcurrent => ?_
  obtain ⟨hkept, hloaded₁, hadmin₁⟩ := hL₁
  cases r with
  | error e =>
      obtain rfl := herror e rfl
      exact ⟨id, hkept⟩
  | ok a =>
      obtain rfl := hok a rfl
      obtain ⟨hself, hother⟩ := hcurrent u a htarget rfl
      have hafter : AdminsKept V ((V.after L₁).putMemberships V.platform V.paths u ms) := by
        refine hkept.put honce ?_
        rcases hadmin₁ with hsame | ⟨hremoves, hseen⟩
        · obtain ⟨u₀, hu₀⟩ := hkept.remains
          by_cases hu : u₀ = u
          · -- the admin is the user: the list was loaded from a document that says so
            rw [hu] at hu₀
            obtain ⟨found, hfound, hin⟩ := hself hu₀
            exact Or.inl (hsame (hfound.unique hloaded₁ ▸ hin))
          · exact Or.inr ⟨u₀, hu, hu₀⟩
        · obtain ⟨v, hne, -, hv⟩ := hother hremoves hseen
          exact Or.inr ⟨v, hne, hv⟩
      exact ⟨fun _ => hafter, hafter⟩

/-- `membership_repository.add`. -/
lemma secure_addAdmins {m : UserGroupMembership} (h : AdminsKept V (V.after L)) :
    (adminProtocol π V).Secure p o (vaultProgram V.platform V.deployment (.membershipAdd m))
      (fun _ L' => AdminsKept V (V.after L')) L := by
  refine (secure_bind _).mpr ((secure_loadAdmins (List.not_mem_nil : _ ∉ []) h
    (fun _ h => nomatch h)).mono fun r L₁ hpost => ?_)
  obtain ⟨hkept, -, hloaded⟩ := hpost
  rcases r with e | loaded
  · exact secure_done_of (x := .error e) stable_adminsKept hkept
  obtain ⟨hread, honce⟩ := hloaded loaded rfl
  have hadmin : inGroup "admin" loaded = true → inGroup "admin"
      (loaded.filter (fun m' => m'.groupName ≠ m.groupName) ++ [m]) = true := by
    intro hin
    rw [inGroup_append]
    by_cases hg : m.groupName = "admin"
    · simp [inGroup, hg]
    · rw [inGroup_filter (Ne.symm hg), hin, Bool.true_or]
  refine (secure_bind _).mpr ((secure_rewriteAdmins hkept hread (adminOnce_add honce m)
    (Or.inl hadmin)).mono fun r L₂ hkept₂ => ?_)
  rcases r with e | _
  · exact secure_done_of (x := .error e) stable_adminsKept hkept₂
  · exact secure_done_of (x := .ok m) stable_adminsKept hkept₂

/-- `membership_repository.remove`. -/
lemma secure_removeAdmins (h : AdminsKept V (V.after L))
    (hadmin : g = "admin" → o.RemovesAdmin V.platform u ∧ ∃ v, v ≠ u ∧ SeenAdmin V p v L) :
    (adminProtocol π V).Secure p o (vaultProgram V.platform V.deployment (.membershipRemove u g))
      (fun _ L' => AdminsKept V (V.after L')) L := by
  obtain ⟨seen, hu, hseen, hsome⟩ : ∃ seen : List String, u ∉ seen
      ∧ (∀ v ∈ seen, SeenAdmin V p v L) ∧ (g = "admin" → ∃ v, v ∈ seen) := by
    by_cases hg : g = "admin"
    · obtain ⟨-, v, hne, hv⟩ := hadmin hg
      exact ⟨[v], by simpa using Ne.symm hne, by simpa using hv, fun _ => ⟨v, by simp⟩⟩
    · exact ⟨[], fun h => (nomatch h), fun _ h => (nomatch h), fun h => absurd h hg⟩
  refine (secure_bind _).mpr ((secure_loadAdmins hu h hseen).mono fun r L₁ hpost => ?_)
  obtain ⟨hkept, hseen₁, hloaded⟩ := hpost
  rcases r with e | loaded
  · exact secure_done_of (x := .error e) stable_adminsKept hkept
  obtain ⟨hread, honce⟩ := hloaded loaded rfl
  rw [Prog.onReturn_ok]
  dsimp only
  split_ifs
  · exact secure_done_of (x := .ok false) stable_adminsKept hkept
  have hchange : (inGroup "admin" loaded = true → inGroup "admin"
        (loaded.filter fun m => m.groupName ≠ g) = true)
      ∨ o.RemovesAdmin V.platform u ∧ ∃ v, v ≠ u ∧ SeenAdmin V p v L₁ := by
    by_cases hg : g = "admin"
    · obtain ⟨v, hv⟩ := hsome hg
      exact Or.inr ⟨(hadmin hg).1, v, fun heq => hu (heq ▸ hv), hseen₁ v hv⟩
    · exact Or.inl fun hin => by rw [inGroup_filter (Ne.symm hg), hin]
  refine (secure_bind _).mpr ((secure_rewriteAdmins hkept hread (adminOnce_filter _ honce)
    hchange).mono fun r L₂ hkept₂ => ?_)
  rcases r with e | _
  · exact secure_done_of (x := .error e) stable_adminsKept hkept₂
  · exact secure_done_of (x := .ok true) stable_adminsKept hkept₂

/-! ### The repository calls -/

/-- What a repository call tells about the admins: the count rests on admins whom the
operation has seen. -/
def ToldAdmins (V : SharedVault) (p : π) :
    (c : RepoCall) → Except PyError c.Res → VaultLedger π → Prop
  | .countMembers g, r, L' => g = "admin" → ∀ count, r = .ok count →
      CountedAdmins V p count (fun _ => 1) L'
  | _, _, _ => True

/-- The repository calls of an operation amid the steps of other processes: an admin is
removed only when another one has been seen. -/
def adminContract (V : SharedVault) (p : π) (o : Op) :
    Contract RepoCall RepoCall.Res PyError (VaultLedger π) where
  pre c L := AdminsKept V (V.after L) ∧ o.Calls V.platform c
    ∧ ∀ u, c = .membershipRemove u "admin" → ∃ v, v ≠ u ∧ SeenAdmin V p v L
  post c _ r L' := AdminsKept V (V.after L') ∧ ToldAdmins V p c r L'

/-- **Every repository call of an operation on memberships leaves an admin.** -/
theorem secure_adminCall (ho : o.IsMembership) (c : RepoCall) (L : VaultLedger π)
    (hpre : (adminContract V p o).pre c L) :
    (adminProtocol π V).Secure p o (vaultProgram V.platform V.deployment c)
      (fun r L' => (adminContract V p o).post c L r L') L := by
  obtain ⟨hkept, hcalls, hseen⟩ := hpre
  cases c with
  | membershipAdd m => exact (secure_addAdmins hkept).mono fun r L' h => ⟨h, trivial⟩
  | membershipRemove u g =>
      refine (secure_removeAdmins hkept ?_).mono fun r L' h => ⟨h, trivial⟩
      rintro rfl
      refine ⟨?_, hseen u rfl⟩
      have hstores := hcalls trivial
      cases o with
      | removeMembership u' g actorSub correlationId clock => exact ⟨hstores.1.symm, hstores.2⟩
      | _ => exact hstores.elim
  | countMembers g =>
      by_cases hg : g = "admin"
      · subst hg
        exact (secure_countAdmins hkept).mono fun r L' h => ⟨h.1, fun _ => h.2⟩
      · refine (secure_quietAdmins ((uses_vaultProgram _ _ _).mono fun i hi => ?_) hkept).mono
          fun r L' h => ⟨h, fun h => absurd h hg⟩
        exact keepsMemberships_of_writes hi (fun _ h => nomatch h) (fun _ _ h => nomatch h)
          fun _ h => nomatch h
  | tokenUpsert record =>
      have hstores := hcalls trivial
      cases o with
      | applyPlan subjects createdAt grantedAt => exact hstores.elim
      | addMembership u g actorSub correlationId clock => exact hstores.elim
      | removeMembership u g actorSub correlationId clock => exact hstores.elim
      | _ => exact ho.elim
  | auditAppend event =>
      have hquiet : (vaultProgram V.platform V.deployment (.auditAppend event)).Uses
          (KeepsMemberships V) := (Prog.uses_perform _).mpr fun _ h => nomatch h
      exact (secure_quietAdmins hquiet hkept).mono fun r L' h => ⟨h, trivial⟩
  | _ =>
      refine (secure_quietAdmins ((uses_vaultProgram _ _ _).mono fun i hi => ?_) hkept).mono
        fun r L' h => ⟨h, trivial⟩
      exact keepsMemberships_of_writes hi (fun _ h => nomatch h) (fun _ _ h => nomatch h)
        fun _ h => nomatch h

/-! ### The operations -/

/-- A part of an operation that removes no admin. -/
lemma wp_leavingAdmins {α : Type} {c : RepoProg α}
    (hc : c.Uses fun i => o.Calls V.platform i ∧ ∀ u, i ≠ .membershipRemove u "admin")
    (h : AdminsKept V (V.after L)) :
    c.wp (adminContract V p o) (fun _ L' => AdminsKept V (V.after L')) L := by
  refine Prog.wp_of_uses (fun i L₁ hi hkept => ?_) hc h
  exact ⟨⟨hkept, hi.1, fun u heq => absurd heq (hi.2 u)⟩, fun r L₂ hpost => hpost.1⟩

/-- A call that stores nothing removes no admin. -/
lemma leaving_of_not_stores {P : Platform} {c : RepoCall} (hc : ¬ c.Stores) :
    o.Calls P c ∧ ∀ u, c ≠ .membershipRemove u "admin" := by
  refine ⟨fun h => absurd h hc, ?_⟩
  rintro u rfl
  exact hc trivial

/-- The frame of a service method. -/
lemma wp_audited_admins {α : Type} {body : RepoProg α} {failure : AuditEvent}
    {success : α → AuditEvent}
    (h : body.wp (adminContract V p o) (fun _ L' => AdminsKept V (V.after L')) L) :
    (audited body failure success).wp (adminContract V p o)
      (fun _ L' => AdminsKept V (V.after L')) L := by
  rw [audited, Prog.wp_handle]
  refine Prog.wp_mono (fun r L' hkept => wp_leavingAdmins ?_ hkept) h
  cases r with
  | ok a => exact Prog.Uses.bind (uses_call (leaving_of_not_stores id)) fun _ => Prog.uses_pure a
  | error e =>
      exact Prog.Uses.bind (uses_call (leaving_of_not_stores id)) fun _ => Prog.uses_throw e

/-- The guard lets a removal pass that has counted two members at least. -/
lemma two_le_of_guard {count : ℕ} {a : Unit}
    (h : ensureAdminMembershipRemains ((count : Int) - 1) = .ok a) : 2 ≤ count := by
  rw [ensureAdminMembershipRemains] at h
  split_ifs at h
  omega

section Operations

variable {u g actorSub : String} {correlationId : Option String} {clock : Clock}

/-- The removal itself, of an admin once another one has been seen. -/
lemma wp_removal_admins {n : String} (ho : o = .removeMembership u g actorSub correlationId clock)
    (hname : normalizeGroupName V.platform g = .ok n) (h : AdminsKept V (V.after L))
    (hseen : n = "admin" → ∃ v, v ≠ u ∧ SeenAdmin V p v L) :
    (do
      let removed ← membershipRemove u n
      if removed then pure n else throw (membershipNotFound u n) : RepoProg String).wp
      (adminContract V p o) (fun _ L' => AdminsKept V (V.after L')) L := by
  refine (Prog.wp_bind _ _ _ _).mpr ((Prog.wp_perform _ _ _).mpr ⟨⟨h, fun _ => ?_, ?_⟩, ?_⟩)
  · rw [ho]
    exact ⟨rfl, hname⟩
  · intro u' heq
    obtain ⟨rfl, hn⟩ := RepoCall.membershipRemove.inj heq
    exact hseen hn
  · rintro r L' ⟨hkept, -⟩
    rcases r with e | removed
    · exact hkept
    rw [Prog.onReturn_ok]
    split_ifs
    · exact hkept
    · exact hkept

/-- `remove_membership`: it removes an admin only after it has counted two. -/
lemma wp_removeMembership_admins (ho : o = .removeMembership u g actorSub correlationId clock)
    (h : AdminsKept V (V.after L)) :
    (o.prog V.platform).wp (adminContract V p o) (fun _ L' => AdminsKept V (V.after L')) L := by
  have hprog : o.prog V.platform = (fun _ => Value.none) <$>
      removeMembership V.platform u g actorSub correlationId clock := by
    rw [ho]
    rfl
  rw [hprog]
  refine (Prog.wp_map _ _ _ _).mpr ((Prog.wp_bind _ _ _ _).mpr ?_)
  have hbody : (removeMembershipBody V.platform u g).wp (adminContract V p o)
      (fun _ L' => AdminsKept V (V.after L')) L := by
    refine (Prog.wp_bind _ _ _ _).mpr ((Prog.wp_lift _ _ _).mpr ?_)
    cases hname : normalizeGroupName V.platform g with
    | error e => exact h
    | ok n =>
        rw [Prog.onReturn_ok, Prog.wp_bind]
        refine Prog.wp_mono (fun r L₁ hkept => ?_) (wp_leavingAdmins
          (uses_requireActiveGroup (fun _ h => leaving_of_not_stores h.1) n) h)
        rcases r with e | group
        · exact hkept
        refine (Prog.wp_bind _ _ _ _).mpr (Prog.wp_mono (fun r L₂ hkept₂ => ?_) (wp_leavingAdmins
          (uses_findMembership (fun _ h => leaving_of_not_stores h.1) u n) hkept))
        rcases r with e | _ | m
        · exact hkept₂
        · refine wp_leavingAdmins (Prog.Uses.bind (uses_call (leaving_of_not_stores id))
            fun registered => ?_) hkept₂
          split_ifs
          · exact Prog.uses_throw _
          · exact Prog.uses_throw _
        · rw [Prog.onReturn_ok]
          dsimp only
          split_ifs with hadmin
          · refine (Prog.wp_bind _ _ _ _).mpr ((Prog.wp_perform _ _ _).mpr
              ⟨⟨hkept₂, fun h => h.elim, fun _ h => nomatch h⟩, ?_⟩)
            rintro r L₃ ⟨hkept₃, htold⟩
            rcases r with e | count
            · exact hkept₃
            rw [Prog.onReturn_ok, Prog.wp_bind, Prog.wp_lift]
            cases hguard : ensureAdminMembershipRemains ((count : Int) - 1) with
            | error e => exact hkept₃
            | ok _ =>
                refine wp_removal_admins ho hname hkept₃ fun _ => ?_
                refine (htold rfl count rfl u).resolve_right fun hle => ?_
                exact absurd (two_le_of_guard hguard) (Nat.not_le.mpr (Nat.lt_succ_of_le hle))
          · exact wp_removal_admins ho hname hkept₂ fun h => absurd h hadmin
  refine Prog.wp_mono (fun r L' hkept => ?_) (wp_audited_admins hbody)
  rcases r with e | n
  · exact hkept
  · exact hkept

/-- **Every operation on memberships leaves an admin.** -/
theorem wp_adminOp (ho : o.IsMembership) (h : AdminsKept V (V.after L)) :
    (o.prog V.platform).wp (adminContract V p o) (fun _ L' => AdminsKept V (V.after L')) L := by
  have hadds : (∀ u n, ¬ o.MayStore V.platform (.membershipRemove u n)) →
      (o.prog V.platform).wp (adminContract V p o) (fun _ L' => AdminsKept V (V.after L')) L := by
    intro hremove
    refine wp_leavingAdmins ((uses_prog V.platform o).mono fun c hc => ⟨hc, ?_⟩) h
    rintro u rfl
    exact hremove u "admin" (hc trivial)
  cases o with
  | applyPlan subjects createdAt grantedAt => exact hadds fun _ _ => id
  | addMembership u g actorSub correlationId clock => exact hadds fun _ _ => id
  | removeMembership u g actorSub correlationId clock => exact wp_removeMembership_admins rfl h
  | _ => exact ho.elim

end Operations

/-! ### An admin remains -/

/-- A process between two operations. -/
def AdminsIdle (V : SharedVault) (_ : π) (os : List Op) (L : VaultLedger π) : Prop :=
  (∀ o ∈ os, o.IsMembership) ∧ AdminsKept V (V.after L)

/-- **An admin remains between processes whose removals count what is still there.** Any
number of processes share one Vault and run operations on memberships, their client calls
interleaved and any of them raising without effect. At the start some user is an admin and
no document lists `admin` twice. If every change of the document of an admin is made from
one that says so, and no removal from `admin` is made when all the other admins that its
operation has seen are gone, then some user is an admin in every state. -/
theorem admins_remain {todo : π → List Op} (hops : ∀ p, ∀ o ∈ todo p, o.IsMembership)
    (hstart : ∃ u, V.IsAdmin V.start u)
    (honce : ∀ u ms, V.memberships V.start u = .ok ms → AdminOnce ms)
    {S : System π Op VaultCall VaultCall.Res PyError Value VaultWorld} (hreach : V.Reaches todo S)
    (hcurrent : Meets V.AdminsCurrent S.ledger) : ∃ u, V.IsAdmin (V.after S.ledger) u := by
  have hsecure : ∀ p o os L, AdminsIdle V p (o :: os) L → (adminProtocol π V).Runs p o
      ∧ (adminProtocol π V).Secure p o (V.proc o) (fun r L' =>
        (adminProtocol π V).Guar L' (.finish p o r)
          ∧ AdminsIdle V p os (.finish p o r :: L')) L := by
    rintro p o os L ⟨hos, hkept⟩
    have ho := hos o List.mem_cons_self
    have hop := secure_translate (secure_adminCall (V := V) (p := p) ho)
      (fun _ => stable_adminsKept) (wp_adminOp ho hkept)
    exact ⟨ho, hop.mono fun r L' hkept' =>
      ⟨trivial, fun o' ho' => hos o' (List.mem_cons_of_mem _ ho'), hkept'⟩⟩
  have hbegin : AdminsKept V (V.after ([] : VaultLedger π)) := ⟨hstart, honce⟩
  have hidle : ∀ p os, (adminProtocol π V).Stable p (AdminsIdle V p os) :=
    fun p os => stable_and (stable_const _) stable_adminsKept
  obtain ⟨hallowed, -⟩ := Reachable.sound hidle (fun _ _ _ _ => trivial)
    (fun p => ⟨hops p, hbegin⟩) hsecure hreach hcurrent
  have hkept := keeps_adminsKept.later
    ((List.append_nil S.ledger).symm ▸ hallowed : Meets _ (S.ledger ++ [])) hbegin
  rw [List.append_nil] at hkept
  exact hkept.remains

/-- `root` and `alice` are admins. -/
def twoAdmins : SharedVault :=
  .afterOps [.applyPlan ["root", "alice"] newYear.now fun _ => newYear.now]

/-- Each of two processes removes one of the admins. -/
def mutualRemoval : Bool → List Op
  | false => [.removeMembership "root" "admin" "alice" none newYear]
  | true => [.removeMembership "alice" "admin" "root" none newYear]

/-- The users who have a memberships document are among those whose paths are keys. -/
lemma memberships_twoAdmins_of_keys {w : VaultWorld} {users : List String}
    (hkeys : ∀ k ∈ w.secrets.keys, k = twoAdmins.paths.groupDefinitionPath "admin"
      ∨ ∃ u ∈ users, k = twoAdmins.paths.userGroupsPath u) {u : String} (hu : u ∉ users) :
    twoAdmins.memberships w u = .ok [] := by
  have hnone : w.read (twoAdmins.paths.userGroupsPath u) = none := by
    cases hread : w.read (twoAdmins.paths.userGroupsPath u) with
    | none => rfl
    | some d =>
        exfalso
        rcases hkeys _ ((w.secrets.mem_keys_iff _).mpr ⟨d, hread⟩) with hgroup | ⟨v, hv, hpath⟩
        · exact ne_of_area (by decide) (under_userGroupsPath u) (under_groupDefinitionPath _) hgroup
        · exact hu (userGroupsPath_inj hpath ▸ hv)
  rw [SharedVault.memberships, hnone, membershipsOf]

lemma adminsKept_twoAdmins : AdminsKept twoAdmins twoAdmins.start := by
  have hkeys : twoAdmins.start.secrets.keys = [twoAdmins.paths.groupDefinitionPath "admin",
      twoAdmins.paths.userGroupsPath "root", twoAdmins.paths.userGroupsPath "alice"] := by
    decide +kernel
  have hcount : ∀ u ∈ ["root", "alice"], (twoAdmins.memberships twoAdmins.start u).map
      (fun ms => (ms.filter fun m => m.groupName = "admin").length) = .ok 1 := by
    decide +kernel
  refine ⟨⟨"root", by decide +kernel⟩, fun u ms hms => ?_⟩
  by_cases hu : u ∈ ["root", "alice"]
  · have hone := hcount u hu
    rw [hms] at hone
    exact (Except.ok.inj hone).le
  · have hnone := memberships_twoAdmins_of_keys (w := twoAdmins.start) (by simp [hkeys]) hu
    obtain rfl := Except.ok.inj (hnone.symm.trans hms)
    exact Nat.zero_le 1

/-- Whether the operation that the process is at has last read the user to be an admin. -/
def seesAdmin (V : SharedVault) (p : π) (u : String) (L : VaultLedger π) : Bool :=
  match (readsOf p (V.paths.userGroupsPath u) L).head? with
  | some (.ok found) =>
      match membershipsOf V.platform V.deployment.now found with
      | .ok ms => inGroup "admin" ms
      | .error _ => false
  | _ => false

lemma seenAdmin_of_seesAdmin (h : seesAdmin V p u L) : SeenAdmin V p u L := by
  unfold seesAdmin at h
  split at h
  · next found hread =>
      split at h
      · next ms hms => exact ⟨ms, ⟨found, hread, hms⟩, h⟩
      · exact nomatch h
  · exact nomatch h

/-- The only document that is changed is that of `root`, who has been seen to be an admin,
like `alice`, who still is one. -/
def takesRootOnly (V : SharedVault) : VaultLedger Bool → Bool
  | [] => true
  | .finish _ _ _ :: L => takesRootOnly V L
  | .call p _ i _ _ :: L => (i.target.all fun path =>
      path = V.paths.userGroupsPath "root" && seesAdmin V p "root" L && seesAdmin V p "alice" L
        && decide (V.IsAdmin (V.after L) "alice")) && takesRootOnly V L

lemma meets_adminsCurrent_of_takesRootOnly {L : VaultLedger Bool} (h : takesRootOnly V L) :
    Meets V.AdminsCurrent L := by
  induction L with
  | nil => exact meets_nil
  | cons e L ih =>
      cases e with
      | finish p o r => exact meets_cons.mpr ⟨trivial, ih h⟩
      | call p o i r w =>
          rw [takesRootOnly, Bool.and_eq_true] at h
          refine meets_cons.mpr ⟨fun u a htarget _ => ?_, ih h.2⟩
          have hpath := h.1
          rw [htarget, Option.all_some] at hpath
          simp only [Bool.and_eq_true, decide_eq_true_eq] at hpath
          obtain ⟨⟨⟨hu, hroot⟩, halice⟩, hstill⟩ := hpath
          obtain rfl := userGroupsPath_inj hu
          have hseen : SeenAdmin V p "alice" L := seenAdmin_of_seesAdmin halice
          exact ⟨fun _ => seenAdmin_of_seesAdmin hroot,
            fun _ _ => ⟨"alice", by decide, hseen, hstill⟩⟩

/-- The second process has found the membership of `alice` when the first removes `root`,
and counts the admins afterwards. -/
def betweenFindAndCount : List Bool :=
  List.replicate 3 true ++ List.replicate 10 false ++ List.replicate 9 true

lemma isMembership_mutualRemoval : ∀ p, ∀ o ∈ mutualRemoval p, o.IsMembership := by
  intro p o ho
  cases p
  · obtain rfl := List.mem_singleton.mp ho
    exact trivial
  · obtain rfl := List.mem_singleton.mp ho
    exact trivial

/-- The second removal counts one admin, and is refused. -/
theorem admins_remain_mutualRemoval :
    ∃ S, twoAdmins.Reaches mutualRemoval S ∧ S.Finished
      ∧ ∃ u, twoAdmins.IsAdmin (twoAdmins.after S.ledger) u := by
  have hreach := twoAdmins.reaches_run mutualRemoval betweenFindAndCount
  have hidle : ∀ p, ((twoAdmins.run mutualRemoval betweenFindAndCount).worker p).isIdle := by
    decide +kernel
  have htakes : takesRootOnly twoAdmins
      (twoAdmins.run mutualRemoval betweenFindAndCount).ledger := by decide +kernel
  generalize twoAdmins.run mutualRemoval betweenFindAndCount = S at hreach hidle htakes
  exact ⟨S, hreach, System.finished_of_isIdle hidle, admins_remain isMembership_mutualRemoval
    adminsKept_twoAdmins.remains adminsKept_twoAdmins.once hreach
    (meets_adminsCurrent_of_takesRootOnly htakes)⟩

/-- The second process runs after the first has counted the admins, before it deletes the
document. -/
def betweenCountAndDelete : List Bool :=
  List.replicate 7 false ++ List.replicate 10 true ++ List.replicate 3 false

/-- The event does not end an operation that raises. -/
def endsWell : VaultEvent π → Bool
  | .finish _ _ r => r.isOk
  | .call _ _ _ _ _ => true

/-- Without the condition on counts no admin need remain: both processes count the two
admins before either deletes a document. Both removals return, and nobody is an admin. -/
theorem admins_removed :
    AdminsKept twoAdmins twoAdmins.start
      ∧ ∃ S, twoAdmins.Reaches mutualRemoval S ∧ S.Finished
        ∧ (∀ p o r, .finish p o r ∈ S.ledger → r.isOk)
        ∧ ∀ u, ¬ twoAdmins.IsAdmin (twoAdmins.after S.ledger) u := by
  have hreach := twoAdmins.reaches_run mutualRemoval betweenCountAndDelete
  have hidle : ∀ p, ((twoAdmins.run mutualRemoval betweenCountAndDelete).worker p).isIdle := by
    decide +kernel
  have hreturned : ((twoAdmins.run mutualRemoval betweenCountAndDelete).ledger.all
      endsWell) = true := by decide +kernel
  have hkeys : (twoAdmins.after (twoAdmins.run mutualRemoval betweenCountAndDelete).ledger
      ).secrets.keys = [twoAdmins.paths.groupDefinitionPath "admin"] := by decide +kernel
  generalize twoAdmins.run mutualRemoval betweenCountAndDelete = S at hreach hidle hreturned hkeys
  refine ⟨adminsKept_twoAdmins, S, hreach, System.finished_of_isIdle hidle, fun p o r hmem => ?_,
    fun u hu => ?_⟩
  · exact List.all_eq_true.mp hreturned _ hmem
  · have hnone := memberships_twoAdmins_of_keys (w := twoAdmins.after S.ledger)
      (by simp [hkeys]) (List.not_mem_nil : u ∉ [])
    rw [SharedVault.IsAdmin, SharedVault.hasMembership_of_memberships hnone] at hu
    cases hu

end GofrSec
