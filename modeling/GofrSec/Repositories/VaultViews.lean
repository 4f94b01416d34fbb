/-
What a deployment sees of a Vault.

* `VaultDeployment.Concerns`: the paths that a deployment reads, lists or changes: those in
  its three folders, and its signing key;
* `VaultWorld.part`, `VaultWorld.SameAt`: the entries at some paths, in their order, and
  two Vaults that have the same ones;
* `VaultCall.StaysIn`, `exec_sameAt`: a client call that stays within some paths answers
  the same over two such Vaults; `sameAt_exec`: one that stays out of them leaves their
  entries as they are; `unwinds_act`: so calls do that may raise;
* `uses_vaultProgram_staysIn`, `uses_vaultProgram_folders`: a deployment stays within the
  paths that concern it, and changes nothing outside its folders.
-/
import GofrSec.Calls.Unwinding
import GofrSec.Repositories.VaultBackend

namespace Dict

variable {κ ν : Type} [DecidableEq κ] {p : κ → Bool}

lemma findEntry_filter {k : κ} (hk : p k) (es : List (κ × ν)) :
    findEntry k (es.filter fun e => p e.1) = findEntry k es := by
  induction es with
  | nil => rfl
  | cons e es ih =>
      obtain ⟨k', v⟩ := e
      by_cases h : p k'
      · simp [findEntry, h, ih]
      · have hne : k' ≠ k := fun heq => h (heq ▸ hk)
        simp [findEntry, h, hne, ih]

lemma filter_setEntry {k : κ} (hk : p k) (v : ν) (es : List (κ × ν)) :
    (setEntry k v es).filter (fun e => p e.1) = setEntry k v (es.filter fun e => p e.1) := by
  induction es with
  | nil => simp [setEntry, hk]
  | cons e es ih =>
      obtain ⟨k', v'⟩ := e
      by_cases heq : k' = k
      · have hk' : p k' := heq ▸ hk
        simp [setEntry, heq, hk]
      · by_cases h : p k'
        · simp [setEntry, heq, h, ih]
        · simp [setEntry, heq, h, ih]

lemma filter_setEntry_of_not {k : κ} (hk : ¬ p k) (v : ν) (es : List (κ × ν)) :
    (setEntry k v es).filter (fun e => p e.1) = es.filter fun e => p e.1 := by
  induction es with
  | nil => simp [setEntry, hk]
  | cons e es ih =>
      obtain ⟨k', v'⟩ := e
      by_cases heq : k' = k
      · have hk' : ¬ p k' := heq ▸ hk
        simp [setEntry, heq, hk]
      · by_cases h : p k'
        · simp [setEntry, heq, h, ih]
        · simp [setEntry, heq, h, ih]

omit [DecidableEq κ] in
/-- The entries at some keys determine what a map that is defined there only makes of the
keys. -/
lemma filterMap_keys {β : Type} {f : κ → Option β} (hf : ∀ k b, f k = some b → p k)
    (es : List (κ × ν)) : (es.map Prod.fst).filterMap f
      = ((es.filter fun e => p e.1).map Prod.fst).filterMap f := by
  induction es with
  | nil => rfl
  | cons e es ih =>
      obtain ⟨k, v⟩ := e
      by_cases h : p k
      · simp [List.filterMap_cons, h, ih]
      · have hnone : f k = none := by
          cases hfk : f k with
          | none => rfl
          | some b => exact absurd (hf k b hfk) h
        simp [h, hnone, ih]

end Dict

namespace GofrSec

open Calls Text

/-- A path is in a folder exactly when it starts with it. -/
lemma under_iff_toList {p k : String} : Under p k ↔ (p ++ "/").toList <+: k.toList := by
  constructor
  · rintro ⟨rest, rfl⟩
    exact ⟨rest.toList, by simp only [String.toList_append]⟩
  · rintro ⟨rest, hrest⟩
    refine ⟨String.ofList rest, String.toList_inj.mp ?_⟩
    rw [String.toList_append, String.toList_ofList]
    exact hrest.symm

instance (p k : String) : Decidable (Under p k) := decidable_of_iff' _ under_iff_toList

/-! ### Vaults that agree at some paths -/

namespace VaultWorld

open Classical in
/-- The entries at the paths `K`, in their order. -/
noncomputable def part (K : String → Prop) (w : VaultWorld) : List (String × Doc) :=
  w.secrets.entries.filter fun e => K e.1

/-- The two Vaults have the same entries at the paths `K`, in the same order. -/
def SameAt (K : String → Prop) (w w' : VaultWorld) : Prop := w.part K = w'.part K

variable {K : String → Prop} {w w' : VaultWorld}

lemma SameAt.refl (w : VaultWorld) : w.SameAt K w := rfl

lemma SameAt.trans {w'' : VaultWorld} (h : w.SameAt K w') (h' : w'.SameAt K w'') :
    w.SameAt K w'' := Eq.trans h h'

/-- At a path of `K` the two have the same document. -/
lemma SameAt.read (h : w.SameAt K w') {k : String} (hk : K k) : w.read k = w'.read k := by
  classical
  have hk' : decide (K k) = true := decide_eq_true hk
  have hw := Dict.findEntry_filter (p := fun k => decide (K k)) hk' w.secrets.entries
  have hw' := Dict.findEntry_filter (p := fun k => decide (K k)) hk' w'.secrets.entries
  rw [show w.read k = findEntry k w.secrets.entries from rfl, ← hw]
  rw [show w'.read k = findEntry k w'.secrets.entries from rfl, ← hw']
  exact congrArg (findEntry k) h

/-- A listing of a folder within `K` shows the same names. -/
lemma SameAt.names (h : w.SameAt K w') {path : String} (hpath : ∀ k, Under path k → K k) :
    w.names path = w'.names path := by
  classical
  have hsegment : ∀ k name, nextSegment path k = some name → decide (K k) = true := by
    intro k name hk
    refine decide_eq_true (hpath k ?_)
    rcases nextSegment_eq_some hk with ⟨-, rfl⟩ | ⟨u, t, -, -, rfl⟩
    · exact under_below path name
    · exact (under_below path u).below t
  refine congrArg List.dedup ?_
  have hw := Dict.filterMap_keys (p := fun k => decide (K k)) hsegment w.secrets.entries
  have hw' := Dict.filterMap_keys (p := fun k => decide (K k)) hsegment w'.secrets.entries
  refine hw.trans (Eq.trans ?_ hw'.symm)
  exact congrArg (fun es : List (String × Doc) =>
    (es.map Prod.fst).filterMap (nextSegment path)) h

lemma SameAt.write (h : w.SameAt K w') {k : String} (hk : K k) (data : Doc) :
    (w.write k data).SameAt K (w'.write k data) := by
  classical
  have hset : ∀ v : VaultWorld, (v.write k data).part K = Dict.setEntry k data (v.part K) := by
    intro v
    exact Dict.filter_setEntry (p := fun k => decide (K k)) (decide_eq_true hk) data
      v.secrets.entries
  rw [SameAt, hset, hset, h]

lemma SameAt.delete (h : w.SameAt K w') (k : String) :
    (w.delete k).SameAt K (w'.delete k) := by
  have herase : ∀ v : VaultWorld, (v.delete k).part K = (v.part K).filter fun e => e.1 ≠ k :=
    fun v => List.filter_comm _ _ _
  rw [SameAt, herase, herase, h]

/-- Writing elsewhere leaves the entries at `K` as they are. -/
lemma sameAt_write {k : String} (hk : ¬ K k) (data : Doc) : (w.write k data).SameAt K w := by
  classical
  exact Dict.filter_setEntry_of_not (p := fun k => decide (K k)) (by simpa using hk) data
    w.secrets.entries

/-- So does deleting elsewhere. -/
lemma sameAt_delete {k : String} (hk : ¬ K k) : (w.delete k).SameAt K w := by
  have herase : (w.delete k).part K = (w.part K).filter fun e => e.1 ≠ k := List.filter_comm _ _ _
  rw [SameAt, herase, List.filter_eq_self]
  intro e he
  have hK : K e.1 := by simpa using (List.mem_filter.mp he).2
  simp only [ne_eq, decide_not, Bool.not_eq_true', decide_eq_false_iff_not]
  rintro rfl
  exact hk hK

end VaultWorld

/-! ### Client calls -/

/-- The client call looks at paths of `K` only. -/
def VaultCall.Looks (K : String → Prop) : VaultCall → Prop
  | .readSecret path => K path
  | .secretExists path => K path
  | .listSecrets path => ∀ k, Under path k → K k
  | _ => True

/-- The client call looks at paths of `K` only, and changes no others. -/
def VaultCall.StaysIn (K : String → Prop) (i : VaultCall) : Prop := i.Looks K ∧ i.Within K

variable {K : String → Prop} {server : VaultServer} {faults : Prop}

/-- A call that stays within `K` answers the same, and leaves Vaults that are the same
there. -/
lemma exec_sameAt {i : VaultCall} (hi : i.StaysIn K) {w w' : VaultWorld} (h : w.SameAt K w') :
    (server.exec i w).1 = (server.exec i w').1
      ∧ (server.exec i w).2.SameAt K (server.exec i w').2 := by
  obtain ⟨hlooks, hwithin⟩ := hi
  cases i with
  | readSecret path => exact ⟨congrArg Except.ok (h.read hlooks), h⟩
  | secretExists path =>
      exact ⟨congrArg (fun d : Option Doc => Except.ok d.isSome) (h.read hlooks), h⟩
  | listSecrets path =>
      exact ⟨congrArg (fun names => Except.ok (server.arrange names)) (h.names hlooks), h⟩
  | writeSecret path data => exact ⟨rfl, h.write (hwithin path rfl) data⟩
  | deleteSecret path =>
      exact ⟨congrArg (fun d : Option Doc => Except.ok d.isSome) (h.read (hwithin path rfl)),
        h.delete path⟩
  | auditAppend event => exact ⟨rfl, h⟩

/-- A call that changes nothing at `K` leaves its entries as they are. -/
lemma sameAt_exec {i : VaultCall} (hi : i.Within fun k => ¬ K k) (w : VaultWorld) :
    (server.exec i w).2.SameAt K w := by
  cases i with
  | writeSecret path data => exact VaultWorld.sameAt_write (hi path rfl) data
  | deleteSecret path => exact VaultWorld.sameAt_delete (hi path rfl)
  | _ => exact .refl w

/-- **Calls within `K` are not affected by calls out of it**, also where calls may raise. -/
theorem unwinds_act (K : String → Prop) (server : VaultServer) (faults : Prop) :
    Unwinds (VaultWorld.SameAt K) (server.act faults) (server.act faults)
      (VaultCall.StaysIn K) (VaultCall.Within fun k => ¬ K k) := by
  refine ⟨fun i w w' r w₁ hi h hact => ?_, fun i w w' r w₁ hi h hact => ?_⟩
  · rcases hact with hexec | ⟨hmay, herror, rfl⟩
    · have hexec : server.exec i w = (r, w₁) := hexec
      obtain ⟨hout, hsame⟩ := exec_sameAt hi h
      rw [hexec] at hout hsame
      exact ⟨(server.exec i w').2, Or.inl (Prod.ext hout.symm rfl), hsame⟩
    · exact ⟨w', Or.inr ⟨hmay, herror, rfl⟩, h⟩
  · rcases hact with hexec | ⟨-, -, rfl⟩
    · have hexec : server.exec i w = (r, w₁) := hexec
      have hsame : (server.exec i w).2.SameAt K w := sameAt_exec hi w
      rw [hexec] at hsame
      exact hsame.trans h
    · exact h

/-! ### The paths of a deployment -/

/-- The path of the signing key, if it is read from Vault. -/
def TokenSigner.keyPath : TokenSigner → Option String
  | .static _ => none
  | .vault signer => some signer.vaultPath

/-- The path is in a folder of the deployment. -/
def VaultDeployment.Owns (D : VaultDeployment) (k : String) : Prop :=
  ∃ a, Under (D.paths.root a) k

/-- The deployment reads, lists or changes the path. -/
def VaultDeployment.Concerns (D : VaultDeployment) (k : String) : Prop :=
  D.Owns k ∨ D.signer.keyPath = some k

section

variable {P : Platform} {D : VaultDeployment}

lemma RepoCall.Writes.owns {c : RepoCall} {k : String} (h : c.Writes D.paths k) : D.Owns k := by
  cases c with
  | profileUpsert profile => exact ⟨.users, h ▸ VaultPathLayout.under_userProfilePath _⟩
  | groupUpsert group => exact ⟨.groups, h ▸ VaultPathLayout.under_groupDefinitionPath _⟩
  | membershipAdd membership => exact ⟨.users, h ▸ VaultPathLayout.under_userGroupsPath _⟩
  | membershipRemove u g => exact ⟨.users, h ▸ VaultPathLayout.under_userGroupsPath _⟩
  | tokenUpsert record =>
      rcases h with rfl | ⟨u, t, rfl⟩ | ⟨g, t, rfl⟩
      · exact ⟨.tokens, VaultPathLayout.under_tokenPath _⟩
      · exact ⟨.users, VaultPathLayout.under_userTokenPath _ _⟩
      · exact ⟨.groups, VaultPathLayout.under_groupTokenPath _ _⟩
  | _ => exact h.elim

lemma looks_readSecret {path : String} (h : K path) : (readSecret path).Uses (VaultCall.Looks K) :=
  (Prog.uses_perform _).mpr h

lemma looks_getRecord {α : Type} {path : String} (h : K path)
    (deserialize : Doc → Except PyError α) :
    (getRecord path deserialize).Uses (VaultCall.Looks K) :=
  (looks_readSecret h).bind fun _ => Prog.uses_lift _

lemma looks_loadMemberships (u : String) :
    (VaultGroupMembershipRepository.loadMemberships P D u).Uses (VaultCall.Looks D.Concerns) :=
  (looks_readSecret (Or.inl ⟨.users, VaultPathLayout.under_userGroupsPath u⟩)).bind
    fun _ => Prog.uses_lift _

lemma looks_storeMemberships (u : String) (ms : List UserGroupMembership) :
    (VaultGroupMembershipRepository.storeMemberships P D u ms).Uses (VaultCall.Looks K) := by
  cases ms with
  | nil => exact ((Prog.uses_perform _).mpr trivial).bind fun _ => Prog.uses_pure _
  | cons m ms => exact (Prog.uses_perform _).mpr trivial

lemma looks_membersAmong (g : String) (us : List String) :
    (VaultGroupMembershipRepository.membersAmong P D g us).Uses
      (VaultCall.Looks D.Concerns) := by
  induction us with
  | nil => trivial
  | cons u us ih => exact (looks_loadMemberships u).bind fun _ => ih.bind fun _ => Prog.uses_pure _

lemma looks_recordsOf (keys : List String) :
    (VaultTokenRepository.recordsOf P D keys).Uses (VaultCall.Looks D.Concerns) := by
  induction keys with
  | nil => trivial
  | cons key keys ih =>
      rw [VaultTokenRepository.recordsOf]
      split_ifs
      · exact ih
      · exact (looks_getRecord (Or.inl ⟨.tokens, VaultPathLayout.under_tokenPath _⟩) _).bind
          fun _ => ih.bind fun _ => Prog.uses_pure _

lemma looks_upsert (record : IssuedTokenRecord) :
    (VaultTokenRepository.upsert P D record).Uses (VaultCall.Looks D.Concerns) := by
  rw [VaultTokenRepository.upsert_eq]
  refine (looks_getRecord (Or.inl ⟨.tokens, VaultPathLayout.under_tokenPath _⟩) _).bind
    fun previous => (Prog.uses_performAll fun i hi => ?_).bind fun _ => Prog.uses_pure _
  -- every call after the read changes a document
  have htarget : i.target.isSome := by
    rcases List.mem_cons.mp hi with rfl | hi
    · rfl
    · exact isSome_target_indexUpdates D hi
  cases i with
  | writeSecret path data => trivial
  | deleteSecret path => trivial
  | _ => simp [VaultCall.target] at htarget

lemma looks_signer (signer : VaultTokenSigner) (h : D.signer = .vault signer) :
    (signer.loadSigningMaterial P D).Uses (VaultCall.Looks D.Concerns) := by
  have hkey : D.Concerns signer.vaultPath := Or.inr (by rw [h]; rfl)
  exact (looks_readSecret hkey).bind fun _ => Prog.uses_lift _

variable (P D) in
/-- The client calls of a deployment look at its own paths only. -/
lemma looks_vaultProgram (c : RepoCall) :
    (vaultProgram P D c).Uses (VaultCall.Looks D.Concerns) := by
  have husers : ∀ k, Under D.paths.usersRoot k → D.Concerns k := fun k hk => Or.inl ⟨.users, hk⟩
  cases c with
  | profileGet u =>
      exact looks_getRecord (Or.inl ⟨.users, VaultPathLayout.under_userProfilePath u⟩) _
  | profileUpsert profile =>
      exact ((Prog.uses_perform _).mpr trivial).bind fun _ => Prog.uses_pure _
  | isRegistered u =>
      exact (Prog.uses_perform _).mpr (Or.inl ⟨.users, VaultPathLayout.under_userProfilePath u⟩)
  | groupGet g =>
      exact looks_getRecord (Or.inl ⟨.groups, VaultPathLayout.under_groupDefinitionPath g⟩) _
  | groupUpsert group =>
      exact ((Prog.uses_perform _).mpr trivial).bind fun _ => Prog.uses_pure _
  | membershipAdd m =>
      exact (looks_loadMemberships _).bind fun ms => (looks_storeMemberships _ _).bind
        fun _ => Prog.uses_pure _
  | membershipRemove u g =>
      refine (looks_loadMemberships _).bind fun ms => ?_
      dsimp only
      split_ifs
      · exact Prog.uses_pure _
      · exact (looks_storeMemberships _ _).bind fun _ => Prog.uses_pure _
  | hasMembership u g => exact (looks_loadMemberships _).bind fun _ => Prog.uses_pure _
  | membershipsForUser u => exact looks_loadMemberships _
  | countMembers g =>
      have hlisting : (listKnownUserIds D).Uses (VaultCall.Looks D.Concerns) :=
        Prog.Uses.bind ((Prog.uses_perform _).mpr husers) fun _ => Prog.uses_pure _
      exact (hlisting.bind fun _ => looks_membersAmong g _).bind fun _ => Prog.uses_pure _
  | tokenGet t => exact looks_getRecord (Or.inl ⟨.tokens, VaultPathLayout.under_tokenPath t⟩) _
  | tokenUpsert record => exact looks_upsert record
  | tokensForUser u =>
      have hlisting : ∀ k, Under (D.paths.userTokensRoot u) k → D.Concerns k := by
        rintro k ⟨rest, rfl⟩
        exact Or.inl ⟨.users, VaultPathLayout.under_userTokenPath u rest⟩
      exact ((Prog.uses_perform _).mpr hlisting).bind fun keys => looks_recordsOf keys
  | signToken request =>
      show (D.signer.signToken P D request).Uses _
      cases hsigner : D.signer with
      | static signer => exact Prog.uses_lift _
      | vault signer => exact (looks_signer signer hsigner).bind fun _ => Prog.uses_lift _
  | publicKeyDocument =>
      show (D.signer.publicKeyDocument P D).Uses _
      cases hsigner : D.signer with
      | static signer => exact Prog.uses_lift _
      | vault signer => exact (looks_signer signer hsigner).bind fun _ => Prog.uses_lift _
  | auditAppend event => exact (Prog.uses_perform _).mpr trivial

variable (P D) in
/-- **A deployment changes nothing outside its folders.** -/
theorem uses_vaultProgram_folders (c : RepoCall) :
    (vaultProgram P D c).Uses (VaultCall.Within D.Owns) :=
  (uses_vaultProgram P D c).mono fun _ h k hk => (h k hk).owns

variable (P D) in
/-- **A deployment stays within the paths that concern it.** -/
theorem uses_vaultProgram_staysIn (c : RepoCall) :
    (vaultProgram P D c).Uses (VaultCall.StaysIn D.Concerns) :=
  (looks_vaultProgram P D c).and
    ((uses_vaultProgram_folders P D c).mono fun _ h k hk => Or.inl (h k hk))

end

end GofrSec
