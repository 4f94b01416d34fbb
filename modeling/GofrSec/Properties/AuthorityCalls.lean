/-
The repository calls of server processes, under the protocol of authority.

* `Sound.justified`: what is read at the path of a record is a justified record;
* `Due`, `Attested`: what an activity owes before a repository call, and what the call
  tells it; `authorityContract` is the contract of both;
* `secure_read`, `secure_loadJustified`, `uses_storeMemberships_permitted`: the reads and
  writes that the calls consist of;
* `secure_authorityCall`: every repository call, at each of its client calls and wherever
  one of them raises, keeps to the protocol and tells what it attests.
-/
import GofrSec.Properties.Authority

namespace GofrSec

open Calls Protocol Text VaultPathLayout

variable {π : Type} {V : SharedVault} {p : π} {a : Activity} {L L' : ServerLedger π}

/-! ### Reading -/

lemma under_root_pathOf (layout : VaultPathLayout) {key : RecordKey} (h : key ≠ .signingKey) :
    ∃ area, Under (layout.root area) (layout.pathOf key) := by
  cases key with
  | userProfile u => exact ⟨.users, under_userProfilePath u⟩
  | userGroups u => exact ⟨.users, under_userGroupsPath u⟩
  | userToken u t => exact ⟨.users, under_userTokenPath u t⟩
  | groupDefinition g => exact ⟨.groups, under_groupDefinitionPath g⟩
  | groupToken g t => exact ⟨.groups, under_groupTokenPath g t⟩
  | token t => exact ⟨.tokens, under_tokenPath t⟩
  | signingKey => exact absurd rfl h

/-- The document at the path of a record is that of a justified record. -/
lemma Sound.justified (h : Sound V L) {key : RecordKey} (hhex : key.Hex) (hkey : key ≠ .signingKey)
    {d : Doc} (hread : (V.documents L).read (V.paths.pathOf key) = some d) :
    Justified V L key d := by
  obtain ⟨area, hunder⟩ := under_root_pathOf V.paths hkey
  obtain ⟨key', hhex', hpath, hjust⟩ := h area _ d hunder hread
  obtain rfl := pathOf_inj hhex hhex' hpath
  exact hjust

lemma hex_of_tokenId_none {key : RecordKey} (h : key.tokenId = none) : key.Hex := by
  intro t ht
  rw [h] at ht
  cases ht

/-- The memberships that are read are justified. -/
lemma Sound.memberships (h : Sound V L) (u : String) :
    ∃ ms, V.memberships (V.documents L) u = .ok ms
      ∧ ∀ m ∈ ms, m.keycloakSub = u ∧ JustifiedMembership V L m := by
  rw [SharedVault.memberships]
  cases hread : (V.documents L).read (V.paths.userGroupsPath u) with
  | none => exact ⟨[], rfl, by rintro _ ⟨⟩⟩
  | some d =>
      have hjust : Justified V L (.userGroups u) d :=
        h.justified (hex_of_tokenId_none rfl) (by rintro ⟨⟩) hread
      obtain ⟨ms, hms, hall⟩ := hjust
      rw [← hms, membershipsOf_stored]
      exact ⟨_, rfl, fun m hm => hall m ((sortByGroupName_perm ms).mem_iff.mp hm)⟩

/-- The record that is read under a token id, of whatever shape, is justified. -/
lemma Sound.token (h : Sound V L) (t : String) :
    ∃ found, decodeRecord (deserializeToken V.platform V.deployment.now)
        ((V.documents L).read (V.paths.tokenPath t)) = .ok found
      ∧ ∀ record, found = some record → record.tokenId = t ∧ JustifiedToken V L record := by
  cases hread : (V.documents L).read (V.paths.tokenPath t) with
  | none => exact ⟨none, rfl, by rintro _ ⟨⟩⟩
  | some d =>
      obtain ⟨key, hhex, hpath, hjust⟩ := h .tokens _ d (under_tokenPath t) hread
      have hfolder : key.folder = "tokens" :=
        under_inj (folder_slashless key) (by decide) (under_folder V.paths key)
          (hpath ▸ under_tokenPath t)
      cases key with
      | token t' =>
          obtain rfl := tokenPath_inj hpath
          obtain ⟨record, rfl, hid, hrecord⟩ := hjust
          refine ⟨some record, ?_, ?_⟩
          · rw [decodeRecord, deserializeToken_serializeToken]
            rfl
          · rintro _ ⟨⟩
            exact ⟨hid, hrecord⟩
      | _ => simp [RecordKey.folder] at hfolder

/-! ### What calls owe and tell -/

/-- What an activity owes before a repository call: that it may change what the call
changes, and that what it stores is justified. -/
def Due (V : SharedVault) (p : π) (a : Activity) : RepoCall → ServerLedger π → Prop
  | .profileUpsert profile, L => Sound V L ∧ Rightful V p a (.userProfile profile.keycloakSub) L
      ∧ JustifiedProfile V L profile
  | .groupUpsert group, L => Sound V L ∧ Rightful V p a (.groupDefinition group.name) L
      ∧ JustifiedGroup V L group
  | .membershipAdd m, L => Sound V L ∧ Rightful V p a (.userGroups m.keycloakSub) L
      ∧ JustifiedMembership V L m
  | .membershipRemove u _, L => Sound V L ∧ Rightful V p a (.userGroups u) L
  | .tokenUpsert record, L => Sound V L
      ∧ (∀ key : RecordKey, key.tokenId = some record.tokenId → Rightful V p a key L)
      ∧ JustifiedToken V L record
  | _, L => Sound V L

/-- What a repository call tells. -/
def Attested (V : SharedVault) (p : π) (a : Activity) :
    (c : RepoCall) → Except PyError c.Res → ServerLedger π → Prop
  | .profileGet _, r, L => r.isOk → Ran p a L
  | .isRegistered u, r, L => r = .ok true → V.HasProfile (V.documents L) u
  | .groupGet g, r, L => ∀ found, r = .ok found → Ran p a L
      ∧ (found.isSome → V.HasGroup (V.documents L) g)
  | .groupUpsert group, r, L => r.isOk → V.HasGroup (V.documents L) group.name
  | .hasMembership u g, r, L => ∀ b, r = .ok b → Ran p a L
      ∧ (b = true → g = "admin" → Vouched V p a u L)
  | .tokenGet t, r, L => ∀ record, r = .ok (some record) →
      Found V p a t record L ∧ record.tokenId = t ∧ JustifiedToken V L record
  | .auditAppend _, r, _ => r = .ok ()
  | _, _, _ => True

/-- The repository calls of an activity amid the steps of other processes. -/
abbrev authorityContract (V : SharedVault) (p : π) (a : Activity) :
    Contract RepoCall RepoCall.Res PyError (ServerLedger π) :=
  (authority V).telling p (Due V p a) (Attested V p a)

lemma Due.sound {c : RepoCall} (h : Due V p a c L) : Sound V L := by
  cases c with
  | profileUpsert profile => exact h.1
  | groupUpsert group => exact h.1
  | membershipAdd m => exact h.1
  | membershipRemove u g => exact h.1
  | tokenUpsert record => exact h.1
  | _ => exact h

/-! ### Client calls -/

/-- A read, and what is made of the document. -/
lemma secure_read {α : Type} {path : String} {f : Option Doc → Except PyError α}
    {Q : Except PyError α → ServerLedger π → Prop} (hsound : Sound V L)
    (hQ : ∀ r, (authority V).KeepsWithin p (Q r)) (herr : ∀ e L', Q (.error e) L')
    (hread : ∀ L', Sound V L' → Q (f ((V.documents L').read path))
      (.call p a (.readSecret path) (.ok ((V.documents L').read path)) (V.documents L') :: L')) :
    (authority V).Secure p a (do let d ← readSecret path; Prog.lift (f d)) Q L := by
  have hperform : (authority V).Secure p a (readSecret path) (fun r L' => Q (r.bind f) L') L := by
    refine secure_perform_of keeps_sound.stable (fun r => (hQ _).stable) hsound
      fun L' r w' hsound' hact _ => ?_
    obtain ⟨rfl, hfound⟩ := act_readSecret hact
    refine ⟨guar_same hsound' fun _ => rfl, ?_⟩
    cases r with
    | error e => exact herr e _
    | ok found =>
        rw [hfound found rfl]
        exact hread L' hsound'
  refine (secure_bind _).mpr (hperform.mono fun r L' hpost => ?_)
  cases r with
  | error e => exact fun L'' henv => herr e L''
  | ok found => exact secure_done_of (hQ _).stable hpost

/-- `_load_memberships`. -/
lemma secure_loadJustified {u : String} (hsound : Sound V L) :
    (authority V).Secure p a
      (VaultGroupMembershipRepository.loadMemberships V.platform V.deployment u)
      (fun r L' => ∀ ms, r = .ok ms → (∀ m ∈ ms, m.keycloakSub = u ∧ JustifiedMembership V L' m)
        ∧ Ran p a L' ∧ (inGroup "admin" ms = true → Vouched V p a u L')) L := by
  refine secure_read hsound (fun r L₁ e h he hends ms hms => ?_) (by rintro _ _ _ ⟨⟩)
    fun L' hsound' ms hms => ?_
  · obtain ⟨hall, hran, hvouched⟩ := h ms hms
    refine ⟨fun m hm => ⟨(hall m hm).1, ?_⟩, hran.cons, fun hin => (hvouched hin).cons hends⟩
    exact keeps_justifiedMembership m L₁ e (hall m hm).2 he
  · obtain ⟨ms', hms', hall⟩ := hsound'.memberships u
    have hloaded : V.memberships (V.documents L') u = .ok ms := hms
    obtain rfl := Except.ok.inj (hms'.symm.trans hloaded)
    refine ⟨fun m hm => ⟨(hall m hm).1, ?_⟩, ⟨_, _, _, List.mem_cons_self⟩, fun hin => ?_⟩
    · exact (hall m hm).2.cons (.of_read fun _ => rfl)
    · -- the process itself has found the user among the admins
      refine ⟨_, _, _, L', ownCall_now, ?_, ?_⟩
      · rw [SharedVault.hasMembership_of_memberships hms', hin]
      · obtain ⟨m, hm, hadmin⟩ := inGroup_iff.mp hin
        have happointed := (hall m hm).2.appointed hadmin
        rw [(hall m hm).1] at happointed
        exact happointed

/-- `_store_memberships` makes permitted calls. -/
lemma uses_storeMemberships_permitted {u : String} {ms : List UserGroupMembership}
    (hrightful : Rightful V p a (.userGroups u) L)
    (hms : ∀ m ∈ ms, m.keycloakSub = u ∧ JustifiedMembership V L m) :
    (VaultGroupMembershipRepository.storeMemberships V.platform V.deployment u ms).Uses
      fun i => PermittedCall V p a i L := by
  have hhex : (RecordKey.userGroups u).Hex := hex_of_tokenId_none rfl
  cases ms with
  | nil =>
      refine Prog.Uses.bind ((Prog.uses_perform _).mpr ?_) fun _ => Prog.uses_pure _
      exact ⟨.userGroups u, hhex, rfl, hrightful, trivial⟩
  | cons m ms =>
      refine (Prog.uses_perform _).mpr ?_
      exact ⟨.userGroups u, hhex, rfl, hrightful, m :: ms, rfl, hms⟩

/-- A call that changes nothing is permitted. -/
lemma permitted_of_within {i : VaultCall} (h : i.Within fun _ => False) :
    PermittedCall V p a i L := by
  cases i with
  | writeSecret k d => exact (h k rfl).elim
  | deleteSecret k => exact (h k rfl).elim
  | _ => trivial

/-- The calls of an upsert of a token are permitted. -/
lemma permitted_upsertCalls {record : IssuedTokenRecord} {previous : Option IssuedTokenRecord}
    (hrightful : ∀ key : RecordKey, key.tokenId = some record.tokenId → Rightful V p a key L)
    (hrecord : JustifiedToken V L record)
    (hprevious : ∀ old, previous = some old → old.tokenId = record.tokenId) {i : VaultCall}
    (hi : i ∈ upsertCalls V.platform V.deployment previous record) :
    PermittedCall V p a i L := by
  have hhex : ∀ key : RecordKey, key.tokenId = some record.tokenId → key.Hex := by
    intro key hkey t ht
    obtain rfl := Option.some.inj (hkey.symm.trans ht)
    exact hrecord.isTokenId.isHexId
  have hwrite : ∀ (key : RecordKey) d, key.tokenId = some record.tokenId → Justified V L key d →
      PermittedCall V p a (.writeSecret (V.paths.pathOf key) d) L :=
    fun key d hkey hjust => ⟨key, hhex key hkey, rfl, hrightful key hkey, hjust⟩
  have hdelete : ∀ key : RecordKey, key.tokenId = some record.tokenId → key.Fleeting →
      PermittedCall V p a (.deleteSecret (V.paths.pathOf key)) L :=
    fun key hkey hfleeting => ⟨key, hhex key hkey, rfl, hrightful key hkey, hfleeting⟩
  simp only [upsertCalls, indexUpdates, List.mem_cons, List.mem_append, List.mem_map,
    List.not_mem_nil, or_false] at hi
  rcases hi with rfl | ((hi | ⟨g, -, rfl⟩) | rfl) | ⟨g, hg, rfl⟩
  · exact hwrite (.token record.tokenId) _ rfl ⟨record, rfl, rfl, hrecord⟩
  · -- the entry of the previous owner is one of the same token
    cases previous with
    | none => cases hi
    | some old =>
        rw [ownerChange] at hi
        split_ifs at hi
        · rw [List.mem_singleton.mp hi]
          exact hdelete (.userToken old.ownerSub old.tokenId)
            (congrArg some (hprevious old rfl)) trivial
        · cases hi
  · exact hdelete (.groupToken g record.tokenId) rfl trivial
  · exact hwrite (.userToken record.ownerSub record.tokenId) _ rfl
      ⟨record, rfl, rfl, rfl, hrecord⟩
  · exact hwrite (.groupToken g record.tokenId) _ rfl ⟨record, rfl, hg, rfl, hrecord⟩

/-! ### Repository calls -/

/-- A lookup of a token. -/
lemma secure_tokenGetJustified {t : String} (hsound : Sound V L) :
    (authority V).Secure p a (VaultTokenRepository.get V.platform V.deployment t)
      (fun r L' => ∀ record, r = .ok (some record) →
        Found V p a t record L' ∧ record.tokenId = t ∧ JustifiedToken V L' record) L := by
  refine secure_read hsound (fun r L₁ e h he hends record hr => ?_) (by rintro _ _ _ ⟨⟩)
    fun L' hsound' record hr => ?_
  · obtain ⟨hfound, hid, hjust⟩ := h record hr
    exact ⟨hfound.cons hends, hid, keeps_justifiedToken record L₁ e hjust he⟩
  · obtain ⟨found, hfound, hall⟩ := hsound'.token t
    obtain rfl := Except.ok.inj (hfound.symm.trans hr)
    obtain ⟨hid, hjust⟩ := hall record rfl
    obtain ⟨d, hread, hdecoded⟩ := decodeRecord_eq_some hfound
    have hcall : Found V p a t record (.call p a (.readSecret (V.paths.tokenPath t))
        (.ok ((V.documents L').read (V.paths.tokenPath t))) (V.documents L') :: L') := by
      rw [hread]
      exact ⟨d, _, L', ownCall_now, hread, hdecoded⟩
    exact ⟨hcall, hid, hjust.cons (.of_read fun _ => rfl)⟩

section

variable (ha : a.Drawn)

include ha

/-- `token_repository.upsert`. -/
lemma secure_upsertJustified {record : IssuedTokenRecord} (hsound : Sound V L)
    (hrightful : ∀ key : RecordKey, key.tokenId = some record.tokenId → Rightful V p a key L)
    (hrecord : JustifiedToken V L record) :
    (authority V).Secure p a (VaultTokenRepository.upsert V.platform V.deployment record)
      (fun _ L' => Sound V L') L := by
  rw [VaultTokenRepository.upsert_eq]
  refine (secure_bind _).mpr ((Secure.leads ha .refl (secure_tokenGetJustified hsound)).mono
    fun r L₁ ⟨hleads, hprevious⟩ => ?_)
  have hsound₁ : Sound V L₁ := keeps_sound.leads hsound hleads
  cases r with
  | error e => exact secure_permitted ha hsound₁ (c := .raise e) trivial
  | ok previous =>
      refine secure_permitted ha hsound₁ ?_
      refine (Prog.uses_performAll fun i hi => ?_).bind fun _ => Prog.uses_pure _
      refine permitted_upsertCalls (fun key hkey => ?_) ?_ (fun old hold => ?_) hi
      · exact (within_rightful key).leads (hrightful key hkey) hleads
      · exact (keeps_justifiedToken record).leads hrecord hleads
      · exact (hprevious old (congrArg Except.ok hold)).2.1

/-- A change of the memberships of a user: what is written back is among what was read,
or is justified by itself. -/
lemma secure_rewriteMemberships {α : Type} {u : String}
    {f : List UserGroupMembership → VaultProg α} (hsound : Sound V L)
    (hf : ∀ loaded L', (authority V).Leads p L L' →
      (∀ m ∈ loaded, m.keycloakSub = u ∧ JustifiedMembership V L' m) →
      (f loaded).Uses fun i => PermittedCall V p a i L') :
    (authority V).Secure p a
      (VaultGroupMembershipRepository.loadMemberships V.platform V.deployment u >>= f)
      (fun _ L' => Sound V L') L := by
  refine (secure_bind _).mpr ((Secure.leads ha .refl (secure_loadJustified hsound)).mono
    fun r L₁ ⟨hleads, hloaded⟩ => ?_)
  have hsound₁ : Sound V L₁ := keeps_sound.leads hsound hleads
  cases r with
  | error e => exact secure_permitted ha hsound₁ (c := .raise e) trivial
  | ok loaded => exact secure_permitted ha hsound₁ (hf loaded L₁ hleads (hloaded loaded rfl).1)

/-- **Every repository call keeps to the protocol**, and tells what it attests. -/
theorem secure_authorityCall (c : RepoCall) (L : ServerLedger π) (hdue : Due V p a c L) :
    (authority V).Secure p a (vaultProgram V.platform V.deployment c)
      (fun r L' => Attested V p a c r L') L := by
  have hsound := hdue.sound
  -- calls that change nothing, and tell nothing
  have hread : (∀ k, ¬ c.Writes V.paths k) → (∀ r L', Attested V p a c r L') →
      (authority V).Secure p a (vaultProgram V.platform V.deployment c)
        (fun r L' => Attested V p a c r L') L := by
    intro hwrites htold
    refine Secure.mono (secure_permitted ha hsound ?_) fun r L' _ => htold r L'
    refine (uses_vaultProgram V.platform V.deployment c).mono fun i hi => ?_
    exact permitted_of_within fun k hk => hwrites k (hi k hk)
  cases c with
  | profileGet u =>
      refine secure_read hsound (fun r => fun L₁ e h _ _ hr => (h hr).cons) (by rintro _ _ ⟨⟩)
        fun L' _ _ => ⟨_, _, _, List.mem_cons_self⟩
  | profileUpsert profile =>
      refine Secure.mono (secure_permitted ha hsound ?_) fun r L' _ => trivial
      refine Prog.Uses.bind ((Prog.uses_perform _).mpr ?_) fun _ => Prog.uses_pure _
      exact ⟨.userProfile profile.keycloakSub, hex_of_tokenId_none rfl, rfl, hdue.2.1, profile,
        rfl, rfl, hdue.2.2⟩
  | isRegistered u =>
      refine secure_perform_of keeps_sound.stable (fun r => ?_) hsound fun L' r w' hsound' hact _ =>
        ⟨guar_of_permitted hsound' trivial hact, ?_⟩
      · exact stable_imp _ (keeps_hasProfile u).stable
      · rintro rfl
        obtain ⟨hfound, rfl⟩ := act_ok hact
        exact Except.ok.inj hfound
  | groupGet g =>
      refine secure_read hsound (fun r L₁ e h he _ found hr => ?_) (by rintro _ _ _ ⟨⟩)
        fun L' _ found hr => ⟨⟨_, _, _, List.mem_cons_self⟩, fun hsome => ?_⟩
      · exact ⟨(h found hr).1.cons, fun hsome => keeps_hasGroup g L₁ e ((h found hr).2 hsome) he⟩
      · show ((V.documents L').read (V.paths.groupDefinitionPath g)).isSome
        cases hdoc : (V.documents L').read (V.paths.groupDefinitionPath g) with
        | none =>
            rw [hdoc] at hr
            obtain rfl := Except.ok.inj hr
            cases hsome
        | some d => rfl
  | groupUpsert group =>
      have hi : ∀ L', (authority V).Leads p L L' → PermittedCall V p a (.writeSecret
          (V.paths.groupDefinitionPath group.name) (serializeGroup V.platform group)) L' := by
        refine fun L' => (within_permittedCall _).leads ?_
        exact ⟨.groupDefinition group.name, hex_of_tokenId_none rfl, rfl, hdue.2.1, group, rfl,
          rfl, hdue.2.2⟩
      refine (secure_bind _).mpr (Secure.mono (Q := fun r L' => r.isOk →
        V.HasGroup (V.documents L') group.name) ?_ fun r L' hpost => ?_)
      · refine secure_perform_of (A := fun L' => Sound V L' ∧ (authority V).Leads p L L')
          (within_and keeps_sound.within (within_leads L)).stable (fun r => ?_) ⟨hsound, .refl⟩
          fun L' r w' hL' hact _ => ⟨guar_of_permitted hL'.1 (hi L' hL'.2) hact, fun hr => ?_⟩
        · exact stable_imp _ (keeps_hasGroup _).stable
        · cases r with
          | error e => cases hr
          | ok _ =>
              obtain ⟨-, rfl⟩ := act_ok hact
              exact congrArg Option.isSome (VaultWorld.read_write_self _ _ _)
      · cases r with
        | error e => rintro _ _ ⟨⟩
        | ok _ => exact fun L'' henv _ => (keeps_hasGroup _).stable.env (hpost rfl) henv
  | membershipAdd m =>
      refine Secure.mono (secure_rewriteMemberships ha hsound fun loaded L' hleads hloaded => ?_)
        fun r L' _ => trivial
      refine Prog.Uses.bind (uses_storeMemberships_permitted ?_ fun x hx => ?_) fun _ =>
        Prog.uses_pure _
      · exact (within_rightful _).leads hdue.2.1 hleads
      · rcases List.mem_append.mp hx with hx | hx
        · exact hloaded x (List.mem_filter.mp hx).1
        · obtain rfl := List.mem_singleton.mp hx
          exact ⟨rfl, (keeps_justifiedMembership x).leads hdue.2.2 hleads⟩
  | membershipRemove u g =>
      refine Secure.mono (secure_rewriteMemberships ha hsound fun loaded L' hleads hloaded => ?_)
        fun r L' _ => trivial
      dsimp only
      split_ifs
      · exact Prog.uses_pure _
      · refine Prog.Uses.bind (uses_storeMemberships_permitted ?_ fun x hx => ?_) fun _ =>
          Prog.uses_pure _
        · exact (within_rightful _).leads hdue.2 hleads
        · exact hloaded x (List.mem_filter.mp hx).1
  | hasMembership u g =>
      refine (secure_bind _).mpr ((secure_loadJustified hsound).mono fun r L₁ hloaded => ?_)
      cases r with
      | error e => rintro _ _ _ ⟨⟩
      | ok ms =>
          obtain ⟨-, hran, hvouched⟩ := hloaded ms rfl
          refine secure_done_of (x := .ok (inGroup g ms)) (fun L₂ e h he b hb => ?_) ?_
          · exact ⟨(h b hb).1.cons, fun hin hg => ((h b hb).2 hin hg).cons he.not_ends⟩
          · rintro _ ⟨⟩
            refine ⟨hran, fun hin hg => hvouched ?_⟩
            rw [← hg]
            exact hin
  | tokenGet t => exact secure_tokenGetJustified hsound
  | tokenUpsert record =>
      exact Secure.mono (secure_upsertJustified ha hsound hdue.2.1 hdue.2.2) fun r L' _ => trivial
  | auditAppend event =>
      refine secure_perform_of keeps_sound.stable (fun r => stable_const _) hsound
        fun L' r w' hsound' hact _ => ⟨guar_of_permitted hsound' trivial hact, ?_⟩
      exact act_auditAppend hact
  | _ => exact hread (fun k h => h) fun _ _ => trivial

end

end GofrSec
