/-
How processes over one Vault keep the token indexes.

* `SharedVault.Issued`, `SharedVault.Indexed`: every index entry belongs to a
  stored token, under its owner or under one of its groups;
* `SharedVault.EntryCall`, `Indexed.call`, `Indexed.writeToken`: the client calls
  that keep this, and leave the stored tokens their owners and groups;
* `indexing`: the protocol of processes all of whose client calls do; a listing of
  a user's tokens that returns ends with tokens of that user;
* `secure_indexCall`: every repository call, at each of its client calls and
  wherever one of them raises, keeps to the protocol and does what
  `indexContract` says, whatever the other processes do meanwhile.
-/
import GofrSec.Properties.TokenProtocol

namespace GofrSec

open Calls Protocol Text VaultPathLayout

/-- The id, the owner and the groups of a record are free of slashes. -/
structure IssuedTokenRecord.Plain (record : IssuedTokenRecord) : Prop where
  tokenId : '/' ∉ record.tokenId.toList
  ownerSub : '/' ∉ record.ownerSub.toList
  grantedGroups : ∀ g ∈ record.grantedGroups, '/' ∉ g.toList

/-- The subjects and the token id that an operation files documents under are free
of slashes. -/
def Op.Slashless : Op → Prop
  | .applyPlan subjects _ _ => ∀ u ∈ normalizeSubjects subjects, '/' ∉ u.toList
  | .registerSelf identity _ _ => '/' ∉ identity.subject.toList
  | .addMembership u _ _ _ _ => '/' ∉ u.toList
  | .removeMembership u _ _ _ _ => '/' ∉ u.toList
  | .mintToken request _ => '/' ∉ request.ownerSub.toList ∧ '/' ∉ request.tokenId.toList
  | _ => True

variable {π : Type} (V : SharedVault)

/-! ### Index entries -/

/-- The canonical record of `t` is that of a token of `u` for the groups `gs`. -/
def SharedVault.Issued (w : VaultWorld) (t u : String) (gs : List String) : Prop :=
  ∃ record, V.token w t = .ok (some record) ∧ record.ownerSub = u ∧ record.grantedGroups = gs

/-- Every canonical record is stored under its own id, and every index entry is
that of a stored token, under its owner or under one of its groups. -/
structure SharedVault.Indexed (w : VaultWorld) : Prop where
  filed : V.Filed w
  plain : ∀ t record, V.token w t = .ok (some record) → record.Plain
  users : ∀ u t, w.read (V.paths.userTokenPath u t) ≠ none → ∃ gs, V.Issued w t u gs
  groups : ∀ g t, w.read (V.paths.groupTokenPath g t) ≠ none → ∃ u gs, V.Issued w t u gs ∧ g ∈ gs

/-- The stored tokens keep their owners and their groups. -/
def SharedVault.Retains (w w' : VaultWorld) : Prop :=
  ∀ t u gs, V.Issued w t u gs → V.Issued w' t u gs

/-- A client call that leaves the canonical documents alone, and writes no index
entry but one of a stored token, under its owner or under one of its groups. -/
def SharedVault.EntryCall (w : VaultWorld) : VaultCall → Prop
  | .writeSecret k _ => (∀ t, k ≠ V.paths.tokenPath t)
      ∧ (∀ u t, k = V.paths.userTokenPath u t → ∃ gs, V.Issued w t u gs)
      ∧ ∀ g t, k = V.paths.groupTokenPath g t → ∃ u gs, V.Issued w t u gs ∧ g ∈ gs
  | .deleteSecret k => ∀ t, k ≠ V.paths.tokenPath t
  | _ => True

section

variable {V} {w w' : VaultWorld} {t u v : String} {gs hs : List String}

/-- A token has one owner. -/
lemma SharedVault.Issued.owner_eq {record : IssuedTokenRecord} (h : V.Issued w t u gs)
    (hrecord : V.token w t = .ok (some record)) : record.ownerSub = u := by
  obtain ⟨record', htoken, howner, -⟩ := h
  obtain rfl := Option.some.inj (Except.ok.inj (hrecord.symm.trans htoken))
  exact howner

lemma SharedVault.Retains.refl : V.Retains w w := fun _ _ _ h => h

/-- The canonical documents are as they were, and every index entry was there before
or is that of a stored token. -/
lemma SharedVault.Indexed.of_entries (h : V.Indexed w)
    (htokens : ∀ t, w'.read (V.paths.tokenPath t) = w.read (V.paths.tokenPath t))
    (husers : ∀ u t, w'.read (V.paths.userTokenPath u t) ≠ none →
      w.read (V.paths.userTokenPath u t) ≠ none ∨ ∃ gs, V.Issued w t u gs)
    (hgroups : ∀ g t, w'.read (V.paths.groupTokenPath g t) ≠ none →
      w.read (V.paths.groupTokenPath g t) ≠ none ∨ ∃ u gs, V.Issued w t u gs ∧ g ∈ gs) :
    V.Indexed w' ∧ V.Retains w w' := by
  have htoken : ∀ t, V.token w' t = V.token w t := fun t => token_congr (htokens t)
  have hretains : V.Retains w w' := by
    rintro t u gs ⟨record, hrecord, hfields⟩
    exact ⟨record, (htoken t).trans hrecord, hfields⟩
  refine ⟨⟨?_, ?_, ?_, ?_⟩, hretains⟩
  · exact fun t record hrecord => h.filed t record ((htoken t).symm.trans hrecord)
  · exact fun t record hrecord => h.plain t record ((htoken t).symm.trans hrecord)
  · intro u t hentry
    obtain ⟨gs, hissued⟩ := (husers u t hentry).elim (h.users u t) id
    exact ⟨gs, hretains _ _ _ hissued⟩
  · intro g t hentry
    obtain ⟨u, gs, hissued, hg⟩ := (hgroups g t hentry).elim (h.groups g t) id
    exact ⟨u, gs, hretains _ _ _ hissued, hg⟩

/-- A call on the entries keeps the indexes. -/
lemma SharedVault.Indexed.call (h : V.Indexed w) {i : VaultCall} (hi : V.EntryCall w i)
    {r : Except PyError i.Res} (hact : V.act i w r w') : V.Indexed w' ∧ V.Retains w w' := by
  cases r with
  | error e =>
      obtain rfl := act_error hact
      exact ⟨h, .refl⟩
  | ok v =>
      obtain ⟨-, rfl⟩ := act_ok hact
      cases i with
      | writeSecret k data =>
          obtain ⟨htoken, huser, hgroup⟩ := hi
          refine h.of_entries (fun t => w.read_write_of_ne _ (htoken t).symm) ?_ ?_
          · intro u t hentry
            by_cases hk : k = V.paths.userTokenPath u t
            · exact Or.inr (huser u t hk)
            · exact Or.inl (by rwa [VaultCall.effect, w.read_write_of_ne _ (Ne.symm hk)] at hentry)
          · intro g t hentry
            by_cases hk : k = V.paths.groupTokenPath g t
            · exact Or.inr (hgroup g t hk)
            · exact Or.inl (by rwa [VaultCall.effect, w.read_write_of_ne _ (Ne.symm hk)] at hentry)
      | deleteSecret k =>
          have hgone : ∀ k', (w.delete k).read k' ≠ none → w.read k' ≠ none := by
            intro k' hentry
            rw [w.read_delete] at hentry
            split_ifs at hentry
            · exact absurd rfl hentry
            · exact hentry
          exact h.of_entries (fun t => w.read_delete_of_ne (hi t).symm)
            (fun u t hentry => Or.inl (hgone _ hentry)) fun g t hentry => Or.inl (hgone _ hentry)
      | auditAppend event =>
          exact h.of_entries (fun _ => rfl) (fun _ _ => Or.inl) fun _ _ => Or.inl
      | _ => exact ⟨h, .refl⟩

/-- The write of a canonical record, in the place of none or of one with the same
owner and the same groups. -/
lemma SharedVault.Indexed.writeToken (h : V.Indexed w) {record : IssuedTokenRecord}
    (hplain : record.Plain) (hold : ∀ old, V.token w record.tokenId = .ok (some old) →
      old.ownerSub = record.ownerSub ∧ old.grantedGroups = record.grantedGroups)
    (hw' : w' = w.write (V.paths.tokenPath record.tokenId) (serializeToken V.platform record)) :
    V.Indexed w' ∧ V.Retains w w'
      ∧ V.Issued w' record.tokenId record.ownerSub record.grantedGroups := by
  have hself : V.token w' record.tokenId = .ok (some record) := by
    rw [hw']
    exact token_of_read (w.read_write_self _ _)
  have hother : ∀ k, k ≠ V.paths.tokenPath record.tokenId → w'.read k = w.read k := by
    intro k hk
    rw [hw', w.read_write_of_ne _ hk]
  have htoken : ∀ t, t ≠ record.tokenId → V.token w' t = V.token w t :=
    fun t ht => token_congr (hother _ fun heq => ht (tokenPath_inj heq))
  have hissued : V.Issued w' record.tokenId record.ownerSub record.grantedGroups :=
    ⟨record, hself, rfl, rfl⟩
  have hretains : V.Retains w w' := by
    rintro t u gs ⟨old, hfound, rfl, rfl⟩
    by_cases ht : t = record.tokenId
    · subst ht
      obtain ⟨howner, hgroups⟩ := hold old hfound
      rw [howner, hgroups]
      exact hissued
    · exact ⟨old, (htoken t ht).trans hfound, rfl, rfl⟩
  refine ⟨⟨?_, ?_, ?_, ?_⟩, hretains, hissued⟩
  · intro t found hfound
    by_cases ht : t = record.tokenId
    · subst ht
      rw [← Option.some.inj (Except.ok.inj (hself.symm.trans hfound))]
    · exact h.filed t found ((htoken t ht).symm.trans hfound)
  · intro t found hfound
    by_cases ht : t = record.tokenId
    · subst ht
      rwa [← Option.some.inj (Except.ok.inj (hself.symm.trans hfound))]
    · exact h.plain t found ((htoken t ht).symm.trans hfound)
  · intro u t hentry
    rw [hother _ (ne_of_area (by decide) (under_userTokenPath u t) (under_tokenPath _))] at hentry
    obtain ⟨gs, hissued'⟩ := h.users u t hentry
    exact ⟨gs, hretains _ _ _ hissued'⟩
  · intro g t hentry
    rw [hother _ (ne_of_area (by decide) (under_groupTokenPath g t) (under_tokenPath _))] at hentry
    obtain ⟨u, gs, hissued', hg⟩ := h.groups g t hentry
    exact ⟨u, gs, hretains _ _ _ hissued', hg⟩

/-! ### The calls of the repositories -/

/-- The paths that the repository call writes to, other than those of a token, are
those of a name free of slashes. -/
def RepoCall.Slashless : RepoCall → Prop
  | .profileUpsert profile => '/' ∉ profile.keycloakSub.toList
  | .groupUpsert group => '/' ∉ group.name.toList
  | .membershipAdd m => '/' ∉ m.keycloakSub.toList
  | .membershipRemove u _ => '/' ∉ u.toList
  | _ => True

/-- A document of a plain user is no document of a token. -/
lemma entryCall_of_user {i : VaultCall} {name : String} (hu : '/' ∉ u.toList)
    (hname : '/' ∉ name.toList)
    (hi : i.Within fun k => k = below (V.paths.userRoot u) name) : V.EntryCall w i := by
  have htoken : ∀ t, below (V.paths.userRoot u) name ≠ V.paths.tokenPath t := fun t =>
    ne_of_area (by decide) (under_userRoot u name) (under_tokenPath t)
  cases i with
  | writeSecret k data =>
      obtain rfl : k = below (V.paths.userRoot u) name := hi k rfl
      refine ⟨htoken, fun u' t h => ?_, fun g t h => ?_⟩
      · exact absurd h.symm (below_below_tokens_ne hu hname)
      · exact absurd h (ne_of_area (by decide) (under_userRoot u name) (under_groupTokenPath g t))
  | deleteSecret k =>
      obtain rfl : k = below (V.paths.userRoot u) name := hi k rfl
      exact htoken
  | _ => trivial

/-- A definition of a plain group is no document of a token. -/
lemma entryCall_of_group {i : VaultCall} {g : String} (hg : '/' ∉ g.toList)
    (hi : i.Within fun k => k = V.paths.groupDefinitionPath g) : V.EntryCall w i := by
  have htoken : ∀ t, V.paths.groupDefinitionPath g ≠ V.paths.tokenPath t := fun t =>
    ne_of_area (by decide) (under_groupDefinitionPath g) (under_tokenPath t)
  cases i with
  | writeSecret k data =>
      obtain rfl : k = V.paths.groupDefinitionPath g := hi k rfl
      refine ⟨htoken, fun u t h => ?_, fun g' t h => ?_⟩
      · exact absurd h (ne_of_area (by decide) (under_groupDefinitionPath g)
          (under_userTokenPath u t))
      · exact absurd h.symm (below_below_tokens_ne hg (by decide))
  | deleteSecret k =>
      obtain rfl : k = V.paths.groupDefinitionPath g := hi k rfl
      exact htoken
  | _ => trivial

lemma entryCall_of_target_none {i : VaultCall} (h : i.target = none) : V.EntryCall w i := by
  cases i with
  | writeSecret k data => exact nomatch h
  | deleteSecret k => exact nomatch h
  | _ => trivial

/-- Every repository call but an upsert of a token keeps off the documents of
tokens. -/
lemma entryCall_of_writes {c : RepoCall} (hc : c.Slashless)
    (hupsert : ∀ record, c ≠ .tokenUpsert record) {i : VaultCall}
    (hi : i.Within (c.Writes V.paths)) : V.EntryCall w i := by
  have hnone : (∀ k, ¬ c.Writes V.paths k) → V.EntryCall w i := by
    intro hwrites
    refine entryCall_of_target_none ?_
    cases htarget : i.target with
    | none => rfl
    | some k => exact absurd (hi k htarget) (hwrites k)
  cases c with
  | profileUpsert profile => exact entryCall_of_user hc (by decide) hi
  | groupUpsert group => exact entryCall_of_group hc hi
  | membershipAdd m => exact entryCall_of_user hc (by decide) hi
  | membershipRemove u g => exact entryCall_of_user hc (by decide) hi
  | tokenUpsert record => exact absurd rfl (hupsert record)
  | _ => exact hnone fun _ => id

/-- The calls of an upsert on the indexes, while its record is stored. -/
lemma entryCall_of_indexUpdates {previous : Option IssuedTokenRecord} {record : IssuedTokenRecord}
    {i : VaultCall} (hi : i ∈ indexUpdates V.deployment previous record) (hplain : record.Plain)
    (hissued : V.Issued w record.tokenId record.ownerSub record.grantedGroups) :
    V.EntryCall w i := by
  have hnot : ∀ k, i.target = some k → ∀ t, k ≠ V.paths.tokenPath t := by
    rintro k htarget t rfl
    rcases within_indexUpdates hi _ htarget with ⟨u, t', h⟩ | ⟨g, t', h⟩
    · exact ne_of_area (by decide) (under_tokenPath t) (under_userTokenPath u t') h
    · exact ne_of_area (by decide) (under_tokenPath t) (under_groupTokenPath g t') h
  simp only [indexUpdates, List.mem_append, List.mem_map, List.mem_singleton] at hi
  rcases hi with ((hi | ⟨g, -, rfl⟩) | rfl) | ⟨g, hg, rfl⟩
  · cases previous with
    | none => cases hi
    | some old =>
        rw [ownerChange] at hi
        split_ifs at hi
        · obtain rfl := List.mem_singleton.mp hi
          exact hnot _ rfl
        · cases hi
  · exact hnot _ rfl
  · refine ⟨hnot _ rfl, fun u t h => ?_, fun g t h => ?_⟩
    · obtain ⟨rfl, rfl⟩ := below_below_tokens_inj hplain.ownerSub hplain.tokenId h.symm
      exact ⟨_, hissued⟩
    · exact absurd h (ne_of_area (by decide) (under_userTokenPath _ _) (under_groupTokenPath g t))
  · refine ⟨hnot _ rfl, fun u t h => ?_, fun g' t h => ?_⟩
    · exact absurd h (ne_of_area (by decide) (under_groupTokenPath _ _) (under_userTokenPath u t))
    · obtain ⟨rfl, rfl⟩ :=
        below_below_tokens_inj (hplain.grantedGroups g hg) hplain.tokenId h.symm
      exact ⟨_, _, hissued, hg⟩

/-- The names listed below the entries of a user are ids of the user's tokens. -/
lemma issued_of_listed (h : V.Indexed w) {key : String}
    (hkey : key ∈ V.server.arrange (w.names (V.paths.userTokensRoot u))) :
    ∃ gs, V.Issued w (rstripSlash key) u gs := by
  obtain ⟨k, d, hread, hnext⟩ := VaultWorld.mem_names.mp (VaultServer.mem_arrange.mp hkey)
  rcases nextSegment_eq_some hnext with ⟨hslash, rfl⟩ | ⟨v, rest, -, -, rfl⟩
  · obtain ⟨gs, hissued⟩ := h.users u key fun hnone => nomatch hread.symm.trans hnone
    exact ⟨gs, (rstripSlash_of_slashless hslash).symm ▸ hissued⟩
  · -- an entry that lies deeper would be that of an id with a slash
    exfalso
    have hentry : w.read (V.paths.userTokenPath u (below v rest)) ≠ none := by
      intro hnone
      rw [VaultPathLayout.userTokenPath, ← below_below] at hnone
      exact nomatch hread.symm.trans hnone
    obtain ⟨gs, record, hrecord, -⟩ := h.users u _ hentry
    refine (h.plain _ record hrecord).tokenId ?_
    rw [h.filed _ record hrecord]
    exact slash_mem_below v rest

end

/-! ### The protocol -/

/-- A call that writes a canonical document does so as `TokenWrite` says. -/
def TokenWrites (L : VaultLedger π) : VaultEvent π → Prop
  | .call _ o i r w' => ∀ t v, i.target = some (V.paths.tokenPath t) → r = .ok v →
      V.TokenWrite o t (V.after L) w'
  | .finish _ _ _ => True

/-- A listing of a user's tokens that returns has tokens of that user only. -/
def ListsOwn : Op → Except PyError Value → Prop
  | .listSelfTokens identity _ _, r => ∀ records, r = .ok (.tokens records) →
      ∀ record ∈ records, record.ownerSub = identity.subject
  | _, _ => True

/-- Processes whose client calls all leave the indexes right, and the stored tokens
their owners and groups. -/
def indexing : VaultProtocol π where
  act := V.act
  start := V.start
  Runs _ o := o.Slashless
  Ok := TokenWrites V
  Guar L
    | .call _ _ _ _ w' => V.Indexed w' ∧ V.Retains (V.after L) w'
    | .finish _ o r => ListsOwn o r

variable {V} {p : π} {o : Op} {L L' : VaultLedger π}

lemma keeps_indexed : (indexing V).Keeps fun L : VaultLedger π => V.Indexed (V.after L) := by
  intro L e h he
  cases e with
  | call q o i r w' => exact he.guar.1
  | finish q o r => exact h

lemma keeps_issued (t u : String) (gs : List String) :
    (indexing V).Keeps fun L : VaultLedger π => V.Issued (V.after L) t u gs := by
  intro L e h he
  cases e with
  | call q o i r w' => exact he.guar.2 t u gs h
  | finish q o r => exact h

/-! ### The repository calls amid the steps of others -/

/-- What the record of an upsert needs: that of a new token is active, and that of a
stored one has its owner and its groups. -/
def MayFile (V : SharedVault) (record : IssuedTokenRecord) (L : VaultLedger π) : Prop :=
  record.status = "active" ∨
    V.Issued (V.after L) record.tokenId record.ownerSub record.grantedGroups

/-- What a repository call tells: a lookup and a listing the owners of the tokens that
they return, an append that it does not raise. -/
def Tells (V : SharedVault) :
    (c : RepoCall) → Except PyError c.Res → VaultLedger π → Prop
  | .tokenGet t, r, L => ∀ record, r = .ok (some record) → record.tokenId = t ∧ record.Plain
      ∧ V.Issued (V.after L) t record.ownerSub record.grantedGroups
  | .tokensForUser u, r, _ => ∀ records, r = .ok records → ∀ record ∈ records, record.ownerSub = u
  | .auditAppend _, r, _ => r = .ok ()
  | _, _, _ => True

/-- The repository calls of an operation amid the steps of other processes. -/
def indexContract (V : SharedVault) : Contract RepoCall RepoCall.Res PyError (VaultLedger π) where
  pre c L := V.Indexed (V.after L) ∧ c.Slashless
    ∧ ∀ record, c = .tokenUpsert record → record.Plain ∧ MayFile V record L
  post c _ r L' := V.Indexed (V.after L') ∧ Tells V c r L'

lemma keeps_tells (c : RepoCall) (r : Except PyError c.Res) :
    (indexing V).Keeps (Tells (π := π) V c r) := by
  intro L e h he
  cases c with
  | tokenGet t =>
      intro record hrecord
      obtain ⟨hid, hplain, hissued⟩ := h record hrecord
      exact ⟨hid, hplain, keeps_issued _ _ _ L e hissued he⟩
  | tokensForUser u => exact h
  | auditAppend event => exact h
  | _ => trivial

lemma keeps_mayFile (record : IssuedTokenRecord) :
    (indexing V).Keeps (MayFile (π := π) V record) :=
  fun L e h he => h.imp_right fun hissued => keeps_issued _ _ _ L e hissued he

lemma stable_indexPost (c : RepoCall) (r : Except PyError c.Res) :
    (indexing V).Stable p fun L' => (indexContract V).post c L r L' :=
  stable_and keeps_indexed.stable (keeps_tells c r).stable

section Calls

variable (hruns : o.Slashless)

include hruns

/-- A program of calls on the entries keeps what every step keeps. -/
lemma secure_entries {α : Type} {c : VaultProg α} {U : VaultCall → Prop}
    {A : VaultLedger π → Prop} (hA : (indexing V).Keeps A)
    (hindexed : ∀ L, A L → V.Indexed (V.after L))
    (hU : ∀ i L, U i → A L → V.EntryCall (V.after L) i) (hc : c.Uses U) (h : A L) :
    (indexing V).Secure p o c (fun _ L' => A L') L := by
  refine secure_of_uses hA.stable (fun i L₁ r w' hi hA₁ hact hok => ?_) hc h
  have hguar : (indexing V).Guar L₁ (.call p o i r w') :=
    (hindexed L₁ hA₁).call (hU i L₁ hi hA₁) hact
  exact ⟨hguar, hA L₁ _ hA₁ ⟨hruns, hact, hok, hguar⟩⟩

/-- A call that stores no token and tells nothing of any. -/
lemma secure_otherCall {c : RepoCall} (hc : c.Slashless)
    (hupsert : ∀ record, c ≠ .tokenUpsert record)
    (htells : ∀ r (L' : VaultLedger π), Tells V c r L') (h : V.Indexed (V.after L)) :
    (indexing V).Secure p o (vaultProgram V.platform V.deployment c)
      (fun r L' => (indexContract V).post c L r L') L := by
  refine (secure_entries hruns keeps_indexed (fun _ h => h)
    (fun i L' hi _ => entryCall_of_writes hc hupsert hi)
    (uses_vaultProgram V.platform V.deployment c) h).mono fun r L' h => ?_
  exact ⟨h, htells r L'⟩

/-- The lookup of a token tells its owner and its groups. -/
lemma secure_getToken {A : VaultLedger π → Prop} (hA : (indexing V).Keeps A)
    (hindexed : ∀ L, A L → V.Indexed (V.after L)) (t : String) (h : A L) :
    (indexing V).Secure p o (VaultTokenRepository.get V.platform V.deployment t)
      (fun r L' => A L' ∧ Tells V (.tokenGet t) r L') L := by
  have hpost : ∀ r, (indexing V).Stable p fun L' => A L' ∧ Tells V (.tokenGet t) r L' :=
    fun r => stable_and hA.stable (keeps_tells _ r).stable
  refine (secure_bind _).mpr (secure_perform_of hA.stable
    (fun r => ?_) h fun L' r w' hA' hact hok => ?_)
  · exact fun L₁ e hsecure he => Secure.env hsecure (.single ⟨e, he, rfl⟩)
  obtain ⟨rfl, hfound⟩ := act_readSecret hact
  have hguar : (indexing V).Guar L' (.call p o (.readSecret (V.paths.tokenPath t)) r
      ((indexing V).now L')) := (hindexed L' hA').call (by trivial) hact
  have hallowed : (indexing V).Allowed L' (.call p o (.readSecret (V.paths.tokenPath t)) r
      ((indexing V).now L')) := ⟨hruns, hact, hok, hguar⟩
  have hA'' := hA L' _ hA' hallowed
  refine ⟨hguar, ?_⟩
  cases r with
  | error e =>
      exact secure_done_of (x := .error e) (hpost (.error e)) ⟨hA'', fun _ h => nomatch h⟩
  | ok found =>
      obtain rfl := hfound found rfl
      refine secure_done_of (hpost _) ⟨hA'', fun record hrecord => ?_⟩
      have htoken : V.token (V.after L') t = .ok (some record) := hrecord
      exact ⟨(hindexed L' hA').filed t record htoken, (hindexed L' hA').plain t record htoken,
        record, htoken, rfl, rfl⟩

omit hruns in
/-- The write of a canonical record, as an upsert makes it. -/
lemma secure_fileToken {record : IssuedTokenRecord} (hplain : record.Plain)
    (h : V.Indexed (V.after L) ∧ MayFile V record L) :
    (indexing V).Secure p o
      (writeSecret (V.paths.tokenPath record.tokenId) (serializeToken V.platform record))
      (fun r L' => V.Indexed (V.after L') ∧ (r.isOk →
        V.Issued (V.after L') record.tokenId record.ownerSub record.grantedGroups)) L := by
  refine secure_perform_of (stable_and keeps_indexed.stable (keeps_mayFile record).stable)
    (fun r => stable_and keeps_indexed.stable (stable_imp _ (keeps_issued _ _ _).stable)) h ?_
  rintro L' r w' ⟨hindexed, hmay⟩ hact hok
  cases r with
  | error e =>
      obtain rfl := act_error hact
      exact ⟨⟨hindexed, .refl⟩, hindexed, fun h => nomatch h⟩
  | ok v =>
      obtain ⟨-, rfl⟩ := act_ok hact
      have hsame : ∀ old, V.token (V.after L') record.tokenId = .ok (some old) →
          old.ownerSub = record.ownerSub ∧ old.grantedGroups = record.grantedGroups := by
        intro old hold
        rcases hmay with hactive | ⟨current, hcurrent, howner, hgroups⟩
        · -- a new token: the protocol of the canonical documents says that there was none
          obtain ⟨written, hread, -, ⟨hnone, -⟩ | ⟨-, hrevoked⟩⟩ := hok record.tokenId v rfl rfl
          · exact absurd (stored_of_token hold) hnone
          · have hwritten := (token_of_read hread).symm.trans
              (token_of_read ((V.after L').read_write_self _ _))
            rw [Option.some.inj (Except.ok.inj hwritten), hactive] at hrevoked
            exact absurd hrevoked (by decide)
        · obtain rfl := Option.some.inj (Except.ok.inj (hold.symm.trans hcurrent))
          exact ⟨howner, hgroups⟩
      obtain ⟨hindexed', hretains, hissued⟩ := hindexed.writeToken hplain hsame rfl
      exact ⟨⟨hindexed', hretains⟩, hindexed', fun _ => hissued⟩

/-- The upsert of a token record. -/
lemma secure_upsertToken {record : IssuedTokenRecord} (hplain : record.Plain)
    (h : V.Indexed (V.after L) ∧ MayFile V record L) :
    (indexing V).Secure p o (vaultProgram V.platform V.deployment (.tokenUpsert record))
      (fun r L' => (indexContract V).post (.tokenUpsert record) L r L') L := by
  show (indexing V).Secure p o (VaultTokenRepository.upsert V.platform V.deployment record) _ _
  rw [VaultTokenRepository.upsert_eq]
  have hpost : ∀ r : Except PyError IssuedTokenRecord, (indexing V).Stable p fun L' =>
      (indexContract V).post (.tokenUpsert record) L r L' :=
    fun r => stable_indexPost (.tokenUpsert record) r
  have hstart : (indexing V).Keeps fun L' : VaultLedger π =>
      V.Indexed (V.after L') ∧ MayFile V record L' :=
    fun L e h he => ⟨keeps_indexed L e h.1 he, keeps_mayFile record L e h.2 he⟩
  refine (secure_bind _).mpr ((secure_getToken hruns hstart (fun _ h => h.1) record.tokenId h).mono
    fun r L₁ h₁ => ?_)
  cases r with
  | error e => exact secure_done_of (hpost (.error e)) ⟨h₁.1.1, trivial⟩
  | ok previous =>
      refine (secure_bind _).mpr ?_
      rw [upsertCalls, Prog.performAll_cons]
      refine (secure_bind _).mpr ((secure_fileToken hplain h₁.1).mono fun r L₂ h₂ => ?_)
      cases r with
      | error e =>
          intro L₃ henv L₄ henv'
          exact (hpost (.error e)).env ⟨h₂.1, trivial⟩ (henv.trans henv')
      | ok v =>
          -- from here on the record is stored, and its entries may be written
          have hfiled : (indexing V).Keeps fun L' : VaultLedger π => V.Indexed (V.after L')
              ∧ V.Issued (V.after L') record.tokenId record.ownerSub record.grantedGroups :=
            fun L e h he => ⟨keeps_indexed L e h.1 he, keeps_issued _ _ _ L e h.2 he⟩
          refine (secure_entries hruns hfiled (fun _ h => h.1)
            (fun i L' hi h => entryCall_of_indexUpdates hi hplain h.2)
            (Prog.uses_performAll fun i hi => hi) ⟨h₂.1, h₂.2 rfl⟩).mono fun r L₃ h₃ => ?_
          cases r with
          | error e => exact secure_done_of (hpost (.error e)) ⟨h₃.1, trivial⟩
          | ok _ => exact secure_done_of (hpost (.ok record)) ⟨h₃.1, trivial⟩

/-- The loop over listed ids, each of which is that of a token of the user. -/
lemma secure_recordsOf {u : String} {keys : List String}
    (h : V.Indexed (V.after L) ∧ ∀ key ∈ keys, ∃ gs, V.Issued (V.after L) (rstripSlash key) u gs) :
    (indexing V).Secure p o (VaultTokenRepository.recordsOf V.platform V.deployment keys)
      (fun r L' => V.Indexed (V.after L')
        ∧ ∀ records, r = .ok records → ∀ record ∈ records, record.ownerSub = u) L := by
  have hpost : ∀ r : Except PyError (List IssuedTokenRecord), (indexing V).Stable p fun L' =>
      V.Indexed (V.after L') ∧ ∀ records, r = .ok records → ∀ record ∈ records,
        record.ownerSub = u := fun r => stable_and keeps_indexed.stable (stable_const _)
  induction keys generalizing L with
  | nil =>
      refine secure_done_of (x := .ok []) (hpost _) ⟨h.1, ?_⟩
      rintro _ ⟨⟩ record hrecord
      cases hrecord
  | cons key keys ih =>
      have hrest := fun k hk => h.2 k (List.mem_cons_of_mem _ hk)
      rw [VaultTokenRepository.recordsOf]
      split_ifs
      · exact ih ⟨h.1, hrest⟩
      · have hkeys : (indexing V).Keeps fun L' : VaultLedger π => V.Indexed (V.after L')
            ∧ ∀ k ∈ key :: keys, ∃ gs, V.Issued (V.after L') (rstripSlash k) u gs :=
          fun L e h he => ⟨keeps_indexed L e h.1 he, fun k hk =>
            (h.2 k hk).imp fun gs hgs => keeps_issued _ _ _ L e hgs he⟩
        refine (secure_bind _).mpr ((secure_getToken hruns hkeys (fun _ h => h.1) _ h).mono
          fun r L₁ h₁ => ?_)
        obtain ⟨⟨hindexed, hissued⟩, htells⟩ := h₁
        cases r with
        | error e => exact fun L₂ henv =>
            (hpost (.error e)).env ⟨hindexed, by rintro _ ⟨⟩⟩ henv
        | ok found =>
            have hfound : ∀ record ∈ found.toList, record.ownerSub = u := by
              intro record hrecord
              obtain ⟨-, -, current, hcurrent, howner, -⟩ :=
                htells record (congrArg _ (Option.mem_toList.mp hrecord))
              obtain ⟨gs, hgs⟩ := hissued key List.mem_cons_self
              exact howner.symm.trans (hgs.owner_eq hcurrent)
            refine (secure_bind _).mpr ((ih ⟨hindexed, fun k hk =>
              hissued k (List.mem_cons_of_mem _ hk)⟩).mono fun r L₂ h₂ => ?_)
            obtain ⟨hindexed₂, hrecords⟩ := h₂
            cases r with
            | error e => exact fun L₃ henv =>
                (hpost (.error e)).env ⟨hindexed₂, by rintro _ ⟨⟩⟩ henv
            | ok records =>
                refine secure_done_of (x := .ok (found.toList ++ records)) (hpost _)
                  ⟨hindexed₂, ?_⟩
                rintro _ ⟨⟩ record hrecord
                exact (List.mem_append.mp hrecord).elim (hfound record)
                  (hrecords records rfl record)

/-- The listing of a user's tokens. -/
lemma secure_tokensForUser (u : String) (h : V.Indexed (V.after L)) :
    (indexing V).Secure p o (vaultProgram V.platform V.deployment (.tokensForUser u))
      (fun r L' => (indexContract V).post (.tokensForUser u) L r L') L := by
  have hpost : ∀ r : Except PyError (List IssuedTokenRecord), (indexing V).Stable p fun L' =>
      (indexContract V).post (.tokensForUser u) L r L' :=
    fun r => stable_indexPost (.tokensForUser u) r
  refine (secure_bind _).mpr (secure_perform_of keeps_indexed.stable (fun r => ?_) h
    fun L' r w' h' hact hok => ?_)
  · exact fun L₁ e hsecure he => Secure.env hsecure (.single ⟨e, he, rfl⟩)
  have hguar : (indexing V).Guar L' (.call p o (.listSecrets (V.paths.userTokensRoot u)) r w') :=
    h'.call (by trivial) hact
  refine ⟨hguar, ?_⟩
  cases r with
  | error e => exact secure_done_of (hpost (.error e)) ⟨hguar.1, fun _ h => nomatch h⟩
  | ok keys =>
      obtain ⟨hkeys, rfl⟩ := act_ok hact
      refine secure_recordsOf hruns ⟨hguar.1, fun key hkey => ?_⟩
      rw [← Except.ok.inj hkeys] at hkey
      exact issued_of_listed hguar.1 hkey

omit hruns in
/-- The append of an audit event. -/
lemma secure_appendAudit (event : AuditEvent) (h : V.Indexed (V.after L)) :
    (indexing V).Secure p o (vaultProgram V.platform V.deployment (.auditAppend event))
      (fun r L' => (indexContract V).post (.auditAppend event) L r L') L := by
  refine secure_perform_of keeps_indexed.stable
    (fun r => stable_indexPost (.auditAppend event) r) h fun L' r w' h' hact hok => ?_
  have hguar : (indexing V).Guar L' (.call p o (.auditAppend event) r w') :=
    h'.call (by trivial) hact
  exact ⟨hguar, hguar.1, act_auditAppend hact⟩

/-- **Every repository call keeps to the protocol.** -/
theorem secure_indexCall (c : RepoCall) (L : VaultLedger π) (hpre : (indexContract V).pre c L) :
    (indexing V).Secure p o (vaultProgram V.platform V.deployment c)
      (fun r L' => (indexContract V).post c L r L') L := by
  obtain ⟨hindexed, hslashless, hupsert⟩ := hpre
  cases c with
  | tokenGet t => exact secure_getToken hruns keeps_indexed (fun _ h => h) t hindexed
  | tokenUpsert record =>
      obtain ⟨hplain, hmay⟩ := hupsert record rfl
      exact secure_upsertToken hruns hplain ⟨hindexed, hmay⟩
  | tokensForUser u => exact secure_tokensForUser hruns u hindexed
  | auditAppend event => exact secure_appendAudit event hindexed
  | _ =>
      exact secure_otherCall hruns hslashless (fun _ h => nomatch h) (fun _ _ => trivial) hindexed

end Calls

end GofrSec
