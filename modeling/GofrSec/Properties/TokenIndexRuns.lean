/-
The token indexes are exact.

* `upserts`: the store after any sequence of upserts of token records, on an empty one;
* `HoldsTokens`, `HoldsTokens.upsert`: the documents of a store that holds the tokens of a
  map, and nothing else, and what an upsert makes of them;
* `TokensExact`: the indexes say what the canonical records say, and the listings of a
  user's tokens, of the repository and of the service, answer accordingly;
* `token_indexes_exact`: so it is after every sequence of upserts.
-/
import GofrSec.Properties.IndexProtocol
import GofrSec.Services.Runs

namespace GofrSec

open Calls Text VaultPathLayout

variable {P : Platform} {D : VaultDeployment} {server : VaultServer} {w : VaultWorld}
  {tokens : Keyed IssuedTokenRecord.tokenId} {record : IssuedTokenRecord}

/-! ### Stores that hold tokens only -/

/-- The store holds the canonical records and the index entries of the tokens, and no other
document of a token. -/
structure HoldsTokens (P : Platform) (D : VaultDeployment)
    (tokens : Keyed IssuedTokenRecord.tokenId) (w : VaultWorld) : Prop where
  canonical : ∀ t, w.read (D.paths.tokenPath t) = (tokens.find t).map (serializeToken P)
  users : ∀ s t, w.read (D.paths.userTokenPath s t)
    = ((tokens.find t).filter fun record => record.ownerSub = s).map userEntry
  groups : ∀ g t, w.read (D.paths.groupTokenPath g t)
    = ((tokens.find t).filter fun record => g ∈ record.grantedGroups).map fun record =>
        groupEntry record g
  plain : ∀ t record, tokens.find t = some record → record.Plain ∧ record.tokenId ≠ ""

namespace HoldsTokens

lemma empty : HoldsTokens P D .empty VaultWorld.empty where
  canonical _ := rfl
  users _ _ := rfl
  groups _ _ := rfl
  plain _ _ h := nomatch h

/-- An id with a slash is that of no token. -/
lemma find_of_slash (h : HoldsTokens P D tokens w) {t : String} (ht : '/' ∈ t.toList) :
    tokens.find t = none := by
  cases hfind : tokens.find t with
  | none => rfl
  | some found =>
      have hplain := (h.plain t found hfind).1.tokenId
      rw [tokens.key_eq t found hfind] at hplain
      exact absurd ht hplain

/-- The canonical documents decode to the tokens. -/
lemma decodeToken (h : HoldsTokens P D tokens w) (t : String) :
    decodeRecord (deserializeToken P D.now) (w.read (D.paths.tokenPath t))
      = .ok (tokens.find t) := by
  rw [h.canonical]
  exact decodeRecord_map (fun record => deserializeToken_serializeToken record) _

/-- A document that an upsert leaves at an entry of an id with a slash would be one that it
found there. -/
lemma read_upsert_of_slash {k : String} {previous : Option IssuedTokenRecord}
    (hw : w.read k = none) (htoken : ∀ t, k ≠ D.paths.tokenPath t)
    (hentry : ∀ data, .writeSecret k data ∉ indexUpdates D previous record) :
    (VaultCall.effects (upsertCalls P D previous record) w).read k = none := by
  cases hread : (VaultCall.effects (upsertCalls P D previous record) w).read k with
  | none => rfl
  | some d =>
      exfalso
      rcases VaultCall.exists_of_read_effects hread with ⟨d', hd'⟩ | ⟨data, hdata⟩
      · exact nomatch hd'.symm.trans hw
      · rcases List.mem_cons.mp hdata with heq | hmem
        · exact htoken _ (VaultCall.writeSecret.inj heq).1
        · exact hentry data hmem

/-- An index entry after an upsert: that of the new record if it belongs there, and none of
the previous one. -/
lemma entry_upsert (belongs : IssuedTokenRecord → Prop) [DecidablePred belongs]
    (entry : IssuedTokenRecord → Doc) (previous : Option IssuedTokenRecord) :
    (if belongs record then some (entry record)
      else if ∃ old ∈ previous, belongs old then none else (previous.filter belongs).map entry)
      = ((some record).filter belongs).map entry := by
  by_cases hrecord : belongs record
  · simp [hrecord]
  · cases previous with
    | none => simp [hrecord]
    | some old => by_cases hold : belongs old <;> simp [Option.filter, hrecord, hold]

/-- **What an upsert leaves.** -/
theorem upsert (h : HoldsTokens P D tokens w) (hplain : record.Plain) (hid : record.tokenId ≠ "") :
    HoldsTokens P D (tokens.insert record)
      (VaultCall.effects (upsertCalls P D (tokens.find record.tokenId) record) w) := by
  have hold : ∀ old ∈ tokens.find record.tokenId, old.tokenId = record.tokenId :=
    fun old hmem => tokens.key_eq _ old hmem
  have hslash : ∀ t, '/' ∈ t.toList → t ≠ record.tokenId := by
    rintro t ht rfl
    exact hplain.tokenId ht
  refine ⟨fun t => ?_, fun s t => ?_, fun g t => ?_, fun t found hfound => ?_⟩
  · refine (read_upsert_tokenPath (fun c hc => hc) t w).trans ?_
    rw [Keyed.find_insert]
    split_ifs
    · rfl
    · exact h.canonical t
  · by_cases ht : t = record.tokenId
    · subst ht
      rw [read_upsert_userTokenPath hold, Keyed.find_insert_self, h.users]
      simp only [eq_comm (a := s)]
      exact entry_upsert (fun record => record.ownerSub = s) userEntry _
    · rw [Keyed.find_insert_of_ne _ ht]
      by_cases hts : '/' ∈ t.toList
      · rw [h.find_of_slash hts]
        refine read_upsert_of_slash (by rw [h.users, h.find_of_slash hts]; rfl)
          (fun t' => ne_of_area (by decide) (under_userTokenPath s t) (under_tokenPath t')) ?_
        intro data hmem
        exact ht (below_below_tokens_inj hplain.ownerSub hplain.tokenId
          (user_of_write_indexUpdates hmem)).2
      · rw [(read_upsert_of_ne hold hplain.tokenId hts ht w s "").1, h.users]
  · by_cases ht : t = record.tokenId
    · subst ht
      rw [read_upsert_groupTokenPath, Keyed.find_insert_self, h.groups]
      exact entry_upsert (fun record => g ∈ record.grantedGroups)
        (fun record => groupEntry record g) _
    · rw [Keyed.find_insert_of_ne _ ht]
      by_cases hts : '/' ∈ t.toList
      · rw [h.find_of_slash hts]
        refine read_upsert_of_slash (by rw [h.groups, h.find_of_slash hts]; rfl)
          (fun t' => ne_of_area (by decide) (under_groupTokenPath g t) (under_tokenPath t')) ?_
        intro data hmem
        obtain ⟨g', hg', heq⟩ := group_of_write_indexUpdates hmem
        exact ht (below_below_tokens_inj (hplain.grantedGroups g' hg') hplain.tokenId heq).2
      · rw [(read_upsert_of_ne hold hplain.tokenId hts ht w "" g).2, h.groups]
  · rw [Keyed.find_insert] at hfound
    split_ifs at hfound
    · obtain rfl := Option.some.inj hfound
      exact ⟨hplain, hid⟩
    · exact h.plain t found hfound

/-- The names listed below the entries of a user are the ids of the user's tokens. -/
lemma mem_names (h : HoldsTokens P D tokens w) {s t : String} :
    t ∈ w.names (D.paths.userTokensRoot s)
      ↔ ∃ record, tokens.find t = some record ∧ record.ownerSub = s := by
  have hentry : ∀ t, w.read (D.paths.userTokenPath s t) ≠ none
      ↔ ∃ record, tokens.find t = some record ∧ record.ownerSub = s := by
    intro t
    rw [h.users, ne_eq, Option.map_eq_none_iff, Option.filter_eq_none_iff]
    simp
  rw [VaultWorld.mem_names]
  constructor
  · rintro ⟨k, d, hk, hnext⟩
    rcases nextSegment_eq_some hnext with ⟨-, rfl⟩ | ⟨u, rest, -, -, rfl⟩
    · refine (hentry t).mp fun hnone => ?_
      cases hk.symm.trans hnone
    · exfalso
      have hdeep : w.read (D.paths.userTokenPath s (below u rest)) ≠ none := by
        intro hnone
        rw [VaultPathLayout.userTokenPath, ← below_below] at hnone
        cases hk.symm.trans hnone
      obtain ⟨record, hrecord, -⟩ := (hentry _).mp hdeep
      cases (h.find_of_slash (slash_mem_below u rest)).symm.trans hrecord
  · intro howned
    obtain ⟨d, hd⟩ := Option.ne_none_iff_exists'.mp ((hentry t).mpr howned)
    refine ⟨_, d, hd, nextSegment_below fun hslash => ?_⟩
    obtain ⟨record, hrecord, -⟩ := howned
    cases (h.find_of_slash hslash).symm.trans hrecord

/-- The repository lists every token of a user once. -/
lemma listForUser (h : HoldsTokens P D tokens w) (server : VaultServer) (s : String) :
    ∃ found, (VaultTokenRepository.listForUser P D s).run server.exec w = (.ok found, w)
      ∧ tokens.Lists (·.ownerSub = s) found := by
  have hmem : ∀ t, t ∈ server.arrange (w.names (D.paths.userTokensRoot s))
      ↔ ∃ record, tokens.find t = some record ∧ record.ownerSub = s := by
    intro t
    rw [VaultServer.mem_arrange]
    exact h.mem_names
  have hsegment : ∀ t ∈ server.arrange (w.names (D.paths.userTokensRoot s)), IsSegment t := by
    intro t ht
    obtain ⟨record, hrecord, -⟩ := (hmem t).mp ht
    obtain ⟨hplain, hid⟩ := h.plain t record hrecord
    rw [tokens.key_eq t record hrecord] at hid
    exact ⟨hid, fun hslash => nomatch (h.find_of_slash hslash).symm.trans hrecord⟩
  refine ⟨(server.arrange (w.names (D.paths.userTokensRoot s))).flatMap fun t =>
    (tokens.find t).toList, ?_, ?_⟩
  · refine VaultServer.run_eq_of_wp ?_
    rw [VaultTokenRepository.listForUser, Prog.wp_bind, VaultServer.wp_listSecrets]
    refine ⟨wp_recordsOf (fun key _ => h.decodeToken _) ⟨?_, rfl⟩ fun hf => hf.elim,
      fun hf => hf.elim⟩
    rw [flatMap_stripped (f := fun t => (tokens.find t).toList) hsegment]
  · refine Keyed.lists_of_keys ((server.arrange_perm _).nodup_iff.mpr (w.nodup_names _))
      fun t record hrecord => ?_
    rw [hmem]
    constructor
    · rintro ⟨record', hrecord', howner⟩
      rwa [Option.some.inj (hrecord.symm.trans hrecord')]
    · exact fun howner => ⟨record, hrecord, howner⟩

end HoldsTokens

/-! ### Sequences of upserts -/

/-- The store after upserts of records on an empty one, the newest record first. -/
def upserts (P : Platform) (D : VaultDeployment) (server : VaultServer) :
    List IssuedTokenRecord → VaultWorld
  | [] => VaultWorld.empty
  | record :: records =>
      ((VaultTokenRepository.upsert P D record).run server.exec (upserts P D server records)).2

/-- The tokens after upserts of records, the newest record first. -/
def tokensOf (records : List IssuedTokenRecord) : Keyed IssuedTokenRecord.tokenId :=
  records.foldr (fun record tokens => tokens.insert record) .empty

lemma find_tokensOf (records : List IssuedTokenRecord) (t : String) :
    (tokensOf records).find t = records.find? fun record => record.tokenId = t := by
  induction records with
  | nil => rfl
  | cons record records ih =>
      rw [tokensOf, List.foldr_cons, ← tokensOf, Keyed.find_insert, List.find?_cons, ih]
      by_cases ht : t = record.tokenId
      · simp [ht]
      · simp [ht, Ne.symm ht]

/-- An upsert takes effect. -/
lemma HoldsTokens.run_upsert (h : HoldsTokens P D tokens w) (server : VaultServer)
    (record : IssuedTokenRecord) :
    (VaultTokenRepository.upsert P D record).run server.exec w
      = (.ok record, VaultCall.effects (upsertCalls P D (tokens.find record.tokenId) record) w) :=
  VaultServer.run_eq_of_wp
    (wp_upsertToken (h.decodeToken record.tokenId) ⟨rfl, rfl⟩ fun hf => hf.elim)

lemma holdsTokens_upserts (server : VaultServer) {records : List IssuedTokenRecord}
    (hplain : ∀ record ∈ records, record.Plain ∧ record.tokenId ≠ "") :
    HoldsTokens P D (tokensOf records) (upserts P D server records) := by
  induction records with
  | nil => exact .empty
  | cons record records ih =>
      have hrest := ih fun r hr => hplain r (List.mem_cons_of_mem _ hr)
      obtain ⟨hrecord, hid⟩ := hplain record List.mem_cons_self
      rw [upserts, hrest.run_upsert server record]
      exact hrest.upsert hrecord hid

/-! ### The indexes are exact -/

/-- What a repository makes of the canonical document of a token. -/
def canonicalToken (P : Platform) (D : VaultDeployment) (w : VaultWorld) (t : String) :
    Except PyError (Option IssuedTokenRecord) :=
  decodeRecord (deserializeToken P D.now) (w.read (D.paths.tokenPath t))

/-- The indexes say what the canonical records say, and listings answer accordingly. -/
structure TokensExact (P : Platform) (D : VaultDeployment) (server : VaultServer)
    (w : VaultWorld) : Prop where
  user_iff : ∀ s t, w.read (D.paths.userTokenPath s t) ≠ none
    ↔ ∃ record, canonicalToken P D w t = .ok (some record) ∧ record.ownerSub = s
  group_iff : ∀ g t, w.read (D.paths.groupTokenPath g t) ≠ none
    ↔ ∃ record, canonicalToken P D w t = .ok (some record) ∧ g ∈ record.grantedGroups
  user_carries : ∀ s t entry, w.read (D.paths.userTokenPath s t) = some entry →
    ∃ record, canonicalToken P D w t = .ok (some record)
      ∧ entry.field "owner_sub" = some (.str record.ownerSub)
      ∧ entry.field "status" = some (.str record.status)
  group_carries : ∀ g t entry, w.read (D.paths.groupTokenPath g t) = some entry →
    ∃ record, canonicalToken P D w t = .ok (some record)
      ∧ entry.field "owner_sub" = some (.str record.ownerSub)
      ∧ entry.field "status" = some (.str record.status)
  listed : ∀ s, ∃ found,
    (VaultTokenRepository.listForUser P D s).run server.exec w = (.ok found, w)
      ∧ found.Nodup ∧ ∀ record, record ∈ found
        ↔ (∃ t, canonicalToken P D w t = .ok (some record)) ∧ record.ownerSub = s
  sorted : ∀ identity correlationId clock found,
    ((VaultTokenRepository.listForUser P D identity.subject).run server.exec w).1 = .ok found →
    ∃ listed, ((listSelfTokens identity correlationId clock).run
        ((Storage.vault D server).exec P) w).1 = .ok listed
      ∧ listed.Perm found ∧ listed.Pairwise fun a b => b.issuedAt ≤ a.issuedAt

/-- `sorted` puts the latest first. -/
lemma pairwise_sortByIssuedAt (records : List IssuedTokenRecord) :
    (sortByIssuedAt records).Pairwise fun a b => b.issuedAt ≤ a.issuedAt := by
  have htotal : Std.Total fun a b : IssuedTokenRecord => b.issuedAt ≤ a.issuedAt :=
    ⟨fun a b => le_total b.issuedAt.micros a.issuedAt.micros⟩
  have htrans : IsTrans IssuedTokenRecord fun a b => b.issuedAt ≤ a.issuedAt :=
    ⟨fun a b c hab hbc => le_trans (show c.issuedAt.micros ≤ b.issuedAt.micros from hbc) hab⟩
  exact List.pairwise_insertionSort _ records

/-- A listing of the service is the one of the repository, sorted. -/
lemma run_listSelfTokens {identity : VerifiedIdentity} {correlationId : Option String}
    {clock : Clock} {found : List IssuedTokenRecord}
    (hfound : ((VaultTokenRepository.listForUser P D identity.subject).run server.exec w).1
      = .ok found) :
    ((listSelfTokens identity correlationId clock).run ((Storage.vault D server).exec P) w).1
      = .ok (sortByIssuedAt found) := by
  have hcall : ((Storage.vault D server).exec P (.tokensForUser identity.subject) w).1
      = .ok found := hfound
  have hbody : ((do
      let records ← tokensForUser identity.subject
      pure (sortByIssuedAt records) : RepoProg (List IssuedTokenRecord)).run
        ((Storage.vault D server).exec P) w).1 = .ok (sortByIssuedAt found) := by
    rw [Prog.run_bind, Prog.run_perform, hcall]
    rfl
  rw [listSelfTokens, audited, Prog.run_handle, hbody]
  rfl

/-- The documents of tokens only make exact indexes. -/
theorem HoldsTokens.exact (h : HoldsTokens P D tokens w) (server : VaultServer) :
    TokensExact P D server w := by
  have hcanonical : ∀ t record, canonicalToken P D w t = .ok (some record)
      ↔ tokens.find t = some record := by
    intro t record
    rw [canonicalToken, h.decodeToken, Except.ok.injEq]
  refine ⟨fun s t => ?_, fun g t => ?_, fun s t entry hentry => ?_, fun g t entry hentry => ?_,
    fun s => ?_, fun identity correlationId clock found hfound => ?_⟩
  · simp [h.users, hcanonical]
  · simp [h.groups, hcanonical]
  · rw [h.users, Option.map_eq_some_iff] at hentry
    obtain ⟨record, hrecord, rfl⟩ := hentry
    exact ⟨record, (hcanonical t record).mpr (Option.filter_eq_some_iff.mp hrecord).1, rfl, rfl⟩
  · rw [h.groups, Option.map_eq_some_iff] at hentry
    obtain ⟨record, hrecord, rfl⟩ := hentry
    exact ⟨record, (hcanonical t record).mpr (Option.filter_eq_some_iff.mp hrecord).1, rfl, rfl⟩
  · obtain ⟨found, hrun, hlists⟩ := h.listForUser server s
    refine ⟨found, hrun, hlists.nodup, fun record => ?_⟩
    rw [hlists.2, and_congr_left_iff]
    intro _
    constructor
    · exact fun hfind => ⟨record.tokenId, (hcanonical _ _).mpr hfind⟩
    · rintro ⟨t, hcanon⟩
      have hfind := (hcanonical t record).mp hcanon
      rwa [tokens.key_eq t record hfind]
  · exact ⟨_, run_listSelfTokens hfound, List.perm_insertionSort _ _, pairwise_sortByIssuedAt found⟩

/-- **Token indexes are exact.** After every sequence of upserts on an empty store, of
records of any ids, owners, groups and status, an entry stands under a subject for just the
tokens that the subject owns, and under a group for just the tokens that are granted it;
each entry carries the owner and the status of the last record of its id, the repository
lists each token of a user once and no other, and the service lists the same ones with the
latest first. -/
theorem token_indexes_exact (P : Platform) (D : VaultDeployment) (server : VaultServer)
    {records : List IssuedTokenRecord}
    (hplain : ∀ record ∈ records, record.Plain ∧ record.tokenId ≠ "") :
    TokensExact P D server (upserts P D server records)
      ∧ ∀ t, canonicalToken P D (upserts P D server records) t
        = .ok (records.find? fun record => record.tokenId = t) := by
  have hholds : HoldsTokens P D (tokensOf records) (upserts P D server records) :=
    holdsTokens_upserts server hplain
  refine ⟨hholds.exact server, fun t => ?_⟩
  rw [canonicalToken, hholds.decodeToken, find_tokensOf]

/-- A token that comes back revoked, under another owner. -/
theorem token_indexes_exact_teamRecord :
    let records := [{ teamRecord with ownerSub := "bob", status := "revoked" }, teamRecord]
    TokensExact .python .python .inOrder (upserts .python .python .inOrder records)
      ∧ ∀ t, canonicalToken .python .python (upserts .python .python .inOrder records) t
        = .ok (records.find? fun record => record.tokenId = t) := by
  refine token_indexes_exact .python .python .inOrder ?_
  simp only [List.forall_mem_cons]
  exact ⟨⟨⟨by decide, by decide, by decide⟩, by decide⟩,
    ⟨⟨by decide, by decide, by decide⟩, by decide⟩, fun _ h => nomatch h⟩

end GofrSec
