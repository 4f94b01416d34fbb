/-
An upsert of a token record that is tried again after a failure.

* `ExactIndexes`: the index entries of a store are those of its canonical records;
* `attempt`, `Converges`: an attempt at an upsert of which one call raises, and what a
  retry that returns is to leave, the documents of one uninterrupted upsert;
* `stalePaths`: what an upsert deletes, between its write of the canonical record and its
  other writes; a retry no longer does (`indexUpdates_eq`, `stalePaths_self`);
* `converges_iff`: the retry converges exactly when the first attempt to get past the
  canonical record got past the last deletion.
-/
import GofrSec.Calls.Failing
import GofrSec.Properties.TokenIndexRuns

namespace GofrSec

open Calls Text VaultPathLayout

/-- The canonical records are the tokens, and the index entries are theirs. -/
structure ExactIndexes (P : Platform) (D : VaultDeployment)
    (tokens : Keyed IssuedTokenRecord.tokenId) (w : VaultWorld) : Prop where
  canonical : ∀ t, w.read (D.paths.tokenPath t) = (tokens.find t).map (serializeToken P)
  users : ∀ s t, w.read (D.paths.userTokenPath s t)
    = ((tokens.find t).filter fun record => record.ownerSub = s).map userEntry
  groups : ∀ g t, w.read (D.paths.groupTokenPath g t)
    = ((tokens.find t).filter fun record => g ∈ record.grantedGroups).map fun record =>
        groupEntry record g

/-- What the upsert leaves when its call number `f.1`, counted from zero, raises `f.2` without
taking effect. -/
def attempt (P : Platform) (D : VaultDeployment) (server : VaultServer)
    (record : IssuedTokenRecord) (w : VaultWorld) (f : ℕ × PyError) : VaultWorld :=
  ((VaultTokenRepository.upsert P D record).run (server.exec.failing f.2) (w, some f.1)).2.1

/-- After the attempts `fs` the upsert, tried once more, returns and leaves the documents that
it would have left without them. -/
def Converges (P : Platform) (D : VaultDeployment) (server : VaultServer)
    (record : IssuedTokenRecord) (w : VaultWorld) (fs : List (ℕ × PyError)) : Prop :=
  let retry := (VaultTokenRepository.upsert P D record).run server.exec
    (fs.foldl (attempt P D server record) w)
  let single := (VaultTokenRepository.upsert P D record).run server.exec w
  retry.1 = .ok record ∧ ∀ k, retry.2.read k = single.2.read k

/-- The paths that an upsert deletes, in this order: the entry under the previous owner, if
that is another one, and those under the groups no longer granted. -/
def stalePaths (D : VaultDeployment) (previous : Option IssuedTokenRecord)
    (record : IssuedTokenRecord) : List String :=
  (previous.toList.filter fun old => old.ownerSub ≠ record.ownerSub).map
      (fun old => D.paths.userTokenPath old.ownerSub old.tokenId)
    ++ (staleGroups D previous record).map fun groupName =>
      D.paths.groupTokenPath groupName record.tokenId

variable {P : Platform} {D : VaultDeployment} {server : VaultServer} {w w' : VaultWorld}
  {tokens : Keyed IssuedTokenRecord.tokenId} {record : IssuedTokenRecord}
  {previous : Option IssuedTokenRecord} {k : String}

/-! ### The calls of a retry -/

/-- An upsert over the same record deletes nothing. -/
lemma stalePaths_self : stalePaths D (some record) record = [] := by
  have hgroups : staleGroups D (some record) record = [] := by
    refine List.eq_nil_iff_forall_not_mem.mpr fun g hg => ?_
    obtain ⟨⟨old, hold, hmem⟩, hnot⟩ := mem_staleGroups.mp hg
    obtain rfl := Option.some.inj hold
    exact hnot hmem
  rw [stalePaths, hgroups]
  simp

lemma ownerChange_eq : ownerChange D previous record
    = ((previous.toList.filter fun old => old.ownerSub ≠ record.ownerSub).map
        fun old => D.paths.userTokenPath old.ownerSub old.tokenId).map .deleteSecret := by
  cases previous with
  | none => rfl
  | some old =>
      rw [ownerChange]
      split_ifs with h <;> simp [h]

/-- The calls of an upsert on the indexes are the deletions and then those of a retry. -/
lemma indexUpdates_eq (previous : Option IssuedTokenRecord) : indexUpdates D previous record
    = (stalePaths D previous record).map .deleteSecret ++ indexUpdates D (some record) record := by
  have hsplit : ∀ old : Option IssuedTokenRecord, indexUpdates D old record
      = (stalePaths D old record).map .deleteSecret
        ++ ([.writeSecret (D.paths.userTokenPath record.ownerSub record.tokenId)
            (userEntry record)]
          ++ record.grantedGroups.map fun groupName =>
              .writeSecret (D.paths.groupTokenPath groupName record.tokenId)
                (groupEntry record groupName)) := fun old => by
    simp only [indexUpdates, stalePaths, ownerChange_eq, List.map_append, List.map_map,
      List.append_assoc]
    rfl
  rw [hsplit previous, hsplit (some record), stalePaths_self, List.map_nil, List.nil_append]

/-- A document after several steps, over two stores that agree at it or in which a step
changes it. -/
lemma read_effects_congr {cs : List VaultCall}
    (h : w.read k = w'.read k ∨ ∃ c ∈ cs, c.target = some k) :
    (VaultCall.effects cs w).read k = (VaultCall.effects cs w').read k := by
  induction cs generalizing w w' with
  | nil => exact h.resolve_right (by simp)
  | cons c cs ih =>
      refine ih ?_
      by_cases htarget : c.target = some k
      · left
        cases c with
        | writeSecret path data =>
            obtain rfl := Option.some.inj htarget
            exact (w.read_write_self _ _).trans (w'.read_write_self _ _).symm
        | deleteSecret path =>
            obtain rfl := Option.some.inj htarget
            exact (w.read_delete_self _).trans (w'.read_delete_self _).symm
        | _ => cases htarget
      · rw [VaultCall.read_effect w htarget, VaultCall.read_effect w' htarget]
        refine h.imp id ?_
        rintro ⟨c', hc', htarget'⟩
        rcases List.mem_cons.mp hc' with rfl | hc'
        · exact absurd htarget' htarget
        · exact ⟨c', hc', htarget'⟩

/-! ### One attempt -/

/-- The previous record that an upsert reads. -/
abbrev Reads (P : Platform) (D : VaultDeployment) (w : VaultWorld) (record : IssuedTokenRecord)
    (previous : Option IssuedTokenRecord) : Prop :=
  decodeRecord (deserializeToken P D.now) (w.read (D.paths.tokenPath record.tokenId))
    = .ok previous

/-- An attempt makes the calls that come before the one that raises. -/
lemma attempt_eq (h : Reads P D w record previous) (f : ℕ × PyError) :
    attempt P D server record w f
      = VaultCall.effects ((upsertCalls P D previous record).take (f.1 - 1)) w := by
  obtain ⟨n, e⟩ := f
  have hok : ∀ i ∈ upsertCalls P D previous record, ∀ w', ((server.exec i w').1).isOk := by
    intro i _ w'
    cases i <;> rfl
  have heffect : (fun (w : VaultWorld) (i : VaultCall) => (server.exec i w).2)
      = fun w i => i.effect w := by
    funext w i
    exact server.exec_snd i w
  rw [attempt, VaultTokenRepository.upsert_eq, Prog.run_bind, VaultTokenRepository.get, getRecord,
    Prog.run_bind, Prog.run_perform]
  cases n with
  | zero => rfl
  | succ n =>
      simp only [Exec.failing, VaultServer.exec, Prog.onReturn_ok, Prog.run_lift]
      rw [h, Prog.onReturn_ok, Prog.run_bind, Nat.add_sub_cancel, VaultCall.effects, ← heffect,
        ← Prog.run_failing_performAll (e := e) hok]
      cases ((Prog.performAll (upsertCalls P D previous record)).run (server.exec.failing e)
        (w, some n)).1 <;> rfl

/-- An upsert that no failure interrupts makes all of its calls. -/
lemma run_upsert (h : Reads P D w record previous) :
    (VaultTokenRepository.upsert P D record).run server.exec w
      = (.ok record, VaultCall.effects (upsertCalls P D previous record) w) := by
  refine VaultServer.run_eq_of_wp ?_
  exact wp_upsertToken h ⟨rfl, rfl⟩ fun hf => hf.elim

/-! ### What has to be deleted -/

/-- A path that a retry writes. -/
def Rewritten (P : Platform) (D : VaultDeployment) (record : IssuedTokenRecord) (k : String) :
    Prop :=
  ∃ c ∈ upsertCalls P D (some record) record, c.target = some k

/-- A retry writes the canonical record and its entries. -/
lemma path_of_rewritten (h : Rewritten P D record k) : k = D.paths.tokenPath record.tokenId
    ∨ k = D.paths.userTokenPath record.ownerSub record.tokenId
    ∨ ∃ g ∈ record.grantedGroups, k = D.paths.groupTokenPath g record.tokenId := by
  obtain ⟨c, hc, htarget⟩ := h
  rcases List.mem_cons.mp hc with rfl | hc
  · exact Or.inl (Option.some.inj htarget).symm
  · simp only [indexUpdates, List.mem_append, List.mem_map, List.mem_singleton] at hc
    rcases hc with ((hc | ⟨g, hg, rfl⟩) | rfl) | ⟨g, hg, rfl⟩
    · obtain ⟨old, hold, hne, -⟩ := target_ownerChange hc
      obtain rfl := Option.some.inj hold
      exact absurd rfl hne
    · obtain ⟨⟨old, hold, hgroup⟩, hnot⟩ := mem_staleGroups.mp hg
      obtain rfl := Option.some.inj hold
      exact absurd hgroup hnot
    · exact Or.inr (Or.inl (Option.some.inj htarget).symm)
    · exact Or.inr (Or.inr ⟨g, hg, (Option.some.inj htarget).symm⟩)

/-- Several deletions. -/
lemma read_effects_delete (paths : List String) (k : String) (w : VaultWorld) :
    (VaultCall.effects (paths.map .deleteSecret) w).read k
      = if k ∈ paths then none else w.read k := by
  induction paths generalizing w with
  | nil => simp [VaultCall.effects]
  | cons path paths ih =>
      rw [List.map_cons, VaultCall.effects, List.foldl_cons, ← VaultCall.effects, ih,
        VaultCall.effect, VaultWorld.read_delete]
      by_cases hk : k = path <;> simp [hk]

/-- A stale path is that of an entry that the previous record has and the new one has not. -/
lemma mem_stalePaths {path : String} (hmem : path ∈ stalePaths D previous record) :
    ∃ old ∈ previous,
      (path = D.paths.userTokenPath old.ownerSub old.tokenId ∧ old.ownerSub ≠ record.ownerSub)
        ∨ ∃ g ∈ old.grantedGroups, g ∉ record.grantedGroups
          ∧ path = D.paths.groupTokenPath g record.tokenId := by
  rcases List.mem_append.mp hmem with hmem | hmem
  · obtain ⟨old, hold, rfl⟩ := List.mem_map.mp hmem
    obtain ⟨hold, hne⟩ := List.mem_filter.mp hold
    exact ⟨old, Option.mem_toList.mp hold, Or.inl ⟨rfl, of_decide_eq_true hne⟩⟩
  · obtain ⟨g, hg, rfl⟩ := List.mem_map.mp hmem
    obtain ⟨⟨old, hold, hgroup⟩, hnot⟩ := mem_staleGroups.mp hg
    exact ⟨old, hold, Or.inr ⟨g, hgroup, hnot, rfl⟩⟩

/-- No entry is deleted twice. -/
lemma nodup_stalePaths : (stalePaths D previous record).Nodup := by
  refine List.nodup_append.mpr ⟨?_, ?_, ?_⟩
  · cases previous with
    | none => exact List.nodup_nil
    | some old =>
        by_cases hne : old.ownerSub ≠ record.ownerSub <;> simp [hne]
  · refine List.Nodup.map (fun g h heq => groupTokenPath_left_inj heq) ?_
    rw [staleGroups, (D.iterate_perm _).nodup_iff]
    exact (List.nodup_dedup _).filter _
  · intro path hpath path' hpath' heq
    obtain ⟨old, -, rfl⟩ := List.mem_map.mp hpath
    obtain ⟨g, -, rfl⟩ := List.mem_map.mp hpath'
    exact ne_of_area (by decide) (under_userTokenPath _ _) (under_groupTokenPath g _) heq

/-- With exact indexes there is a document at each stale path, and a retry does not write
there. -/
lemma ExactIndexes.stale (h : ExactIndexes P D tokens w) {path : String}
    (hmem : path ∈ stalePaths D (tokens.find record.tokenId) record) :
    (w.read path).isSome ∧ ¬ Rewritten P D record path := by
  obtain ⟨old, hold, hcases⟩ := mem_stalePaths hmem
  have hid : old.tokenId = record.tokenId := tokens.key_eq _ old hold
  have hfind : tokens.find record.tokenId = some old := hold
  rcases hcases with ⟨rfl, hne⟩ | ⟨g, hg, hnot, rfl⟩
  · rw [hid]
    constructor
    · rw [h.users, hfind]
      simp [Option.filter]
    · intro hrewritten
      rcases path_of_rewritten hrewritten with heq | heq | ⟨g, -, heq⟩
      · exact ne_of_area (by decide) (under_userTokenPath _ _) (under_tokenPath _) heq
      · exact hne (userTokenPath_left_inj heq)
      · exact ne_of_area (by decide) (under_userTokenPath _ _) (under_groupTokenPath _ _) heq
  · constructor
    · rw [h.groups, hfind]
      simp [Option.filter, hg]
    · intro hrewritten
      rcases path_of_rewritten hrewritten with heq | heq | ⟨g', hg', heq⟩
      · exact ne_of_area (by decide) (under_groupTokenPath _ _) (under_tokenPath _) heq
      · exact ne_of_area (by decide) (under_groupTokenPath _ _) (under_userTokenPath _ _) heq
      · exact hnot (groupTokenPath_left_inj heq ▸ hg')

/-! ### What attempts leave -/

/-- The state in which the canonical record has been written and the paths `gone` deleted;
what a retry writes is left open. -/
structure HalfDone (P : Platform) (D : VaultDeployment) (w : VaultWorld)
    (record : IssuedTokenRecord) (gone : List String) (w' : VaultWorld) : Prop where
  canonical : w'.read (D.paths.tokenPath record.tokenId) = some (serializeToken P record)
  rest : ∀ k, ¬ Rewritten P D record k → w'.read k = if k ∈ gone then none else w.read k

/-- Calls of a retry leave the other documents alone. -/
lemma read_effects_retry {cs : List VaultCall}
    (hcs : ∀ c ∈ cs, c ∈ upsertCalls P D (some record) record) (hk : ¬ Rewritten P D record k)
    (w : VaultWorld) : (VaultCall.effects cs w).read k = w.read k :=
  VaultCall.read_effects w fun c hc htarget => hk ⟨c, hcs c hc, htarget⟩

/-- The calls of an upsert up to some of those on the indexes. -/
lemma read_take_upsertCalls (previous : Option IssuedTokenRecord)
    (hk : ¬ Rewritten P D record k) (m : ℕ) (w : VaultWorld) :
    (VaultCall.effects ((upsertCalls P D previous record).take (m + 1)) w).read k
      = if k ∈ (stalePaths D previous record).take m then none else w.read k := by
  have hne : k ≠ D.paths.tokenPath record.tokenId := by
    rintro rfl
    exact hk ⟨_, List.mem_cons_self, rfl⟩
  rw [upsertCalls, List.take_succ_cons, indexUpdates_eq, List.take_append, VaultCall.effects,
    List.foldl_cons, ← VaultCall.effects, VaultCall.effects_append,
    read_effects_retry (P := P) ?_ hk, ← List.map_take, read_effects_delete, VaultCall.effect,
    VaultWorld.read_write_of_ne _ _ hne]
  exact fun c hc => List.mem_cons_of_mem _ (List.mem_of_mem_take hc)

/-- The canonical record after some of the calls of an upsert. -/
lemma read_take_tokenPath (m : ℕ) (w : VaultWorld) :
    (VaultCall.effects ((upsertCalls P D previous record).take (m + 1)) w).read
      (D.paths.tokenPath record.tokenId) = some (serializeToken P record) := by
  rw [upsertCalls, List.take_succ_cons]
  exact (read_upsert_tokenPath (fun c hc => List.mem_of_mem_take hc) _ w).trans (if_pos rfl)

/-- An attempt that gets past the write of the canonical record. -/
lemma halfDone_attempt (h : Reads P D w record previous) {f : ℕ × PyError} (hf : 2 ≤ f.1) :
    HalfDone P D w record ((stalePaths D previous record).take (f.1 - 2))
      (attempt P D server record w f) := by
  obtain ⟨m, hm⟩ : ∃ m, f.1 = m + 2 := ⟨f.1 - 2, by omega⟩
  rw [attempt_eq h, hm]
  exact ⟨read_take_tokenPath m w, fun k hk => read_take_upsertCalls _ hk m w⟩

/-- Further attempts change nothing of it. -/
lemma HalfDone.attempt {gone : List String} (h : HalfDone P D w record gone w')
    (f : ℕ × PyError) : HalfDone P D w record gone (attempt P D server record w' f) := by
  have hreads : Reads P D w' record (some record) := by
    rw [Reads, h.canonical, decodeRecord, deserializeToken_serializeToken]
    rfl
  rw [attempt_eq hreads]
  refine ⟨?_, fun k hk => ?_⟩
  · cases f.1 - 1 with
    | zero => exact h.canonical
    | succ m => exact read_take_tokenPath m w'
  · rw [read_effects_retry (fun c hc => List.mem_of_mem_take hc) hk]
    exact h.rest k hk

/-- What a retry writes does not depend on the state it finds. -/
lemma read_rewritten (hk : Rewritten P D record k) :
    (VaultCall.effects (upsertCalls P D (some record) record) w').read k
      = (VaultCall.effects (upsertCalls P D previous record) w).read k := by
  obtain ⟨c, hc, htarget⟩ := hk
  rw [upsertCalls, upsertCalls, VaultCall.effects, VaultCall.effects, List.foldl_cons,
    List.foldl_cons, ← VaultCall.effects, ← VaultCall.effects]
  rcases List.mem_cons.mp hc with rfl | hc
  · obtain rfl := Option.some.inj htarget
    exact ((read_upsert_tokenPath (fun c hc => hc) _ w').trans (if_pos rfl)).trans
      ((read_upsert_tokenPath (fun c hc => hc) _ w).trans (if_pos rfl)).symm
  · rw [indexUpdates_eq previous, VaultCall.effects_append]
    exact read_effects_congr (Or.inr ⟨c, hc, htarget⟩)

/-- What the upsert leaves when it returns from such a state. -/
lemma HalfDone.converges_iff {gone : List String} (h : HalfDone P D w record gone w') :
    (∀ k, (VaultCall.effects (upsertCalls P D (some record) record) w').read k
        = (VaultCall.effects (upsertCalls P D previous record) w).read k)
      ↔ ∀ k, ¬ Rewritten P D record k → (if k ∈ gone then none else w.read k)
          = if k ∈ stalePaths D previous record then none else w.read k := by
  have hretry : ∀ k, ¬ Rewritten P D record k →
      (VaultCall.effects (upsertCalls P D (some record) record) w').read k
        = if k ∈ gone then none else w.read k := fun k hk =>
    (read_effects_retry (fun c hc => hc) hk w').trans (h.rest k hk)
  have hsingle : ∀ k, ¬ Rewritten P D record k →
      (VaultCall.effects (upsertCalls P D previous record) w).read k
        = if k ∈ stalePaths D previous record then none else w.read k := by
    intro k hk
    have hall := read_take_upsertCalls (P := P) (D := D) previous hk
      ((upsertCalls P D previous record).length + (stalePaths D previous record).length) w
    rwa [List.take_of_length_le (by omega), List.take_of_length_le (by omega)] at hall
  constructor
  · intro hall k hk
    rw [← hretry k hk, ← hsingle k hk]
    exact hall k
  · intro hall k
    by_cases hk : Rewritten P D record k
    · exact read_rewritten hk
    · rw [hretry k hk, hsingle k hk]
      exact hall k hk

/-- It leaves what it is to leave if nothing stale is left. -/
lemma ExactIndexes.gone_iff (h : ExactIndexes P D tokens w) (j : ℕ) :
    (∀ k, ¬ Rewritten P D record k →
        (if k ∈ (stalePaths D (tokens.find record.tokenId) record).take j then none else w.read k)
          = if k ∈ stalePaths D (tokens.find record.tokenId) record then none else w.read k)
      ↔ (stalePaths D (tokens.find record.tokenId) record).length ≤ j := by
  constructor
  · intro hall
    by_contra hlt
    rw [not_le] at hlt
    -- the first path that is left
    have hmem := List.getElem_mem hlt
    obtain ⟨hsome, hrest⟩ := h.stale hmem
    have hread := hall _ hrest
    rw [if_pos hmem, if_neg] at hread
    · rw [hread] at hsome
      cases hsome
    · intro htake
      obtain ⟨i, hi, heq⟩ := List.mem_take_iff_getElem.mp htake
      have hij := nodup_stalePaths.getElem_inj_iff.mp heq
      omega
  · intro hle k _
    rw [List.take_of_length_le hle]

/-! ### Any number of attempts -/

/-- The state after several attempts: as it was, or half done since the first of them that
got past the write of the canonical record. -/
lemma foldl_attempt (server : VaultServer) (h : Reads P D w record previous)
    (fs : List (ℕ × PyError)) :
    ((fs.map Prod.fst).find? (fun n => 2 ≤ n) = none → fs.foldl (attempt P D server record) w = w)
      ∧ ∀ n, (fs.map Prod.fst).find? (fun n => 2 ≤ n) = some n →
          HalfDone P D w record ((stalePaths D previous record).take (n - 2))
            (fs.foldl (attempt P D server record) w) := by
  induction fs with
  | nil => exact ⟨fun _ => rfl, by simp⟩
  | cons f fs ih =>
      rw [List.map_cons, List.foldl_cons]
      by_cases hf : 2 ≤ f.1
      · rw [List.find?_cons_of_pos (by simpa using hf)]
        refine ⟨by simp, fun n hn => ?_⟩
        obtain rfl := Option.some.inj hn
        -- every later attempt keeps what the first has left
        have hkeep : ∀ (gs : List (ℕ × PyError)) w', HalfDone P D w record
            ((stalePaths D previous record).take (f.1 - 2)) w' → HalfDone P D w record
            ((stalePaths D previous record).take (f.1 - 2))
            (gs.foldl (attempt P D server record) w') := by
          intro gs
          induction gs with
          | nil => exact fun _ hw' => hw'
          | cons g gs ih => exact fun _ hw' => ih _ (hw'.attempt g)
        exact hkeep fs _ (halfDone_attempt h hf)
      · have hstay : attempt P D server record w f = w := by
          rw [attempt_eq h, show f.1 - 1 = 0 by omega]
          rfl
        rw [List.find?_cons_of_neg (by simpa using hf), hstay]
        exact ih

/-- **Retrying an interrupted upsert.** Over exact indexes, for any record and any failed
attempts: the upsert, tried until it returns, leaves the documents of a single uninterrupted
one exactly when the first attempt to get past the write of the canonical record, its second
call, got past the last deletion. -/
theorem upsert_retry_iff (h : ExactIndexes P D tokens w) (record : IssuedTokenRecord)
    (fs : List (ℕ × PyError)) :
    Converges P D server record w fs
      ↔ ∀ n, (fs.map Prod.fst).find? (fun n => 2 ≤ n) = some n →
          (stalePaths D (tokens.find record.tokenId) record).length + 1 < n := by
  have hreads : Reads P D w record (tokens.find record.tokenId) := by
    rw [Reads, h.canonical]
    exact decodeRecord_map (fun record => deserializeToken_serializeToken record) _
  obtain ⟨hnone, hsome⟩ := foldl_attempt server hreads fs
  cases hfirst : (fs.map Prod.fst).find? fun n => 2 ≤ n with
  | none =>
      rw [Converges, hnone hfirst, run_upsert hreads]
      simp
  | some n =>
      have hn : 2 ≤ n := by simpa using List.find?_some hfirst
      have hhalf := hsome n hfirst
      have hretry : Reads P D (fs.foldl (attempt P D server record) w) record (some record) := by
        rw [Reads, hhalf.canonical, decodeRecord, deserializeToken_serializeToken]
        rfl
      rw [Converges, run_upsert hretry, run_upsert hreads]
      simp only [true_and]
      rw [hhalf.converges_iff, h.gone_iff]
      constructor
      · intro hle m hm
        obtain rfl := Option.some.inj hm
        omega
      · intro hall
        have hlt := hall n rfl
        omega

/-- A store that holds tokens and nothing else has exact indexes. -/
lemma HoldsTokens.exactIndexes (h : HoldsTokens P D tokens w) : ExactIndexes P D tokens w :=
  ⟨h.canonical, h.users, h.groups⟩

/-- The store with one token of "alice". -/
def aliceToken : VaultWorld := upserts .python .python .inOrder [teamRecord]

/-- The token given to "bob". -/
def bobRecord : IssuedTokenRecord := { teamRecord with ownerSub := "bob" }

lemma exactIndexes_aliceToken :
    ExactIndexes .python .python (tokensOf [teamRecord]) aliceToken := by
  refine (holdsTokens_upserts VaultServer.inOrder ?_).exactIndexes
  exact List.forall_mem_cons.mpr ⟨⟨⟨by decide, by decide, by decide⟩, by decide⟩, by simp⟩

/-- A failure of the write of the new owner's entry is made good. -/
theorem upsert_retry_bobRecord :
    Converges .python .python .inOrder bobRecord aliceToken
      [(3, .other "VaultError" "sealed")] := by
  refine (upsert_retry_iff exactIndexes_aliceToken bobRecord _).mpr fun n hn => ?_
  have hlength : (stalePaths .python ((tokensOf [teamRecord]).find bobRecord.tokenId)
      bobRecord).length = 1 := by decide +kernel
  obtain rfl : 3 = n := Option.some.inj hn
  rw [hlength]
  decide

/-- When the deletion of the previous owner's entry fails, the retry does not make it. -/
theorem stale_entry_after_retry :
    ExactIndexes .python .python (tokensOf [teamRecord]) aliceToken
      ∧ ¬ Converges .python .python .inOrder bobRecord aliceToken
          [(2, .other "VaultError" "sealed")] := by
  refine ⟨exactIndexes_aliceToken, ?_⟩
  rintro ⟨-, hall⟩
  have hread := congrArg Option.isSome
    (hall (VaultDeployment.python.paths.userTokenPath "alice" bobRecord.tokenId))
  revert hread
  decide +kernel

end GofrSec
