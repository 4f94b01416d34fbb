/-
What an upsert of a token record leaves at each path.

* `read_upsert_tokenPath`, `read_upsert_userTokenPath`,
  `read_upsert_groupTokenPath`: the canonical record is the new one, and of
  the index entries of its id exactly those of its owner and of its groups are
  there, each carrying the new owner and status, whatever the previous record
  was;
* `read_upsertCalls_of_ne`: every other path is left alone.
-/
import GofrSec.Repositories.VaultBackend

namespace GofrSec

open Calls Text VaultPathLayout

variable {P : Platform} {D : VaultDeployment} {previous : Option IssuedTokenRecord}
  {record : IssuedTokenRecord}

/-- Every call of an upsert on the indexes has an index entry of the id as its
target: under the new owner, under the previous one or under a group. -/
lemma target_indexUpdates (hold : ∀ old ∈ previous, old.tokenId = record.tokenId) {c : VaultCall}
    (hc : c ∈ indexUpdates D previous record) :
    (∃ u, c.target = some (D.paths.userTokenPath u record.tokenId)) ∨
      ∃ g, c.target = some (D.paths.groupTokenPath g record.tokenId) := by
  simp only [indexUpdates, List.mem_append, List.mem_map, List.mem_singleton] at hc
  rcases hc with ((hc | ⟨g, -, rfl⟩) | rfl) | ⟨g, -, rfl⟩
  · cases previous with
    | none => simp [ownerChange] at hc
    | some old =>
        rw [ownerChange] at hc
        split_ifs at hc with hne
        · rw [List.mem_singleton.mp hc, ← hold old rfl]
          exact Or.inl ⟨_, rfl⟩
        · simp at hc
  · exact Or.inr ⟨g, rfl⟩
  · exact Or.inl ⟨_, rfl⟩
  · exact Or.inr ⟨g, rfl⟩

/-- The entries that the calls on the indexes write: that of the owner, and those of the
granted groups. -/
lemma write_mem_indexUpdates {k : String} {data : Doc}
    (hc : .writeSecret k data ∈ indexUpdates D previous record) :
    k = D.paths.userTokenPath record.ownerSub record.tokenId ∨
      ∃ g ∈ record.grantedGroups, k = D.paths.groupTokenPath g record.tokenId := by
  simp only [indexUpdates, List.mem_append, List.mem_map, List.mem_singleton] at hc
  rcases hc with ((hc | ⟨g, -, heq⟩) | heq) | ⟨g, hg, heq⟩
  · cases previous with
    | none => simp [ownerChange] at hc
    | some old =>
        rw [ownerChange] at hc
        split_ifs at hc with hne
        · cases List.mem_singleton.mp hc
        · simp at hc
  · cases heq
  · exact Or.inl (VaultCall.writeSecret.inj heq).1
  · exact Or.inr ⟨g, hg, (VaultCall.writeSecret.inj heq).1.symm⟩

/-- The only entry under a subject that the calls on the indexes write is that
of the owner. -/
lemma user_of_write_indexUpdates {u t : String} {data : Doc}
    (hc : .writeSecret (D.paths.userTokenPath u t) data ∈ indexUpdates D previous record) :
    D.paths.userTokenPath u t = D.paths.userTokenPath record.ownerSub record.tokenId := by
  rcases write_mem_indexUpdates hc with heq | ⟨g, -, heq⟩
  · exact heq
  · exact absurd heq
      (ne_of_area (by decide) (under_userTokenPath u t) (under_groupTokenPath g _))

/-- The entries under groups that the calls on the indexes write are those of the granted
groups. -/
lemma group_of_write_indexUpdates {g t : String} {data : Doc}
    (hc : .writeSecret (D.paths.groupTokenPath g t) data ∈ indexUpdates D previous record) :
    ∃ h ∈ record.grantedGroups,
      D.paths.groupTokenPath g t = D.paths.groupTokenPath h record.tokenId := by
  rcases write_mem_indexUpdates hc with heq | hgroup
  · exact absurd heq
      (ne_of_area (by decide) (under_groupTokenPath g t) (under_userTokenPath _ _))
  · exact hgroup

/-- The calls on the indexes leave every path alone that is no index entry of
the id. -/
lemma read_indexUpdates_of_ne (hold : ∀ old ∈ previous, old.tokenId = record.tokenId)
    {cs : List VaultCall} (hcs : ∀ c ∈ cs, c ∈ indexUpdates D previous record) {k : String}
    (huser : ∀ u, k ≠ D.paths.userTokenPath u record.tokenId)
    (hgroup : ∀ g, k ≠ D.paths.groupTokenPath g record.tokenId) (w : VaultWorld) :
    (VaultCall.effects cs w).read k = w.read k := by
  refine VaultCall.read_effects w fun c hc htarget => ?_
  rcases target_indexUpdates hold (hcs c hc) with ⟨u, h⟩ | ⟨g, h⟩
  · exact huser u (Option.some.inj (htarget.symm.trans h))
  · exact hgroup g (Option.some.inj (htarget.symm.trans h))

/-- The document of each canonical record after an upsert, also one that was cut short. -/
theorem read_upsert_tokenPath {cs : List VaultCall}
    (hcs : ∀ c ∈ cs, c ∈ indexUpdates D previous record) (t : String) (w : VaultWorld) :
    (VaultCall.effects cs (w.write (D.paths.tokenPath record.tokenId)
        (serializeToken P record))).read (D.paths.tokenPath t)
      = if t = record.tokenId then some (serializeToken P record)
        else w.read (D.paths.tokenPath t) := by
  have hindex : ∀ c ∈ cs, c.target ≠ some (D.paths.tokenPath t) := by
    intro c hc htarget
    rcases within_indexUpdates (hcs c hc) _ htarget with ⟨u, t', h⟩ | ⟨g, t', h⟩
    · exact ne_of_area (by decide) (under_tokenPath t) (under_userTokenPath u t') h
    · exact ne_of_area (by decide) (under_tokenPath t) (under_groupTokenPath g t') h
  rw [VaultCall.read_effects _ hindex, VaultWorld.read_write]
  by_cases ht : t = record.tokenId
  · rw [if_pos ht, if_pos (congrArg _ ht)]
  · rw [if_neg ht, if_neg fun h => ht (tokenPath_inj h)]

/-! ### The index entries -/

/-- Index entries of other ids are left alone. -/
lemma read_upsert_of_ne (hold : ∀ old ∈ previous, old.tokenId = record.tokenId)
    (hid : '/' ∉ record.tokenId.toList) {t : String} (ht : '/' ∉ t.toList)
    (hne : t ≠ record.tokenId) (w : VaultWorld) (u g : String) :
    (VaultCall.effects (upsertCalls P D previous record) w).read (D.paths.userTokenPath u t)
        = w.read (D.paths.userTokenPath u t)
      ∧ (VaultCall.effects (upsertCalls P D previous record) w).read (D.paths.groupTokenPath g t)
        = w.read (D.paths.groupTokenPath g t) := by
  constructor
  · refine (read_indexUpdates_of_ne hold (fun c hc => hc)
      (fun v h => hne (userTokenPath_inj ht hid h).2)
      (fun h => ne_of_area (by decide) (under_userTokenPath u t) (under_groupTokenPath h _))
      _).trans (w.read_write_of_ne _ ?_)
    exact ne_of_area (by decide) (under_userTokenPath u t) (under_tokenPath _)
  · refine (read_indexUpdates_of_ne hold (fun c hc => hc)
      (fun v => ne_of_area (by decide) (under_groupTokenPath g t) (under_userTokenPath v _))
      (fun h heq => hne (groupTokenPath_inj ht hid heq).2) _).trans
      (w.read_write_of_ne _ ?_)
    exact ne_of_area (by decide) (under_groupTokenPath g t) (under_tokenPath _)

/-- Writing the entries of some groups. -/
lemma read_writeGroupEntries (groupNames : List String) (g : String) (w : VaultWorld) :
    (VaultCall.effects (groupNames.map fun groupName =>
        .writeSecret (D.paths.groupTokenPath groupName record.tokenId)
          (groupEntry record groupName)) w).read (D.paths.groupTokenPath g record.tokenId)
      = if g ∈ groupNames then some (groupEntry record g)
        else w.read (D.paths.groupTokenPath g record.tokenId) := by
  induction groupNames generalizing w with
  | nil => rfl
  | cons h groupNames ih =>
      rw [List.map_cons, VaultCall.effects, List.foldl_cons, ← VaultCall.effects, ih]
      by_cases hg : g ∈ groupNames
      · rw [if_pos hg, if_pos (List.mem_cons_of_mem _ hg)]
      · rw [if_neg hg, VaultCall.effect, VaultWorld.read_write]
        by_cases heq : g = h
        · rw [heq, if_pos rfl, if_pos List.mem_cons_self]
        · rw [if_neg fun h0 => heq (groupTokenPath_left_inj h0), if_neg (by simp [heq, hg])]

/-- Deleting the entries of some groups. -/
lemma read_deleteGroupEntries (tokenId : String) (groupNames : List String) (g : String)
    (w : VaultWorld) :
    (VaultCall.effects (groupNames.map fun groupName =>
        .deleteSecret (D.paths.groupTokenPath groupName tokenId)) w).read
        (D.paths.groupTokenPath g tokenId)
      = if g ∈ groupNames then none else w.read (D.paths.groupTokenPath g tokenId) := by
  induction groupNames generalizing w with
  | nil => rfl
  | cons h groupNames ih =>
      rw [List.map_cons, VaultCall.effects, List.foldl_cons, ← VaultCall.effects, ih]
      by_cases hg : g ∈ groupNames
      · rw [if_pos hg, if_pos (List.mem_cons_of_mem _ hg)]
      · rw [if_neg hg, VaultCall.effect, VaultWorld.read_delete]
        by_cases heq : g = h
        · rw [heq, if_pos rfl, if_pos List.mem_cons_self]
        · rw [if_neg fun h0 => heq (groupTokenPath_left_inj h0), if_neg (by simp [heq, hg])]

/-- The step on the previous owner's entry stays in the users folder. -/
lemma target_ownerChange {c : VaultCall} (hc : c ∈ ownerChange D previous record) :
    ∃ old ∈ previous, old.ownerSub ≠ record.ownerSub
      ∧ c = .deleteSecret (D.paths.userTokenPath old.ownerSub old.tokenId) := by
  cases previous with
  | none => simp [ownerChange] at hc
  | some old =>
      rw [ownerChange] at hc
      split_ifs at hc with hne
      · exact ⟨old, rfl, hne, List.mem_singleton.mp hc⟩
      · simp at hc

lemma mem_staleGroups {g : String} :
    g ∈ staleGroups D previous record
      ↔ (∃ old ∈ previous, g ∈ old.grantedGroups) ∧ g ∉ record.grantedGroups := by
  rw [staleGroups, (D.iterate_perm _).mem_iff, List.mem_filter, List.mem_dedup]
  cases previous with
  | none => simp
  | some old => simp

/-- The entry of the id under a group: there with the new owner and status for
the granted groups, gone for the groups of the previous record. -/
theorem read_upsert_groupTokenPath (g : String) (w : VaultWorld) :
    (VaultCall.effects (upsertCalls P D previous record) w).read
        (D.paths.groupTokenPath g record.tokenId)
      = if g ∈ record.grantedGroups then some (groupEntry record g)
        else if ∃ old ∈ previous, g ∈ old.grantedGroups then none
        else w.read (D.paths.groupTokenPath g record.tokenId) := by
  rw [upsertCalls, indexUpdates, ← List.cons_append, ← List.cons_append, ← List.cons_append,
    VaultCall.effects_append, read_writeGroupEntries]
  by_cases hg : g ∈ record.grantedGroups
  · rw [if_pos hg, if_pos hg]
  · rw [if_neg hg, if_neg hg, VaultCall.effects_append]
    have huser : ∀ w' : VaultWorld, (VaultCall.effects
        [.writeSecret (D.paths.userTokenPath record.ownerSub record.tokenId) (userEntry record)]
        w').read (D.paths.groupTokenPath g record.tokenId)
          = w'.read (D.paths.groupTokenPath g record.tokenId) := by
      intro w'
      exact w'.read_write_of_ne _
        (ne_of_area (by decide) (under_groupTokenPath g _) (under_userTokenPath _ _))
    rw [huser, VaultCall.effects_append, read_deleteGroupEntries]
    by_cases hstale : g ∈ staleGroups D previous record
    · rw [if_pos hstale, if_pos (mem_staleGroups.mp hstale).1]
    · have hprev : ¬ ∃ old ∈ previous, g ∈ old.grantedGroups :=
        fun h => hstale (mem_staleGroups.mpr ⟨h, hg⟩)
      rw [if_neg hstale, if_neg hprev]
      refine VaultCall.read_effects w fun c hc htarget => ?_
      rcases List.mem_cons.mp hc with rfl | hc
      · exact ne_of_area (by decide) (under_groupTokenPath g _) (under_tokenPath _)
          (Option.some.inj htarget).symm
      · obtain ⟨old, -, -, rfl⟩ := target_ownerChange hc
        exact ne_of_area (by decide) (under_groupTokenPath g _) (under_userTokenPath _ _)
          (Option.some.inj htarget).symm

/-- The entry of the id under a subject: there with the new status for the
owner, gone for the owner of the previous record. -/
theorem read_upsert_userTokenPath (hold : ∀ old ∈ previous, old.tokenId = record.tokenId)
    (u : String) (w : VaultWorld) :
    (VaultCall.effects (upsertCalls P D previous record) w).read
        (D.paths.userTokenPath u record.tokenId)
      = if u = record.ownerSub then some (userEntry record)
        else if ∃ old ∈ previous, old.ownerSub = u then none
        else w.read (D.paths.userTokenPath u record.tokenId) := by
  -- the entries of the groups, at the end, are in another folder
  have hgroups : ∀ w' : VaultWorld, (VaultCall.effects (record.grantedGroups.map fun groupName =>
      .writeSecret (D.paths.groupTokenPath groupName record.tokenId)
        (groupEntry record groupName)) w').read (D.paths.userTokenPath u record.tokenId)
        = w'.read (D.paths.userTokenPath u record.tokenId) := by
    intro w'
    refine VaultCall.read_effects w' fun c hc htarget => ?_
    obtain ⟨g, -, rfl⟩ := List.mem_map.mp hc
    exact ne_of_area (by decide) (under_userTokenPath u _) (under_groupTokenPath g _)
      (Option.some.inj htarget).symm
  rw [upsertCalls, indexUpdates, ← List.cons_append, ← List.cons_append, ← List.cons_append,
    VaultCall.effects_append, hgroups, VaultCall.effects_append]
  have hwrite : ∀ w' : VaultWorld, (VaultCall.effects
      [.writeSecret (D.paths.userTokenPath record.ownerSub record.tokenId) (userEntry record)]
      w').read (D.paths.userTokenPath u record.tokenId)
        = if u = record.ownerSub then some (userEntry record)
          else w'.read (D.paths.userTokenPath u record.tokenId) := by
    intro w'
    rw [VaultCall.effects, List.foldl_cons, List.foldl_nil, VaultCall.effect,
      VaultWorld.read_write]
    by_cases hu : u = record.ownerSub
    · rw [if_pos hu, if_pos (by rw [hu])]
    · rw [if_neg hu, if_neg fun h => hu (userTokenPath_left_inj h)]
  rw [hwrite]
  by_cases hu : u = record.ownerSub
  · rw [if_pos hu, if_pos hu]
  · rw [if_neg hu, if_neg hu, VaultCall.effects_append]
    -- neither do the deletions under groups reach the users folder
    have hstale : ∀ w' : VaultWorld, (VaultCall.effects
        ((staleGroups D previous record).map fun groupName =>
          .deleteSecret (D.paths.groupTokenPath groupName record.tokenId)) w').read
          (D.paths.userTokenPath u record.tokenId)
          = w'.read (D.paths.userTokenPath u record.tokenId) := by
      intro w'
      refine VaultCall.read_effects w' fun c hc htarget => ?_
      obtain ⟨g, -, rfl⟩ := List.mem_map.mp hc
      exact ne_of_area (by decide) (under_userTokenPath u _) (under_groupTokenPath g _)
        (Option.some.inj htarget).symm
    rw [hstale]
    by_cases hprev : ∃ old ∈ previous, old.ownerSub = u
    · obtain ⟨old, hmem, rfl⟩ := hprev
      have hid := hold old hmem
      obtain rfl := Option.mem_def.mp hmem
      rw [if_pos ⟨old, rfl, rfl⟩, ownerChange, if_pos hu, hid, ← List.singleton_append,
        VaultCall.effects_append, VaultCall.effects, List.foldl_cons, List.foldl_nil,
        VaultCall.effect, VaultWorld.read_delete_self]
    · rw [if_neg hprev]
      refine VaultCall.read_effects w fun c hc htarget => ?_
      rcases List.mem_cons.mp hc with rfl | hc
      · exact ne_of_area (by decide) (under_userTokenPath u _) (under_tokenPath _)
          (Option.some.inj htarget).symm
      · obtain ⟨old, hmem, -, rfl⟩ := target_ownerChange hc
        have heq := Option.some.inj htarget
        rw [hold old hmem] at heq
        exact hprev ⟨old, hmem, userTokenPath_left_inj heq⟩

end GofrSec
