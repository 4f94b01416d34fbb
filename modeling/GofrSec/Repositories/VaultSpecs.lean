/-
What each method of the Vault repositories does, in terms of the documents it
finds: the weakest precondition of the method, one rule for each.

* `wp_getRecord`, `wp_loadMemberships`, `wp_storeMemberships`;
* `wp_membersAmong`, `wp_recordsOf`: the loops that decode many documents;
* `wp_upsertToken`: the upsert of a token record, after any number of whose
  calls a failure can strike;
* `membershipsOf_stored`: the memberships document of a user survives the
  round trip, up to the order of its entries.
-/
import GofrSec.Repositories.VaultBackend

namespace GofrSec

open Calls Text VaultServer

variable {P : Platform} {D : VaultDeployment} {server : VaultServer} {faults : Prop}
  {w : VaultWorld}

/-! ### Documents -/

/-- `getRecord`, by the document at its path. -/
lemma wp_getRecord {α : Type} (path : String) (deserialize : Doc → Except PyError α)
    (Q : Except PyError (Option α) → VaultWorld → Prop) :
    (getRecord path deserialize).wp (server.act faults).contract Q w
      ↔ Q (decodeRecord deserialize (w.read path)) w ∧ (faults → ∀ e, Q (.error e) w) := by
  rw [getRecord, Prog.wp_bind, wp_readSecret]
  simp only [Prog.onReturn_ok, Prog.wp_lift, Prog.onReturn_error, Prog.wp_raise]

/-- A `get` decodes the document at its path, and changes nothing. -/
lemma run_getRecord {α : Type} (path : String) (deserialize : Doc → Except PyError α) :
    (getRecord path deserialize).run server.exec w
      = (decodeRecord deserialize (w.read path), w) := by
  rw [getRecord, Prog.run_bind, Prog.run_perform]
  exact Prog.run_lift _ w

/-- A stored record is decoded to itself. -/
lemma decodeRecord_map {α : Type} {serialize : α → Doc} {deserialize : Doc → Except PyError α}
    (h : ∀ a, deserialize (serialize a) = .ok a) (found : Option α) :
    decodeRecord deserialize (found.map serialize) = .ok found := by
  cases found with
  | none => rfl
  | some a =>
      rw [Option.map_some, decodeRecord, h]
      rfl

/-- What is decoded has been found. -/
lemma decodeRecord_eq_some {α : Type} {deserialize : Doc → Except PyError α}
    {found : Option Doc} {record : α} (h : decodeRecord deserialize found = .ok (some record)) :
    ∃ d, found = some d ∧ deserialize d = .ok record := by
  cases found with
  | none => cases h
  | some d =>
      refine ⟨d, rfl, ?_⟩
      cases hd : deserialize d with
      | error e =>
          rw [decodeRecord, hd] at h
          cases h
      | ok a =>
          rw [decodeRecord, hd] at h
          cases h
          rfl

/-! ### Memberships -/

/-- The document of a user with these memberships: none when there are none. -/
def storedMemberships (P : Platform) (u : String) : List UserGroupMembership → Option Doc
  | [] => none
  | m :: ms => some (membershipsDoc P u (m :: ms))

/-- Put the document of a user's memberships in its place. -/
def VaultWorld.putMemberships (P : Platform) (L : VaultPathLayout) (w : VaultWorld) (u : String) :
    List UserGroupMembership → VaultWorld
  | [] => w.delete (L.userGroupsPath u)
  | m :: ms => w.write (L.userGroupsPath u) (membershipsDoc P u (m :: ms))

lemma read_putMemberships (L : VaultPathLayout) (u : String) (ms : List UserGroupMembership)
    (k : String) : (w.putMemberships P L u ms).read k
      = if k = L.userGroupsPath u then storedMemberships P u ms else w.read k := by
  cases ms with
  | nil => exact w.read_delete _ k
  | cons m ms => exact w.read_write _ k _

@[simp] lemma events_putMemberships (L : VaultPathLayout) (u : String)
    (ms : List UserGroupMembership) : (w.putMemberships P L u ms).events = w.events := by
  cases ms <;> rfl

lemma wp_loadMemberships (u : String)
    (Q : Except PyError (List UserGroupMembership) → VaultWorld → Prop) :
    (VaultGroupMembershipRepository.loadMemberships P D u).wp (server.act faults).contract Q w
      ↔ Q (membershipsOf P D.now (w.read (D.paths.userGroupsPath u))) w
        ∧ (faults → ∀ e, Q (.error e) w) := by
  rw [VaultGroupMembershipRepository.loadMemberships, Prog.wp_bind, wp_readSecret]
  simp only [Prog.onReturn_ok, Prog.wp_lift, Prog.onReturn_error, Prog.wp_raise]

/-- Memberships are decoded from the document at their path, which stays as it is. -/
lemma run_loadMemberships (u : String) :
    (VaultGroupMembershipRepository.loadMemberships P D u).run server.exec w
      = (membershipsOf P D.now (w.read (D.paths.userGroupsPath u)), w) := by
  rw [VaultGroupMembershipRepository.loadMemberships, Prog.run_bind, Prog.run_perform]
  exact Prog.run_lift _ w

/-- So does `has_membership`. -/
lemma run_hasMembership (u g : String) :
    (VaultGroupMembershipRepository.hasMembership P D u g).run server.exec w
      = ((membershipsOf P D.now (w.read (D.paths.userGroupsPath u))).map
          fun ms => ms.any fun m => m.groupName = g, w) := by
  rw [VaultGroupMembershipRepository.hasMembership, Prog.run_bind, run_loadMemberships]
  cases membershipsOf P D.now (w.read (D.paths.userGroupsPath u)) <;> rfl

lemma wp_storeMemberships (u : String) (ms : List UserGroupMembership)
    (Q : Except PyError Unit → VaultWorld → Prop) :
    (VaultGroupMembershipRepository.storeMemberships P D u ms).wp (server.act faults).contract Q w
      ↔ Q (.ok ()) (w.putMemberships P D.paths u ms) ∧ (faults → ∀ e, Q (.error e) w) := by
  cases ms with
  | nil =>
      rw [VaultGroupMembershipRepository.storeMemberships, Prog.wp_bind, wp_deleteSecret]
      simp only [Prog.onReturn_ok, Prog.wp_pure, Prog.onReturn_error, Prog.wp_raise]
      rfl
  | cons m ms => exact wp_writeSecret _ _ _

lemma dictItems_map_obj (docs : List Doc) : dictItems (docs.map Json.obj) = docs := by
  induction docs with
  | nil => rfl
  | cons d docs ih =>
      rw [dictItems, List.map_cons, List.filterMap_cons]
      exact congrArg (d :: ·) ih

lemma mapM_deserializeMembership (now : DateTime) (ms : List UserGroupMembership) :
    (ms.map (serializeMembership P)).mapM (deserializeMembership P now) = .ok ms := by
  induction ms with
  | nil => rfl
  | cons m ms ih =>
      rw [List.map_cons, List.mapM_cons, deserializeMembership_serializeMembership, ih]
      rfl

/-- The memberships document is decoded to what was stored, sorted by group. -/
lemma membershipsOf_stored (now : DateTime) (u : String) (ms : List UserGroupMembership) :
    membershipsOf P now (storedMemberships P u ms) = .ok (sortByGroupName ms) := by
  cases ms with
  | nil => rfl
  | cons m ms =>
      have hitems : ((sortByGroupName (m :: ms)).map fun membership =>
          Json.obj (serializeMembership P membership))
          = ((sortByGroupName (m :: ms)).map (serializeMembership P)).map Json.obj := by
        rw [List.map_map]
        rfl
      simp only [storedMemberships, membershipsDoc, membershipsOf, Doc.field, findEntry]
      simp only [String.reduceEq, if_false, if_true, Option.getD_some, hitems, dictItems_map_obj,
        mapM_deserializeMembership]

lemma sortByGroupName_perm (ms : List UserGroupMembership) : (sortByGroupName ms).Perm ms :=
  List.perm_insertionSort _ ms

/-- The loop over the known users, when each of their documents decodes. -/
lemma wp_membersAmong {load : String → List UserGroupMembership} {g : String} {us : List String}
    (hload : ∀ u ∈ us, membershipsOf P D.now (w.read (D.paths.userGroupsPath u)) = .ok (load u))
    {Q : Except PyError (List UserGroupMembership) → VaultWorld → Prop}
    (hok : Q (.ok (us.flatMap fun u => (load u).filter fun m => m.groupName = g)) w)
    (herr : faults → ∀ e, Q (.error e) w) :
    (VaultGroupMembershipRepository.membersAmong P D g us).wp (server.act faults).contract Q w := by
  induction us generalizing Q with
  | nil => exact hok
  | cons u us ih =>
      rw [VaultGroupMembershipRepository.membersAmong, Prog.wp_bind, wp_loadMemberships,
        hload u List.mem_cons_self]
      refine ⟨?_, fun hf e => by simpa using herr hf e⟩
      simp only [Prog.onReturn_ok, Prog.wp_bind]
      refine ih (fun v hv => hload v (List.mem_cons_of_mem _ hv)) ?_ ?_
      · simpa using hok
      · intro hf e
        simpa using herr hf e

/-! ### Tokens -/

/-- The loop over the listed keys, when each document it reads decodes. -/
lemma wp_recordsOf {find : String → Option IssuedTokenRecord} {keys : List String}
    (hfind : ∀ key ∈ keys, decodeRecord (deserializeToken P D.now)
      (w.read (D.paths.tokenPath (rstripSlash key))) = .ok (find (rstripSlash key)))
    {Q : Except PyError (List IssuedTokenRecord) → VaultWorld → Prop}
    (hok : Q (.ok (keys.flatMap fun key =>
      if rstripSlash key = "" then [] else (find (rstripSlash key)).toList)) w)
    (herr : faults → ∀ e, Q (.error e) w) :
    (VaultTokenRepository.recordsOf P D keys).wp (server.act faults).contract Q w := by
  induction keys generalizing Q with
  | nil => exact hok
  | cons key keys ih =>
      have hrest := fun k hk => hfind k (List.mem_cons_of_mem _ hk)
      rw [List.flatMap_cons] at hok
      rw [VaultTokenRepository.recordsOf]
      split_ifs with hkey
      · rw [if_pos hkey, List.nil_append] at hok
        exact ih hrest hok herr
      · rw [if_neg hkey] at hok
        rw [Prog.wp_bind, VaultTokenRepository.get, wp_getRecord, hfind key List.mem_cons_self]
        refine ⟨?_, fun hf e => by simpa using herr hf e⟩
        simp only [Prog.onReturn_ok, Prog.wp_bind]
        refine ih hrest ?_ ?_
        · simpa using hok
        · intro hf e
          simpa using herr hf e

/-- Listed keys that are segments have nothing to strip. -/
lemma flatMap_stripped {α : Type} {f : String → List α} {keys : List String}
    (hkeys : ∀ key ∈ keys, IsSegment key) :
    (keys.flatMap fun key => if rstripSlash key = "" then [] else f (rstripSlash key))
      = keys.flatMap f := by
  rw [List.flatMap_def, List.flatMap_def]
  refine congrArg List.flatten (List.map_congr_left fun key hkey => ?_)
  rw [(hkeys key hkey).rstripSlash_eq, if_neg (hkeys key hkey).1]

/-- An upsert of a token record, when the document of the id decodes: it makes
all of its calls, or a failure stops it after some of them. -/
lemma wp_upsertToken {record : IssuedTokenRecord} {previous : Option IssuedTokenRecord}
    (hprevious : decodeRecord (deserializeToken P D.now)
      (w.read (D.paths.tokenPath record.tokenId)) = .ok previous)
    {Q : Except PyError IssuedTokenRecord → VaultWorld → Prop}
    (hok : Q (.ok record) (VaultCall.effects (upsertCalls P D previous record) w))
    (herr : faults → ∀ ds c es, upsertCalls P D previous record = ds ++ c :: es →
      ∀ e, Q (.error e) (VaultCall.effects ds w)) :
    (VaultTokenRepository.upsert P D record).wp (server.act faults).contract Q w := by
  rw [VaultTokenRepository.upsert_eq, Prog.wp_bind, VaultTokenRepository.get, wp_getRecord,
    hprevious]
  constructor
  · simp only [Prog.onReturn_ok, Prog.wp_bind]
    refine wp_performAll ?_ ?_
    · simpa using hok
    · intro hf ds c es hcs e
      simpa using herr hf ds c es hcs e
  · intro hf e
    rw [Prog.onReturn_error, Prog.wp_raise]
    exact herr hf [] _ _ rfl e

end GofrSec
