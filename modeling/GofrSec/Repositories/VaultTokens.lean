/-
Vault-backed token records and their indexes (`app/repositories/vault_tokens.py`).

* `VaultTokenRepository.get`, `upsert`, `listForUser`;
* `indexUpdates`: the calls of an upsert after its write of the canonical
  record, in their order, so that `upsert` is the read of the previous record
  followed by `upsertCalls` (`upsert_eq`).
-/
import GofrSec.Repositories.VaultUsers

namespace GofrSec

open Calls Text

variable (P : Platform) (D : VaultDeployment)

/-- `previous_groups - current_groups`, in the order of its iteration. -/
def staleGroups (previous : Option IssuedTokenRecord) (record : IssuedTokenRecord) :
    List String :=
  let previousGroups := (previous.map IssuedTokenRecord.grantedGroups).getD []
  D.iterate (previousGroups.dedup.filter (· ∉ record.grantedGroups))

/-- The user index entry of a record. -/
def userEntry (record : IssuedTokenRecord) : Doc :=
  [("token_id", .str record.tokenId),
    ("owner_sub", .str record.ownerSub),
    ("status", .str record.status)]

/-- The index entry of a record under one of its groups. -/
def groupEntry (record : IssuedTokenRecord) (groupName : String) : Doc :=
  [("token_id", .str record.tokenId),
    ("group_name", .str groupName),
    ("owner_sub", .str record.ownerSub),
    ("status", .str record.status)]

namespace VaultTokenRepository

/-- `VaultTokenRepository.get`. -/
def get (tokenId : String) : VaultProg (Option IssuedTokenRecord) :=
  getRecord (D.paths.tokenPath tokenId) (deserializeToken P D.now)

/-- The first step of `upsert` on the indexes: drop the entry under the owner
that the previous record had, if it is another one. -/
def deleteOwnerEntry (previous : Option IssuedTokenRecord) (record : IssuedTokenRecord) :
    VaultProg Unit :=
  match previous with
  | some old => do
      if old.ownerSub ≠ record.ownerSub then
        let _ ← deleteSecret (D.paths.userTokenPath old.ownerSub old.tokenId)
  | none => pure ()

/-- The first loop of `upsert`: drop the entries of groups no longer granted. -/
def deleteGroupEntries (tokenId : String) : List String → VaultProg Unit
  | [] => pure ()
  | groupName :: groupNames => do
      let _ ← deleteSecret (D.paths.groupTokenPath groupName tokenId)
      deleteGroupEntries tokenId groupNames

/-- The second loop of `upsert`: write the entry of each granted group. -/
def writeGroupEntries (record : IssuedTokenRecord) : List String → VaultProg Unit
  | [] => pure ()
  | groupName :: groupNames => do
      writeSecret (D.paths.groupTokenPath groupName record.tokenId) (groupEntry record groupName)
      writeGroupEntries record groupNames

/-- `VaultTokenRepository.upsert`. -/
def upsert (record : IssuedTokenRecord) : VaultProg IssuedTokenRecord := do
  let previous ← get P D record.tokenId
  writeSecret (D.paths.tokenPath record.tokenId) (serializeToken P record)
  deleteOwnerEntry D previous record
  deleteGroupEntries D record.tokenId (staleGroups D previous record)
  writeSecret (D.paths.userTokenPath record.ownerSub record.tokenId) (userEntry record)
  writeGroupEntries D record record.grantedGroups
  pure record

/-- The loop of `list_for_user` over the listed keys. -/
def recordsOf : List String → VaultProg (List IssuedTokenRecord)
  | [] => pure []
  | key :: keys => do
      let tokenId := rstripSlash key
      if tokenId = "" then recordsOf keys
      else do
        let found ← get P D tokenId
        let rest ← recordsOf keys
        pure (found.toList ++ rest)

/-- `VaultTokenRepository.list_for_user`. -/
def listForUser (ownerSub : String) : VaultProg (List IssuedTokenRecord) := do
  let keys ← listSecrets (D.paths.userTokensRoot ownerSub)
  recordsOf P D keys

end VaultTokenRepository

/-! ### The calls of an upsert -/

/-- The deletion of the entry under the previous owner, if the owner changed. -/
def ownerChange (previous : Option IssuedTokenRecord) (record : IssuedTokenRecord) :
    List VaultCall :=
  match previous with
  | some old =>
      if old.ownerSub ≠ record.ownerSub then
        [.deleteSecret (D.paths.userTokenPath old.ownerSub old.tokenId)]
      else []
  | none => []

/-- The calls of an upsert after the write of the canonical record. -/
def indexUpdates (previous : Option IssuedTokenRecord) (record : IssuedTokenRecord) :
    List VaultCall :=
  ownerChange D previous record
    ++ (staleGroups D previous record).map
        (fun groupName => .deleteSecret (D.paths.groupTokenPath groupName record.tokenId))
    ++ [.writeSecret (D.paths.userTokenPath record.ownerSub record.tokenId) (userEntry record)]
    ++ record.grantedGroups.map fun groupName =>
        .writeSecret (D.paths.groupTokenPath groupName record.tokenId)
          (groupEntry record groupName)

/-- Each of them changes a document. -/
lemma isSome_target_indexUpdates {previous : Option IssuedTokenRecord} {record : IssuedTokenRecord}
    {i : VaultCall} (hi : i ∈ indexUpdates D previous record) : i.target.isSome := by
  simp only [indexUpdates, List.mem_append, List.mem_map, List.mem_singleton] at hi
  rcases hi with ((hi | ⟨g, -, rfl⟩) | rfl) | ⟨g, -, rfl⟩
  · cases previous with
    | none => exact nomatch hi
    | some old =>
        rw [ownerChange] at hi
        split_ifs at hi
        · rw [List.mem_singleton.mp hi]
          rfl
        · exact nomatch hi
  · rfl
  · rfl
  · rfl

/-- The calls of an upsert after the read of the previous record. -/
def upsertCalls (previous : Option IssuedTokenRecord) (record : IssuedTokenRecord) :
    List VaultCall :=
  .writeSecret (D.paths.tokenPath record.tokenId) (serializeToken P record)
    :: indexUpdates D previous record

namespace VaultTokenRepository

lemma deleteGroupEntries_eq (tokenId : String) (groupNames : List String) :
    deleteGroupEntries D tokenId groupNames
      = Prog.performAll (groupNames.map fun groupName =>
          .deleteSecret (D.paths.groupTokenPath groupName tokenId)) := by
  induction groupNames with
  | nil => rfl
  | cons groupName groupNames ih =>
      rw [deleteGroupEntries, ih, List.map_cons, Prog.performAll_cons]

lemma writeGroupEntries_eq (record : IssuedTokenRecord) (groupNames : List String) :
    writeGroupEntries D record groupNames
      = Prog.performAll (groupNames.map fun groupName =>
          .writeSecret (D.paths.groupTokenPath groupName record.tokenId)
            (groupEntry record groupName)) := by
  induction groupNames with
  | nil => rfl
  | cons groupName groupNames ih =>
      rw [writeGroupEntries, ih, List.map_cons, Prog.performAll_cons]

lemma deleteOwnerEntry_eq (previous : Option IssuedTokenRecord) (record : IssuedTokenRecord) :
    deleteOwnerEntry D previous record = Prog.performAll (ownerChange D previous record) := by
  cases previous with
  | none => rfl
  | some old =>
      by_cases h : old.ownerSub ≠ record.ownerSub
      · simp only [deleteOwnerEntry, ownerChange, if_pos h, Prog.performAll_cons]
        rfl
      · simp only [deleteOwnerEntry, ownerChange, if_neg h]
        rfl

/-- An upsert reads the previous record and then makes its calls in order. -/
theorem upsert_eq (record : IssuedTokenRecord) :
    upsert P D record = (do
      let previous ← get P D record.tokenId
      Prog.performAll (upsertCalls P D previous record)
      pure record) := by
  simp only [upsert, upsertCalls, indexUpdates, Prog.performAll_cons, Prog.performAll_append,
    deleteOwnerEntry_eq, deleteGroupEntries_eq, writeGroupEntries_eq, bind_assoc]
  rfl

end VaultTokenRepository

end GofrSec
