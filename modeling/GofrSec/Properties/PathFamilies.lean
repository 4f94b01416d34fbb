/-
The paths of the Vault layout never collide.

* `RecordKey`, `VaultPathLayout.pathOf`: the seven families of paths;
* `RecordKey.folder`, `RecordKey.name`: the first segment of a path below the prefix and
  its last, which tell the families apart whatever the subjects are;
* `pathOf_inj_iff`: with ids of 32 hexadecimal digits a path belongs to one record of one
  family, so that writing a record leaves the documents of all others alone.
-/
import GofrSec.Repositories.VaultClient
import GofrSec.Repositories.VaultPaths

namespace GofrSec

open Text VaultPathLayout

/-- What the service keeps in Vault, by family and arguments. -/
inductive RecordKey where
  | userProfile (keycloakSub : String)
  | userGroups (keycloakSub : String)
  | userToken (keycloakSub tokenId : String)
  | groupDefinition (groupName : String)
  | groupToken (groupName tokenId : String)
  | token (tokenId : String)
  | signingKey
  deriving DecidableEq, Repr

/-- The path of a record. -/
def VaultPathLayout.pathOf (L : VaultPathLayout) : RecordKey → String
  | .userProfile keycloakSub => L.userProfilePath keycloakSub
  | .userGroups keycloakSub => L.userGroupsPath keycloakSub
  | .userToken keycloakSub tokenId => L.userTokenPath keycloakSub tokenId
  | .groupDefinition groupName => L.groupDefinitionPath groupName
  | .groupToken groupName tokenId => L.groupTokenPath groupName tokenId
  | .token tokenId => L.tokenPath tokenId
  | .signingKey => L.signingKeyPath

namespace RecordKey

/-- The first segment of the path below the prefix. -/
def folder : RecordKey → String
  | .userProfile _ => "users"
  | .userGroups _ => "users"
  | .userToken _ _ => "users"
  | .groupDefinition _ => "groups"
  | .groupToken _ _ => "groups"
  | .token _ => "tokens"
  | .signingKey => "signing"

/-- The last segment of the path. -/
def name : RecordKey → String
  | .userProfile _ => "profile"
  | .userGroups _ => "groups"
  | .userToken _ tokenId => tokenId
  | .groupDefinition _ => "definition"
  | .groupToken _ tokenId => tokenId
  | .token tokenId => tokenId
  | .signingKey => "runtime"

/-- The token id of a record that has one. -/
def tokenId : RecordKey → Option String
  | .userToken _ tokenId => some tokenId
  | .groupToken _ tokenId => some tokenId
  | .token tokenId => some tokenId
  | _ => none

end RecordKey

/-- 32 hexadecimal digits, upper or lower case. -/
def IsHexId (t : String) : Prop :=
  t.toList.length = 32 ∧ ∀ c ∈ t.toList, isHexDigit c ∨ ('A' ≤ c ∧ c ≤ 'F')

lemma IsHexId.no_slash {t : String} (h : IsHexId t) : '/' ∉ t.toList := by
  intro hmem
  have hslash := h.2 _ hmem
  revert hslash
  decide

/-- The ids that the service draws are such. -/
lemma IsTokenId.isHexId {t : String} (h : IsTokenId t) : IsHexId t :=
  ⟨h.1, fun _ hc => Or.inl (List.all_eq_true.mp h.2 _ hc)⟩

section

variable {L : VaultPathLayout} {j k : RecordKey}

lemma under_folder (L : VaultPathLayout) (k : RecordKey) :
    Under (below L.pathPrefix k.folder) (L.pathOf k) := by
  cases k with
  | userProfile u => exact under_userProfilePath u
  | userGroups u => exact under_userGroupsPath u
  | userToken u t => exact under_userTokenPath u t
  | groupDefinition g => exact under_groupDefinitionPath g
  | groupToken g t => exact under_groupTokenPath g t
  | token t => exact under_tokenPath t
  | signingKey => exact under_below _ _

lemma exists_below_name (L : VaultPathLayout) (k : RecordKey) :
    ∃ p, L.pathOf k = below p k.name := by
  cases k <;> exact ⟨_, rfl⟩

lemma folder_slashless (k : RecordKey) : '/' ∉ k.folder.toList := by
  cases k <;> simp only [RecordKey.folder] <;> decide

lemma name_slashless (hk : ∀ t ∈ k.tokenId, IsHexId t) : '/' ∉ k.name.toList := by
  cases k with
  | userToken u t => exact (hk t rfl).no_slash
  | groupToken g t => exact (hk t rfl).no_slash
  | token t => exact (hk t rfl).no_slash
  | _ => simp only [RecordKey.name]; decide

/-- One path shows one folder and one last segment. -/
lemma folder_name_eq (hj : ∀ t ∈ j.tokenId, IsHexId t) (hk : ∀ t ∈ k.tokenId, IsHexId t)
    (h : L.pathOf j = L.pathOf k) : j.folder = k.folder ∧ j.name = k.name := by
  constructor
  · exact under_inj (folder_slashless j) (folder_slashless k) (under_folder L j)
      (h ▸ under_folder L k)
  · obtain ⟨p, hp⟩ := exists_below_name L j
    obtain ⟨q, hq⟩ := exists_below_name L k
    rw [hp, hq] at h
    exact (below_inj (name_slashless hj) (name_slashless hk) h).2

/-- An id is none of the names that the layout fixes. -/
lemma IsHexId.ne_of_length {t name : String} (h : IsHexId t) (hname : name.toList.length ≠ 32) :
    t ≠ name := by
  rintro rfl
  exact hname h.1

/-- Within one folder the last segment tells the families apart, and within one family the
path determines the arguments. -/
lemma pathOf_inj (hj : ∀ t ∈ j.tokenId, IsHexId t) (hk : ∀ t ∈ k.tokenId, IsHexId t)
    (h : L.pathOf j = L.pathOf k) : j = k := by
  obtain ⟨hfolder, hname⟩ := folder_name_eq hj hk h
  -- an id is longer than the names that the layout fixes
  have hprofile : "profile".toList.length ≠ 32 := by decide
  have hgroups : "groups".toList.length ≠ 32 := by decide
  have hdefinition : "definition".toList.length ≠ 32 := by decide
  cases j with
  | userProfile u =>
      cases k with
      | userProfile v => rw [userProfilePath_inj h]
      | userToken v t => exact absurd hname.symm ((hk t rfl).ne_of_length hprofile)
      | userGroups v => simp [RecordKey.name] at hname
      | _ => simp [RecordKey.folder] at hfolder
  | userGroups u =>
      cases k with
      | userGroups v => rw [userGroupsPath_inj h]
      | userToken v t => exact absurd hname.symm ((hk t rfl).ne_of_length hgroups)
      | userProfile v => simp [RecordKey.name] at hname
      | _ => simp [RecordKey.folder] at hfolder
  | userToken u t =>
      cases k with
      | userToken v t' =>
          obtain ⟨rfl, rfl⟩ := userTokenPath_inj (hj t rfl).no_slash (hk t' rfl).no_slash h
          rfl
      | userProfile v => exact absurd hname ((hj t rfl).ne_of_length hprofile)
      | userGroups v => exact absurd hname ((hj t rfl).ne_of_length hgroups)
      | _ => simp [RecordKey.folder] at hfolder
  | groupDefinition g =>
      cases k with
      | groupDefinition g' => rw [groupDefinitionPath_inj h]
      | groupToken g' t => exact absurd hname.symm ((hk t rfl).ne_of_length hdefinition)
      | _ => simp [RecordKey.folder] at hfolder
  | groupToken g t =>
      cases k with
      | groupToken g' t' =>
          obtain ⟨rfl, rfl⟩ := groupTokenPath_inj (hj t rfl).no_slash (hk t' rfl).no_slash h
          rfl
      | groupDefinition g' => exact absurd hname ((hj t rfl).ne_of_length hdefinition)
      | _ => simp [RecordKey.folder] at hfolder
  | token t =>
      cases k with
      | token t' => rw [tokenPath_inj h]
      | _ => simp [RecordKey.folder] at hfolder
  | signingKey =>
      cases k with
      | signingKey => rfl
      | _ => simp [RecordKey.folder] at hfolder

end

/-- **Paths never collide.** Whatever the prefix, the subjects and the group names, two
records whose ids are hexadecimal share their path only if they are one record of one
family; so a write leaves the documents of all other records as they are. -/
theorem pathOf_inj_iff (L : VaultPathLayout) {j k : RecordKey}
    (hj : ∀ t ∈ j.tokenId, IsHexId t) (hk : ∀ t ∈ k.tokenId, IsHexId t) :
    (L.pathOf j = L.pathOf k ↔ j = k)
      ∧ ∀ (w : VaultWorld) (data : Doc), (w.write (L.pathOf j) data).read (L.pathOf k)
        = if k = j then some data else w.read (L.pathOf k) := by
  have hiff : L.pathOf j = L.pathOf k ↔ j = k :=
    ⟨pathOf_inj hj hk, fun h => congrArg L.pathOf h⟩
  refine ⟨hiff, fun w data => ?_⟩
  rw [VaultWorld.read_write]
  by_cases hjk : k = j
  · rw [if_pos hjk, if_pos (congrArg L.pathOf hjk)]
  · rw [if_neg hjk, if_neg fun h => hjk (hiff.mp h.symm).symm]

/-- The groups of the subject `a/tokens` are no index entry of the subject `a`. -/
theorem pathOf_ne_nested : VaultPathLayout.pathOf {} (.userGroups "a/tokens")
    ≠ VaultPathLayout.pathOf {} (.userToken "a" "0123456789abcdef0123456789abcdef") := by
  intro h
  have hgroups : ∀ t ∈ (RecordKey.userGroups "a/tokens").tokenId, IsHexId t := by
    intro t ht
    cases ht
  have htoken : ∀ t ∈ (RecordKey.userToken "a" "0123456789abcdef0123456789abcdef").tokenId,
      IsHexId t := by
    intro t ht
    obtain rfl := Option.some.inj ht
    exact IsTokenId.isHexId (by decide)
  cases (pathOf_inj_iff {} hgroups htoken).1.mp h

end GofrSec
