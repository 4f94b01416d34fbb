/-
The path layout of the Vault store (`app/repositories/vault_paths.py`).

* `VaultPathLayout`: the configured prefix, with the paths of the records and
  of the index entries;
* `userProfilePath_inj`, `userGroupsPath_inj`, `groupDefinitionPath_inj`,
  `tokenPath_inj`, `userTokenPath_inj`, `groupTokenPath_inj`: a path determines
  the record it belongs to;
* the paths of two kinds differ: by their folder under the prefix
  (`Area`), and inside `users` and `groups` by their last segment, once token
  ids are kept from being called `profile`, `groups` or `definition`
  (`IsTokenId`).
-/
import GofrSec.Text

namespace GofrSec

open Text

/-- `VaultPathLayout`. -/
structure VaultPathLayout where
  pathPrefix : String := "gofr/sec"
  deriving DecidableEq, Repr

namespace VaultPathLayout

variable (L : VaultPathLayout)

/-- `users_root`. -/
def usersRoot : String := below L.pathPrefix "users"

/-- `user_root`. -/
def userRoot (keycloakSub : String) : String := below L.usersRoot keycloakSub

/-- `user_profile_path`. -/
def userProfilePath (keycloakSub : String) : String := below (L.userRoot keycloakSub) "profile"

/-- `user_groups_path`. -/
def userGroupsPath (keycloakSub : String) : String := below (L.userRoot keycloakSub) "groups"

/-- `user_tokens_root`. -/
def userTokensRoot (keycloakSub : String) : String := below (L.userRoot keycloakSub) "tokens"

/-- `user_token_path`. -/
def userTokenPath (keycloakSub tokenId : String) : String :=
  below (L.userTokensRoot keycloakSub) tokenId

/-- `groups_root`. -/
def groupsRoot : String := below L.pathPrefix "groups"

/-- `group_root`. -/
def groupRoot (groupName : String) : String := below L.groupsRoot groupName

/-- `group_definition_path`. -/
def groupDefinitionPath (groupName : String) : String := below (L.groupRoot groupName) "definition"

/-- `group_tokens_root`. -/
def groupTokensRoot (groupName : String) : String := below (L.groupRoot groupName) "tokens"

/-- `group_token_path`. -/
def groupTokenPath (groupName tokenId : String) : String :=
  below (L.groupTokensRoot groupName) tokenId

/-- `tokens_root`. -/
def tokensRoot : String := below L.pathPrefix "tokens"

/-- `token_path`. -/
def tokenPath (tokenId : String) : String := below L.tokensRoot tokenId

/-- `signing_key_path`. -/
def signingKeyPath : String := below (below L.pathPrefix "signing") "runtime"

/-! ### The folders under the prefix -/

/-- The three folders that the repositories write to. -/
inductive Area where
  | users
  | groups
  | tokens
  deriving DecidableEq, Repr

/-- The name of a folder under the prefix. -/
def Area.name : Area → String
  | .users => "users"
  | .groups => "groups"
  | .tokens => "tokens"

/-- The root of a folder under the prefix. -/
def root (a : Area) : String := below L.pathPrefix a.name

variable {L}

/-- The folders share no path. -/
lemma area_unique {a b : Area} {k : String} (ha : Under (L.root a) k) (hb : Under (L.root b) k) :
    a = b := by
  have hname : a.name = b.name :=
    under_inj (by cases a <;> decide) (by cases b <;> decide) ha hb
  revert hname
  cases a <;> cases b <;> decide

/-- Paths of two different folders differ. -/
lemma ne_of_area {a b : Area} (hab : a ≠ b) {k l : String} (hk : Under (L.root a) k)
    (hl : Under (L.root b) l) : k ≠ l :=
  fun h => hab (area_unique hk (h ▸ hl))

lemma under_userRoot (u name : String) : Under (L.root .users) (below (L.userRoot u) name) :=
  (under_below _ u).below name

lemma under_userProfilePath (u : String) : Under (L.root .users) (L.userProfilePath u) :=
  under_userRoot u _

lemma under_userGroupsPath (u : String) : Under (L.root .users) (L.userGroupsPath u) :=
  under_userRoot u _

lemma under_userTokenPath (u t : String) : Under (L.root .users) (L.userTokenPath u t) :=
  (under_userRoot u "tokens").below t

lemma under_groupDefinitionPath (g : String) :
    Under (L.root .groups) (L.groupDefinitionPath g) :=
  (under_below _ g).below _

lemma under_groupTokenPath (g t : String) : Under (L.root .groups) (L.groupTokenPath g t) :=
  ((under_below _ g).below "tokens").below t

lemma under_tokenPath (t : String) : Under (L.root .tokens) (L.tokenPath t) := under_below _ t

/-! ### A path determines its record -/

lemma below_left_inj {p q name : String} (h : below p name = below q name) : p = q :=
  (String.append_left_inj "/").mp ((String.append_left_inj name).mp h)

lemma below_right_inj {p s t : String} (h : below p s = below p t) : s = t :=
  (String.append_right_inj _).mp h

lemma userProfilePath_inj {u v : String} (h : L.userProfilePath u = L.userProfilePath v) :
    u = v :=
  below_right_inj (below_left_inj h)

lemma userGroupsPath_inj {u v : String} (h : L.userGroupsPath u = L.userGroupsPath v) : u = v :=
  below_right_inj (below_left_inj h)

lemma groupDefinitionPath_inj {g h : String}
    (heq : L.groupDefinitionPath g = L.groupDefinitionPath h) : g = h :=
  below_right_inj (below_left_inj heq)

lemma tokenPath_inj {s t : String} (h : L.tokenPath s = L.tokenPath t) : s = t :=
  below_right_inj h

lemma userTokenPath_inj {u v s t : String} (hs : '/' ∉ s.toList) (ht : '/' ∉ t.toList)
    (h : L.userTokenPath u s = L.userTokenPath v t) : u = v ∧ s = t := by
  obtain ⟨hroot, hst⟩ := below_inj hs ht h
  exact ⟨below_right_inj (below_left_inj hroot), hst⟩

/-- The path of an index entry of a plain id, under a plain name, is no other's. -/
lemma below_below_tokens_inj {p u v s t : String} (hv : '/' ∉ v.toList) (ht : '/' ∉ t.toList)
    (h : below (below (below p u) "tokens") s = below (below (below p v) "tokens") t) :
    u = v ∧ s = t := by
  have hcount := congrArg slashes h
  simp only [slashes_below, slashes_eq_zero_iff.mpr hv, slashes_eq_zero_iff.mpr ht] at hcount
  have hu : slashes u = 0 := by omega
  have hkv : Under (below p v) (below (below (below p u) "tokens") s) := by
    rw [h]
    exact (under_below _ _).below t
  obtain rfl := under_inj (slashes_eq_zero_iff.mp hu) hv ((under_below _ _).below s) hkv
  exact ⟨rfl, below_right_inj h⟩

lemma userTokenPath_left_inj {u v t : String} (h : L.userTokenPath u t = L.userTokenPath v t) :
    u = v :=
  below_right_inj (below_left_inj (below_left_inj h))

lemma groupTokenPath_left_inj {g h t : String}
    (heq : L.groupTokenPath g t = L.groupTokenPath h t) : g = h :=
  below_right_inj (below_left_inj (below_left_inj heq))

lemma groupTokenPath_inj {g h s t : String} (hs : '/' ∉ s.toList) (ht : '/' ∉ t.toList)
    (heq : L.groupTokenPath g s = L.groupTokenPath h t) : g = h ∧ s = t := by
  obtain ⟨hroot, hst⟩ := below_inj hs ht heq
  exact ⟨below_right_inj (below_left_inj hroot), hst⟩

lemma userProfilePath_ne_userGroupsPath (u v : String) :
    L.userProfilePath u ≠ L.userGroupsPath v := by
  intro h
  have := (below_inj (by decide) (by decide) h).2
  revert this
  decide

/-- An index entry lies deeper than the documents of a plain name. -/
lemma below_below_tokens_ne {p u v t name : String} (hv : '/' ∉ v.toList)
    (hname : '/' ∉ name.toList) :
    below (below (below p u) "tokens") t ≠ below (below p v) name := by
  intro h
  have hcount := congrArg slashes h
  have htokens : slashes "tokens" = 0 := by decide
  simp only [slashes_below, slashes_eq_zero_iff.mpr hv, slashes_eq_zero_iff.mpr hname,
    htokens] at hcount
  omega

end VaultPathLayout

/-! ### Token ids -/

/-- A lower-case hexadecimal digit. -/
def isHexDigit (c : Char) : Bool := ('0' ≤ c && c ≤ '9') || ('a' ≤ c && c ≤ 'f')

/-- The shape of `uuid4().hex`: 32 hexadecimal digits. -/
def IsTokenId (t : String) : Prop := t.toList.length = 32 ∧ t.toList.all isHexDigit

instance (t : String) : Decidable (IsTokenId t) := inferInstanceAs (Decidable (_ ∧ _))

namespace IsTokenId

variable {t : String}

lemma no_slash (h : IsTokenId t) : '/' ∉ t.toList := by
  intro hmem
  have := List.all_eq_true.mp h.2 _ hmem
  revert this
  decide

lemma isSegment (h : IsTokenId t) : IsSegment t := by
  refine ⟨?_, h.no_slash⟩
  rintro rfl
  exact absurd h.1 (by decide)

/-- A token id is longer than any name that the layout fixes. -/
lemma ne_of_length {name : String} (h : IsTokenId t) (hname : name.toList.length ≠ 32) :
    t ≠ name := by
  rintro rfl
  exact hname h.1

end IsTokenId

namespace VaultPathLayout

variable {L : VaultPathLayout} {t : String}

/-- An index entry is not a document whose last segment the layout fixes. -/
lemma below_ne_fixed {p q name : String} (ht : IsTokenId t) (hname : '/' ∉ name.toList)
    (hlen : name.toList.length ≠ 32) : below p t ≠ below q name :=
  fun h => ht.ne_of_length hlen (below_inj ht.no_slash hname h).2

lemma userTokenPath_ne_userProfilePath (u v : String) (ht : IsTokenId t) :
    L.userTokenPath u t ≠ L.userProfilePath v :=
  below_ne_fixed ht (by decide) (by decide)

lemma userTokenPath_ne_userGroupsPath (u v : String) (ht : IsTokenId t) :
    L.userTokenPath u t ≠ L.userGroupsPath v :=
  below_ne_fixed ht (by decide) (by decide)

lemma groupTokenPath_ne_groupDefinitionPath (g h : String) (ht : IsTokenId t) :
    L.groupTokenPath g t ≠ L.groupDefinitionPath h :=
  below_ne_fixed ht (by decide) (by decide)

end VaultPathLayout

end GofrSec
