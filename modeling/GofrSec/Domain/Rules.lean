/-
The pure domain rules of `app/domain/rules.py`.

* `normalizeGroupName`, `groupNamePattern`: the cleaning of a group name and
  the regular expression it must match; `groupName_iff` is the language of
  that expression, by first and last character, length and alphabet;
* `IsGroupName`: the names that `normalizeGroupName` returns; they are single
  path segments (`IsGroupName.isSegment`) and their own normal form
  (`normalizeGroupName_self`);
* `GroupNameGrammar`, `normalizeGroupName_grammar`: the grammar in words, and that
  it is what `normalizeGroupName` accepts;
* `ensureAdminMembershipRemains`, `ensureRuntimeGroupsAllowed`,
  `isReservedGroup`, `buildReservedAdminGroup`.
-/
import GofrSec.Domain.Models
import GofrSec.Regex
import GofrSec.Text

namespace GofrSec

open Text

/-- `RESERVED_ADMIN_GROUP`. -/
def reservedAdminGroup : String := "admin"

/-- `[a-z0-9]`. -/
def isNameEdge (c : Char) : Bool := ('a' ≤ c && c ≤ 'z') || ('0' ≤ c && c ≤ '9')

/-- `[a-z0-9._-]`. -/
def isNameChar (c : Char) : Bool := isNameEdge c || c == '.' || c == '_' || c == '-'

/-- `_GROUP_NAME_PATTERN`: `^[a-z0-9](?:[a-z0-9._-]{0,62}[a-z0-9])?$`, whose
anchors add nothing to a `fullmatch`. -/
def groupNamePattern : Regex :=
  .seq (.cls isNameEdge) (.opt (.seq (.upTo 62 (.cls isNameChar)) (.cls isNameEdge)))

/-- A string that the group-name pattern matches. -/
def IsGroupName (name : String) : Prop := groupNamePattern.fullmatch name

instance (name : String) : Decidable (IsGroupName name) :=
  inferInstanceAs (Decidable (_ = true))

/-- `normalize_group_name`. -/
def normalizeGroupName (P : Platform) (name : String) : Except PyError String :=
  let normalized := P.lower (strip name)
  if normalized = "" ∨ ¬ groupNamePattern.fullmatch normalized then
    .error (.valueError ("Invalid group name: " ++ P.repr name))
  else .ok normalized

/-- `is_reserved_group`. -/
def isReservedGroup (P : Platform) (name : String) : Except PyError Bool := do
  return (← normalizeGroupName P name) = reservedAdminGroup

/-- `build_reserved_admin_group`; `createdAt` is the reading of the clock. -/
def buildReservedAdminGroup (createdAt : DateTime) : GroupDefinition :=
  { name := reservedAdminGroup
    description := some "Reserved control-plane administrators"
    isSystem := true
    isActive := true
    createdAt := createdAt }

/-- `ensure_admin_membership_remains`. -/
def ensureAdminMembershipRemains (memberCount : Int) : Except PyError Unit :=
  if memberCount ≤ 0 then
    .error (.lastAdminRemoval "At least one admin membership must remain")
  else .ok ()

/-- `ensure_runtime_groups_allowed`. -/
def ensureRuntimeGroupsAllowed (P : Platform) (groups : List String) :
    Except PyError (List String) := do
  let normalized ← groups.mapM (normalizeGroupName P)
  if reservedAdminGroup ∈ normalized then
    .error (.reservedGroup "The reserved admin group cannot be granted in runtime tokens")
  else .ok normalized

/-! ### The language of group names -/

/-- **The group-name grammar**: 1 to 64 characters of `[a-z0-9._-]`, the first
and the last a letter or a digit. -/
theorem groupName_iff (name : String) :
    IsGroupName name ↔
      (1 ≤ name.toList.length ∧ name.toList.length ≤ 64) ∧ (∀ c ∈ name.toList, isNameChar c)
        ∧ (∀ c ∈ name.toList.head?, isNameEdge c) ∧ ∀ c ∈ name.toList.getLast?, isNameEdge c := by
  have hedge : ∀ c, isNameEdge c → isNameChar c := fun c h => by simp [isNameChar, h]
  rw [IsGroupName, Regex.fullmatch_iff, groupNamePattern, Regex.mem_rests_seq]
  simp only [Regex.mem_rests_opt, Regex.mem_rests_seq, Regex.mem_rests_upTo_cls,
    Regex.mem_rests_cls]
  constructor
  · rintro ⟨l, ⟨c, hc, hl⟩, ⟨l', ⟨u, rfl, hlen, hu⟩, d, hd, rfl⟩ | rfl⟩
    · -- a first character, an inner part and a last character
      have hlast : name.toList.getLast? = some d := by
        rw [hl, ← List.cons_append, List.getLast?_concat]
      refine ⟨?_, ?_, ?_, ?_⟩
      · rw [hl, List.length_cons, List.length_append, List.length_singleton]
        omega
      · intro x hx
        simp only [hl, List.mem_cons, List.mem_append, List.not_mem_nil, or_false] at hx
        rcases hx with rfl | hx | rfl
        · exact hedge _ hc
        · exact hu x hx
        · exact hedge _ hd
      · simpa [hl] using hc
      · simpa [hlast] using hd
    · -- a single character
      rw [hl]
      exact ⟨⟨by simp, by simp⟩, by simpa using hedge _ hc, by simpa using hc, by simpa using hc⟩
  · rintro ⟨⟨hpos, hlen⟩, hall, hhead, hlast⟩
    cases hl : name.toList with
    | nil => simp [hl] at hpos
    | cons c l =>
        rw [hl] at hlen hall hhead hlast
        refine ⟨l, ⟨c, hhead c (by simp), rfl⟩, ?_⟩
        rcases List.eq_nil_or_concat' l with rfl | ⟨u, d, rfl⟩
        · exact Or.inr rfl
        · refine Or.inl ⟨[d], ⟨u, rfl, ?_, fun x hx => hall x (by simp [hx])⟩, d, ?_, rfl⟩
          · simp only [List.length_cons, List.length_append, List.length_nil] at hlen
            omega
          · refine hlast d ?_
            rw [← List.cons_append, List.getLast?_concat, Option.mem_some_iff]

namespace IsGroupName

variable {n : String}

lemma ne_empty (h : IsGroupName n) : n ≠ "" := by
  rintro rfl
  have := ((groupName_iff "").mp h).1.1
  simp at this

/-- A group name is a single path segment. -/
lemma isSegment (h : IsGroupName n) : IsSegment n := by
  refine ⟨h.ne_empty, fun hmem => ?_⟩
  have := ((groupName_iff n).mp h).2.1 _ hmem
  revert this
  decide

/-- Upper bound and lower-case form of the characters of a group name. -/
lemma isNameChar_ascii {c : Char} (h : isNameChar c) : c.toNat < 128 ∧ c.toLower = c := by
  have hc : (97 ≤ c.val.toNat ∧ c.val.toNat ≤ 122) ∨ (48 ≤ c.val.toNat ∧ c.val.toNat ≤ 57)
      ∨ c = '.' ∨ c = '_' ∨ c = '-' := by
    simpa [isNameChar, isNameEdge, Char.le_def, UInt32.le_iff_toNat_le, or_assoc] using h
  have hupper : ¬ (c.val ≥ 'A'.val ∧ c.val ≤ 'Z'.val) := by
    rw [ge_iff_le, UInt32.le_iff_toNat_le, UInt32.le_iff_toNat_le]
    show ¬ (65 ≤ c.val.toNat ∧ c.val.toNat ≤ 90)
    rcases hc with hc | hc | rfl | rfl | rfl
    · omega
    · omega
    all_goals decide
  refine ⟨?_, dif_neg hupper⟩
  show c.val.toNat < 128
  rcases hc with hc | hc | rfl | rfl | rfl
  · omega
  · omega
  all_goals decide

/-- The ends of a group name are not white space. -/
lemma isNameEdge_not_space {c : Char} (h : isNameEdge c) : isSpace c = false := by
  have hc : (97 ≤ c.val.toNat ∧ c.val.toNat ≤ 122) ∨ (48 ≤ c.val.toNat ∧ c.val.toNat ≤ 57) := by
    simpa [isNameEdge, Char.le_def, UInt32.le_iff_toNat_le] using h
  have hn : c.toNat = c.val.toNat := rfl
  simp only [isSpace, hn, Bool.or_eq_false_iff, Bool.and_eq_false_iff, decide_eq_false_iff_not,
    beq_eq_false_iff_ne]
  omega

/-- A group name is its own cleaned form. -/
lemma clean_eq (P : Platform) (h : IsGroupName n) : P.lower (strip n) = n := by
  obtain ⟨-, hall, hhead, hlast⟩ := (groupName_iff n).mp h
  have hstrip : strip n = n :=
    strip_eq_self (fun c hc => isNameEdge_not_space (hhead c hc))
      (fun c hc => isNameEdge_not_space (hlast c hc))
  have hmap : n.toList.map Char.toLower = n.toList := by
    conv_rhs => rw [← List.map_id n.toList]
    exact List.map_congr_left fun c hc => (isNameChar_ascii (hall c hc)).2
  rw [hstrip, ← String.toList_inj, P.lower_ascii n fun c hc => (isNameChar_ascii (hall c hc)).1,
    hmap]

end IsGroupName

/-- What `normalize_group_name` returns is a group name, the cleaned form of
its argument. -/
lemma normalizeGroupName_eq_ok {P : Platform} {name n : String}
    (h : normalizeGroupName P name = .ok n) : IsGroupName n ∧ n = P.lower (strip name) := by
  rw [normalizeGroupName] at h
  split_ifs at h with hbad
  rw [not_or, not_not] at hbad
  rw [← Except.ok.inj h]
  exact ⟨hbad.2, rfl⟩

/-- A group name is its own normal form. -/
lemma normalizeGroupName_self (P : Platform) {n : String} (h : IsGroupName n) :
    normalizeGroupName P n = .ok n := by
  have hgood : ¬ (n = "" ∨ ¬ groupNamePattern.fullmatch n) := by
    rw [not_or, not_not]
    exact ⟨h.ne_empty, h⟩
  simp only [normalizeGroupName, h.clean_eq P, if_neg hgood]

lemma isGroupName_reservedAdminGroup : IsGroupName reservedAdminGroup := by decide

lemma isReservedGroup_self (P : Platform) {n : String} (h : IsGroupName n) :
    isReservedGroup P n = .ok (decide (n = reservedAdminGroup)) := by
  simp only [isReservedGroup, normalizeGroupName_self P h]
  rfl

/-- Every name that a runtime grant may carry is a group name other than
`admin`. -/
lemma ensureRuntimeGroupsAllowed_eq_ok {P : Platform} {groups ns : List String}
    (h : ensureRuntimeGroupsAllowed P groups = .ok ns) :
    groups.mapM (normalizeGroupName P) = .ok ns ∧ reservedAdminGroup ∉ ns := by
  rw [ensureRuntimeGroupsAllowed] at h
  cases hm : groups.mapM (normalizeGroupName P) with
  | error e =>
      rw [hm] at h
      exact absurd h (by simp [bind, Except.bind])
  | ok ms =>
      simp only [hm, bind, Except.bind] at h
      split_ifs at h with hmem
      rw [← Except.ok.inj h]
      exact ⟨rfl, hmem⟩

/-! ### The grammar that is accepted -/

/-- A letter `a`-`z` or a digit. -/
def IsLetterOrDigit (c : Char) : Prop := ('a' ≤ c ∧ c ≤ 'z') ∨ ('0' ≤ c ∧ c ≤ '9')

/-- 1 to 64 characters, each a letter, a digit, a point, an underscore or a hyphen,
the first and the last a letter or a digit. -/
structure GroupNameGrammar (name : String) : Prop where
  nonempty : 1 ≤ name.toList.length
  short : name.toList.length ≤ 64
  alphabet : ∀ c ∈ name.toList, IsLetterOrDigit c ∨ c = '.' ∨ c = '_' ∨ c = '-'
  first : ∀ c, name.toList.head? = some c → IsLetterOrDigit c
  last : ∀ c, name.toList.getLast? = some c → IsLetterOrDigit c

lemma isNameEdge_iff {c : Char} : isNameEdge c ↔ IsLetterOrDigit c := by
  simp [isNameEdge, IsLetterOrDigit]

lemma isNameChar_iff {c : Char} :
    isNameChar c ↔ IsLetterOrDigit c ∨ c = '.' ∨ c = '_' ∨ c = '-' := by
  simp [isNameChar, isNameEdge, IsLetterOrDigit, or_assoc]

/-- The pattern matches the grammar. -/
lemma isGroupName_iff_grammar {name : String} : IsGroupName name ↔ GroupNameGrammar name := by
  rw [groupName_iff]
  simp only [isNameChar_iff, isNameEdge_iff, Option.mem_def]
  constructor
  · rintro ⟨⟨hpos, hlen⟩, hall, hfirst, hlast⟩
    exact ⟨hpos, hlen, hall, hfirst, hlast⟩
  · intro h
    exact ⟨⟨h.nonempty, h.short⟩, h.alphabet, h.first, h.last⟩

instance (name : String) : Decidable (GroupNameGrammar name) :=
  decidable_of_iff (IsGroupName name) isGroupName_iff_grammar

/-- A name with a letter or digit first is no folder that a path treats in its own way. -/
lemma IsGroupName.ne_dots {n : String} (h : IsGroupName n) : n ≠ "." ∧ n ≠ ".." := by
  have hfirst := ((groupName_iff n).mp h).2.2.1
  constructor
  · rintro rfl
    exact absurd (hfirst '.' (by simp)) (by decide)
  · rintro rfl
    exact absurd (hfirst '.' (by simp)) (by decide)

/-- **`normalize_group_name` accepts exactly its grammar**: the stripped and
lowered name where that is of the grammar, and a `ValueError` otherwise. What it returns
it returns again, and it is one segment of a path. -/
theorem normalizeGroupName_grammar (P : Platform) (name : String) :
    normalizeGroupName P name
        = (if GroupNameGrammar (P.lower (strip name)) then .ok (P.lower (strip name))
          else .error (.valueError ("Invalid group name: " ++ P.repr name)))
      ∧ ∀ n, normalizeGroupName P name = .ok n →
        normalizeGroupName P n = .ok n ∧ n ≠ "" ∧ '/' ∉ n.toList ∧ n ≠ "." ∧ n ≠ ".." := by
  constructor
  · rw [normalizeGroupName]
    by_cases h : IsGroupName (P.lower (strip name))
    · have hgood : ¬ (P.lower (strip name) = "" ∨ ¬ groupNamePattern.fullmatch _) :=
        not_or.mpr ⟨h.ne_empty, not_not.mpr h⟩
      rw [if_pos (isGroupName_iff_grammar.mp h)]
      exact if_neg hgood
    · rw [if_neg fun hgrammar => h (isGroupName_iff_grammar.mpr hgrammar)]
      exact if_pos (Or.inr h)
  · intro n hn
    have hname := (normalizeGroupName_eq_ok hn).1
    exact ⟨normalizeGroupName_self P hname, hname.ne_empty, hname.isSegment.2, hname.ne_dots⟩

end GofrSec
