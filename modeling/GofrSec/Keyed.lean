/-
Partial maps whose values know their own key.

* `Keyed key`: at most one value for each key, each filed under the key it
  carries; `insert`, `remove` and what looking a key up finds after them
  (`find_insert`, `find_remove`);
* `Keyed.Lists m p l`: the list `l` holds the values of `m` with the property
  `p`, each exactly once, in any order; two such lists are permutations of
  each other (`Lists.perm`);
* `Lists.filter_insert`, `Lists.filter_remove`: how a listing changes with the
  map.
-/
import Mathlib.Data.List.Nodup
import Mathlib.Data.List.Perm.Basic

/-- A partial map whose values are filed under their own key. -/
structure Keyed {κ ν : Type} (key : ν → κ) where
  find : κ → Option ν
  key_eq : ∀ k v, find k = some v → key v = k

namespace Keyed

variable {κ ν : Type} {key : ν → κ}

@[ext] lemma ext {m n : Keyed key} (h : ∀ k, m.find k = n.find k) : m = n := by
  cases m
  cases n
  congr
  funext k
  exact h k

/-- The map without values. -/
def empty : Keyed key := ⟨fun _ => none, fun _ _ h => nomatch h⟩

@[simp] lemma find_empty (k : κ) : (empty : Keyed key).find k = none := rfl

/-! ### Listings -/

/-- `l` holds the values of `m` with the property `p`, each once. -/
def Lists (m : Keyed key) (p : ν → Prop) (l : List ν) : Prop :=
  (l.map key).Nodup ∧ ∀ v, v ∈ l ↔ m.find (key v) = some v ∧ p v

namespace Lists

variable {m : Keyed key} {p : ν → Prop} {l : List ν}

lemma nodup (h : m.Lists p l) : l.Nodup := h.1.of_map key

/-- Two listings of the same values are permutations of each other. -/
lemma perm {l' : List ν} (h : m.Lists p l) (h' : m.Lists p l') : l.Perm l' :=
  (List.perm_ext_iff_of_nodup h.nodup h'.nodup).mpr fun v => by rw [h.2, h'.2]

/-- Any rearrangement of a listing is one. -/
lemma of_perm {l' : List ν} (h : m.Lists p l) (hl : l'.Perm l) : m.Lists p l' :=
  ⟨(hl.map key).nodup_iff.mpr h.1, fun v => by rw [hl.mem_iff, h.2]⟩

/-- A value of `m` with the property is listed. -/
lemma mem {k : κ} {v : ν} (h : m.Lists p l) (hv : m.find k = some v) (hp : p v) : v ∈ l :=
  (h.2 v).mpr ⟨by rw [m.key_eq k v hv, hv], hp⟩

/-- A listing depends only on the values with the property. -/
lemma congr {m' : Keyed key} (h : m.Lists p l)
    (heq : ∀ v, p v → (m'.find (key v) = some v ↔ m.find (key v) = some v)) :
    m'.Lists p l := by
  refine ⟨h.1, fun v => ?_⟩
  rw [h.2]
  constructor
  · rintro ⟨hv, hp⟩
    exact ⟨(heq v hp).mpr hv, hp⟩
  · rintro ⟨hv, hp⟩
    exact ⟨(heq v hp).mp hv, hp⟩

/-- A key that no listed value carries is absent, as far as the property goes. -/
lemma find_eq_none {k : κ} (h : m.Lists p l) (hp : ∀ v, m.find k = some v → p v)
    (hl : ∀ v ∈ l, key v ≠ k) : m.find k = none := by
  cases hk : m.find k with
  | none => rfl
  | some v => exact absurd (m.key_eq k v hk) (hl v (h.mem hk (hp v hk)))

end Lists

/-- The values found under a list of keys that holds just those of the values with the
property. -/
lemma lists_of_keys {m : Keyed key} {p : ν → Prop} {keys : List κ} (hnodup : keys.Nodup)
    (hkeys : ∀ k v, m.find k = some v → (k ∈ keys ↔ p v)) :
    m.Lists p (keys.flatMap fun k => (m.find k).toList) := by
  constructor
  · rw [List.map_flatMap]
    refine List.nodup_flatMap.mpr ⟨fun k _ => ?_, hnodup.imp fun {j k} hjk x hj hk => ?_⟩
    · cases m.find k <;> simp
    · obtain ⟨v, hv, rfl⟩ := List.mem_map.mp hj
      obtain ⟨w, hw, hx⟩ := List.mem_map.mp hk
      have hkv := m.key_eq _ _ (Option.mem_toList.mp hv)
      have hkw := m.key_eq _ _ (Option.mem_toList.mp hw)
      exact hjk (hkv.symm.trans (hx.symm.trans hkw))
  · intro v
    simp only [List.mem_flatMap, Option.mem_toList]
    constructor
    · rintro ⟨k, hk, hv⟩
      obtain rfl := m.key_eq k v hv
      exact ⟨hv, (hkeys _ v hv).mp hk⟩
    · rintro ⟨hv, hp⟩
      exact ⟨key v, (hkeys _ v hv).mpr hp, hv⟩

/-! ### Filing and removing values -/

variable [DecidableEq κ]

/-- File a value under its key, in place of what was there. -/
def insert (m : Keyed key) (v : ν) : Keyed key where
  find k := if k = key v then some v else m.find k
  key_eq k w h := by
    split_ifs at h with hk
    · rw [← Option.some.inj h, hk]
    · exact m.key_eq k w h

/-- Remove what is filed under a key. -/
def remove (m : Keyed key) (x : κ) : Keyed key where
  find k := if k = x then none else m.find k
  key_eq k w h := by
    split_ifs at h with hk
    exact m.key_eq k w h

lemma find_insert (m : Keyed key) (v : ν) (k : κ) :
    (m.insert v).find k = if k = key v then some v else m.find k := rfl

lemma find_remove (m : Keyed key) (x k : κ) :
    (m.remove x).find k = if k = x then none else m.find k := rfl

@[simp] lemma find_insert_self (m : Keyed key) (v : ν) : (m.insert v).find (key v) = some v :=
  if_pos rfl

lemma find_insert_of_ne (m : Keyed key) {v : ν} {k : κ} (h : k ≠ key v) :
    (m.insert v).find k = m.find k := if_neg h

@[simp] lemma find_remove_self (m : Keyed key) (x : κ) : (m.remove x).find x = none :=
  if_pos rfl

lemma find_remove_of_ne (m : Keyed key) {x k : κ} (h : k ≠ x) :
    (m.remove x).find k = m.find k := if_neg h

/-- Removing what is not there changes nothing. -/
lemma remove_of_find_eq_none {m : Keyed key} {x : κ} (h : m.find x = none) : m.remove x = m := by
  ext1 k
  rw [find_remove]
  split_ifs with hk
  · rw [hk, h]
  · rfl

namespace Lists

variable {m : Keyed key} {p : ν → Prop} {l : List ν}

/-- After a removal, the listing loses the value of that key. -/
lemma filter_remove {x : κ} (h : m.Lists p l) :
    (m.remove x).Lists p (l.filter fun v => key v ≠ x) := by
  refine ⟨h.1.sublist (List.Sublist.map _ List.filter_sublist), fun v => ?_⟩
  rw [List.mem_filter, h.2, find_remove]
  by_cases hv : key v = x
  · simp [hv]
  · simp [hv]

/-- After an insertion, the listing has the new value, once, at its end. -/
lemma filter_insert {v : ν} (h : m.Lists p l) (hp : p v) :
    (m.insert v).Lists p (l.filter (fun w => key w ≠ key v) ++ [v]) := by
  constructor
  · rw [List.map_append, List.nodup_append]
    refine ⟨h.1.sublist (List.Sublist.map _ List.filter_sublist), by simp, ?_⟩
    rintro k hk k' hk' rfl
    obtain ⟨w, hw, rfl⟩ := List.mem_map.mp hk
    have hne := (List.mem_filter.mp hw).2
    simp only [List.map_cons, List.map_nil, List.mem_singleton] at hk'
    simp [hk'] at hne
  · intro w
    rw [List.mem_append, List.mem_filter, h.2, find_insert, List.mem_singleton]
    by_cases hw : key w = key v
    · simp only [hw, ne_eq, not_true_eq_false, decide_false, Bool.false_eq_true, and_false,
        false_or, if_true, Option.some.injEq]
      constructor
      · rintro rfl
        exact ⟨rfl, hp⟩
      · rintro ⟨rfl, -⟩
        rfl
    · have hne : w ≠ v := fun h0 => hw (congrArg key h0)
      simp [hw, hne]

end Lists

end Keyed
