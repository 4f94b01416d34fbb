/-
Insertion-ordered dictionaries, as in Python: a key occurs once, assigning to
a present key keeps its place, and a new key goes to the end.

* `Dict κ ν`: the entries with the proof that no key occurs twice;
* `get`, `set`, `erase`, `keys`, `values`, and how the first three compose
  (`get_set`, `get_erase`);
* `mem_entries_iff`, `mem_keys_iff`: an entry is listed exactly when looking
  its key up finds its value.
-/
import Mathlib.Data.List.Nodup

/-- The value of the first entry at a key. -/
def findEntry {κ ν : Type} [DecidableEq κ] (x : κ) : List (κ × ν) → Option ν
  | [] => none
  | (k, v) :: es => if k = x then some v else findEntry x es

/-- A dictionary in insertion order. -/
structure Dict (κ ν : Type) [DecidableEq κ] where
  entries : List (κ × ν)
  nodup : (entries.map Prod.fst).Nodup

namespace Dict

variable {κ ν : Type} [DecidableEq κ]

/-- The dictionary without entries. -/
def empty : Dict κ ν := ⟨[], List.nodup_nil⟩

/-- The value at a key, if it is present. -/
def get (d : Dict κ ν) (k : κ) : Option ν := findEntry k d.entries

/-- The keys, oldest first. -/
def keys (d : Dict κ ν) : List κ := d.entries.map Prod.fst

/-- The values, in the order of their keys. -/
def values (d : Dict κ ν) : List ν := d.entries.map Prod.snd

/-- Replace the value at a present key, or append a new entry. -/
def setEntry (k : κ) (v : ν) : List (κ × ν) → List (κ × ν)
  | [] => [(k, v)]
  | (k', v') :: es => if k' = k then (k, v) :: es else (k', v') :: setEntry k v es

lemma mem_keys_setEntry {k x : κ} {v : ν} {es : List (κ × ν)} :
    x ∈ (setEntry k v es).map Prod.fst ↔ x = k ∨ x ∈ es.map Prod.fst := by
  induction es with
  | nil => simp [setEntry]
  | cons e es ih =>
      obtain ⟨k', v'⟩ := e
      by_cases h : k' = k
      · simp [setEntry, h]
      · simp only [setEntry, if_neg h, List.map_cons, List.mem_cons, ih]
        tauto

lemma nodup_setEntry {k : κ} {v : ν} {es : List (κ × ν)} (h : (es.map Prod.fst).Nodup) :
    ((setEntry k v es).map Prod.fst).Nodup := by
  induction es with
  | nil => simp [setEntry]
  | cons e es ih =>
      obtain ⟨k', v'⟩ := e
      rw [List.map_cons, List.nodup_cons] at h
      by_cases hk : k' = k
      · subst hk
        rw [setEntry, if_pos rfl, List.map_cons, List.nodup_cons]
        exact h
      · rw [setEntry, if_neg hk, List.map_cons, List.nodup_cons, mem_keys_setEntry]
        exact ⟨by simpa [hk] using h.1, ih h.2⟩

/-- `d[k] = v`. -/
def set (d : Dict κ ν) (k : κ) (v : ν) : Dict κ ν :=
  ⟨setEntry k v d.entries, nodup_setEntry d.nodup⟩

/-- Remove a key, if it is present. -/
def erase (d : Dict κ ν) (k : κ) : Dict κ ν :=
  ⟨d.entries.filter fun e => e.1 ≠ k,
    d.nodup.sublist (List.Sublist.map _ List.filter_sublist)⟩

lemma findEntry_setEntry (k x : κ) (v : ν) (es : List (κ × ν)) :
    findEntry x (setEntry k v es) = if x = k then some v else findEntry x es := by
  induction es with
  | nil => simp [setEntry, findEntry, eq_comm]
  | cons e es ih =>
      obtain ⟨k', v'⟩ := e
      by_cases hk : k' = k
      · by_cases hx : k = x
        · simp [setEntry, findEntry, hk, hx]
        · simp [setEntry, findEntry, hk, hx, Ne.symm hx]
      · by_cases hx : k' = x
        · subst hx
          simp [setEntry, findEntry, hk]
        · simp [setEntry, findEntry, hk, hx, ih]

/-- Looking a key up after an assignment. -/
lemma get_set (d : Dict κ ν) (k x : κ) (v : ν) :
    (d.set k v).get x = if x = k then some v else d.get x :=
  findEntry_setEntry k x v d.entries

@[simp] lemma get_set_self (d : Dict κ ν) (k : κ) (v : ν) : (d.set k v).get k = some v := by
  rw [get_set, if_pos rfl]

lemma get_set_of_ne (d : Dict κ ν) {k x : κ} (v : ν) (h : x ≠ k) :
    (d.set k v).get x = d.get x := by
  rw [get_set, if_neg h]

lemma setEntry_of_findEntry_none {k : κ} (v : ν) {es : List (κ × ν)} (h : findEntry k es = none) :
    setEntry k v es = es ++ [(k, v)] := by
  induction es with
  | nil => rfl
  | cons e es ih =>
      obtain ⟨k', v'⟩ := e
      rw [findEntry] at h
      split_ifs at h with hk
      rw [setEntry, if_neg hk, ih h, List.cons_append]

/-- A new entry goes to the end. -/
lemma values_set_of_get_none {d : Dict κ ν} {k : κ} (v : ν) (h : d.get k = none) :
    (d.set k v).values = d.values ++ [v] := by
  have hentries : (d.set k v).entries = d.entries ++ [(k, v)] := setEntry_of_findEntry_none v h
  rw [values, hentries, List.map_append]
  rfl

/-- Looking a key up after a removal. -/
lemma get_erase (d : Dict κ ν) (k x : κ) :
    (d.erase k).get x = if x = k then none else d.get x := by
  have key : ∀ es : List (κ × ν), findEntry x (es.filter fun e => e.1 ≠ k)
      = if x = k then none else findEntry x es := by
    intro es
    induction es with
    | nil => simp [findEntry]
    | cons e es ih =>
        obtain ⟨k', v'⟩ := e
        by_cases hk : k' = k
        · by_cases hx : x = k
          · simpa [hk, hx] using ih
          · simpa [findEntry, hk, hx, Ne.symm hx] using ih
        · by_cases hx : k' = x
          · subst hx
            simp [findEntry, hk]
          · simpa [findEntry, hk, hx] using ih
  exact key d.entries

@[simp] lemma get_erase_self (d : Dict κ ν) (k : κ) : (d.erase k).get k = none := by
  rw [get_erase, if_pos rfl]

lemma get_erase_of_ne (d : Dict κ ν) {k x : κ} (h : x ≠ k) : (d.erase k).get x = d.get x := by
  rw [get_erase, if_neg h]

/-- An entry is listed exactly when looking its key up finds its value. -/
lemma mem_entries_iff (d : Dict κ ν) (k : κ) (v : ν) :
    (k, v) ∈ d.entries ↔ d.get k = some v := by
  have key : ∀ es : List (κ × ν), (es.map Prod.fst).Nodup →
      ((k, v) ∈ es ↔ findEntry k es = some v) := by
    intro es hes
    induction es with
    | nil => simp [findEntry]
    | cons e es ih =>
        obtain ⟨k', v'⟩ := e
        rw [List.map_cons, List.nodup_cons] at hes
        by_cases hk : k' = k
        · subst hk
          have hnot : (k', v) ∉ es := fun hmem => hes.1 (List.mem_map.mpr ⟨_, hmem, rfl⟩)
          simp [findEntry, hnot, eq_comm]
        · simp [findEntry, hk, Ne.symm hk, ih hes.2]
  exact key d.entries d.nodup

/-- A key is listed exactly when looking it up finds a value. -/
lemma mem_keys_iff (d : Dict κ ν) (k : κ) : k ∈ d.keys ↔ ∃ v, d.get k = some v := by
  simp only [keys, List.mem_map, Prod.exists, mem_entries_iff, exists_and_right, exists_eq_right]

/-- The values are those found at some key. -/
lemma mem_values_iff (d : Dict κ ν) (v : ν) : v ∈ d.values ↔ ∃ k, d.get k = some v := by
  simp only [values, List.mem_map, Prod.exists, mem_entries_iff, exists_eq_right]

lemma nodup_keys (d : Dict κ ν) : d.keys.Nodup := d.nodup

end Dict
