/-
Lists that are strictly increasing by a key.

* `SortedBy key l`: the keys of `l` increase strictly, so no two are the same;
* `SortedBy.split`, `SortedBy.cut`: the place of a key that is not there, and what
  is left when the value of a key is taken out;
* `SortedBy.insertionSort_eq`: what sorting makes of the values of such a list;
* `filter_key_eq`, `SortedBy.filter_eq`: the values of one key, at most one.
-/
import Mathlib.Data.List.Sort

/-- Of values with different keys one has the key of a value, that value. -/
lemma filter_key_eq {ν κ : Type} [DecidableEq κ] {key : ν → κ} {l : List ν} {a : ν}
    (hnodup : (l.map key).Nodup) (ha : a ∈ l) : (l.filter fun x => key x = key a) = [a] := by
  induction l with
  | nil => cases ha
  | cons x l ih =>
      obtain ⟨hx, hnodup⟩ := List.nodup_cons.mp hnodup
      rcases List.mem_cons.mp ha with rfl | ha
      · have hnone : ∀ y ∈ l, ¬ decide (key y = key a) := fun y hy h =>
          hx (List.mem_map.mpr ⟨y, hy, of_decide_eq_true h⟩)
        rw [List.filter_cons_of_pos (by simp), List.filter_eq_nil_iff.mpr hnone]
      · have hne : key x ≠ key a := fun h => hx (List.mem_map.mpr ⟨a, ha, h.symm⟩)
        rw [List.filter_cons_of_neg (by simpa using hne), ih hnodup ha]

/-- The keys of the list are strictly increasing. -/
def SortedBy {ν κ : Type} [LinearOrder κ] (key : ν → κ) (l : List ν) : Prop :=
  l.Pairwise fun a b => key a < key b

/-- `k` belongs between the two lists. -/
structure Between {ν κ : Type} [LinearOrder κ] (key : ν → κ) (k : κ) (before after : List ν) :
    Prop where
  below : ∀ x ∈ before, key x < k
  above : ∀ x ∈ after, k < key x

namespace SortedBy

variable {ν κ : Type} [LinearOrder κ] {key : ν → κ} {l : List ν} {a : ν}

lemma filter (h : SortedBy key l) (p : ν → Bool) : SortedBy key (l.filter p) :=
  h.sublist List.filter_sublist

/-- A key that no value of the list has, has its place in it. -/
lemma split (h : SortedBy key l) {k : κ} (habsent : ∀ x ∈ l, key x ≠ k) :
    ∃ before after, l = before ++ after ∧ Between key k before after := by
  induction l with
  | nil => exact ⟨[], [], rfl, by simp, by simp⟩
  | cons x l ih =>
      obtain ⟨hx, hl⟩ := List.pairwise_cons.mp h
      rcases lt_or_gt_of_ne (habsent x List.mem_cons_self) with hlt | hgt
      · obtain ⟨before, after, rfl, hbetween⟩ :=
          ih hl fun y hy => habsent y (List.mem_cons_of_mem _ hy)
        refine ⟨x :: before, after, rfl, ?_, hbetween.above⟩
        simpa using ⟨hlt, hbetween.below⟩
      · refine ⟨[], x :: l, rfl, by simp, ?_⟩
        simpa using ⟨hgt, fun y hy => hgt.trans (hx y hy)⟩

/-- No other value has the key of a value. -/
lemma key_ne {before after : List ν} (h : SortedBy key (before ++ a :: after)) :
    ∀ x ∈ before ++ after, key x ≠ key a := by
  obtain ⟨-, hright, hcross⟩ := List.pairwise_append.mp h
  intro x hx
  rcases List.mem_append.mp hx with hx | hx
  · exact (hcross x hx a List.mem_cons_self).ne
  · exact ((List.pairwise_cons.mp hright).1 x hx).ne'

/-- The value of a key, cut out of the list. -/
lemma cut (h : SortedBy key l) (ha : a ∈ l) :
    ∃ before after, l = before ++ a :: after
      ∧ (l.filter fun x => key x ≠ key a) = before ++ after := by
  obtain ⟨before, after, rfl⟩ := List.append_of_mem ha
  refine ⟨before, after, rfl, ?_⟩
  rw [List.filter_append, List.filter_cons_of_neg (by simp), ← List.filter_append,
    List.filter_eq_self.mpr (by simpa using h.key_ne)]

/-- No two values have one key. -/
lemma nodup (h : SortedBy key l) : (l.map key).Nodup :=
  List.pairwise_map.mpr (h.imp ne_of_lt)

/-- At most one value of the list has a given key. -/
lemma filter_eq (h : SortedBy key l) (ha : a ∈ l) : (l.filter fun x => key x = key a) = [a] :=
  filter_key_eq h.nodup ha

/-- A value put at its place keeps the list sorted. -/
lemma insert {before after : List ν} (h : SortedBy key (before ++ after))
    (hplace : Between key (key a) before after) : SortedBy key (before ++ a :: after) := by
  obtain ⟨hbefore, hafter, hcross⟩ := List.pairwise_append.mp h
  refine List.pairwise_append.mpr ⟨hbefore, List.pairwise_cons.mpr ⟨hplace.above, hafter⟩, ?_⟩
  intro x hx y hy
  rcases List.mem_cons.mp hy with rfl | hy
  · exact hplace.below x hx
  · exact hcross x hx y hy

/-- A sorted list is not changed by sorting it, and is what any list with its values is
sorted to. -/
lemma insertionSort_eq {l' : List ν} (h : SortedBy key l) (hperm : l'.Perm l) :
    l'.insertionSort (fun a b => key a ≤ key b) = l := by
  have hsorted : (l'.insertionSort fun a b => key a ≤ key b).Perm l :=
    (List.perm_insertionSort _ l').trans hperm
  have hunique : ∀ x y, x ∈ l'.insertionSort (fun a b => key a ≤ key b) → y ∈ l →
      key x ≤ key y → key y ≤ key x → x = y := by
    intro x y hx hy hxy hyx
    have hmem : x ∈ l.filter fun z => key z = key y :=
      List.mem_filter.mpr ⟨hsorted.mem_iff.mp hx, by simpa using le_antisymm hxy hyx⟩
    rw [h.filter_eq hy] at hmem
    exact List.mem_singleton.mp hmem
  have : Std.Total fun a b : ν => key a ≤ key b := ⟨fun a b => le_total (key a) (key b)⟩
  have : IsTrans ν fun a b => key a ≤ key b := ⟨fun _ _ _ => le_trans⟩
  exact List.Perm.eq_of_pairwise hunique (List.pairwise_insertionSort _ l') (h.imp le_of_lt)
    hsorted

end SortedBy
