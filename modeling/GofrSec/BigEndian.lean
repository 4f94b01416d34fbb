/-
Natural numbers as lists of digits, the most significant digit first.

* `ofBigEndian b ds`: the number that the digits `ds` stand for in base `b`;
* `IsBigEndian b ds n`: digits of that base which stand for `n`;
* `isBigEndian_map`: the digits `n / b ^ i % b`, as many as are needed;
* `length_le`, `head_ne_zero`: when there are no more than are needed, every
  other list that stands for `n` is as long, and the first digit is not zero.
-/
import Mathlib.Data.List.GetD
import Mathlib.Data.Nat.Digits.Lemmas

namespace BigEndian

/-- The number that `ds` stands for in base `b`. -/
def ofBigEndian (b : ℕ) (ds : List ℕ) : ℕ := ds.foldl (fun n d => b * n + d) 0

/-- `ds` are digits of the base `b` that stand for `n`. -/
structure IsBigEndian (b : ℕ) (ds : List ℕ) (n : ℕ) : Prop where
  digits : ∀ d ∈ ds, d < b
  value : ofBigEndian b ds = n

/-- `k` digits are needed for `n` and suffice. -/
structure Needs (b n k : ℕ) : Prop where
  enough : n < b ^ k
  needed : ∀ j < k, b ^ j ≤ n

variable {b n k : ℕ} {ds es : List ℕ}

/-- Read from the right these are the digits of Mathlib. -/
lemma ofBigEndian_eq (b : ℕ) (ds : List ℕ) : ofBigEndian b ds = Nat.ofDigits b ds.reverse := by
  rw [Nat.ofDigits_eq_foldr, List.foldr_reverse, ofBigEndian]
  congr 1
  funext m d
  exact Nat.add_comm _ _

/-- The number is below the power of the base that its digits count. -/
lemma IsBigEndian.lt_pow (hb : 1 < b) (h : IsBigEndian b ds n) : n < b ^ ds.length := by
  have hlt : ∀ d ∈ ds.reverse, d < b := fun d hd => h.digits d (List.mem_reverse.mp hd)
  have hpow := Nat.ofDigits_lt_base_pow_length hb hlt
  rwa [← ofBigEndian_eq, h.value, List.length_reverse] at hpow

/-- The `k` digits of `n`, each by a division of its own, when `k` are needed. -/
lemma digits_eq_map (hb : 1 < b) (h : Needs b n k) :
    b.digits n = (List.range k).map fun i => n / b ^ i % b := by
  have hlength : (b.digits n).length = k := by
    refine Nat.le_antisymm ((Nat.digits_length_le_iff hb n).mpr h.enough) (not_lt.mp fun hlt => ?_)
    exact absurd ((Nat.digits_length_le_iff hb n).mp le_rfl) (not_lt.mpr (h.needed _ hlt))
  refine List.ext_getElem (by simp [hlength]) fun i hi _ => ?_
  rw [List.getElem_map, List.getElem_range, ← Nat.getD_digits n i hb, List.getD_eq_getElem _ _ hi]

lemma isBigEndian_map (hb : 1 < b) (h : Needs b n k) :
    IsBigEndian b ((List.range k).reverse.map fun i => n / b ^ i % b) n := by
  constructor
  · intro d hd
    obtain ⟨i, -, rfl⟩ := List.mem_map.mp hd
    exact Nat.mod_lt _ (by omega)
  · rw [ofBigEndian_eq, ← List.map_reverse, List.reverse_reverse, ← digits_eq_map hb h,
      Nat.ofDigits_digits]

/-- A list of digits that are all needed is a shortest one. -/
lemma IsBigEndian.length_le (hb : 1 < b) (hn : Needs b n ds.length) (h : IsBigEndian b es n) :
    ds.length ≤ es.length := by
  refine not_lt.mp fun hlt => ?_
  have hle : b ^ es.length ≤ n := hn.needed _ hlt
  exact absurd (h.lt_pow hb) (not_lt.mpr hle)

/-- A leading zero is a digit that is not needed. -/
lemma IsBigEndian.head_ne_zero (hb : 1 < b) (hn : Needs b n ds.length)
    (h : IsBigEndian b ds n) : ds.head? ≠ some 0 := by
  intro hzero
  obtain ⟨rest, rfl⟩ : ∃ rest, ds = 0 :: rest := by
    cases ds with
    | nil => simp at hzero
    | cons d rest =>
        simp only [List.head?_cons, Option.some.injEq] at hzero
        exact ⟨rest, by rw [hzero]⟩
  have hrest : IsBigEndian b rest n :=
    ⟨fun d hd => h.digits d (List.mem_cons_of_mem _ hd), by
      rw [← h.value, ofBigEndian, ofBigEndian, List.foldl_cons, Nat.mul_zero, Nat.add_zero]⟩
  have hle : rest.length + 1 ≤ rest.length := IsBigEndian.length_le hb hn hrest
  omega

end BigEndian
