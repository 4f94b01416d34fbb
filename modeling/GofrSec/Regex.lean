/-
Regular expressions with bounded repetition, matched by backtracking.

* `Regex.rests r l`: what is left of `l` after each way of matching a prefix
  of it with `r`; `Regex.fullmatch`: some way of matching leaves nothing;
* `mem_rests_cls`, `mem_rests_seq`, `mem_rests_opt`, `mem_rests_upTo_cls`: the
  ways of matching, constructor by constructor, for every split of the input.
-/
import Mathlib.Data.List.Basic

/-- Character classes, sequence, optional parts and bounded repetition. -/
inductive Regex where
  /-- One character of a class, `[...]`. -/
  | cls (p : Char → Bool)
  /-- One expression after the other. -/
  | seq (a b : Regex)
  /-- `a?`. -/
  | opt (a : Regex)
  /-- `a{0,n}`. -/
  | upTo (n : ℕ) (a : Regex)

namespace Regex

/-- At most `n` rounds of `f`, the longest first. -/
def iterate (f : List Char → List (List Char)) : ℕ → List Char → List (List Char)
  | 0, l => [l]
  | n + 1, l => (f l).flatMap (iterate f n) ++ [l]

/-- What is left of the input after each way of matching a prefix. -/
def rests : Regex → List Char → List (List Char)
  | .cls _, [] => []
  | .cls p, c :: l => if p c then [l] else []
  | .seq a b, l => (rests a l).flatMap (rests b)
  | .opt a, l => rests a l ++ [l]
  | .upTo n a, l => iterate (rests a) n l

/-- `pattern.fullmatch(s)`: some way of matching consumes the whole string. -/
def fullmatch (r : Regex) (s : String) : Bool := (rests r s.toList).any List.isEmpty

lemma fullmatch_iff {r : Regex} {s : String} : r.fullmatch s ↔ [] ∈ rests r s.toList := by
  simp [fullmatch]

lemma mem_rests_cls {p : Char → Bool} {l m : List Char} :
    m ∈ rests (.cls p) l ↔ ∃ c, p c ∧ l = c :: m := by
  cases l with
  | nil => simp [rests]
  | cons d l =>
      by_cases h : p d
      · simp only [rests, if_pos h, List.mem_singleton, List.cons.injEq]
        exact ⟨fun hm => ⟨d, h, rfl, hm.symm⟩, fun ⟨_, _, _, hm⟩ => hm.symm⟩
      · simp only [rests, if_neg h, List.not_mem_nil, List.cons.injEq, false_iff]
        rintro ⟨c, hc, rfl, -⟩
        exact h hc

lemma mem_rests_seq {a b : Regex} {l m : List Char} :
    m ∈ rests (.seq a b) l ↔ ∃ l', l' ∈ rests a l ∧ m ∈ rests b l' := by
  simp [rests]

lemma mem_rests_opt {a : Regex} {l m : List Char} :
    m ∈ rests (.opt a) l ↔ m ∈ rests a l ∨ m = l := by
  simp [rests]

/-- `[...]{0,n}` consumes any prefix of at most `n` characters of the class. -/
lemma mem_rests_upTo_cls {p : Char → Bool} {n : ℕ} {l m : List Char} :
    m ∈ rests (.upTo n (.cls p)) l ↔ ∃ u, l = u ++ m ∧ u.length ≤ n ∧ ∀ c ∈ u, p c := by
  rw [rests]
  induction n generalizing l with
  | zero =>
      simp only [iterate, List.mem_singleton, Nat.le_zero, List.length_eq_zero_iff]
      constructor
      · rintro rfl
        exact ⟨[], rfl, rfl, by simp⟩
      · rintro ⟨u, rfl, rfl, -⟩
        rfl
  | succ n ih =>
      simp only [iterate, List.mem_append, List.mem_flatMap, List.mem_singleton, mem_rests_cls, ih]
      constructor
      · rintro (⟨l', ⟨c, hc, rfl⟩, u, rfl, hlen, hu⟩ | rfl)
        · exact ⟨c :: u, rfl, by simpa using hlen, by simpa [hc] using hu⟩
        · exact ⟨[], rfl, by simp, by simp⟩
      · rintro ⟨u, rfl, hlen, hu⟩
        cases u with
        | nil => exact Or.inr rfl
        | cons c u =>
            refine Or.inl ⟨u ++ m, ⟨c, hu c (by simp), rfl⟩, u, rfl, by simpa using hlen, ?_⟩
            exact fun d hd => hu d (by simp [hd])

end Regex
