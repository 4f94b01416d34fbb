/-
Python strings and slash-separated paths.

* `strip`, `rstripSlash`: `str.strip()` and `str.rstrip("/")`;
* `IsSegment`: a non-empty string without a slash, one segment of a path;
* `below`, `Under`: the path of a name in a folder, and the paths in a folder
  at any depth; `below_inj`: a path determines its last segment and what
  stands before it; `under_inj`: folders side by side share no path; `slashes`
  counts the slashes of a path;
* `nextSegment p k`: the part of the path `k` that a listing of the folder `p`
  shows, with a trailing slash when `k` lies deeper; `nextSegment_below` and
  `nextSegment_below_below` compute it, and `nextSegment_eq_some` reads it
  back.
-/
import Mathlib.Data.List.DropRight
import Mathlib.Data.List.Basic

namespace Text

/-! ### Whitespace and trailing slashes -/

/-- `str.isspace` of one character: the Unicode white space that Python's
`str.strip` removes. -/
def isSpace (c : Char) : Bool :=
  let n := c.toNat
  (0x09 ≤ n && n ≤ 0x0d) || (0x1c ≤ n && n ≤ 0x20) || n == 0x85 || n == 0xa0 || n == 0x1680
    || (0x2000 ≤ n && n ≤ 0x200a) || n == 0x2028 || n == 0x2029 || n == 0x202f || n == 0x205f
    || n == 0x3000

/-- `s.strip()`. -/
def strip (s : String) : String :=
  String.ofList ((s.toList.dropWhile isSpace).rdropWhile isSpace)

/-- `s.rstrip("/")`. -/
def rstripSlash (s : String) : String :=
  String.ofList (s.toList.rdropWhile (· == '/'))

/-- A string whose ends are not white space is its own `strip`. -/
lemma strip_eq_self {s : String} (hhead : ∀ c ∈ s.toList.head?, isSpace c = false)
    (hlast : ∀ c ∈ s.toList.getLast?, isSpace c = false) : strip s = s := by
  have hdrop : s.toList.dropWhile isSpace = s.toList := by
    cases hs : s.toList with
    | nil => rfl
    | cons c cs =>
        have hc := hhead c (by simp [hs])
        simp [hc]
  have hrdrop : s.toList.rdropWhile isSpace = s.toList := by
    rw [List.rdropWhile_eq_self_iff]
    intro hne
    have hc := hlast _ (List.getLast?_eq_some_getLast hne)
    simp [hc]
  rw [strip, hdrop, hrdrop, String.ofList_toList]

/-! ### Path segments -/

/-- A non-empty string without a slash. -/
def IsSegment (s : String) : Prop := s ≠ "" ∧ '/' ∉ s.toList

instance (s : String) : Decidable (IsSegment s) := inferInstanceAs (Decidable (_ ∧ _))

/-- A string without a slash has no trailing slash to strip. -/
lemma rstripSlash_of_slashless {s : String} (h : '/' ∉ s.toList) : rstripSlash s = s := by
  have hrdrop : s.toList.rdropWhile (· == '/') = s.toList := by
    rw [List.rdropWhile_eq_self_iff]
    intro hne hlast
    have hmem := List.getLast_mem hne
    rw [beq_iff_eq.mp hlast] at hmem
    exact h hmem
  rw [rstripSlash, hrdrop, String.ofList_toList]

lemma IsSegment.rstripSlash_eq {s : String} (h : IsSegment s) : rstripSlash s = s :=
  rstripSlash_of_slashless h.2

/-- The name of a folder, as a listing shows it, loses its trailing slash. -/
lemma IsSegment.rstripSlash_folder {s : String} (h : IsSegment s) :
    rstripSlash (s ++ "/") = s := by
  have hlist : (s ++ "/").toList = s.toList ++ ['/'] := by
    rw [String.toList_append]
    rfl
  have h' := h.rstripSlash_eq
  rw [rstripSlash] at h' ⊢
  rw [hlist, List.rdropWhile_concat_pos _ _ '/' rfl, h']

lemma takeWhile_append_slash {l m : List Char} (h : '/' ∉ l) :
    (l ++ '/' :: m).takeWhile (· ≠ '/') = l := by
  rw [List.takeWhile_append_of_pos]
  · simp
  · intro c hc
    have : c ≠ '/' := fun h0 => h (h0 ▸ hc)
    simpa using this

/-- The path of a name in the folder `root`. -/
abbrev below (root name : String) : String := root ++ "/" ++ name

/-- A path in the folder `root`, at any depth. -/
def Under (root path : String) : Prop := ∃ rest, path = below root rest

lemma under_below (root name : String) : Under root (below root name) := ⟨name, rfl⟩

lemma below_below (root name rest : String) :
    below (below root name) rest = below root (below name rest) := by
  simp only [String.append_assoc]

/-- What is below a path in a folder is in the folder too. -/
lemma Under.below {root path : String} (h : Under root path) (name : String) :
    Under root (below path name) := by
  obtain ⟨rest, rfl⟩ := h
  exact ⟨Text.below rest name, by simp only [String.append_assoc]⟩

/-- Two folders side by side have no path in common. -/
lemma under_inj {p s t k : String} (hs : '/' ∉ s.toList) (ht : '/' ∉ t.toList)
    (hks : Under (below p s) k) (hkt : Under (below p t) k) : s = t := by
  obtain ⟨x, rfl⟩ := hks
  obtain ⟨y, hy⟩ := hkt
  have hslash : ("/" : String).toList = ['/'] := rfl
  have hlist := congrArg String.toList hy
  simp only [String.toList_append, hslash, List.append_assoc, List.cons_append,
    List.nil_append] at hlist
  -- both sides read up to the first slash after the common folder
  have hrest := List.cons_injective (List.append_cancel_left hlist)
  have htake := congrArg (List.takeWhile (· ≠ '/')) hrest
  rw [takeWhile_append_slash hs, takeWhile_append_slash ht] at htake
  exact String.toList_inj.mp htake

/-- A path in a folder determines the segment that follows the folder. -/
lemma below_below_inj {p s t x y : String} (hs : '/' ∉ s.toList) (ht : '/' ∉ t.toList)
    (h : below (below p s) x = below (below p t) y) : s = t ∧ x = y := by
  obtain rfl := under_inj hs ht ⟨x, rfl⟩ ⟨y, h⟩
  exact ⟨rfl, (String.append_right_inj _).mp h⟩

lemma slash_mem_below (p s : String) : '/' ∈ (below p s).toList := by
  have hslash : ("/" : String).toList = ['/'] := rfl
  simp [String.toList_append, hslash]

/-- A path determines its last segment and the path before it. -/
lemma below_inj {p q s t : String} (hs : '/' ∉ s.toList) (ht : '/' ∉ t.toList)
    (h : below p s = below q t) : p = q ∧ s = t := by
  have hslash : ("/" : String).toList = ['/'] := rfl
  have hlist := congrArg (fun x => x.toList.reverse) h
  simp only [String.toList_append, hslash, List.reverse_append, List.reverse_cons,
    List.reverse_nil, List.nil_append, List.singleton_append] at hlist
  have hs' : '/' ∉ s.toList.reverse := by simpa using hs
  have ht' : '/' ∉ t.toList.reverse := by simpa using ht
  -- both sides read up to their first slash from the end
  have htake := congrArg (List.takeWhile (· ≠ '/')) hlist
  rw [takeWhile_append_slash hs', takeWhile_append_slash ht'] at htake
  rw [htake] at hlist
  have hrest := List.append_cancel_left hlist
  rw [List.cons.injEq] at hrest
  exact ⟨String.toList_inj.mp (List.reverse_injective hrest.2),
    String.toList_inj.mp (List.reverse_injective htake)⟩

/-- The number of slashes in a path. -/
def slashes (s : String) : ℕ := s.toList.count '/'

lemma slashes_eq_zero_iff {s : String} : slashes s = 0 ↔ '/' ∉ s.toList := List.count_eq_zero

lemma slashes_below (p s : String) : slashes (below p s) = slashes p + 1 + slashes s := by
  have hslash : ("/" : String).toList = ['/'] := rfl
  simp only [slashes, String.toList_append, hslash, List.count_append, List.count_singleton_self]

/-! ### Listing a folder -/

/-- The next segment of the path `k` below the folder `p`: a name, or a name
with a trailing slash when `k` lies deeper; nothing when `k` is elsewhere. -/
def nextSegment (p k : String) : Option String :=
  let folder := (p ++ "/").toList
  if folder.isPrefixOf k.toList then
    let rest := k.toList.drop folder.length
    if '/' ∈ rest then some (String.ofList (rest.takeWhile (· ≠ '/') ++ ['/']))
    else some (String.ofList rest)
  else none

/-- A path one segment below `p` shows that segment. -/
lemma nextSegment_below {p s : String} (h : '/' ∉ s.toList) :
    nextSegment p (below p s) = some s := by
  have hlist : (p ++ "/" ++ s).toList = (p ++ "/").toList ++ s.toList := String.toList_append
  simp [nextSegment, hlist, h]

/-- A path deeper below `p` shows the folder it lies in. -/
lemma nextSegment_below_below {p s t : String} (h : '/' ∉ s.toList) :
    nextSegment p (below (below p s) t) = some (s ++ "/") := by
  have hslash : ("/" : String).toList = ['/'] := rfl
  have hlist : (p ++ "/" ++ s ++ "/" ++ t).toList
      = (p ++ "/").toList ++ (s.toList ++ '/' :: t.toList) := by
    simp [String.toList_append, hslash]
  have htake := takeWhile_append_slash (m := t.toList) h
  have hout : String.ofList (s.toList ++ ['/']) = s ++ "/" := by
    rw [← String.toList_inj, String.toList_ofList, String.toList_append, hslash]
  rw [nextSegment]
  simp only [hlist, List.isPrefixOf_iff_prefix, List.prefix_append, if_true, List.drop_left,
    List.mem_append, List.mem_cons, true_or, or_true, htake, hout]

/-- What a listing of `p` shows comes from a path below `p`: either the path
ends there, or it goes on below a folder. -/
lemma nextSegment_eq_some {p k s : String} (h : nextSegment p k = some s) :
    '/' ∉ s.toList ∧ k = below p s ∨
      ∃ u t, '/' ∉ u.toList ∧ s = u ++ "/" ∧ k = below (below p u) t := by
  have hslash : ("/" : String).toList = ['/'] := rfl
  simp only [nextSegment] at h
  split_ifs at h with hpre hmem
  · obtain ⟨rest, hrest⟩ := List.isPrefixOf_iff_prefix.mp hpre
    rw [← hrest, List.drop_left] at h hmem
    obtain ⟨u, t, rfl, hu⟩ := List.eq_append_cons_of_mem hmem
    rw [takeWhile_append_slash hu, Option.some.injEq] at h
    refine Or.inr ⟨String.ofList u, String.ofList t, by simpa using hu, ?_, ?_⟩
    · rw [← String.toList_inj, ← h]
      simp [String.toList_append, hslash]
    · rw [← String.toList_inj, ← hrest]
      simp [String.toList_append, hslash]
  · obtain ⟨rest, hrest⟩ := List.isPrefixOf_iff_prefix.mp hpre
    rw [← hrest, List.drop_left] at h hmem
    rw [Option.some.injEq] at h
    refine Or.inl ⟨by simpa [← h] using hmem, ?_⟩
    rw [← String.toList_inj, ← hrest, ← h]
    simp [String.toList_append, hslash]

end Text
