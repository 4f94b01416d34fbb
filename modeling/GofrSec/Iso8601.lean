/-
Dates of the proleptic Gregorian calendar, and times in ISO 8601 text.

* `Date.ofDays`, `Date.toDays`: the date of a number of days, and back
  (`toDays_ofDays`), by way of years that start on 1 March;
* `format`, `parse`: a number of microseconds since the start of year 1 as
  `YYYY-MM-DDTHH:MM:SS[.ffffff]+00:00`, and back (`parse_format`).
-/
import Mathlib.Data.List.Basic
import Mathlib.Data.Nat.Notation
import Mathlib.Tactic.IntervalCases

namespace Iso8601

/-- A date of the proleptic Gregorian calendar. -/
structure Date where
  year : ℕ
  month : ℕ
  day : ℕ
  deriving DecidableEq, Repr

/-- The days before a year, of years that start on 1 March. -/
def daysBeforeYear (y : ℕ) : ℕ := 365 * y + y / 4 - y / 100 + y / 400

/-- The days before a month of such a year, March being month 0. -/
def daysBeforeMonth (m : ℕ) : ℕ := (153 * m + 2) / 5

/-- The century of a day in its 400 years: the last one is a day longer. -/
def century (d : ℕ) : ℕ := min 3 (d / 36524)

/-- The year of a day in its four years: the last one is a day longer. -/
def yearOfFour (d : ℕ) : ℕ := min 3 (d / 365)

/-- The year and the day in it of the day `n`, both from 1 March of year 0. -/
def marchYear (n : ℕ) : ℕ × ℕ :=
  let d400 := n % 146097
  let d100 := d400 - 36524 * century d400
  let d4 := d100 % 1461
  (400 * (n / 146097) + 100 * century d400 + 4 * (d100 / 1461) + yearOfFour d4,
    d4 - 365 * yearOfFour d4)

lemma century_spec {d : ℕ} (h : d < 146097) : century d ≤ 3 ∧ 36524 * century d ≤ d ∧
    d - 36524 * century d ≤ 36524 ∧ (century d < 3 → d - 36524 * century d < 36524) := by
  unfold century
  omega

lemma yearOfFour_spec {d : ℕ} (h : d < 1461) : yearOfFour d ≤ 3 ∧ 365 * yearOfFour d ≤ d ∧
    d - 365 * yearOfFour d ≤ 365 := by
  unfold yearOfFour
  omega

lemma daysBeforeYear_eq {q c f y : ℕ} (hc : c ≤ 3) (hf : f < 25) (hy : y ≤ 3) :
    daysBeforeYear (400 * q + 100 * c + 4 * f + y)
      = 146097 * q + 36524 * c + 1461 * f + 365 * y := by
  unfold daysBeforeYear
  omega

lemma marchYear_spec (n : ℕ) :
    daysBeforeYear (marchYear n).1 + (marchYear n).2 = n ∧ (marchYear n).2 < 366 := by
  have hmod : n % 146097 < 146097 := Nat.mod_lt _ (by decide)
  obtain ⟨hc, hle, hrest, hlt⟩ := century_spec hmod
  have hmod4 : (n % 146097 - 36524 * century (n % 146097)) % 1461 < 1461 := Nat.mod_lt _ (by decide)
  obtain ⟨hy, hley, hday⟩ := yearOfFour_spec hmod4
  simp only [marchYear]
  rw [daysBeforeYear_eq hc (by omega) hy]
  omega

/-- The date of a day of such a year. -/
def ofMarch (y d : ℕ) : Date :=
  let m := (5 * d + 2) / 153
  { year := if m < 10 then y else y + 1
    month := if m < 10 then m + 3 else m - 9
    day := d - daysBeforeMonth m + 1 }

/-- The number of days from 1 March of year 0 to a date. -/
def toMarch (c : Date) : ℕ :=
  if 3 ≤ c.month then daysBeforeYear c.year + daysBeforeMonth (c.month - 3) + (c.day - 1)
  else daysBeforeYear (c.year - 1) + daysBeforeMonth (c.month + 9) + (c.day - 1)

lemma toMarch_ofMarch {y d : ℕ} (h : d < 366) : toMarch (ofMarch y d) = daysBeforeYear y + d := by
  have hm : (5 * d + 2) / 153 < 12 := by omega
  have hd : daysBeforeMonth ((5 * d + 2) / 153) ≤ d := by
    unfold daysBeforeMonth
    omega
  simp only [toMarch, ofMarch, Nat.add_sub_cancel]
  generalize (5 * d + 2) / 153 = m at *
  by_cases hlt : m < 10
  · have hpos : 3 ≤ m + 3 := by omega
    simp only [if_pos hlt, if_pos hpos, Nat.add_sub_cancel]
    omega
  · have hneg : ¬ 3 ≤ m - 9 := by omega
    have hm9 : m - 9 + 9 = m := by omega
    simp only [if_neg hlt, if_neg hneg, Nat.add_sub_cancel, hm9]
    omega

/-- The date of a number of days after 1 January of year 1. -/
def ofDays (days : ℕ) : Date := ofMarch (marchYear (days + 306)).1 (marchYear (days + 306)).2

/-- The number of days from 1 January of year 1 to a date. -/
def toDays (c : Date) : ℕ := toMarch c - 306

lemma toDays_ofDays (days : ℕ) : toDays (ofDays days) = days := by
  obtain ⟨hn, hlt⟩ := marchYear_spec (days + 306)
  have hmarch : toMarch (ofDays days) = days + 306 := (toMarch_ofMarch hlt).trans hn
  unfold toDays
  omega

lemma ofDays_bounds {days : ℕ} (h : days < 3652059) :
    (ofDays days).year < 10000 ∧ (ofDays days).month < 100 ∧ (ofDays days).day < 100 := by
  obtain ⟨hn, hlt⟩ := marchYear_spec (days + 306)
  simp only [ofDays, ofMarch]
  generalize (marchYear (days + 306)).2 = d at *
  generalize (marchYear (days + 306)).1 = y at *
  have hd : d - daysBeforeMonth ((5 * d + 2) / 153) < 31 := by
    unfold daysBeforeMonth
    omega
  have hy : y < 10000 ∧ (y = 9999 → (5 * d + 2) / 153 < 10) := by
    unfold daysBeforeYear at hn
    omega
  split_ifs <;> omega

/-! ### Text -/

/-- A number of at most `w` decimal digits, padded with zeros. -/
def digits : ℕ → ℕ → List Char
  | 0, _ => []
  | w + 1, n => digits w (n / 10) ++ [Nat.digitChar (n % 10)]

/-- The number that a list of digits denotes. -/
def number (cs : List Char) : ℕ := cs.foldl (fun n c => 10 * n + (c.toNat - 48)) 0

lemma length_digits (w n : ℕ) : (digits w n).length = w := by
  induction w generalizing n with
  | zero => rfl
  | succ w ih => rw [digits, List.length_append, ih, List.length_singleton]

lemma toNat_digitChar {k : ℕ} (h : k < 10) : (Nat.digitChar k).toNat - 48 = k := by
  interval_cases k <;> rfl

lemma number_digits {w n : ℕ} (h : n < 10 ^ w) : number (digits w n) = n := by
  induction w generalizing n with
  | zero =>
      have hzero : n = 0 := by simpa using h
      rw [hzero]
      rfl
  | succ w ih =>
      have hdiv : n / 10 < 10 ^ w := by
        rw [Nat.pow_succ] at h
        omega
      have hlast : (Nat.digitChar (n % 10)).toNat - 48 = n % 10 :=
        toNat_digitChar (Nat.mod_lt _ (by decide))
      have hinit : number (digits w (n / 10)) = n / 10 := ih hdiv
      rw [number] at hinit
      rw [digits, number, List.foldl_append, hinit, List.foldl_cons, List.foldl_nil, hlast]
      omega

/-- Read a number of `w` digits off the front. -/
def readNumber (w : ℕ) (cs : List Char) : ℕ × List Char := (number (cs.take w), cs.drop w)

lemma readNumber_digits {w n : ℕ} (h : n < 10 ^ w) (rest : List Char) :
    readNumber w (digits w n ++ rest) = (n, rest) := by
  rw [readNumber, List.take_left' (length_digits w n), List.drop_left' (length_digits w n),
    number_digits h]

/-- `YYYY-MM-DDTHH:MM:SS`, with six digits of microseconds unless they are zero,
at the offset of UTC. -/
def format (micros : ℕ) : List Char :=
  let date := ofDays (micros / 86400000000)
  let seconds := micros / 1000000 % 86400
  digits 4 date.year ++ '-' :: (digits 2 date.month ++ '-' :: (digits 2 date.day ++ 'T' ::
    (digits 2 (seconds / 3600) ++ ':' :: (digits 2 (seconds / 60 % 60) ++ ':' ::
    (digits 2 (seconds % 60) ++ ((if micros % 1000000 = 0 then []
      else '.' :: digits 6 (micros % 1000000)) ++ ['+', '0', '0', ':', '0', '0']))))))

/-- The time that such a text denotes. -/
def parse (cs : List Char) : ℕ :=
  let (year, cs) := readNumber 4 cs
  let (month, cs) := readNumber 2 (cs.drop 1)
  let (day, cs) := readNumber 2 (cs.drop 1)
  let (hour, cs) := readNumber 2 (cs.drop 1)
  let (minute, cs) := readNumber 2 (cs.drop 1)
  let (second, cs) := readNumber 2 (cs.drop 1)
  let micro := if cs.head? = some '.' then (readNumber 6 (cs.drop 1)).1 else 0
  let seconds := 3600 * hour + 60 * minute + second
  86400000000 * toDays ⟨year, month, day⟩ + 1000000 * seconds + micro

/-- **Round trip** of the times up to the end of year 9999. -/
theorem parse_format {micros : ℕ} (h : micros < 315537897600000000) :
    parse (format micros) = micros := by
  obtain ⟨hyear, hmonth, hday⟩ := ofDays_bounds (show micros / 86400000000 < 3652059 by omega)
  have hdays : toDays (ofDays (micros / 86400000000)) = micros / 86400000000 := toDays_ofDays _
  simp only [parse, format, List.drop_succ_cons, List.drop_zero,
    readNumber_digits (w := 4) hyear, readNumber_digits (w := 2) hmonth,
    readNumber_digits (w := 2) hday,
    readNumber_digits (w := 2) (show micros / 1000000 % 86400 / 3600 < 10 ^ 2 by omega),
    readNumber_digits (w := 2) (show micros / 1000000 % 86400 / 60 % 60 < 10 ^ 2 by omega),
    readNumber_digits (w := 2) (show micros / 1000000 % 86400 % 60 < 10 ^ 2 by omega), hdays]
  split_ifs with hmicro hhead hhead
  · simp at hhead
  · omega
  · simp only [List.cons_append, List.drop_succ_cons, List.drop_zero,
      readNumber_digits (w := 6) (show micros % 1000000 < 10 ^ 6 by omega)]
    omega
  · simp at hhead

/-- A text is never empty. -/
lemma format_ne_nil (micros : ℕ) : format micros ≠ [] := by
  simp [format, digits]

example : String.ofList (format 63713433600250000) = "2020-01-01T00:00:00.250000+00:00" := by
  decide

end Iso8601
