/-
What the service takes from Python's standard library.

* `DateTime`: a timezone-aware `datetime`, by its instant, within the range
  that Python can represent; `DateTime.addSeconds` and `DateTime.timestamp`;
* `Platform`: the functions of the standard library whose definition the model
  leaves open, with what Python documents of them: `str.lower` on ASCII, and
  `datetime.fromisoformat` as the inverse of `datetime.isoformat`.
-/
import GofrSec.Domain.Errors
import Mathlib.Data.Int.Order.Basic

namespace GofrSec

/-- An aware `datetime`: microseconds since the Unix epoch, between
`datetime.min` and `datetime.max`. The service makes no other; a text without an offset,
which only a foreign document can hold, is read as some such time, where Python keeps it
naive and raises a `TypeError` when it compares the two. -/
structure DateTime where
  micros : Int
  lower : -62135596800000000 ≤ micros
  upper : micros ≤ 253402300799999999
  deriving DecidableEq, Repr

namespace DateTime

instance : LT DateTime := ⟨fun a b => a.micros < b.micros⟩

instance : LE DateTime := ⟨fun a b => a.micros ≤ b.micros⟩

instance (a b : DateTime) : Decidable (a < b) := inferInstanceAs (Decidable (a.micros < b.micros))

instance (a b : DateTime) : Decidable (a ≤ b) := inferInstanceAs (Decidable (a.micros ≤ b.micros))

lemma lt_def {a b : DateTime} : a < b ↔ a.micros < b.micros := Iff.rfl

lemma le_def {a b : DateTime} : a ≤ b ↔ a.micros ≤ b.micros := Iff.rfl

/-- `t + timedelta(seconds=n)`. -/
def addSeconds (t : DateTime) (n : Int) : Except PyError DateTime :=
  if h : -62135596800000000 ≤ t.micros + n * 1000000
      ∧ t.micros + n * 1000000 ≤ 253402300799999999 then
    .ok ⟨t.micros + n * 1000000, h.1, h.2⟩
  else .error (.overflowError "date value out of range")

lemma addSeconds_eq_ok {t u : DateTime} {n : Int} (h : t.addSeconds n = .ok u) :
    u.micros = t.micros + n * 1000000 := by
  rw [addSeconds] at h
  split_ifs at h
  rw [← Except.ok.inj h]

/-- `int(t.timestamp())`: whole seconds since the epoch, cut towards zero. Python goes
through a double, which from 2^34 seconds on is too coarse for the last microseconds of a
second and may round up to the next; here the cut is exact at every time. -/
def timestamp (t : DateTime) : Int := t.micros.tdiv 1000000

end DateTime

/-- The standard library, as far as its definitions are left open. -/
structure Platform where
  /-- `str.lower`. -/
  lower : String → String
  /-- On ASCII, `str.lower` maps the letters `A`-`Z` and nothing else. -/
  lower_ascii : ∀ s : String, (∀ c ∈ s.toList, c.toNat < 128) →
    (lower s).toList = s.toList.map Char.toLower
  /-- `repr` of a string. -/
  repr : String → String
  /-- `hashlib.sha256(s.encode("ascii")).hexdigest()`. -/
  sha256 : String → String
  /-- `datetime.isoformat`. -/
  isoformat : DateTime → String
  /-- `datetime.fromisoformat`; `none` when it raises `ValueError`. -/
  fromisoformat : String → Option DateTime
  fromisoformat_isoformat : ∀ t, fromisoformat (isoformat t) = some t
  isoformat_ne_empty : ∀ t, isoformat t ≠ ""

end GofrSec
