/-
JSON values as Python holds them, and the built-in operations that the Vault
repositories apply to them.

* `Json`, `Doc`: a value, and the fields of a JSON object; `floatCharacters` are what
  a `float` is printed with;
* `Doc.field`: `data.get(key)`;
* `Json.truthy`, `Json.isString`: `bool(value)` and `isinstance(value, str)`;
* `Json.pyStr`: `str(value)`, which writes a string as it is and everything
  else the way Python prints it; `pyStr_eq_active_iff` is a word that nothing else
  is printed as.
-/
import GofrSec.Dict

namespace GofrSec

/-- What `repr` prints a `float` with: digits, a point, signs, an exponent, `inf` and
`nan`. -/
def floatCharacters : List Char := "0123456789.+-einfa".toList

/-- A JSON value. A number that is not an integer is kept as Python prints it. -/
inductive Json where
  | null
  | bool (b : Bool)
  | int (n : Int)
  | float (text : String) (printed : ∀ c ∈ text.toList, c ∈ floatCharacters)
  | str (s : String)
  | arr (items : List Json)
  | obj (fields : List (String × Json))

/-- The fields of a JSON object. -/
abbrev Doc : Type := List (String × Json)

/-- `data.get(key)`, with `none` for an absent key. -/
def Doc.field (d : Doc) (key : String) : Option Json := findEntry key d

namespace Json

/-- A value that may be `None`. -/
def ofOption : Option String → Json
  | none => .null
  | some s => .str s

/-- `bool(value)`. -/
def truthy : Json → Bool
  | .null => false
  | .bool b => b
  | .int n => n != 0
  | .float t _ => !(t == "0.0" || t == "-0.0")
  | .str s => s != ""
  | .arr items => !items.isEmpty
  | .obj fields => !fields.isEmpty

/-- The string a value is, if it is one. -/
def asString : Json → Option String
  | .str s => some s
  | _ => none

mutual

/-- `repr(value)`, given the `repr` of strings. -/
def pyRepr (repr : String → String) : Json → String
  | .null => "None"
  | .bool true => "True"
  | .bool false => "False"
  | .int n => toString n
  | .float t _ => t
  | .str s => repr s
  | .arr items => "[" ++ ", ".intercalate (pyReprItems repr items) ++ "]"
  | .obj fields => "\x7b" ++ ", ".intercalate (pyReprFields repr fields) ++ "\x7d"

/-- The items of a list, printed. -/
def pyReprItems (repr : String → String) : List Json → List String
  | [] => []
  | v :: vs => pyRepr repr v :: pyReprItems repr vs

/-- The fields of a dictionary, printed. -/
def pyReprFields (repr : String → String) : List (String × Json) → List String
  | [] => []
  | (k, v) :: fs => (repr k ++ ": " ++ pyRepr repr v) :: pyReprFields repr fs

end

/-- `str(value)`, given the `repr` of strings. -/
def pyStr (repr : String → String) : Json → String
  | .str s => s
  | v => pyRepr repr v

@[simp] lemma pyStr_str (repr : String → String) (s : String) : pyStr repr (.str s) = s := rfl

/-- Only the string itself is printed as `active`. -/
lemma pyStr_eq_active_iff {repr : String → String} {v : Json} :
    v.pyStr repr = "active" ↔ v = .str "active" := by
  constructor
  · intro h
    cases v with
    | null => exact absurd (show "None" = "active" from h) (by decide)
    | bool b =>
        cases b with
        | false => exact absurd (show "False" = "active" from h) (by decide)
        | true => exact absurd (show "True" = "active" from h) (by decide)
    | int n =>
        -- a printed integer starts with a digit or a sign
        have hprint : toString n = "active" := h
        cases n with
        | ofNat m =>
            have hrepr : m.repr = "active" := hprint
            have hdigits := Nat.toList_repr (n := m)
            rw [hrepr] at hdigits
            have hmem : 'a' ∈ Nat.toDigits 10 m := by
              rw [← hdigits]
              decide
            exact absurd (Nat.isDigit_of_mem_toDigits (by omega) (by omega) hmem) (by decide)
        | negSucc m =>
            have hminus : "-" ++ (m + 1).repr = "active" := hprint
            have hlist := congrArg String.toList hminus
            rw [String.toList_append] at hlist
            exact absurd (List.cons.inj hlist).1 (by decide)
    | float t printed =>
        have htext : t = "active" := h
        exact absurd (printed 'c' (by rw [htext]; decide)) (by decide)
    | str s => exact congrArg Json.str h
    | arr items =>
        have hopen : "[" ++ ", ".intercalate (pyReprItems repr items) ++ "]" = "active" := h
        have hlist := congrArg String.toList hopen
        rw [String.toList_append, String.toList_append] at hlist
        exact absurd (List.cons.inj hlist).1 (by decide)
    | obj fields =>
        have hopen : "\x7b" ++ ", ".intercalate (pyReprFields repr fields) ++ "\x7d" = "active" := h
        have hlist := congrArg String.toList hopen
        rw [String.toList_append, String.toList_append] at hlist
        exact absurd (List.cons.inj hlist).1 (by decide)
  · rintro rfl
    rfl

end Json

end GofrSec
