/-
The exceptions of the service (`app/domain/errors.py`) and those of Python and
of the storage client that its code lets through.

* `PyError`: one constructor for each class, with the message it was raised
  with; `PyError.other` is any further exception, such as one the Vault
  client raises;
* `PyError.className` and `PyError.message`: the class and `str(exc)`.
-/

namespace GofrSec

/-- An exception: its class and its message. -/
inductive PyError where
  | reservedGroup (msg : String)
  | lastAdminRemoval (msg : String)
  | groupAlreadyExists (msg : String)
  | groupNotFound (msg : String)
  | groupMembershipNotFound (msg : String)
  | unregisteredUser (msg : String)
  | tokenNotFound (msg : String)
  | signingKeyUnavailable (msg : String)
  | valueError (msg : String)
  | keyError (key : String)
  | typeError (msg : String)
  | attributeError (msg : String)
  | overflowError (msg : String)
  | other (cls msg : String)
  deriving DecidableEq, Repr

namespace PyError

/-- `type(exc).__name__`. -/
def className : PyError → String
  | .reservedGroup _ => "ReservedGroupError"
  | .lastAdminRemoval _ => "LastAdminRemovalError"
  | .groupAlreadyExists _ => "GroupAlreadyExistsError"
  | .groupNotFound _ => "GroupNotFoundError"
  | .groupMembershipNotFound _ => "GroupMembershipNotFoundError"
  | .unregisteredUser _ => "UnregisteredUserError"
  | .tokenNotFound _ => "TokenNotFoundError"
  | .signingKeyUnavailable _ => "SigningKeyUnavailableError"
  | .valueError _ => "ValueError"
  | .keyError _ => "KeyError"
  | .typeError _ => "TypeError"
  | .attributeError _ => "AttributeError"
  | .overflowError _ => "OverflowError"
  | .other cls _ => cls

/-- `str(exc)`. -/
def message : PyError → String
  | .reservedGroup m => m
  | .lastAdminRemoval m => m
  | .groupAlreadyExists m => m
  | .groupNotFound m => m
  | .groupMembershipNotFound m => m
  | .unregisteredUser m => m
  | .tokenNotFound m => m
  | .signingKeyUnavailable m => m
  | .valueError m => m
  | .keyError k => "'" ++ k ++ "'"
  | .typeError m => m
  | .attributeError m => m
  | .overflowError m => m
  | .other _ m => m

end PyError

/-- Two computations in a row return a value only if both do. -/
theorem except_bind_eq_ok {ε α β : Type} {x : Except ε α} {f : α → Except ε β} {b : β}
    (h : x >>= f = .ok b) : ∃ a, x = .ok a ∧ f a = .ok b := by
  cases x with
  | error e => exact nomatch h
  | ok a => exact ⟨a, rfl, h⟩

/-- Two computations in a row raise what the first of them does, or the second. -/
theorem except_bind_eq_error {ε α β : Type} {x : Except ε α} {f : α → Except ε β} {e : ε}
    (h : x >>= f = .error e) : x = .error e ∨ ∃ a, x = .ok a ∧ f a = .error e := by
  cases x with
  | error e' => exact Or.inl (congrArg _ (Except.error.inj h))
  | ok a => exact Or.inr ⟨a, rfl, h⟩

end GofrSec
