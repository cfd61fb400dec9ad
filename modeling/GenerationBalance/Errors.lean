/-
The exceptions a call can end with, each with what its message carries.
-/
import GenerationBalance.Decimal

namespace GenerationBalance

inductive Exn where
  /- `GenerationAccessError` and its three kinds. -/
  | insufficientBalance
  | freeRequestsExhausted
  | conditionalFreeAccessDenied
  /-- `ValueError("Balance values must be non-negative")`. -/
  | negativeBalance
  /-- `ValueError`: the amount is finer than `MONEY_QUANTUM`. -/
  | finerThanQuantum (amount : Decimal)
  /-- `decimal.InvalidOperation`. -/
  | invalidOperation
  /-- `ValueError`: the integer has more digits than `str` writes. -/
  | tooManyDigits
  /-- `MemoryError`: there is no room for the text of an amount. -/
  | memory
  /-- `UnicodeEncodeError`: an argument of a command has no encoding. -/
  | unicodeEncode
  /-- What `__str__` of the provider's exception raises. -/
  | unprintable
  | keyError (key : String)
  /- `backend/app/errors.py`. -/
  | invalidInput (message : String)
  | generationFailed (message : String)
  | generationInProgress (message : String)
  | balanceContention (message : String)
  /-- A Redis connection error or timeout that was not retried away. -/
  | connection
  /-- A Redis error reply: a script stopped by one of its commands. -/
  | response
  /-- A failed PostgreSQL statement or transaction. -/
  | database
  /-- An exception that is no `Exception` (a cancellation), re-raised. -/
  | cancelled (reason : String)
deriving DecidableEq, Repr

/-- `GenerationAccessError`: the policy denies the request. -/
def Exn.isAccess : Exn → Bool
  | .insufficientBalance | .freeRequestsExhausted | .conditionalFreeAccessDenied => true
  | _ => false

/-- `GenerationFailedError`. -/
def Exn.isFailed : Exn → Bool
  | .generationFailed _ => true
  | _ => false

/-- What an amount fails with that is too fine or too large. -/
def Exn.isMoney : Exn → Bool
  | .finerThanQuantum _ | .invalidOperation => true
  | _ => false

/-- What the arguments of a command fail with before it is sent. -/
def Exn.isUnsendable : Exn → Bool
  | .tooManyDigits | .memory | .unicodeEncode | .unprintable => true
  | _ => false

/-- What `_reserve` refuses a request with. -/
def Exn.isRefusal : Exn → Bool
  | .insufficientBalance | .freeRequestsExhausted | .conditionalFreeAccessDenied | .invalidInput _
  | .generationInProgress _ => true
  | _ => false

def Exn.isContention : Exn → Bool
  | .balanceContention _ => true
  | _ => false

theorem Exn.isMoney_only {e : Exn} (h : e.isMoney = true) :
    e.isFailed = false ∧ e.isAccess = false ∧ e.isRefusal = false ∧ e.isContention = false := by
  cases e <;> first | exact ⟨rfl, rfl, rfl, rfl⟩ | cases h

theorem Exn.isUnsendable_only {e : Exn} (h : e.isUnsendable = true) :
    e.isFailed = false ∧ e.isAccess = false ∧ e.isRefusal = false ∧ e.isContention = false := by
  cases e <;> first | exact ⟨rfl, rfl, rfl, rfl⟩ | cases h

theorem Exn.isRefusal_of_isAccess {e : Exn} (h : e.isAccess = true) : e.isRefusal = true := by
  cases e <;> first | rfl | cases h

end GenerationBalance
