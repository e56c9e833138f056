import RowGate.Fault
/-!
Failures as answers to a web request: a status and a description. Failures from outside the library
have no answer of their own.
-/
namespace RowGate

/-- An answer to a web request that failed. -/
structure Response where
  status : Nat
  detail : String
  /-- The rules that the request breaks, where the answer lists them. -/
  violations : Option (List Violation)

/-- The status of a failure. The request is at fault where it breaks rules or names something that
does not exist; a context value that is missing is a fault of the server. -/
def Fault.status? : Fault → Option Nat
  | .invalid _ _ => some 400
  | .unsupported _ => some 400
  | .notAllowed _ _ _ => some 403
  | .denied _ _ _ _ => some 403
  | .missingContext _ => some 500
  | _ => none

/-- The violations of a request. -/
def Fault.violations? : Fault → Option (List Violation)
  | .invalid violations _ => some violations
  | _ => none

/-- The answer for a failure. -/
def Fault.response? (f : Fault) : Option Response := do
  return ⟨← f.status?, ← f.message?, f.violations?⟩

/-- An answer is given only for failures of the library itself. -/
theorem Fault.isOwn_of_status? {f : Fault} {n : Nat} (h : f.status? = some n) : f.isOwn = true := by
  cases f <;> simp_all [status?, isOwn]

end RowGate
