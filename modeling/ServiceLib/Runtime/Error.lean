import Mathlib

/-!
# Runtime errors

The error type shared by the runtime's components. Each constructor carries what the source
carries; the display texts are not used by any modelled function.
-/

namespace ServiceLib

/-- `RuntimeError`. -/
inductive RuntimeError
  | taskPoolNotFound (name : String)
  | priorityTaskPoolNotFound (name : String)
  | consumerAlreadySet (stream : String)
  | sourceAlreadySet (stream : String)
  | consumerNotSet (stream : String)
  | duplicateResource (name : String)
  | resourceAlreadyStarted (name : String)
  | resourceStopped (name : String)
  | contextCancelled
  | duplicateKey
  | invalidConfiguration (message : String)
  | transport (message : String)
  | metrics (message : String)
  deriving DecidableEq, Repr

/-- `RuntimeResult<T>`. -/
abbrev RuntimeResult (α : Type) := Except RuntimeError α

end ServiceLib
