import Questionnaire.Spec.Basic

/-! # Errors of a form

A form fails when a resource cannot be had or read, when its first question is
missing, or when it is used before it has been loaded. Questions that cannot be
built are left out of a form and reported beside it.
-/

namespace Questionnaire

inductive FormError where
  | load (resource reason : String)
  | parse (resource : String) (cause : Json.Error)
  | startNotFound (id : String)
  | notInitialized
  deriving DecidableEq, Repr

namespace FormError

def message : FormError → String
  | load resource reason => "Failed to load resource '" ++ resource ++ "': " ++ reason
  | parse resource cause => "Failed to parse resource '" ++ resource ++ "': " ++ cause.message
  | startNotFound id => "Start question '" ++ id ++ "' is not in the question graph"
  | notInitialized => "Form has not been initialized"

/-- The form has no resources to work with. -/
def isFatal : FormError → Bool
  | load _ _ | parse _ _ => true
  | startNotFound _ | notInitialized => false

end FormError

/-- An entry left out of a form, and why. -/
structure BuildError where
  id : String
  cause : SpecError
  deriving DecidableEq, Repr

def BuildError.message (e : BuildError) : String :=
  "Dropped question '" ++ e.id ++ "': " ++ e.cause.message

end Questionnaire
