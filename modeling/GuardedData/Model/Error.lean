import GuardedData.Schema.Basic

/-!
# Model errors

Why a model cannot be made, or why a change of its data, a call or a flush fails. Data that does
not conform to the schema is reported by the error of its validation.
-/

namespace GuardedData

/-- Why a model cannot be made, or why something asked of it fails. -/
inductive ModelError
  | missingData
  | modelFromModel
  | validation (e : ValidationError)
  | immutable (path : String)
  | creditsOff (count : Int)
  | invalidPath (path : String) (reason : String)
  | unknownMethod (name : String)
  | asyncMethod (name : String)
  | unknownComputed (name : String)
  | readOnlyComputed (name : String)
  | detached
  | custom (message : String)
deriving DecidableEq

namespace ModelError

def message : ModelError → String
  | .missingData => "undefined model data"
  | .modelFromModel => "attempting to create a model from a model"
  | .validation e => e.message
  | .immutable path =>
    "store is immutable! Updates must happen within a method or computed setter (changed: " ++
      path ++ ")"
  | .creditsOff count => "mutex is off (" ++ toString count ++ "), this should never happen"
  | .invalidPath path reason => "invalid path '" ++ path ++ "': " ++ reason
  | .unknownMethod name => "unknown method '" ++ name ++ "'"
  | .asyncMethod name => "method '" ++ name ++ "' is async; use call_async"
  | .unknownComputed name => "unknown computed property '" ++ name ++ "'"
  | .readOnlyComputed name => "computed property '" ++ name ++ "' has no setter"
  | .detached => "model has been dropped"
  | .custom message => message

def isGuardViolation : ModelError → Bool
  | .immutable _ | .creditsOff _ => true
  | _ => false

end ModelError

/-- What user code comes to. -/
abbrev Result := Except ModelError Value

end GuardedData
