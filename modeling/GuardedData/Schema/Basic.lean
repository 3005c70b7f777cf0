import GuardedData.Path.DataPath
import GuardedData.Value.Text

/-!
# Schemas

A schema is a tree of object and array nodes whose leaves are named predicates on single values.
The fields of an object node are ordered, and validation and watching follow that order. They are
a plain list, as the entries of an object are, and every schema that is parsed has each key of each
object node once (`Schema.Built.distinctKeys`).
-/

namespace GuardedData

/-- Why data does not conform to a schema, or why a schema is none. -/
inductive ValidationError
  | invalidSchema (path : DataPath)
  | undefinedProperty (path : DataPath)
  | expectedArray (path : DataPath) (got : String)
  | expectedObject (path : DataPath) (got : String)
  | checkFailed (path : DataPath) (got : String)
  | missingArgument (name : String)
deriving DecidableEq

namespace ValidationError

def path? : ValidationError → Option DataPath
  | .invalidSchema path | .undefinedProperty path => some path
  | .expectedArray path _ | .expectedObject path _ | .checkFailed path _ => some path
  | .missingArgument _ => none

def message : ValidationError → String
  | .invalidSchema path => "invalid schema at path " ++ path.text
  | .undefinedProperty path => "undefined data property at path " ++ path.text
  | .expectedArray path got => "expected array at path " ++ path.text ++ ". Got: " ++ got
  | .expectedObject path got => "expected object at path " ++ path.text ++ ". Got: " ++ got
  | .checkFailed path got =>
    "check failed for data property at path " ++ path.text ++ ". Got: " ++ got
  | .missingArgument name => "missing argument: " ++ name

end ValidationError

/-- A named check of single values. It is told where the value is, and it may raise an error of
its own in place of an answer. -/
structure Predicate where
  name : String
  check : Value → DataPath → Except ValidationError Bool

namespace Predicate

/-- A predicate that looks at nothing but the value. -/
def ofTest (name : String) (test : Value → Bool) : Predicate := ⟨name, fun v _ => .ok (test v)⟩

/-- Whether a value passes, an error counting as a mismatch. -/
def accepts (p : Predicate) (v : Value) (path : DataPath) : Bool :=
  match p.check v path with
  | .ok b => b
  | .error _ => false

/-- Whether a value passes outside of any data. -/
def test (p : Predicate) (v : Value) : Bool := p.accepts v (DataPath.root p.name)

/-- Require that a value passes. -/
def require (p : Predicate) (v : Value) (path : DataPath) : Except ValidationError Unit :=
  match p.check v path with
  | .ok true => .ok ()
  | .ok false => .error (.checkFailed path v.text)
  | .error e => .error e

end Predicate

/-- A schema. An array node without an element schema holds anything. -/
inductive Schema
  | leaf (predicate : Predicate)
  | object (fields : List (String × Schema))
  | array (element : Option Schema)

namespace Schema

def isObject : Schema → Bool
  | .object _ => true
  | _ => false

def field? (key : String) : Schema → Option Schema
  | .object fields => Entries.get? key fields
  | _ => none

/-- The schema that a list of field names leads to. -/
def find? : List String → Schema → Option Schema
  | [], s => some s
  | key :: rest, s => (s.field? key).bind (find? rest)

theorem find?_append (p q : List String) (s : Schema) :
    s.find? (p ++ q) = (s.find? p).bind (find? q) := by
  induction p generalizing s with
  | nil => rfl
  | cons key rest ih =>
    simp only [List.cons_append, find?]
    cases s.field? key with
    | none => rfl
    | some field => exact ih field

/-- The schema at a dotted path of field names. -/
def lookup (s : Schema) (path : String) : Option Schema := s.find? (Dotted.segments path)

end Schema

end GuardedData
