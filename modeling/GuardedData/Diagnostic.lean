import GuardedData.Model.Basic
import GuardedData.Text.Escaped

/-!
# Diagnostic texts

A diagnostic text spells out how a thing is built: constructors with their arguments, records with
their fields, lists in brackets, and strings in quotes with all that cannot be seen escaped. The
code of methods, computed properties and watchers is left out.
-/

namespace GuardedData.Diagnostic

/-! ### Shapes -/

def applied (name argument : String) : String := name ++ "(" ++ argument ++ ")"

def record (name : String) (fields : List (String × String)) : String :=
  let texts := fields.map fun (key, text) => key ++ ": " ++ text
  name ++ " \x7b " ++ ", ".intercalate texts ++ " \x7d"

/-- A record with its fields and others that are not shown. -/
def openRecord (name : String) (fields : List (String × String)) : String :=
  let texts := fields.map fun (key, text) => key ++ ": " ++ text ++ ", "
  name ++ " \x7b " ++ String.join texts ++ ".. \x7d"

def list (items : List String) : String := "[" ++ ", ".intercalate items ++ "]"

def strings (items : List String) : String := list (items.map Text.escaped)

def optional : Option String → String
  | none => "None"
  | some text => applied "Some" text

def boolean (b : Bool) : String := if b then "true" else "false"

/-! ### Values -/

mutual

def value : Value → String
  | .null => "Null"
  | .bool b => applied "Bool" (boolean b)
  | .number n => applied "Number" n.text
  | .string s => applied "String" (Text.escaped s)
  | .array items => "Array " ++ list (itemTexts items)
  | .object entries => "Object \x7b" ++ ", ".intercalate (entryTexts entries) ++ "\x7d"

def itemTexts : List Value → List String
  | [] => []
  | v :: rest => value v :: itemTexts rest

def entryTexts : List (String × Value) → List String
  | [] => []
  | (key, v) :: rest => (Text.escaped key ++ ": " ++ value v) :: entryTexts rest

end

/-! ### Errors -/

def segment : Segment → String
  | .key name => applied "Key" (Text.escaped name)
  | .index i => applied "Index" (toString i)

def path (p : DataPath) : String :=
  record "DataPath" [("root", Text.escaped p.rootText), ("segments", list (p.segments.map segment))]

def validationError : ValidationError → String
  | .invalidSchema p => record "InvalidSchema" [("path", path p)]
  | .undefinedProperty p => record "UndefinedProperty" [("path", path p)]
  | .expectedArray p got => record "ExpectedArray" [("path", path p), ("got", Text.escaped got)]
  | .expectedObject p got => record "ExpectedObject" [("path", path p), ("got", Text.escaped got)]
  | .checkFailed p got => record "CheckFailed" [("path", path p), ("got", Text.escaped got)]
  | .missingArgument name => applied "MissingArgument" (Text.escaped name)

def modelError : ModelError → String
  | .missingData => "MissingData"
  | .modelFromModel => "ModelFromModel"
  | .validation e => applied "Validation" (validationError e)
  | .immutable p => record "Immutable" [("path", Text.escaped p)]
  | .creditsOff count => record "MutexCorrupted" [("count", toString count)]
  | .invalidPath p reason =>
    record "InvalidPath" [("path", Text.escaped p), ("reason", Text.escaped reason)]
  | .unknownMethod name => applied "UnknownMethod" (Text.escaped name)
  | .asyncMethod name => applied "AsyncMethod" (Text.escaped name)
  | .unknownComputed name => applied "UnknownComputed" (Text.escaped name)
  | .readOnlyComputed name => applied "ReadOnlyComputed" (Text.escaped name)
  | .detached => "Detached"
  | .custom message => applied "Custom" (Text.escaped message)

/-! ### Models -/

def environment : Environment → String
  | .development => "Development"
  | .production => "Production"

def predicate (p : Predicate) : String := applied "Predicate" (Text.escaped p.name)

def method : Method → String
  | .sync _ => "Method::Sync"
  | .async _ => "Method::Async"

def computed : Computed → String
  | .getter _ => "Computed::Getter"
  | .accessor _ _ => "Computed::Accessor"

def definition (d : Definition) : String :=
  record "StoreOptions" [
    ("name", optional (d.name.map Text.escaped)),
    ("data", optional (d.data.map value)),
    ("schema", boolean d.schema.isSome),
    ("methods", strings (Entries.keys d.methods)),
    ("computed", strings (Entries.keys d.computed)),
    ("watch", strings (Entries.keys d.watch))]

def options (o : Options) : String :=
  record "ModelOptions" [
    ("immutable", boolean o.immutable),
    ("flush", o.flush.name),
    ("environment", optional (o.environment.map environment))]

def model (m : Model) : String :=
  openRecord "Model" [
    ("name", Text.escaped m.name),
    ("data", value m.data),
    ("methods", strings (Entries.keys m.methods)),
    ("computed", strings (Entries.keys m.computed)),
    ("mutex", optional (m.credits.map toString)),
    ("environment", environment m.environment)]

def store {κ : Type} (s : Store κ) : String :=
  record "ReactiveObject" [
    ("state", value s.tree),
    ("watchers", strings s.watchedPaths),
    ("pending", toString s.pending.length),
    ("mode", s.mode.name)]

end GuardedData.Diagnostic
