import GuardedData.Schema.Basic

/-!
# Validation

Data is walked depth first in the order of the schema, and the first mismatch is the error. Keys
that the schema does not mention are never looked at. An absent value is an error wherever the
schema expects one, and `null` is a value.
-/

namespace GuardedData

/-- Check array elements from an index on. -/
def checkItems (check : Value → DataPath → Except ValidationError Unit) (path : DataPath) :
    Nat → List Value → Except ValidationError Unit
  | _, [] => .ok ()
  | i, v :: rest =>
    match check v (path.index i) with
    | .error e => .error e
    | .ok () => checkItems check path (i + 1) rest

mutual

/-- Check a value against a schema. -/
def Schema.check : Schema → Value → DataPath → Except ValidationError Unit
  | .leaf p, v, path => p.require v path
  | .object fields, v, path =>
    match v with
    | .object entries => checkFields fields entries path
    | v => .error (.expectedObject path v.text)
  | .array none, v, path =>
    match v with
    | .array _ => .ok ()
    | v => .error (.expectedArray path v.text)
  | .array (some element), v, path =>
    match v with
    | .array items => checkItems (fun item at_ => element.check item at_) path 0 items
    | v => .error (.expectedArray path v.text)

/-- Check the fields of an object one after the other. A field that is to be an object and is none
is reported as such even when it is absent. -/
def checkFields : List (String × Schema) → List (String × Value) → DataPath →
    Except ValidationError Unit
  | [], _, _ => .ok ()
  | (key, s) :: rest, entries, path =>
    let found := Entries.get? key entries
    if s.isObject && !Value.isObject found then
      .error (.expectedObject (path.key key) (Value.describe found))
    else match found with
      | none => .error (.undefinedProperty (path.key key))
      | some v =>
        match s.check v (path.key key) with
        | .error e => .error e
        | .ok () => checkFields rest entries path

end

/-- Check a value that may be absent against a schema that may not exist. -/
def deepCheck (value : Option Value) (schema : Option Schema) (path : DataPath) :
    Except ValidationError Unit :=
  match schema, value with
  | none, _ => .error (.invalidSchema path)
  | some _, none => .error (.undefinedProperty path)
  | some s, some v => s.check v path

/-- Check a whole data tree, whose root has a label. -/
def validate (v : Value) (s : Schema) (label : String) : Except ValidationError Unit :=
  s.check v (DataPath.root label)

end GuardedData
