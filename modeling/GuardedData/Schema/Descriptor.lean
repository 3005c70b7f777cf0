import GuardedData.Schema.Predicates

/-!
# Schemas written as values

| descriptor             | schema                              |
|------------------------|-------------------------------------|
| `"number"`             | the registered predicate            |
| an object with `$enum` | one of a list of scalar literals    |
| `$union`               | any of a list of leaf descriptors   |
| `$maybeNull`           | `null` or another descriptor        |
| `$model`               | the handles of a model              |
| another object         | an object node                      |
| `[]` and `[d]`         | an array node                       |

The four reserved keys stand alone in their object, and no other key may begin with `$`.
Everything else is invalid, and the first such place in depth-first order is the error.
-/

namespace GuardedData.Schema

/-- Whether a key is set aside for reserved forms. -/
def isReserved (key : String) : Bool := key.toList.head? == some '$'

/-- The literals of an enumeration, which are scalars. -/
def literals? (inner : Value) : Option (List Value) :=
  match inner with
  | .array literals => if literals.any Value.isContainer then none else some literals
  | _ => none

mutual

/-- The schema that a descriptor at a path describes. -/
def parseNode (r : Registry) : Value → DataPath → Except ValidationError Schema
  | .string name, path =>
    match r.lookup name with
    | some p => .ok (.leaf p)
    | none => .error (.invalidSchema path)
  | .array [], _ => .ok (.array none)
  | .array [element], path =>
    (parseNode r element (path.index 0)).map fun s => .array (some s)
  | .object [(key, inner)], path =>
    if isReserved key then
      let at_ := path.key key
      if key = "$enum" then
        match literals? inner with
        | some literals => .ok (.leaf (.oneOf literals))
        | none => .error (.invalidSchema at_)
      else if key = "$union" then
        match inner with
        | .array members =>
          (parseMembers r members at_ 0).map fun members => .leaf (.anyOf members)
        | _ => .error (.invalidSchema at_)
      else if key = "$maybeNull" then
        match inner with
        | .null => .error (.missingArgument "maybeNull")
        | inner => (parseNode r inner at_).map fun s => .leaf (.orNull s)
      else if key = "$model" then
        match inner with
        | .string model => .ok (.leaf (.handleOf model))
        | _ => .error (.invalidSchema at_)
      else .error (.invalidSchema at_)
    else (parseFields r [] [(key, inner)] path).map .object
  | .object entries, path => (parseFields r [] entries path).map .object
  | _, path => .error (.invalidSchema path)

/-- The fields of an object node, those of keys seen before apart. -/
def parseFields (r : Registry) (seen : List String) :
    List (String × Value) → DataPath → Except ValidationError (List (String × Schema))
  | [], _ => .ok []
  | (key, d) :: rest, path =>
    if seen.contains key then parseFields r seen rest path
    else if isReserved key then .error (.invalidSchema (path.key key))
    else match parseNode r d (path.key key) with
      | .error e => .error e
      | .ok s => (parseFields r (key :: seen) rest path).map ((key, s) :: ·)

/-- The members of a union from an index on, which are leaves. -/
def parseMembers (r : Registry) :
    List Value → DataPath → Nat → Except ValidationError (List Predicate)
  | [], _, _ => .ok []
  | d :: rest, path, i =>
    match parseNode r d (path.index i) with
    | .error e => .error e
    | .ok (.leaf p) => (parseMembers r rest path (i + 1)).map (p :: ·)
    | .ok _ => .error (.invalidSchema (path.index i))

end

/-- The schema that a descriptor describes, over a registry of names. -/
def parse (r : Registry) (descriptor : Value) : Except ValidationError Schema :=
  parseNode r descriptor (DataPath.root "schema")

end GuardedData.Schema
