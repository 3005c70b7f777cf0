import GuardedData.Schema.Validation
import GuardedData.Value.Equality

/-!
# Predicates

The predicates that are there from the start, and the ways to build one from others. A union takes
a member that raises an error as one that does not match, so that the order of its members never
matters; a nullable schema hands its error on.
-/

namespace GuardedData.Predicate

def boolean : Predicate := ofTest "boolean" fun
  | .bool _ => true
  | _ => false

def number : Predicate := ofTest "number" fun
  | .number _ => true
  | _ => false

def string : Predicate := ofTest "string" fun
  | .string _ => true
  | _ => false

/-- Whether a value is a literal: numbers compare as doubles, all else by equality. -/
def matchesLiteral (literal v : Value) : Bool :=
  match literal, v with
  | .number a, .number b => a.toDouble.equal b.toDouble
  | literal, v => literal.equal v

/-- The values that equal one of some literals. No array and no object does. -/
def oneOf (literals : List Value) : Predicate :=
  ofTest ("enum(" ++ ", ".intercalate (literals.map Value.text) ++ ")") fun v =>
    !v.isContainer && literals.any (matchesLiteral · v)

/-- The values that one of some predicates accepts. -/
def anyOf (members : List Predicate) : Predicate where
  name := "union(" ++ " | ".intercalate (members.map name) ++ ")"
  check v path := .ok (members.any fun p => p.accepts v path)

/-- The handles of models of a name. -/
def handleOf (model : String) : Predicate :=
  ofTest ("model(" ++ model ++ ")") fun v => v.handleName? == some model

/-- `null`, or whatever conforms to a schema. -/
def orNull : Schema → Predicate
  | .leaf p => {
      name := "maybeNull(" ++ p.name ++ ")"
      check := fun
        | .null, _ => .ok true
        | v, path => p.check v path }
  | s => {
      name := "maybeNull(schema)"
      check := fun
        | .null, _ => .ok true
        | v, path => (s.check v path).map fun _ => true }

end GuardedData.Predicate

namespace GuardedData

/-- Named predicates, sorted by name. -/
abbrev Registry := List (String × Predicate)

namespace Registry

/-- The registry that a process starts with. -/
def builtins : Registry :=
  [("boolean", .boolean), ("number", .number), ("string", .string)]

def lookup (r : Registry) (name : String) : Option Predicate := Entries.get? name r

/-- Add a predicate, or replace the one of its name. -/
def register (r : Registry) (name : String) (p : Predicate) : Registry :=
  Entries.putSorted name p r

def names (r : Registry) : List String := Entries.keys r

end Registry

end GuardedData
