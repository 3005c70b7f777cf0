import GuardedData.Store.Edit
import GuardedData.Text.Basic
import GuardedData.Text.Escaped
import GuardedData.Value.Text

/-!
# Scripts

A script is an array of operations. Each is an object with the keys `op`, `path`, `value` and
`guarded`, of which a removal has no value and `guarded` may be left out, or else an array of the
same in this order. Keys that mean nothing are passed over.
-/

namespace GuardedData

/-- What an operation does at its path. -/
inductive Verb
  | set (value : Value)
  | push (value : Value)
  | remove

structure Op where
  verb : Verb
  path : String
  guarded : Bool

namespace Verb

def name : Verb → String
  | .set _ => "set"
  | .push _ => "push"
  | .remove => "remove"

def toEdit : Verb → Edit
  | .set value => .set value
  | .push value => .push value
  | .remove => .remove

end Verb

/-- An operation as it is shown. -/
def Op.text (op : Op) : String :=
  op.verb.name ++ " " ++ op.path ++ (if op.guarded then " (guarded)" else " (direct)")

inductive OpKind
  | set
  | push
  | remove
deriving DecidableEq

namespace OpKind

def names : List (String × OpKind) := [("set", .set), ("push", .push), ("remove", .remove)]

def label : OpKind → String
  | .set => "Op::Set"
  | .push => "Op::Push"
  | .remove => "Op::Remove"

/-- The number of elements after the kind in the array form. -/
def arity : OpKind → Nat
  | .remove => 2
  | _ => 3

end OpKind

namespace Script

/-- A value where another kind of value is expected. -/
def unexpected (v : Value) : String :=
  match v with
  | .null => "null"
  | .bool b => s!"boolean `{b}`"
  | .number (.integer n _) => s!"integer `{n}`"
  | .number (.double d) => s!"floating point `{d.text}`"
  | .string s => "string " ++ Text.escaped s
  | .array _ => "sequence"
  | .object _ => "map"

def wrongKind (v : Value) (expected : String) : String :=
  "invalid type: " ++ unexpected v ++ ", expected " ++ expected

def missing (key : String) : String := s!"missing field `{key}`"

def wrongLength (length : Nat) (expected : String) : String :=
  "invalid length " ++ toString length ++ ", expected " ++ expected

def readKind : Value → Except String OpKind
  | .string name => Text.choose OpKind.names name
  | v => .error (wrongKind v "variant identifier")

def readPath : Value → Except String String
  | .string path => .ok path
  | v => .error (wrongKind v "a string")

def readGuarded : Value → Except String Bool
  | .bool b => .ok b
  | v => .error (wrongKind v "a boolean")

/-- The first fault among the entries of an operation, in their order. -/
def checkEntries : List (String × Value) → Except String Unit
  | [] => .ok ()
  | (key, v) :: rest => do
    if key = "path" then let _ ← readPath v
    if key = "guarded" then let _ ← readGuarded v
    checkEntries rest

def required (key : String) (entries : List (String × Value)) : Except String Value :=
  match Entries.get? key entries with
  | some v => .ok v
  | none => .error (missing key)

/-- The verb of a kind, whose value is asked for if it has one. -/
def verbOf (kind : OpKind) (value : Unit → Except String Value) : Except String Verb :=
  match kind with
  | .set => (value ()).map .set
  | .push => (value ()).map .push
  | .remove => .ok .remove

def readObject (entries : List (String × Value)) : Except String Op := do
  let kind ← readKind (← required "op" entries)
  checkEntries entries
  let path ← readPath (← required "path" entries)
  let verb ← verbOf kind fun _ => required "value" entries
  let guarded ← match Entries.get? "guarded" entries with
    | some v => readGuarded v
    | none => .ok false
  return ⟨verb, path, guarded⟩

def readArray (items : List Value) : Except String Op := do
  let (first, items) ← match items with
    | [] => .error (missing "op")
    | first :: rest => .ok (first, rest)
  let kind ← readKind first
  let element (i : Nat) : Except String Value :=
    match items[i]? with
    | some v => .ok v
    | none => .error <|
      wrongLength i s!"struct variant {kind.label} with {kind.arity} elements"
  let path ← readPath (← element 0)
  let verb ← verbOf kind fun _ => element 1
  let guarded ← match items[kind.arity - 1]? with
    | some v => readGuarded v
    | none => .ok false
  if kind.arity < items.length then
    .error (wrongLength items.length s!"{kind.arity} elements in sequence")
  return ⟨verb, path, guarded⟩

def readOp : Value → Except String Op
  | .object entries => readObject entries
  | .array items => readArray items
  | v => .error (wrongKind v "internally tagged enum Op")

def read : Value → Except String (List Op)
  | .array items => items.mapM readOp
  | v => .error (wrongKind v "a sequence")

/-- What a value that is no script is told. -/
def expectation : String :=
  "ops must be an array of \x7bop, path, value?, guarded?\x7d"

end Script

end GuardedData
