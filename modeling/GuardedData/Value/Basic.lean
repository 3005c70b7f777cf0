import GuardedData.Double.Basic
import GuardedData.Entries

/-!
# Values

The tree-shaped data that models hold and schemas describe. An integer and a double are different
numbers even when they are numerically equal, and an object keeps its entries in order.

The entries of an object are a plain list, in which a key could come twice: a constructor cannot
hold a proof about a list of the very values that it makes. That no key does is a property of
values, `Value.Distinct`, which all that is read from a text has and edits keep.
-/

namespace GuardedData

/-- A number: an integer that fits 64 bits, with or without a sign, or a double. -/
inductive Number
  | integer (n : Int) (inRange : -0x8000000000000000 ≤ n ∧ n < 0x10000000000000000)
  | double (d : Double)
deriving DecidableEq

namespace Number

/-- The number of a natural number below `2⁶⁴`. -/
def ofNat (n : Nat) (h : n < 0x10000000000000000) : Number := .integer n (by omega)

/-- The number of an integer; outside 64 bits, the nearest double. -/
def ofInt (n : Int) : Number :=
  if h : -0x8000000000000000 ≤ n ∧ n < 0x10000000000000000 then .integer n h
  else .double (Double.ofInt n)

def toDouble : Number → Double
  | .integer n _ => Double.ofInt n
  | .double d => d

/-- Equality within a kind: integers by value, doubles numerically. -/
def equal : Number → Number → Bool
  | .integer a _, .integer b _ => a == b
  | .double a, .double b => a.equal b
  | _, _ => false

end Number

inductive Value
  | null
  | bool (b : Bool)
  | number (n : Number)
  | string (s : String)
  | array (items : List Value)
  | object (entries : List (String × Value))
deriving Inhabited

namespace Value

/-- The value of an integer. -/
def ofInt (n : Int) : Value := .number (Number.ofInt n)

def emptyObject : Value := .object []

/-- Whether a value is an object, as opposed to an array, a scalar or an absent value. -/
def isObject : Option Value → Bool
  | some (.object _) => true
  | _ => false

def isContainer : Value → Bool
  | .array _ | .object _ => true
  | _ => false

def asString? : Value → Option String
  | .string s => some s
  | _ => none

def field? (key : String) : Value → Option Value
  | .object entries => Entries.get? key entries
  | _ => none

end Value

/-! ### Handles -/

/-- The key under which a handle keeps the name of its model. -/
def handleKey : String := "__vigil_model__"

/-- The value that stands for the model of a name inside other data. -/
def Value.handle (name : String) : Value := .object [(handleKey, .string name)]

/-- The name of the model that a value is a handle of. -/
def Value.handleName? (v : Value) : Option String := (v.field? handleKey).bind asString?

end GuardedData
