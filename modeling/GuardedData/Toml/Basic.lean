import GuardedData.Toml.Datetime
import GuardedData.Value.Basic

/-!
# TOML documents as values

Every item has a value but one that holds a number that is not finite. Dates and times become the
strings of their text.
-/

namespace GuardedData.Toml

/-- A number that is not finite. -/
inductive NonFinite
  | infinite (negative : Bool)
  | nan
deriving DecidableEq

def NonFinite.text : NonFinite → String
  | .infinite false => "inf"
  | .infinite true => "-inf"
  | .nan => "NaN"

/-- A part of a document. Integers fit 64 bits with a sign. -/
inductive Item
  | string (s : String)
  | integer (n : Int) (inRange : -0x8000000000000000 ≤ n ∧ n < 0x8000000000000000)
  | float (d : Double)
  | nonFinite (x : NonFinite)
  | boolean (b : Bool)
  | datetime (d : Datetime)
  | array (items : List Item)
  | table (entries : List (String × Item))
deriving Inhabited

namespace Item

mutual

/-- The value of an item, or the first number in it that is not finite. -/
def toValue : Item → Except NonFinite Value
  | .string s => .ok (.string s)
  | .integer n inRange => .ok (.number (.integer n ⟨inRange.1, by omega⟩))
  | .float d => .ok (.number (.double d))
  | .nonFinite x => .error x
  | .boolean b => .ok (.bool b)
  | .datetime d => .ok (.string d.text)
  | .array items => (itemValues items).map .array
  | .table entries => (entryValues entries).map .object

def itemValues : List Item → Except NonFinite (List Value)
  | [] => .ok []
  | item :: rest =>
    match item.toValue with
    | .error x => .error x
    | .ok v => (itemValues rest).map (v :: ·)

def entryValues : List (String × Item) → Except NonFinite (List (String × Value))
  | [] => .ok []
  | (key, item) :: rest =>
    match item.toValue with
    | .error x => .error x
    | .ok v => (entryValues rest).map ((key, v) :: ·)

end

end Item

end GuardedData.Toml
