import GuardedData.Toml.Basic

/-!
# What a document writes

A text may write more than an item can hold: integers of any size, numbers too large for a double,
and tables that stand for a date and time. What is written means an item only as far as it is
looked at, so that a part may be passed over that means nothing.
-/

namespace GuardedData.Toml

/-- A part of a document as it is written. -/
inductive Written
  | string (s : String)
  | integer (n : Int)
  | float (d : Double)
  /-- A decimal beyond the doubles. -/
  | huge
  | nonFinite (x : NonFinite)
  | boolean (b : Bool)
  | datetime (d : Datetime)
  | array (items : List Written)
  | table (entries : List (String × Written))
deriving Inhabited

namespace Written

/-- The key whose text at the front of a table makes it a date and time. -/
def datetimeKey : String := "$__toml_private_datetime"

mutual

/-- The item that is meant, if there is one. A table whose first key says so is a date and time,
whatever comes behind that key. -/
def toItem? : Written → Option Item
  | .string s => some (.string s)
  | .integer n =>
    if inRange : -0x8000000000000000 ≤ n ∧ n < 0x8000000000000000 then some (.integer n inRange)
    else none
  | .float d => some (.float d)
  | .huge => none
  | .nonFinite x => some (.nonFinite x)
  | .boolean b => some (.boolean b)
  | .datetime d => some (.datetime d)
  | .array items => (items? items).map .array
  | .table [] => some (.table [])
  | .table ((key, w) :: rest) =>
    if key = datetimeKey then
      match w with
      | .string s => (Datetime.read? s.toList).map .datetime
      | _ => none
    else
      match w.toItem? with
      | none => none
      | some item => (entries? rest).map fun entries => .table ((key, item) :: entries)

def items? : List Written → Option (List Item)
  | [] => some []
  | w :: rest =>
    match w.toItem? with
    | none => none
    | some item => (items? rest).map (item :: ·)

def entries? : List (String × Written) → Option (List (String × Item))
  | [] => some []
  | (key, w) :: rest =>
    match w.toItem? with
    | none => none
    | some item => (entries? rest).map ((key, item) :: ·)

end

/-- The end of the unsigned integers of 128 bits. -/
def wide : Int := 0x100000000000000000000000000000000

mutual

/-- Whether a part can be passed over: its integers fit 128 bits with or without a sign, and its
other numbers are doubles. -/
def isPassable : Written → Bool
  | .integer n => -wide ≤ 2 * n && n < wide
  | .huge => false
  | .array items => allPassable items
  | .table entries => entriesPassable entries
  | _ => true

def allPassable : List Written → Bool
  | [] => true
  | w :: rest => w.isPassable && allPassable rest

def entriesPassable : List (String × Written) → Bool
  | [] => true
  | (_, w) :: rest => w.isPassable && entriesPassable rest

end

/-- Whether the table entries whose keys mean nothing can be passed over. -/
def othersPassable (known : List String) (entries : List (String × Written)) : Bool :=
  entries.all fun (key, w) => known.contains key || w.isPassable

end Written

end GuardedData.Toml
