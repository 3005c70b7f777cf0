import GuardedData.Path.Dotted
import GuardedData.Value.Basic

/-!
# Edits of a tree

A dotted path walks through objects by key and through arrays by index. An edit either changes the
tree at its path alone or fails and changes nothing.
-/

namespace GuardedData

namespace Value

/-! ### Looking up -/

def child? (segment : String) : Value → Option Value
  | .object entries => Entries.get? segment entries
  | .array items => (Dotted.index? segment).bind fun i => items[i]?
  | _ => none

def find? : List String → Value → Option Value
  | [], v => some v
  | segment :: rest, v => (v.child? segment).bind (find? rest)

theorem find?_append (p q : List String) (v : Value) :
    v.find? (p ++ q) = (v.find? p).bind (find? q) := by
  induction p generalizing v with
  | nil => rfl
  | cons segment rest ih =>
    simp only [List.cons_append, find?]
    cases v.child? segment with
    | none => rfl
    | some child => exact ih child

def at? (v : Value) (path : String) : Option Value := v.find? (Dotted.segments path)

end Value

/-! ### Faults -/

/-- Why an edit has no place to happen. -/
inductive PathFault
  | emptyPath
  | noParent
  | scalarParent
  | noIndex
  | outOfBounds
  | noArray
  | noValue
deriving DecidableEq

/-- The wording of a fault. -/
def PathFault.reason : PathFault → String
  | .emptyPath => "empty path"
  | .noParent => "no such parent"
  | .scalarParent => "parent is not an object or array"
  | .noIndex => "array segment is not an index"
  | .outOfBounds => "index out of bounds"
  | .noArray => "not an array"
  | .noValue => "no value at path"

/-! ### Changing -/

namespace Value

/-- The value with another one in the place that a segment leads to. -/
def putChild (v : Value) (segment : String) (new : Value) : Value :=
  match v with
  | .object entries => .object (Entries.put segment new entries)
  | .array items =>
    match Dotted.index? segment with
    | some i => .array (items.set i new)
    | none => .array items
  | v => v

/-- Change the value that some segments lead to; a missing one is a given fault. -/
def alter {α : Type} (missing : PathFault) (f : Value → Except PathFault (Value × α)) :
    List String → Value → Except PathFault (Value × α)
  | [], v => f v
  | segment :: rest, v =>
    match v.child? segment with
    | none => .error missing
    | some old =>
      match alter missing f rest old with
      | .error fault => .error fault
      | .ok (new, a) => .ok (v.putChild segment new, a)

end Value

/-- The index of an existing element that a segment names. -/
def indexIn (items : List Value) (segment : String) : Except PathFault Nat :=
  match Dotted.index? segment with
  | none => .error .noIndex
  | some i => if i < items.length then .ok i else .error .outOfBounds

/-- A change at a path. -/
inductive Edit
  /-- Give the place a value, adding a key that its object lacks. -/
  | set (value : Value)
  /-- Append a value to the array there. -/
  | push (value : Value)
  /-- Remove the key or element. -/
  | remove
  /-- Change the value there. -/
  | update (f : Value → Value)

namespace Edit

/-- Set a key or an existing element. -/
def setChild (segment : String) (value : Value) : Value → Except PathFault (Value × Option Value)
  | .object entries => .ok (.object (Entries.put segment value entries), none)
  | .array items => (indexIn items segment).map fun i => (.array (items.set i value), none)
  | _ => .error .scalarParent

/-- Remove a key or an existing element; a key that is not there is removed as it is. -/
def removeChild (segment : String) : Value → Except PathFault (Value × Option Value)
  | .object entries =>
    .ok (.object (Entries.remove segment entries), Entries.get? segment entries)
  | .array items => (indexIn items segment).map fun i => (.array (items.eraseIdx i), items[i]?)
  | _ => .error .scalarParent

def pushItem (value : Value) : Value → Except PathFault (Value × Option Value)
  | .array items => .ok (.array (items ++ [value]), none)
  | _ => .error .noArray

/-- Change the parent of a place, given the segment that leads from it to the place. -/
def onParent (f : String → Value → Except PathFault (Value × Option Value)) (path : String)
    (root : Value) : Except PathFault (Value × Option Value) :=
  match Dotted.parent? path with
  | none => .error .emptyPath
  | some (parent, last) => root.alter .noParent (f last) (Dotted.segments parent)

/-- The tree after an edit, with the value that it removed. -/
def apply (edit : Edit) (path : String) (root : Value) : Except PathFault (Value × Option Value) :=
  match edit with
  | .set value => onParent (setChild · value) path root
  | .push value => root.alter .noValue (pushItem value) (Dotted.segments path)
  | .remove => onParent removeChild path root
  | .update f => root.alter .noValue (fun old => .ok (f old, none)) (Dotted.segments path)

end Edit

end GuardedData
