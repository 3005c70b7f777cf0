import GuardedData.Entries
import GuardedData.Toml.Written

/-!
# Tables in the making

A document fills its tables out of order, and how a table came to be decides what may still be
added to it. A dotted key adds to tables that have no header of their own and makes them tables of
dotted keys, and a header opens a table that is new or has only been passed through on the way to
the table of another header.
-/

namespace GuardedData.Toml

/-- How a table came to be. -/
inductive Origin
  /-- By a header of its own, or as the root. -/
  | header
  /-- On the way to the table of a header. -/
  | implied
  /-- On the way to the last part of a dotted key, at first or later on. -/
  | dotted
deriving DecidableEq

/-- How a table is said to have come to be once a path leads through it. -/
def Origin.through (made origin : Origin) : Origin := if made = .dotted then .dotted else origin

/-- A part of a document that is still being read. -/
inductive Node
  /-- A value, to which nothing is added. -/
  | leaf (w : Written)
  | table (origin : Origin) (entries : List (String × Node))
  /-- The tables that headers in double brackets have opened so far. -/
  | tables (earlier : List (List (String × Node))) (last : List (String × Node))
deriving Inhabited

/-- The entries of a table that is still being read. -/
abbrev Nodes := List (String × Node)

namespace Node

mutual

def toWritten : Node → Written
  | .leaf w => w
  | .table _ entries => .table (written entries)
  | .tables earlier last => .array (writtenTables earlier ++ [.table (written last)])

def written : List (String × Node) → List (String × Written)
  | [] => []
  | (key, node) :: rest => (key, node.toWritten) :: written rest

def writtenTables : List (List (String × Node)) → List Written
  | [] => []
  | entries :: rest => .table (written entries) :: writtenTables rest

end

end Node

namespace Nodes

/-- Change the table that a path leads to, making the tables that are not there. Of an array of
tables the last one is meant. A dotted key does not pass through the table of a header. -/
def alter {α : Type} (made : Origin) (f : Origin → Nodes → Option (Nodes × α)) :
    List String → Origin → Nodes → Option (Nodes × α)
  | [], origin, entries => f origin entries
  | key :: rest, _, entries =>
    match Entries.get? key entries with
    | none =>
      (alter made f rest made []).map fun (new, a) => (Entries.put key (.table made new) entries, a)
    | some (.table origin old) =>
      if made = .dotted ∧ origin = .header then none
      else
        let origin := made.through origin
        (alter made f rest origin old).map fun (new, a) =>
          (Entries.put key (.table origin new) entries, a)
    | some (.tables earlier last) =>
      (alter made f rest .header last).map fun (new, a) =>
        (Entries.put key (.tables earlier new) entries, a)
    | some (.leaf _) => none

/-- Give a value to a key that is not there. A dotted key gives none to the table of a header, and
so none to the last table of an array, although it may pass through that one. -/
def insert (key : List String × String) (w : Written) (entries : Nodes) : Option Nodes :=
  let (path, name) := key
  (alter .dotted (add path name) path .header entries).map (·.1)
where
  /-- Add the entry to the table that it belongs to. -/
  add (path : List String) (name : String) (origin : Origin) (entries : Nodes) :
      Option (Nodes × Unit) :=
    if path.isEmpty ∨ origin = .dotted then
      match Entries.get? name entries with
      | none => some (Entries.put name (.leaf w) entries, ())
      | some _ => none
    else none

end Nodes

/-- The kinds of headers: in single and in double brackets. -/
inductive Header
  | single
  | double
deriving DecidableEq

namespace Header

/-- Take what a header opens out of its parent. A table that was only passed through leaves its
place, and one more table of an array starts out empty. -/
def take (header : Header) (name : String) (parent : Nodes) : Option (Nodes × Nodes) :=
  match header, Entries.get? name parent with
  | _, none => some (parent, [])
  | .single, some (.table .implied old) => some (parent.filter (·.1 ≠ name), old)
  | .double, some (.tables _ _) => some (parent, [])
  | _, some _ => none

/-- Put a finished table into its parent: behind what is there, or as the last of its array. -/
def place (header : Header) (name : String) (entries parent : Nodes) : Nodes :=
  match header, Entries.get? name parent with
  | .double, some (.tables earlier last) =>
    Entries.put name (.tables (earlier ++ [last]) entries) parent
  | .double, _ => Entries.put name (.tables [] entries) parent
  | .single, _ => Entries.put name (.table .header entries) parent

end Header

/-- A table that a header has opened, with the path of its parent. -/
structure Opened where
  header : Header
  path : List String
  name : String
  entries : Nodes

/-- A document up to some place: its root, and the table that is open, if it is not the root. -/
structure Draft where
  root : Nodes := []
  opened : Option Opened := none

namespace Draft

/-- Add a key and its value to the table that is open. -/
def insert (d : Draft) (key : List String × String) (w : Written) : Option Draft :=
  match d.opened with
  | none => (d.root.insert key w).map fun root => { d with root }
  | some o =>
    (o.entries.insert key w).map fun entries => { d with opened := some { o with entries } }

/-- The root once the open table is finished. -/
def close (d : Draft) : Option Nodes :=
  match d.opened with
  | none => some d.root
  | some o =>
    (d.root.alter .implied (fun _ parent => some (o.header.place o.name o.entries parent, ()))
      o.path .header).map (·.1)

/-- Finish the table that is open and open another one. -/
def openTable (d : Draft) (header : Header) (key : List String × String) : Option Draft := do
  let (path, name) := key
  let root ← d.close
  let (root, entries) ← root.alter .implied (fun _ parent => header.take name parent) path .header
  return ⟨root, some ⟨header, path, name, entries⟩⟩

end Draft

end GuardedData.Toml
