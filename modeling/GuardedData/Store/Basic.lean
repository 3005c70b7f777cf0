import GuardedData.Environment
import GuardedData.Store.Edit
import GuardedData.Value.Equality

/-!
# Stores

A store is a data tree with watchers on dotted paths. An edit queues one event for each watched
path that it may touch and whose value is another one afterwards; writing an equal value queues
nothing. How events reach their watchers is not the store's business: it only holds the queue and
whether a flush is under way. What a watcher does when told is a parameter.
-/

namespace GuardedData

/-- Something to be told of the changes at a path. -/
structure Watcher (κ : Type) where
  path : String
  callback : κ

/-- A change of the value at a path; the new value is absent when the path leads nowhere now. -/
structure Event where
  path : String
  value : Option Value

/-- A data tree, its watchers in the order of their registration, and the events to deliver. -/
structure Store (κ : Type) where
  tree : Value
  mode : FlushMode
  watchers : List (Watcher κ) := []
  pending : List Event := []
  flushing : Bool := false

/-- The events for those of some paths at which two trees have different values. -/
def changes (before after : Value) (paths : List String) : List Event :=
  paths.filterMap fun path =>
    let new := after.at? path
    if Value.equalOption new (before.at? path) then none else some ⟨path, new⟩

namespace Store

variable {κ : Type}

/-- The distinct watched paths, in the order of their first registration. -/
def watchedPaths (s : Store κ) : List String := (s.watchers.map (·.path)).eraseDups

/-- The watched paths that a change at a path may touch. -/
def affected (s : Store κ) (path : String) : List String :=
  s.watchedPaths.filter (Dotted.related · path)

/-- Add a watcher behind those that are there. -/
def watch (s : Store κ) (path : String) (callback : κ) : Store κ :=
  { s with watchers := s.watchers ++ [⟨path, callback⟩] }

/-- The callbacks of a path, in the order of their registration. -/
def callbacks (s : Store κ) (path : String) : List κ :=
  (s.watchers.filter (·.path == path)).map (·.callback)

/-- Edit the tree and queue the changes; also the value that the edit removed. -/
def edit (s : Store κ) (path : String) (e : Edit) : Except PathFault (Store κ × Option Value) :=
  match e.apply path s.tree with
  | .error fault => .error fault
  | .ok (tree, removed) =>
    .ok ({ s with tree, pending := s.pending ++ changes s.tree tree (s.affected path) }, removed)

/-- Take the event at the front of the queue. -/
def takeEvent? (s : Store κ) : Option (Event × Store κ) :=
  match s.pending with
  | [] => none
  | event :: rest => some (event, { s with pending := rest })

end Store

end GuardedData
