import GuardedData.Schema.Basic

/-!
# Watch paths

The dotted paths that a model with a schema watches: one for each leaf and array node that is
reached through object nodes alone. Arrays are watched as a whole, and a schema that is no object
node has nothing to watch.
-/

namespace GuardedData.Schema

mutual

/-- The segments of the nodes to watch at or below a node. -/
def watchSegments : Schema → List (List String)
  | .object fields => fieldSegments fields
  | _ => [[]]

/-- The segments of the nodes to watch below the fields of a node. -/
def fieldSegments : List (String × Schema) → List (List String)
  | [] => []
  | (key, s) :: rest => (watchSegments s).map (key :: ·) ++ fieldSegments rest

end

/-- The watch paths of a schema, in the order of its fields. -/
def watchPaths : Schema → List String
  | .object fields => (fieldSegments fields).map Dotted.join
  | _ => []

end GuardedData.Schema
