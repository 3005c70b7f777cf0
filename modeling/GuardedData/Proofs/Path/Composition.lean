import GuardedData.Path.DataPath
import GuardedData.Schema.Basic
import GuardedData.Store.Edit
import Mathlib.Tactic.Common

/-!
# Dotted paths one behind the other

A dotted path is read in three ways: it leads through a tree, it leads through a schema, and it
extends a data path. In each of them a path with a dot in it is the path before the dot and then the
one behind the dot, whatever the two are, and where the first leads nowhere the whole does. So it
makes no difference to any of them when dots are added to a path (`Dotted.paths_compose`).
-/

namespace GuardedData

/-! ### Two paths with a dot between them -/

lemma Value.at?_append_dot (v : Value) (p q : String) :
    v.at? (p ++ "." ++ q) = (v.at? p).bind (·.at? q) := by
  rw [at?, Dotted.segments_append_dot, find?_append]
  rfl

lemma Schema.lookup_append_dot (s : Schema) (p q : String) :
    s.lookup (p ++ "." ++ q) = (s.lookup p).bind (·.lookup q) := by
  rw [lookup, Dotted.segments_append_dot, find?_append]
  rfl

lemma DataPath.joinDotted_append_dot (path : DataPath) (p q : String) :
    path.joinDotted (p ++ "." ++ q) = (path.joinDotted p).joinDotted q := by
  simp only [joinDotted, Dotted.segments_append_dot, List.map_append, List.append_assoc]

namespace Dotted

/-! ### Added dots -/

/-- The paths that come from one by adding dots: in front of it, behind it, or next to a dot that it
has. -/
inductive Redotted (path : String) : String → Prop
  | same : Redotted path path
  | front {p : String} (h : Redotted path p) : Redotted path ("." ++ p)
  | behind {p : String} (h : Redotted path p) : Redotted path (p ++ ".")
  | doubled {p q : String} (h : Redotted path (p ++ "." ++ q)) : Redotted path (p ++ ".." ++ q)

lemma segments_front_dot (p : String) : segments ("." ++ p) = segments p := by
  simpa using segments_append_dot "" p

lemma segments_behind_dot (p : String) : segments (p ++ ".") = segments p := by
  simpa using segments_append_dot p ""

/-- Between two dots that are neighbours there is the path of the root. -/
lemma segments_doubled_dot (p q : String) :
    segments (p ++ ".." ++ q) = segments (p ++ "." ++ q) := by
  have hpath : p ++ ".." ++ q = p ++ "." ++ ("." ++ q) := by
    apply String.toList_inj.1
    simp
  rw [hpath, segments_append_dot, segments_front_dot, segments_append_dot]

/-- Added dots keep the segments. -/
theorem Redotted.segments_eq {path p : String} (h : Redotted path p) :
    segments p = segments path := by
  induction h with
  | same => rfl
  | front _ ih => rw [segments_front_dot, ih]
  | behind _ ih => rw [segments_behind_dot, ih]
  | doubled _ ih => rw [segments_doubled_dot, ih]

/-- **Dotted paths compose**, as paths through a tree, as paths through a schema and as extensions
of a data path, also where a part of them is empty or leads nowhere. So none of the three takes
notice of dots that are added to a path. -/
theorem paths_compose (p q : String) :
    (∀ v : Value, v.at? (p ++ "." ++ q) = (v.at? p).bind (·.at? q)) ∧
    (∀ s : Schema, s.lookup (p ++ "." ++ q) = (s.lookup p).bind (·.lookup q)) ∧
    (∀ d : DataPath, d.joinDotted (p ++ "." ++ q) = (d.joinDotted p).joinDotted q) ∧
    ∀ p', Redotted p p' → (∀ v : Value, v.at? p' = v.at? p) ∧
      (∀ s : Schema, s.lookup p' = s.lookup p) ∧
      ∀ d : DataPath, d.joinDotted p' = d.joinDotted p := by
  refine ⟨fun v => v.at?_append_dot p q, fun s => s.lookup_append_dot p q,
    fun d => d.joinDotted_append_dot p q, fun p' h => ?_⟩
  have hsegments := h.segments_eq
  refine ⟨fun v => ?_, fun s => ?_, fun d => ?_⟩
  · rw [Value.at?, hsegments, Value.at?]
  · rw [Schema.lookup, hsegments, Schema.lookup]
  · rw [DataPath.joinDotted, hsegments, DataPath.joinDotted]

/-- Behind the path of a list the path of a name in its first element leads to the name, though it
has dots too many, and through the schema to nothing, for that ends at the list. The path of the
list leads there with dots around it and a doubled one, too. -/
theorem paths_compose_void_parts :
    let list : Value := .array [.object [("name", .string "x")]]
    let v : Value := .object [("shop", .object [("list", list)])]
    let s : Schema := .object [("shop", .object [("list", .array none)])]
    let d : DataPath := (DataPath.root "city").index 7
    let p := "shop.list"
    let q := ".0..name"
    let p' := ".shop..list."
    v.at? (p ++ "." ++ q) = some (.string "x") ∧ s.lookup (p ++ "." ++ q) = none ∧
      d.joinDotted (p ++ "." ++ q) =
        ⟨"city", [.index 7, .key "shop", .key "list", .index 0, .key "name"]⟩ ∧
      Redotted p p' ∧ v.at? p' = some list ∧ s.lookup p' = some (.array none) ∧
      d.joinDotted p' = ⟨"city", [.index 7, .key "shop", .key "list"]⟩ := by
  intro list v s d p q p'
  have hdots : Redotted p p' := by
    have h : Redotted ("shop" ++ "." ++ "list") ("." ++ ("shop" ++ ".." ++ "list") ++ ".") :=
      .behind (.front (.doubled .same))
    simpa using h
  have hp : segments p = ["shop", "list"] := by decide
  have hq : segments q = ["0", "name"] := by decide
  have hlist : v.at? p = some list := by
    rw [Value.at?, hp]
    rfl
  have hname : list.at? q = some (.string "x") := by
    rw [Value.at?, hq]
    rfl
  have hnode : s.lookup p = some (.array none) := by
    rw [Schema.lookup, hp]
    rfl
  have hsteps : d.joinDotted p = ⟨"city", [.index 7, .key "shop", .key "list"]⟩ := by
    rw [DataPath.joinDotted, hp]
    decide
  obtain ⟨hv, hs, hd, hredotted⟩ := paths_compose p q
  obtain ⟨hv', hs', hd'⟩ := hredotted p' hdots
  refine ⟨?_, ?_, ?_, hdots, ?_, ?_, ?_⟩
  · rw [hv, hlist]
    exact hname
  · rw [hs, hnode, Option.bind_some, Schema.lookup, hq]
    rfl
  · rw [hd, hsteps, DataPath.joinDotted, hq]
    decide
  · rw [hv', hlist]
  · rw [hs', hnode]
  · rw [hd', hsteps]

end Dotted

end GuardedData
