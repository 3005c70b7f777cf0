import GuardedData.Proofs.Schema.Mismatch

/-!
# Validation piece by piece

A schema whose keys are plain can be checked in pieces: a value conforms exactly if each object node
finds an object and, for each watch path, what the path leads to in the value conforms to what it
leads to in the schema (`Schema.validate_eq_ok_iff_watchPaths`). A piece is checked at another place
than the same part of the whole, since a watch path takes digits for an index; so the leaves must
not care where a value is.
-/

namespace GuardedData

instance Dotted.decidablePlain (key : String) : Decidable (Dotted.Plain key) :=
  inferInstanceAs (Decidable (key ≠ "" ∧ '.' ∉ key.toList))

namespace Schema

/-! ### Places that do not matter -/

/-- Whether a predicate is that of a leaf of a schema. -/
inductive HasLeaf (p : Predicate) : Schema → Prop
  | leaf : HasLeaf p (.leaf p)
  | field {fields : List (String × Schema)} {key : String} {s : Schema} (hmem : (key, s) ∈ fields)
    (h : HasLeaf p s) : HasLeaf p (.object fields)
  | element {s : Schema} (h : HasLeaf p s) : HasLeaf p (.array (some s))

/-- Whether each leaf of a schema accepts the same values wherever they are. -/
def Placeless (s : Schema) : Prop :=
  ∀ p, HasLeaf p s → ∀ v path path', p.accepts v path = p.accepts v path'

/-- The leaves of a built schema are built. -/
lemma Built.leaf {r : Registry} {s : Schema} {p : Predicate} (h : Built r s) (hp : HasLeaf p s) :
    Built r (.leaf p) := by
  induction hp with
  | leaf => exact h
  | field hmem hp ih =>
    cases h with
    | object hkeys hfree hfields => exact ih (hfields _ hmem)
  | element hp ih =>
    cases h with
    | arrayOf helement => exact ih helement

/-- The predicates that are there from the start, and those built from them, do not care where a
value is. -/
lemma Built.placeless {s : Schema} (h : Built .builtins s) : s.Placeless :=
  fun _ hp v path path' =>
    extensional_of_leaf (h.leaf hp).extensional v v path path' (Value.equal_self v)

namespace Placeless

lemma field {fields : List (String × Schema)} (h : Placeless (.object fields)) {key : String}
    {s : Schema} (hmem : (key, s) ∈ fields) : s.Placeless := fun p hp => h p (.field hmem hp)

lemma of_find? {s node : Schema} (h : s.Placeless) {keys : List String}
    (hnode : s.find? keys = some node) : node.Placeless := by
  induction keys generalizing s with
  | nil =>
    cases hnode
    exact h
  | cons key rest ih =>
    cases s with
    | object fields =>
      obtain ⟨t, ht, hrest⟩ := Option.bind_eq_some_iff.1 hnode
      exact ih (h.field (Entries.mem_of_get? ht)) hrest
    | _ => cases hnode

/-- A value that conforms somewhere conforms everywhere. -/
lemma check_iff {s : Schema} (h : s.Placeless) {v : Value} {path path' : DataPath} :
    s.check v path = .ok () ↔ s.check v path' = .ok () := by
  induction s using Schema.induct generalizing v path path' with
  | leaf p =>
    rw [check, check, Predicate.require_eq_ok_iff, Predicate.require_eq_ok_iff,
      h p .leaf v path path']
  | object fields ih =>
    cases v with
    | object entries =>
      rw [check, check, checkFields_eq_ok_iff, checkFields_eq_ok_iff]
      refine forall₂_congr fun field hmem => exists_congr fun child => ?_
      exact and_congr_right fun _ => ih field hmem (h.field hmem)
    | _ => simp [check]
  | anyArray => cases v <;> simp [check]
  | arrayOf element ih =>
    cases v with
    | array items =>
      rw [check, check, checkItems_eq_ok_iff, checkItems_eq_ok_iff]
      refine forall₂_congr fun i item => imp_congr_right fun _ => ?_
      exact ih fun p hp => h p (.element hp)
    | _ => simp [check]

lemma deepCheck_iff {s : Schema} (h : s.Placeless) {v : Option Value} {path path' : DataPath} :
    deepCheck v (some s) path = .ok () ↔ deepCheck v (some s) path' = .ok () := by
  cases v with
  | none => simp [deepCheck]
  | some v => exact h.check_iff

end Placeless

/-! ### Plain keys -/

/-- Whether all keys of the object nodes that keys lead to can be segments of dotted paths. -/
def PlainKeys (s : Schema) : Prop :=
  ∀ keys fields, s.find? keys = some (.object fields) → ∀ key ∈ Entries.keys fields,
    Dotted.Plain key

/-- Only plain keys lead from a schema with plain keys to a node. -/
lemma PlainKeys.of_find? {s node : Schema} (h : s.PlainKeys) {keys : List String}
    (hnode : s.find? keys = some node) : ∀ key ∈ keys, Dotted.Plain key := by
  intro key hkey
  obtain ⟨front, back, rfl⟩ := List.append_of_mem hkey
  obtain ⟨fields, hfront⟩ := exists_object_of_find?_append hnode
  refine h front fields hfront key ?_
  rw [find?_append, hfront, Option.bind_some, find?] at hnode
  obtain ⟨t, ht, -⟩ := Option.bind_eq_some_iff.1 hnode
  exact Entries.mem_keys_of_get? ht

lemma plainKeys_of_isObject {s : Schema} (h : s.isObject = false) : s.PlainKeys := by
  intro keys fields hnode
  cases keys with
  | nil =>
    cases hnode
    cases h
  | cons key rest =>
    cases s with
    | object fields' => cases h
    | _ => cases hnode

lemma plainKeys_object {fields : List (String × Schema)}
    (hkeys : ∀ key ∈ Entries.keys fields, Dotted.Plain key)
    (h : ∀ field ∈ fields, field.2.PlainKeys) : PlainKeys (.object fields) := by
  intro keys fields' hnode
  cases keys with
  | nil =>
    cases hnode
    exact hkeys
  | cons key rest =>
    obtain ⟨t, ht, hrest⟩ := Option.bind_eq_some_iff.1 hnode
    exact h (key, t) (Entries.mem_of_get? ht) rest fields' hrest

/-- **A whole is valid if its pieces are.** A value conforms to a schema that is an object node with
plain keys exactly if it has an object for each object node behind keys, and at each watch path what
is there conforms to what the schema has there. -/
theorem validate_eq_ok_iff_watchPaths {s : Schema} (hroot : s.isObject = true)
    (hkeys : s.DistinctKeys) (hplain : s.PlainKeys) (hplaceless : s.Placeless) (v : Value)
    (label : String) : validate v s label = .ok () ↔
      (∀ keys fields, s.find? keys = some (.object fields) →
        Value.isObject (v.behind? keys) = true) ∧
      ∀ w ∈ s.watchPaths,
        deepCheck (v.at? w) (s.lookup w) ((DataPath.root label).joinDotted w) = .ok () := by
  -- Where object nodes find objects, a watched node is checked at its watch path.
  have hpiece (hobjects : ∀ keys fields, s.find? keys = some (.object fields) →
      Value.isObject (v.behind? keys) = true) {keys : List String} {node : Schema}
      (hnode : s.find? keys = some node) (hleaf : node.isObject = false) :
      node.Suits (v.behind? keys) ((DataPath.root label).keys keys) ↔
        deepCheck (v.at? (Dotted.join keys)) (s.lookup (Dotted.join keys))
          ((DataPath.root label).joinDotted (Dotted.join keys)) = .ok () := by
    have hsegments := hplain.of_find? hnode
    rw [Suits, if_neg (by simp [hleaf]), lookup_join_of_plain s hsegments, hnode, Value.at?,
      Dotted.segments_join hsegments, find?_eq_behind? hobjects hnode]
    exact (hplaceless.of_find? hnode).deepCheck_iff
  rw [validate, check_eq_ok_iff hkeys]
  constructor
  · intro h
    have hobjects (keys : List String) (fields : List (String × Schema))
        (hnode : s.find? keys = some (.object fields)) :
        Value.isObject (v.behind? keys) = true := h keys (.object fields) hnode
    refine ⟨hobjects, fun w hw => ?_⟩
    obtain ⟨keys, node, rfl, hnode, hleaf⟩ := exists_of_mem_watchPaths hkeys hw
    exact (hpiece hobjects hnode hleaf).1 (h keys node hnode)
  · rintro ⟨hobjects, hwatched⟩ keys node hnode
    cases hobject : node.isObject with
    | true =>
      cases node with
      | object fields => exact hobjects keys fields hnode
      | _ => cases hobject
    | false =>
      have hne : keys ≠ [] := by
        rintro rfl
        cases hnode
        rw [hroot] at hobject
        cases hobject
      exact (hpiece hobjects hnode hobject).2 (hwatched _ (mem_watchPaths hne hnode hobject))

/-- A key of digits is a key in the data and an index in the path of its piece. Where all is valid
each piece conforms, and where that piece does not the data is not valid. -/
theorem validate_eq_ok_iff_watchPaths_digits :
    let slots : Value := .object [("0", .string "number"), ("tags", .array [.string "string"])]
    let data (first : Value) : Value := .object [("name", .string "x"),
      ("slots", .object [("tags", .array [.string "y"]), ("0", first)])]
    ∃ s, parse .builtins (.object [("slots", slots), ("name", .string "string")]) = .ok s ∧
      s.watchPaths = ["slots.0", "slots.tags", "name"] ∧
      (∀ w ∈ s.watchPaths, deepCheck ((data (.ofInt 1)).at? w) (s.lookup w)
        ((DataPath.root "shop").joinDotted w) = .ok ()) ∧
      validate (data .null) s "shop" ≠ .ok () := by
  intro slots data
  obtain ⟨s, hparse⟩ : ∃ s, parse .builtins
      (.object [("slots", slots), ("name", .string "string")]) = .ok s := ⟨_, rfl⟩
  have hs : s = .object [("slots", .object [("0", .leaf .number),
      ("tags", .array (some (.leaf .string)))]), ("name", .leaf .string)] := by
    cases hparse
    rfl
  have hplain : s.PlainKeys := by
    rw [hs]
    refine plainKeys_object (by decide) ?_
    simp only [List.forall_mem_cons, List.not_mem_nil, false_imp_iff, implies_true, and_true]
    refine ⟨plainKeys_object (by decide) ?_, plainKeys_of_isObject rfl⟩
    simp only [List.forall_mem_cons, List.not_mem_nil, false_imp_iff, implies_true, and_true]
    exact ⟨plainKeys_of_isObject rfl, plainKeys_of_isObject rfl⟩
  have hbuilt := built_of_parse hparse
  have hiff (first : Value) := validate_eq_ok_iff_watchPaths (by rw [hs]; rfl) hbuilt.distinctKeys
    hplain hbuilt.placeless (data first) "shop"
  have hvalid : validate (data (.ofInt 1)) s "shop" = .ok () := by
    rw [hs]
    rfl
  have hfails : deepCheck ((data .null).at? "slots.0") (s.lookup "slots.0")
      ((DataPath.root "shop").joinDotted "slots.0") ≠ .ok () := by
    rw [hs]
    intro h
    cases h
  have hpaths : s.watchPaths = ["slots.0", "slots.tags", "name"] := by
    rw [hs]
    decide
  refine ⟨s, hparse, hpaths, ((hiff _).1 hvalid).2, fun h => hfails ?_⟩
  exact ((hiff _).1 h).2 "slots.0" (by simp [hpaths])

end Schema

end GuardedData
