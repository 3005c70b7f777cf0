import GuardedData.Proofs.Path.Related
import GuardedData.Proofs.Schema.Piecewise

/-!
# Watch paths and look-ups

Where the keys of a schema are plain, its watch paths are just the paths without empty segments that
are looked up to a leaf or an array node, each of them once, and looked up to the node that it was
written for. They come depth first in the order of the fields (`Schema.Precedes`), and none of them
leads through another one (`Schema.watchPaths_eq_lookups`).
-/

namespace GuardedData

/-! ### Paths and their parts -/

namespace Dotted

/-- Whether a path has no empty segment; the path of the root is one. -/
def Solid (path : String) : Prop := [] ∉ path.toList.splitOn '.'

lemma join_segments {path : String} (h : Solid path) : join (segments path) = path := by
  have hall : (path.toList.splitOn '.').filter (!·.isEmpty) = path.toList.splitOn '.' := by
    rw [List.filter_eq_self]
    intro part hpart
    have hne : part ≠ [] := by
      rintro rfl
      exact h hpart
    simpa using hne
  have hlist : (join (segments path)).toList = path.toList := by
    rw [join, String.toList_intercalate, segments, hall, List.map_map]
    simp [Function.comp_def, List.intercalate_splitOn]
  exact String.toList_inj.1 hlist

lemma solid_join {keys : List String} (hne : keys ≠ []) (h : ∀ key ∈ keys, Plain key) :
    Solid (join keys) := by
  rw [Solid, join, String.toList_intercalate]
  have hparts : (['.'].intercalate (keys.map String.toList)).splitOn '.' =
      keys.map String.toList :=
    List.splitOn_intercalate '.' (by simpa using fun key hkey => (h key hkey).2)
      (by simpa using hne)
  intro hempty
  have hmem : [] ∈ keys.map String.toList := hparts ▸ hempty
  obtain ⟨key, hkey, hnil⟩ := List.mem_map.1 hmem
  exact (h key hkey).1 (String.toList_eq_nil_iff.1 hnil)

end Dotted

namespace Schema

/-! ### The order of watched nodes -/

/-- Whether some keys come before other ones, depth first in the order of the fields: where they
part, at an object node, the first take the earlier field. -/
def Precedes (s : Schema) (a b : List String) : Prop :=
  ∃ front fields key other, s.find? front = some (.object fields) ∧
    [key, other].Sublist (Entries.keys fields) ∧ front ++ [key] <+: a ∧ front ++ [other] <+: b

/-- Nothing comes before itself. -/
lemma DistinctKeys.not_precedes_self {s : Schema} (hkeys : s.DistinctKeys) (a : List String) :
    ¬s.Precedes a a := by
  rintro ⟨front, fields, key, other, hnode, hsub, hkey, hother⟩
  have hsame : front ++ [key] = front ++ [other] :=
    (List.prefix_of_prefix_length_le hkey hother (by simp)).eq_of_length (by simp)
  have hnodup := (hkeys front fields hnode).sublist hsub
  simp_all

lemma Precedes.cons {fields : List (String × Schema)} (hkeys : (Entries.keys fields).Nodup)
    {key : String} {s : Schema} (hmem : (key, s) ∈ fields) {a b : List String}
    (h : s.Precedes a b) : Precedes (.object fields) (key :: a) (key :: b) := by
  obtain ⟨front, inner, k, other, hnode, hsub, ha, hb⟩ := h
  refine ⟨key :: front, inner, k, other, ?_, hsub, ?_, ?_⟩
  · rw [find?_cons_of_mem hkeys hmem, hnode]
  · simpa using ha
  · simpa using hb

lemma pairwise_fieldSegments {all fields : List (String × Schema)}
    (hkeys : (Entries.keys all).Nodup) (hsub : fields.Sublist all)
    (h : ∀ field ∈ fields, field.2.watchSegments.Pairwise field.2.Precedes) :
    (fieldSegments fields).Pairwise (Precedes (.object all)) := by
  induction fields with
  | nil => exact .nil
  | cons field rest ih =>
    obtain ⟨key, s⟩ := field
    obtain ⟨hs, hrest⟩ := List.forall_mem_cons.1 h
    rw [fieldSegments, List.pairwise_append, List.pairwise_map]
    refine ⟨?_, ih ((List.sublist_cons_self ..).trans hsub) hrest, ?_⟩
    · exact hs.imp fun hab => hab.cons hkeys (hsub.subset List.mem_cons_self)
    · intro a ha b hb
      obtain ⟨a, -, rfl⟩ := List.mem_map.1 ha
      obtain ⟨⟨other, t⟩, hmem, b, -, rfl⟩ := exists_of_mem_fieldSegments hb
      refine ⟨[], all, key, other, rfl, ?_, by simp, by simp⟩
      have hother : [other].Sublist (Entries.keys rest) :=
        List.singleton_sublist.2 (List.mem_map_of_mem hmem)
      have hall : (Entries.keys ((key, s) :: rest)).Sublist (Entries.keys all) := hsub.map Prod.fst
      exact (hother.cons_cons key).trans hall

/-- The watched nodes come depth first in the order of the fields. -/
theorem pairwise_watchSegments {s : Schema} (hkeys : s.DistinctKeys) :
    s.watchSegments.Pairwise s.Precedes := by
  induction s using Schema.induct with
  | object fields ih =>
    rw [watchSegments]
    exact pairwise_fieldSegments (hkeys [] fields rfl) (List.Sublist.refl fields)
      fun field hmem => ih field hmem (hkeys.field hmem)
  | _ => simp [watchSegments]

/-- No way to a node leads through a node that is no object node. -/
lemma eq_of_isObject_eq_false {s node last : Schema} {a b : List String}
    (hnode : s.find? a = some node)
    (hleaf : node.isObject = false) (hlast : s.find? b = some last) (h : a <+: b) : a = b := by
  obtain ⟨rest, rfl⟩ := h
  rw [find?_append, hnode, Option.bind_some] at hlast
  cases rest with
  | nil => rw [List.append_nil]
  | cons key rest => cases node <;> simp_all [find?, field?, isObject]

/-! ### Watch paths of plain keys -/

/-- What keys lead to below an object root has a way to it. -/
lemma ne_nil_of_find? {s node : Schema} (hroot : s.isObject = true) {keys : List String}
    (hnode : s.find? keys = some node) (hleaf : node.isObject = false) : keys ≠ [] := by
  rintro rfl
  cases hnode
  rw [hroot] at hleaf
  cases hleaf

lemma pairwise_watchPaths {s : Schema} (hkeys : s.DistinctKeys) (hplain : s.PlainKeys) :
    s.watchPaths.Pairwise fun p q => s.Precedes (Dotted.segments p) (Dotted.segments q) := by
  cases s with
  | object fields =>
    have hsegments {keys : List String} (hmem : keys ∈ fieldSegments fields) :
        Dotted.segments (Dotted.join keys) = keys := by
      obtain ⟨node, hnode, -⟩ := exists_of_mem_watchSegments (s := .object fields) hkeys hmem
      exact Dotted.segments_join (hplain.of_find? hnode)
    have hpairwise := pairwise_watchSegments hkeys
    rw [watchSegments] at hpairwise
    rw [watchPaths, List.pairwise_map]
    refine hpairwise.imp_of_mem fun ha hb hab => ?_
    rwa [hsegments ha, hsegments hb]
  | _ => exact .nil

/-- **Watch paths and look-ups are inverse on plain keys.** Where a schema is an object node, and
each object node behind keys has each key once and all of them plain, the watch paths are just the
paths without empty segments that are looked up to a node that is no object node. Each of them is
there once, and they come depth first in the order of the fields. Each is looked up to the node that
its keys lead to, and none leads through another one. -/
theorem watchPaths_eq_lookups {s : Schema} (hroot : s.isObject = true) (hkeys : s.DistinctKeys)
    (hplain : s.PlainKeys) :
    (∀ p, p ∈ s.watchPaths ↔
      Dotted.Solid p ∧ ∃ node, s.lookup p = some node ∧ node.isObject = false) ∧
    s.watchPaths.Nodup ∧
    (s.watchPaths.Pairwise fun p q => s.Precedes (Dotted.segments p) (Dotted.segments q)) ∧
    (∀ p ∈ s.watchPaths, ∃ keys node, p = Dotted.join keys ∧ s.find? keys = some node ∧
      s.lookup p = some node) ∧
    ∀ p ∈ s.watchPaths, ∀ q ∈ s.watchPaths, Dotted.segments p <+: Dotted.segments q → p = q := by
  have hwatched {p : String} (hp : p ∈ s.watchPaths) : ∃ keys node, p = Dotted.join keys ∧
      Dotted.segments p = keys ∧ s.find? keys = some node ∧ node.isObject = false ∧
      s.lookup p = some node := by
    obtain ⟨keys, node, rfl, hnode, hleaf⟩ := exists_of_mem_watchPaths hkeys hp
    have hkeysPlain := hplain.of_find? hnode
    exact ⟨keys, node, rfl, Dotted.segments_join hkeysPlain, hnode, hleaf,
      (lookup_join_of_plain s hkeysPlain).trans hnode⟩
  have hpairwise := pairwise_watchPaths hkeys hplain
  refine ⟨fun p => ⟨fun hp => ?_, ?_⟩, ?_, hpairwise, fun p hp => ?_, fun p hp q hq hpq => ?_⟩
  · obtain ⟨keys, node, rfl, -, hnode, hleaf, hlookup⟩ := hwatched hp
    have hne := ne_nil_of_find? hroot hnode hleaf
    exact ⟨Dotted.solid_join hne (hplain.of_find? hnode), node, hlookup, hleaf⟩
  · rintro ⟨hsolid, node, hlookup, hleaf⟩
    rw [← Dotted.join_segments hsolid]
    exact mem_watchPaths (ne_nil_of_find? hroot hlookup hleaf) hlookup hleaf
  · refine hpairwise.imp fun {p q} hpq he => ?_
    subst he
    exact hkeys.not_precedes_self _ hpq
  · obtain ⟨keys, node, he, -, hnode, -, hlookup⟩ := hwatched hp
    exact ⟨keys, node, he, hnode, hlookup⟩
  · obtain ⟨a, node, rfl, ha, hnode, hleaf, -⟩ := hwatched hp
    obtain ⟨b, last, rfl, hb, hlast, -, -⟩ := hwatched hq
    rw [ha, hb] at hpq
    rw [eq_of_isObject_eq_false hnode hleaf hlast hpq]

/-- The keys of a schema are out of alphabetical order, and one of its object nodes has nothing to
watch. A path with a gap leads to a leaf, but it is not the one that is watched. -/
theorem watchPaths_eq_lookups_gap :
    let tags : Value := .array [.object [("d", .string "string")]]
    let d : Value := .object [("z", .object [("b", .string "string"), ("meta", .object [])]),
      ("a", tags), ("m", .string "number")]
    ∃ s, parse .builtins d = .ok s ∧ s.watchPaths = ["z.b", "a", "m"] ∧
      s.Precedes ["z", "b"] ["a"] ∧
      (∃ node, s.lookup "z.b" = some node ∧ node.isObject = false) ∧
      s.lookup "z..b" = s.lookup "z.b" ∧ "z..b" ∉ s.watchPaths ∧
      (∃ node, s.lookup "z.meta" = some node) ∧ "z.meta" ∉ s.watchPaths := by
  intro tags d
  obtain ⟨s, hparse⟩ : ∃ s, parse .builtins d = .ok s := ⟨_, rfl⟩
  have hs : s = .object [("z", .object [("b", .leaf .string), ("meta", .object [])]),
      ("a", .array (some (.object [("d", .leaf .string)]))), ("m", .leaf .number)] := by
    cases hparse
    rfl
  have hplain : s.PlainKeys := by
    rw [hs]
    refine plainKeys_object (by decide) ?_
    simp only [List.forall_mem_cons, List.not_mem_nil, false_imp_iff, implies_true, and_true]
    refine ⟨plainKeys_object (by decide) ?_, plainKeys_of_isObject rfl, plainKeys_of_isObject rfl⟩
    simp only [List.forall_mem_cons, List.not_mem_nil, false_imp_iff, implies_true, and_true]
    exact ⟨plainKeys_of_isObject rfl, plainKeys_object (by decide) (by simp)⟩
  obtain ⟨hmem, -, horder, -, -⟩ := watchPaths_eq_lookups (by rw [hs]; rfl)
    (built_of_parse hparse).distinctKeys hplain
  have hwatch : s.watchPaths = ["z.b", "a", "m"] := by
    rw [hs]
    decide
  have hgap : s.lookup "z..b" = s.lookup "z.b" := by
    rw [lookup, lookup, show Dotted.segments "z..b" = Dotted.segments "z.b" by decide]
  refine ⟨s, hparse, hwatch, ?_, ((hmem "z.b").1 (by simp [hwatch])).2, hgap, ?_, ?_, ?_⟩
  · rw [hwatch] at horder
    have hfirst := (List.pairwise_cons.1 horder).1 "a" (by simp)
    rwa [show Dotted.segments "z.b" = ["z", "b"] by decide,
      show Dotted.segments "a" = ["a"] by decide] at hfirst
  · intro h
    have hsolid : Dotted.Solid "z..b" := ((hmem _).1 h).1
    exact hsolid (by decide)
  · rw [hs]
    exact ⟨_, rfl⟩
  · intro h
    obtain ⟨node, hnode, hleaf⟩ := ((hmem _).1 h).2
    rw [hs] at hnode
    cases hnode
    cases hleaf

end Schema

end GuardedData
