import GuardedData.Proofs.Schema.Built
import GuardedData.Schema.WatchPaths
import GuardedData.Store.Edit

/-!
# Nodes behind keys

Keys lead from a schema through its object nodes to other nodes, and from a value through objects to
other values. A value conforms to a schema exactly if what is behind any keys in the value suits the
node behind them in the schema (`Schema.check_eq_ok_iff`). The nodes that are no object nodes are
watched, and a watch path leads where its keys do as long as they can be written in one
(`Dotted.segments_join`).
-/

namespace GuardedData

/-- The value that some keys lead to through objects. -/
def Value.behind? : List String → Value → Option Value
  | [], v => some v
  | key :: rest, v => (v.field? key).bind (behind? rest)

/-- The path of what some keys lead to. -/
def DataPath.keys (path : DataPath) (keys : List String) : DataPath := keys.foldl DataPath.key path

/-! ### Keys in dotted paths -/

namespace Dotted

/-- Whether a key can be a segment of a dotted path. -/
def Plain (key : String) : Prop := key ≠ "" ∧ '.' ∉ key.toList

lemma segments_of_plain {key : String} (h : Plain key) : segments key = [key] := by
  have hne : key.toList ≠ [] := fun he => h.1 (String.toList_eq_nil_iff.1 he)
  simp [segments, List.splitOn_eq_singleton h.2, hne]

/-- The path of plain keys leads through just these keys. -/
lemma segments_join {keys : List String} (h : ∀ key ∈ keys, Plain key) :
    segments (join keys) = keys := by
  induction keys with
  | nil => rfl
  | cons key rest ih =>
    obtain ⟨hkey, hrest⟩ := List.forall_mem_cons.1 h
    by_cases hnil : rest = []
    · subst hnil
      rw [join, String.intercalate_singleton, segments_of_plain hkey]
    · rw [join, String.intercalate_cons_of_ne_nil hnil, ← join, segments_append_dot,
        segments_of_plain hkey, ih hrest]
      rfl

end Dotted

namespace Value

/-- Where all keys on the way find objects, a path of segments leads where they do. -/
lemma find?_eq_behind? {keys : List String} {v : Value}
    (h : ∀ front key back, keys = front ++ key :: back → isObject (v.behind? front) = true) :
    v.find? keys = v.behind? keys := by
  induction keys generalizing v with
  | nil => rfl
  | cons key rest ih =>
    have hroot := h [] key rest rfl
    cases v with
    | object entries =>
      rw [find?, behind?, child?, field?]
      cases hget : Entries.get? key entries with
      | none => rfl
      | some child =>
        refine ih fun front k back hk => ?_
        have := h (key :: front) k back (by rw [hk]; rfl)
        rwa [behind?, field?, hget] at this
    | _ => simp [behind?, isObject] at hroot

end Value

/-! ### Nodes -/

namespace Schema

/-- Whether a node suits a value that may be absent: an object node asks for an object, whatever its
fields are, and any other node checks the value. -/
def Suits (node : Schema) (value : Option Value) (path : DataPath) : Prop :=
  if node.isObject then Value.isObject value = true else deepCheck value (some node) path = .ok ()

/-- Whether each object node that keys lead to has its keys once. -/
def DistinctKeys (s : Schema) : Prop :=
  ∀ keys fields, s.find? keys = some (.object fields) → (Entries.keys fields).Nodup

lemma Built.distinctKeys {r : Registry} {s : Schema} (h : Built r s) : s.DistinctKeys := by
  intro keys fields hnode
  cases h.of_find? hnode with
  | object hkeys => exact hkeys

lemma find?_cons_of_mem {fields : List (String × Schema)} (hkeys : (Entries.keys fields).Nodup)
    {key : String} {field : Schema} (h : (key, field) ∈ fields) (rest : List String) :
    find? (key :: rest) (.object fields) = field.find? rest := by
  rw [find?, field?, Entries.get?_of_mem hkeys h]
  rfl

lemma DistinctKeys.field {fields : List (String × Schema)} (h : DistinctKeys (.object fields))
    {key : String} {s : Schema} (hmem : (key, s) ∈ fields) : s.DistinctKeys := by
  intro keys fields' hnode
  exact h (key :: keys) fields' ((find?_cons_of_mem (h [] fields rfl) hmem keys).trans hnode)

lemma suits_of_check {s node : Schema} {v : Value} {path : DataPath} {keys : List String}
    (h : s.check v path = .ok ()) (hnode : s.find? keys = some node) :
    node.Suits (v.behind? keys) (path.keys keys) := by
  induction keys generalizing s v path with
  | nil =>
    cases hnode
    rw [Suits]
    split
    · cases node <;> cases v <;> simp_all [isObject, check, Value.behind?, Value.isObject]
    · exact h
  | cons key rest ih =>
    cases s with
    | object fields =>
      obtain ⟨field, hfield, hrest⟩ := Option.bind_eq_some_iff.1 hnode
      cases v with
      | object entries =>
        rw [check, checkFields_eq_ok_iff] at h
        obtain ⟨child, hchild, hcheck⟩ := h (key, field) (Entries.mem_of_get? hfield)
        rw [Value.behind?, Value.field?, hchild]
        exact ih hcheck hrest
      | _ => simp [check] at h
    | _ => cases hnode

/-- A value conforms to a schema exactly if what any keys lead to suits the node that they lead
to. -/
theorem check_eq_ok_iff {s : Schema} (hkeys : s.DistinctKeys) {v : Value} {path : DataPath} :
    s.check v path = .ok () ↔ ∀ keys node, s.find? keys = some node →
      node.Suits (v.behind? keys) (path.keys keys) := by
  refine ⟨fun h keys node => suits_of_check h, ?_⟩
  induction s using Schema.induct generalizing v path with
  | object fields ih =>
    intro h
    have hnodup := hkeys [] fields rfl
    cases v with
    | object entries =>
      rw [check, checkFields_eq_ok_iff]
      rintro ⟨key, field⟩ hmem
      have hbelow (keys : List String) (node : Schema) (hnode : field.find? keys = some node) :
          node.Suits (((Entries.get? key entries).bind (Value.behind? keys)))
            ((path.key key).keys keys) :=
        h (key :: keys) node ((find?_cons_of_mem hnodup hmem keys).trans hnode)
      cases hget : Entries.get? key entries with
      | none =>
        have hfield := hbelow [] field rfl
        rw [hget, Suits] at hfield
        split at hfield <;> simp [Value.isObject, deepCheck] at hfield
      | some child =>
        rw [hget] at hbelow
        exact ⟨child, rfl, ih (key, field) hmem (hkeys.field hmem) hbelow⟩
    | _ => simpa [Suits, isObject, Value.behind?, Value.isObject] using h [] _ rfl
  | _ => exact fun h => h [] _ rfl

lemma exists_object_of_find?_append {s node : Schema} {front back : List String} {key : String}
    (h : s.find? (front ++ key :: back) = some node) :
    ∃ fields, s.find? front = some (.object fields) := by
  rw [find?_append, Option.bind_eq_some_iff] at h
  obtain ⟨t, ht, hback⟩ := h
  cases t with
  | object fields => exact ⟨fields, ht⟩
  | _ => cases hback

/-- Where all object nodes find objects, a path of segments leads where its keys do. -/
lemma find?_eq_behind? {s node : Schema} {v : Value} (h : ∀ keys fields,
      s.find? keys = some (.object fields) → Value.isObject (v.behind? keys) = true)
    {keys : List String} (hnode : s.find? keys = some node) : v.find? keys = v.behind? keys := by
  refine Value.find?_eq_behind? fun front key back he => ?_
  obtain ⟨fields, hfront⟩ := exists_object_of_find?_append (he ▸ hnode)
  exact h front fields hfront

/-! ### Watched nodes -/

lemma mem_watchSegments {s node : Schema} {keys : List String} (h : s.find? keys = some node)
    (hnode : node.isObject = false) : keys ∈ s.watchSegments := by
  induction keys generalizing s with
  | nil =>
    cases h
    cases node <;> simp_all [watchSegments, isObject]
  | cons key rest ih =>
    cases s with
    | object fields =>
      obtain ⟨field, hfield, hrest⟩ := Option.bind_eq_some_iff.1 h
      have hmem := Entries.mem_of_get? hfield
      have hbelow := ih hrest
      rw [watchSegments]
      clear h hfield hrest ih
      induction fields with
      | nil => cases hmem
      | cons first fields ihFields =>
        rw [fieldSegments, List.mem_append]
        rcases List.mem_cons.1 hmem with he | hm
        · subst he
          exact Or.inl (List.mem_map_of_mem hbelow)
        · exact Or.inr (ihFields hm)
    | _ => cases h

/-- A node below the root that is no object node is watched. -/
lemma mem_watchPaths {s node : Schema} {keys : List String} (hkeys : keys ≠ [])
    (h : s.find? keys = some node) (hnode : node.isObject = false) :
    Dotted.join keys ∈ s.watchPaths := by
  have hmem := mem_watchSegments h hnode
  cases s with
  | object fields => exact List.mem_map_of_mem hmem
  | _ =>
    obtain ⟨key, rest, rfl⟩ := List.exists_cons_of_ne_nil hkeys
    cases h

end Schema

end GuardedData
