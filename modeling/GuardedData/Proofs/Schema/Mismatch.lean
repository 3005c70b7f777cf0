import GuardedData.Proofs.Schema.Built
import GuardedData.Proofs.Schema.Nodes

/-!
# What a check objects to

A schema that is built from the predicates that are there from the start finds fault with data only,
never with itself (`Schema.Built.isMismatch`). So a check says that a schema is invalid exactly if
there is none, and that depends on where a watch path leads: it is written by joining keys and read
by the parts between its dots (`Schema.lookup_join`).
-/

namespace GuardedData

/-- Whether an error says that data does not conform, and not that something is no schema. -/
def ValidationError.isMismatch : ValidationError → Bool
  | .invalidSchema _ | .missingArgument _ => false
  | _ => true

/-! ### Errors of a check -/

lemma checkItems_eq_error {check : Value → DataPath → Except ValidationError Unit}
    {path : DataPath} {i : Nat} {items : List Value} {e : ValidationError}
    (h : checkItems check path i items = .error e) :
    ∃ v ∈ items, ∃ at_, check v at_ = .error e := by
  induction items generalizing i with
  | nil => cases h
  | cons v rest ih =>
    rw [checkItems] at h
    split at h
    · rename_i e' hv
      cases h
      exact ⟨v, List.mem_cons_self, _, hv⟩
    · obtain ⟨w, hw, hcheck⟩ := ih h
      exact ⟨w, List.mem_cons_of_mem v hw, hcheck⟩

lemma checkFields_eq_error {fields : List (String × Schema)} {entries : List (String × Value)}
    {path : DataPath} {e : ValidationError} (h : checkFields fields entries path = .error e) :
    e.isMismatch = true ∨ ∃ field ∈ fields, ∃ v at_, field.2.check v at_ = .error e := by
  induction fields with
  | nil => cases h
  | cons field rest ih =>
    obtain ⟨key, s⟩ := field
    rw [checkFields] at h
    split at h
    · cases h
      exact Or.inl rfl
    · split at h
      · cases h
        exact Or.inl rfl
      · rename_i v hfound
        split at h
        · rename_i e' hcheck
          cases h
          exact Or.inr ⟨(key, s), List.mem_cons_self, v, _, hcheck⟩
        · rcases ih h with hmismatch | ⟨field, hfield, hcheck⟩
          · exact Or.inl hmismatch
          · exact Or.inr ⟨field, List.mem_cons_of_mem _ hfield, hcheck⟩

namespace Predicate

lemma require_eq_error {p : Predicate} {v : Value} {path : DataPath} {e : ValidationError}
    (h : p.require v path = .error e) : e.isMismatch = true ∨ p.check v path = .error e := by
  rw [require] at h
  split at h
  · cases h
  · cases h
    exact Or.inl rfl
  · rename_i e' hcheck
    cases h
    exact Or.inr hcheck

/-- A nullable wrapper raises no error of its own. -/
lemma check_of_orNull_eq_error {s : Schema} {v : Value} {path : DataPath} {e : ValidationError}
    (h : (orNull s).check v path = .error e) : s.check v path = .error e := by
  cases s with
  | leaf p =>
    have hcheck : p.check v path = .error e := by
      cases v with
      | null => cases h
      | _ => exact h
    rw [Schema.check, require, hcheck]
  | _ =>
    cases v with
    | null => cases h
    | _ => exact (Except.map_eq_error_iff (f := fun _ => true)).1 h

end Predicate

namespace Schema

/-- A schema that is built from the predicates that are there from the start objects to data only.
-/
theorem Built.isMismatch {s : Schema} (h : Built .builtins s) {v : Value} {path : DataPath}
    {e : ValidationError} (he : s.check v path = .error e) : e.isMismatch = true := by
  -- A predicate that raises no error of its own fails by a mismatch.
  have hquiet {p : Predicate} {v : Value} {path : DataPath} (hp : p.check v path ≠ .error e)
      (he : Schema.check (.leaf p) v path = .error e) : e.isMismatch = true := by
    rw [check] at he
    exact (Predicate.require_eq_error he).resolve_right hp
  induction h generalizing v path with
  | named hname =>
    simp only [Registry.lookup, Registry.builtins, Entries.get?_cons, Entries.get?_nil] at hname
    split_ifs at hname <;> cases hname <;> exact hquiet (by intro h; cases h) he
  | oneOf hliterals => exact hquiet (by intro h; cases h) he
  | anyOf hmembers ih => exact hquiet (by intro h; cases h) he
  | handleOf model => exact hquiet (by intro h; cases h) he
  | orNull hs ih =>
    rw [check] at he
    rcases Predicate.require_eq_error he with hmismatch | hcheck
    · exact hmismatch
    · exact ih (Predicate.check_of_orNull_eq_error hcheck)
  | @object fields hkeys hfree hfields ih =>
    cases v with
    | object entries =>
      rw [check] at he
      rcases checkFields_eq_error he with hmismatch | ⟨field, hmem, w, at_, hcheck⟩
      · exact hmismatch
      · exact ih field hmem hcheck
    | _ =>
      cases he
      rfl
  | anyArray => cases v <;> cases he <;> rfl
  | @arrayOf element helement ih =>
    cases v with
    | array items =>
      rw [check] at he
      obtain ⟨w, -, at_, hcheck⟩ := checkItems_eq_error he
      exact ih hcheck
    | _ =>
      cases he
      rfl

lemma Built.isMismatch_of_deepCheck {s : Schema} (h : Built .builtins s) {value : Option Value}
    {path : DataPath} {e : ValidationError} (he : deepCheck value (some s) path = .error e) :
    e.isMismatch = true := by
  cases value with
  | none =>
    cases he
    rfl
  | some v => exact h.isMismatch he

end Schema

/-- A check against a built schema says that a schema is invalid exactly if there is none. -/
theorem deepCheck_eq_invalidSchema_iff {schema : Option Schema}
    (h : ∀ s, schema = some s → s.Built .builtins) {value : Option Value} {path at_ : DataPath} :
    deepCheck value schema path = .error (.invalidSchema at_) ↔ schema = none ∧ path = at_ := by
  cases schema with
  | none => simp [deepCheck]
  | some s =>
    simp only [reduceCtorEq, false_and, iff_false]
    intro he
    have hmismatch := (h s rfl).isMismatch_of_deepCheck he
    cases hmismatch

/-! ### Where a watch path leads -/

namespace Dotted

/-- The path of some keys leads through the segments of each of them. -/
lemma segments_join_eq (keys : List String) : segments (join keys) = keys.flatMap segments := by
  induction keys with
  | nil => rfl
  | cons key rest ih =>
    rw [List.flatMap_cons]
    by_cases hnil : rest = []
    · subst hnil
      rw [join, String.intercalate_singleton, List.flatMap_nil, List.append_nil]
    · rw [join, String.intercalate_cons_of_ne_nil hnil, ← join, segments_append_dot, ih]

end Dotted

namespace Schema

/-- The path of some keys is looked up by the parts of its keys, not by the keys. -/
theorem lookup_join (s : Schema) (keys : List String) :
    s.lookup (Dotted.join keys) = s.find? (keys.flatMap Dotted.segments) := by
  rw [lookup, Dotted.segments_join_eq]

/-- Keys that are plain lead where the path of them does. -/
lemma lookup_join_of_plain (s : Schema) {keys : List String} (h : ∀ key ∈ keys, Dotted.Plain key) :
    s.lookup (Dotted.join keys) = s.find? keys := by
  rw [lookup, Dotted.segments_join h]

/-- What is watched below some fields is watched at or below one of them. -/
lemma exists_of_mem_fieldSegments {fields : List (String × Schema)} {keys : List String}
    (h : keys ∈ fieldSegments fields) :
    ∃ field ∈ fields, ∃ rest ∈ field.2.watchSegments, keys = field.1 :: rest := by
  induction fields with
  | nil => cases h
  | cons field others ih =>
    rw [fieldSegments, List.mem_append] at h
    rcases h with h | h
    · obtain ⟨rest, hrest, rfl⟩ := List.mem_map.1 h
      exact ⟨field, List.mem_cons_self, rest, hrest, rfl⟩
    · obtain ⟨field', hfield, hrest⟩ := ih h
      exact ⟨field', List.mem_cons_of_mem _ hfield, hrest⟩

/-- What is watched is a node that is no object node. -/
lemma exists_of_mem_watchSegments {s : Schema} (hkeys : s.DistinctKeys) {keys : List String}
    (h : keys ∈ s.watchSegments) : ∃ node, s.find? keys = some node ∧ node.isObject = false := by
  induction s using Schema.induct generalizing keys with
  | object fields ih =>
    have hnodup := hkeys [] fields rfl
    rw [watchSegments] at h
    obtain ⟨⟨key, field⟩, hmem, rest, hrest, rfl⟩ := exists_of_mem_fieldSegments h
    obtain ⟨node, hnode, hleaf⟩ := ih (key, field) hmem (hkeys.field hmem) hrest
    exact ⟨node, (find?_cons_of_mem hnodup hmem rest).trans hnode, hleaf⟩
  | _ =>
    rw [List.mem_singleton.1 h]
    exact ⟨_, rfl, rfl⟩

/-- A watch path is written for a node that is no object node, from the keys that lead there. -/
theorem exists_of_mem_watchPaths {s : Schema} (hkeys : s.DistinctKeys) {w : String}
    (h : w ∈ s.watchPaths) : ∃ keys node, w = Dotted.join keys ∧ s.find? keys = some node ∧
      node.isObject = false := by
  cases s with
  | object fields =>
    obtain ⟨keys, hmem, rfl⟩ := List.mem_map.1 h
    obtain ⟨node, hnode, hleaf⟩ := exists_of_mem_watchSegments (s := .object fields) hkeys hmem
    exact ⟨keys, node, rfl, hnode, hleaf⟩
  | _ => cases h

end Schema

end GuardedData
