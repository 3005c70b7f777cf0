import GuardedData.Proofs.Schema.Diagnostics

/-!
# Checks in another place

A check is told where its value is, and hands that on to the predicates at the leaves. A schema is
movable if that has no other use than to tell of errors: a check somewhere below a path then comes
to what it comes to without the path, and its error is told of a place below the path. What is built
from movable predicates is movable (`Schema.Built.movable`).
-/

namespace GuardedData

/-! ### Places below a path -/

namespace DataPath

/-- A path taken from where another one leads. -/
def under (path base : DataPath) : DataPath := ⟨base.label, base.segments ++ path.segments⟩

@[simp] lemma root_under (label : String) (base : DataPath) : (root label).under base = base := by
  simp [under, root]

@[simp] lemma key_under (path base : DataPath) (name : String) :
    (path.key name).under base = (path.under base).key name := by
  simp [under, key, step]

@[simp] lemma index_under (path base : DataPath) (i : Nat) :
    (path.index i).under base = (path.under base).index i := by
  simp [under, index, step]

end DataPath

/-- An error that is told of a place below a path. -/
def ValidationError.under (base : DataPath) : ValidationError → ValidationError
  | .invalidSchema path => .invalidSchema (path.under base)
  | .undefinedProperty path => .undefinedProperty (path.under base)
  | .expectedArray path got => .expectedArray (path.under base) got
  | .expectedObject path got => .expectedObject (path.under base) got
  | .checkFailed path got => .checkFailed (path.under base) got
  | .missingArgument name => .missingArgument name

namespace Schema

/-! ### Movable schemas -/

/-- Whether a schema checks a value in the same way wherever it is, but for the place that it tells
an error of. -/
def Movable (s : Schema) : Prop :=
  ∀ v path base, s.check v (path.under base) = (s.check v path).mapError (·.under base)

/-- A predicate that answers for a value without a look at its place makes a movable leaf. -/
lemma movable_of_answers {p : Predicate} (h : ∀ v, ∃ b, ∀ path, p.check v path = .ok b) :
    Movable (.leaf p) := by
  intro v path base
  obtain ⟨b, hb⟩ := h v
  rw [check, check, Predicate.require, Predicate.require, hb, hb]
  cases b <;> rfl

/-- The leaf of a movable predicate accepts the same values everywhere. -/
lemma Movable.accepts_eq {p : Predicate} (h : Movable (.leaf p)) (v : Value)
    (path path' : DataPath) : p.accepts v path = p.accepts v path' := by
  have hroot (path : DataPath) :
      p.accepts v path = true ↔ p.accepts v (.root p.name) = true := by
    have hcheck := h v (.root p.name) path
    rw [DataPath.root_under, check, check] at hcheck
    rw [← Predicate.require_eq_ok_iff, ← Predicate.require_eq_ok_iff, hcheck]
    cases p.require v (.root p.name) <;> simp [Except.mapError]
  rw [Bool.eq_iff_iff, hroot path, hroot path']

lemma movable_anyOf {members : List Predicate} (h : ∀ p ∈ members, Movable (.leaf p)) :
    Movable (.leaf (.anyOf members)) := by
  refine movable_of_answers fun v => ⟨members.any (·.accepts v (.root "")), fun path => ?_⟩
  have hmembers : members.any (·.accepts v path) = members.any (·.accepts v (.root "")) := by
    rw [Bool.eq_iff_iff, List.any_eq_true, List.any_eq_true]
    refine exists_congr fun p => and_congr_right fun hp => ?_
    rw [(h p hp).accepts_eq v path (.root "")]
  rw [← hmembers]
  rfl

lemma movable_orNull {s : Schema} (h : s.Movable) : Movable (.leaf (.orNull s)) := by
  intro v path base
  by_cases hv : v = .null
  · subst hv
    cases s <;> rfl
  · rw [check_orNull_of_ne_null hv, check_orNull_of_ne_null hv]
    exact h v path base

lemma checkFields_under {fields : List (String × Schema)}
    (h : ∀ field ∈ fields, field.2.Movable) (entries : List (String × Value))
    (path base : DataPath) : checkFields fields entries (path.under base) =
      (checkFields fields entries path).mapError (·.under base) := by
  induction fields with
  | nil => rfl
  | cons field rest ih =>
    obtain ⟨key, s⟩ := field
    obtain ⟨hs, hrest⟩ := List.forall_mem_cons.1 h
    cases hget : Entries.get? key entries with
    | none =>
      rw [checkFields_cons_of_absent hget, checkFields_cons_of_absent hget, ← DataPath.key_under]
      cases s.isObject <;> rfl
    | some u =>
      rw [checkFields_cons_of_present hget, checkFields_cons_of_present hget, ← DataPath.key_under,
        hs, ih hrest]
      cases s.check u (path.key key) <;> rfl

lemma movable_object {fields : List (String × Schema)} (h : ∀ field ∈ fields, field.2.Movable) :
    Movable (.object fields) := by
  intro v path base
  cases v with
  | object entries =>
    rw [check, check]
    exact checkFields_under h entries path base
  | _ => rfl

lemma movable_anyArray : Movable (.array none) := by
  intro v path base
  cases v <;> rfl

lemma checkItems_under {s : Schema} (h : s.Movable) (path base : DataPath) (i : Nat)
    (items : List Value) : checkItems s.check (path.under base) i items =
      (checkItems s.check path i items).mapError (·.under base) := by
  induction items generalizing i with
  | nil => rfl
  | cons item rest ih =>
    rw [checkItems, checkItems, ← DataPath.index_under, h, ih]
    cases s.check item (path.index i) <;> rfl

lemma movable_arrayOf {element : Schema} (h : element.Movable) :
    Movable (.array (some element)) := by
  intro v path base
  cases v with
  | array items =>
    rw [check, check]
    exact checkItems_under h path base 0 items
  | _ => rfl

/-- What is built from movable predicates is movable. -/
theorem Built.movable {r : Registry} {s : Schema} (h : Built r s)
    (hr : ∀ name p, r.lookup name = some p → Movable (.leaf p)) : s.Movable := by
  induction h with
  | named hname => exact hr _ _ hname
  | oneOf hliterals => exact movable_of_answers fun v => ⟨_, fun _ => rfl⟩
  | anyOf hmembers ih => exact movable_anyOf ih
  | orNull hs ih => exact movable_orNull ih
  | handleOf model => exact movable_of_answers fun v => ⟨_, fun _ => rfl⟩
  | object hkeys hfree hfields ih => exact movable_object ih
  | anyArray => exact movable_anyArray
  | arrayOf helement ih => exact movable_arrayOf ih

/-- The predicates that are there from the start look at nothing but the value. -/
lemma movable_of_lookup_builtins (name : String) (p : Predicate)
    (h : Registry.builtins.lookup name = some p) : Movable (.leaf p) := by
  simp only [Registry.lookup, Registry.builtins, Entries.get?_cons, Entries.get?_nil] at h
  split_ifs at h <;> cases h <;> exact movable_of_answers fun v => ⟨_, fun _ => rfl⟩

/-- A check of a value that may be absent moves with its path. -/
lemma Movable.deepCheck_under {s : Schema} (h : s.Movable) (v : Option Value)
    (path base : DataPath) : deepCheck v (some s) (path.under base) =
      (deepCheck v (some s) path).mapError (·.under base) := by
  cases v with
  | none => rfl
  | some v => exact h v path base

end Schema

end GuardedData
