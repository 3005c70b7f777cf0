import GuardedData.Proofs.Value.Equality
import GuardedData.Schema.Predicates
import Mathlib.Tactic.Common

/-!
# What a schema accepts

Validation goes well at a node exactly if it goes well at the parts of the value that the node
looks at. A schema is extensional if it accepts equal values alike wherever they are; a predicate
that looks at the place of its value, or tells equal values apart, makes a schema that is not.
-/

namespace GuardedData

/-! ### One node -/

namespace Predicate

lemma require_eq_ok_iff {p : Predicate} {v : Value} {path : DataPath} :
    p.require v path = .ok () ↔ p.accepts v path = true := by
  rw [require, accepts]
  cases p.check v path with
  | error e => simp
  | ok b => cases b <;> simp

/-- Whether a predicate accepts equal values alike, wherever they are. -/
def Extensional (p : Predicate) : Prop :=
  ∀ v w path path', v.equal w = true → p.accepts v path = p.accepts w path'

end Predicate

lemma checkItems_eq_ok_iff {check : Value → DataPath → Except ValidationError Unit}
    {path : DataPath} {i : Nat} {items : List Value} : checkItems check path i items = .ok () ↔
      ∀ j v, items[j]? = some v → check v (path.index (i + j)) = .ok () := by
  induction items generalizing i with
  | nil => simp [checkItems]
  | cons v rest ih =>
    rw [checkItems]
    have hrest : (∀ j w, (v :: rest)[j]? = some w → check w (path.index (i + j)) = .ok ()) ↔
        check v (path.index i) = .ok () ∧
          ∀ j w, rest[j]? = some w → check w (path.index (i + 1 + j)) = .ok () := by
      constructor
      · intro h
        refine ⟨h 0 v rfl, fun j w hw => ?_⟩
        rw [Nat.add_assoc, Nat.add_comm 1 j]
        exact h (j + 1) w hw
      · rintro ⟨hv, h⟩ (_ | j) w hw
        · cases hw
          exact hv
        · rw [Nat.add_comm j 1, ← Nat.add_assoc]
          exact h j w hw
    rw [hrest]
    cases check v (path.index i) with
    | error e => simp
    | ok u => simp [ih]

/-- Checks that go alike element by element go alike over two arrays of one length. -/
lemma checkItems_congr {check check' : Value → DataPath → Except ValidationError Unit}
    {path : DataPath} {i : Nat} {a b : List Value} (hlength : a.length = b.length)
    (h : ∀ j v w, a[j]? = some v → b[j]? = some w →
      check v (path.index (i + j)) = check' w (path.index (i + j))) :
    checkItems check path i a = checkItems check' path i b := by
  induction a generalizing i b with
  | nil =>
    rw [List.length_nil, eq_comm, List.length_eq_zero_iff] at hlength
    rw [hlength, checkItems, checkItems]
  | cons v rest ih =>
    cases b with
    | nil => cases hlength
    | cons w others =>
      have hfirst : check v (path.index i) = check' w (path.index i) := h 0 v w rfl rfl
      have hrest : checkItems check path (i + 1) rest = checkItems check' path (i + 1) others := by
        refine ih (Nat.succ.inj hlength) fun j v w hv hw => ?_
        rw [Nat.add_assoc, Nat.add_comm 1 j]
        exact h (j + 1) v w hv hw
      rw [checkItems, checkItems, hfirst, hrest]

/-- A value that is no object fails an object node, and so does an absent one. -/
lemma checkFields_eq_ok_iff {fields : List (String × Schema)} {entries : List (String × Value)}
    {path : DataPath} : checkFields fields entries path = .ok () ↔
      ∀ field ∈ fields, ∃ v, Entries.get? field.1 entries = some v ∧
        field.2.check v (path.key field.1) = .ok () := by
  induction fields with
  | nil => simp [checkFields]
  | cons field rest ih =>
    obtain ⟨key, s⟩ := field
    rw [checkFields, List.forall_mem_cons, ← ih]
    cases hfound : Entries.get? key entries with
    | none => cases s <;> simp [Schema.isObject, Value.isObject]
    | some v =>
      have hobject : (s.isObject && !Value.isObject (some v)) = true →
          s.check v (path.key key) ≠ .ok () := by
        cases s <;> cases v <;> simp [Schema.isObject, Value.isObject, Schema.check]
      cases hcheck : s.check v (path.key key) with
      | error e => split <;> simp [hcheck]
      | ok u =>
        rw [if_neg fun h => hobject h hcheck]
        simp [hcheck]

namespace Schema

/-- Induction on a schema through the fields of its object nodes. -/
@[elab_as_elim]
theorem induct {motive : Schema → Prop} (leaf : ∀ p, motive (.leaf p))
    (object : ∀ fields, (∀ field ∈ fields, motive field.2) → motive (.object fields))
    (anyArray : motive (.array none))
    (arrayOf : ∀ element, motive element → motive (.array (some element))) (s : Schema) :
    motive s := by
  match s with
  | .leaf p => exact leaf p
  | .object fields => exact object fields fun field _ => induct leaf object anyArray arrayOf field.2
  | .array none => exact anyArray
  | .array (some element) => exact arrayOf element (induct leaf object anyArray arrayOf element)
termination_by sizeOf s
decreasing_by
  · have hmem := List.sizeOf_lt_of_mem ‹_›
    have hfield : sizeOf field = 1 + sizeOf field.1 + sizeOf field.2 := rfl
    rw [Schema.object.sizeOf_spec]
    omega
  · rw [Schema.array.sizeOf_spec, Option.some.sizeOf_spec]
    omega

/-! ### Equal values -/

/-- Whether a schema accepts equal values alike, wherever they are. -/
def Extensional (s : Schema) : Prop :=
  ∀ v w path path', v.equal w = true → (s.check v path = .ok () ↔ s.check w path' = .ok ())

lemma extensional_leaf {p : Predicate} (h : p.Extensional) : Extensional (.leaf p) := by
  intro v w path path' he
  rw [check, check, Predicate.require_eq_ok_iff, Predicate.require_eq_ok_iff, h v w path path' he]

/-- Equal values are objects alike, and their entries are equal. -/
lemma extensional_object {fields : List (String × Schema)}
    (h : ∀ field ∈ fields, Extensional field.2) : Extensional (.object fields) := by
  intro v w path path' he
  cases v with
  | object a =>
    cases w with
    | object b =>
      rw [check, check, checkFields_eq_ok_iff, checkFields_eq_ok_iff]
      refine forall₂_congr fun field hmem => ?_
      have hentry := Value.equal_object_iff.1 he field.1
      cases ha : Entries.get? field.1 a with
      | none =>
        cases hb : Entries.get? field.1 b with
        | none => simp
        | some y => simp [ha, hb, Value.equalOption] at hentry
      | some x =>
        cases hb : Entries.get? field.1 b with
        | none => simp [ha, hb, Value.equalOption] at hentry
        | some y =>
          rw [ha, hb, Value.equalOption] at hentry
          simpa using h field hmem x y (path.key field.1) (path'.key field.1) hentry
    | _ => simp [Value.equal] at he
  | _ => cases w <;> simp_all [Value.equal, check]

lemma extensional_anyArray : Extensional (.array none) := by
  intro v w path path' he
  cases v <;> cases w <;> simp_all [Value.equal, check]

lemma extensional_arrayOf {element : Schema} (h : Extensional element) :
    Extensional (.array (some element)) := by
  intro v w path path' he
  cases v with
  | array a =>
    cases w with
    | array b =>
      rw [check, check, checkItems_eq_ok_iff, checkItems_eq_ok_iff]
      refine forall_congr' fun i => ?_
      have hitem := Value.equal_array_iff.1 he i
      cases hx : a[i]? with
      | none => cases hy : b[i]? <;> simp_all [Value.equalOption]
      | some x =>
        cases hy : b[i]? with
        | none => simp [hx, hy, Value.equalOption] at hitem
        | some y =>
          rw [hx, hy, Value.equalOption] at hitem
          simpa using h x y (path.index (0 + i)) (path'.index (0 + i)) hitem
    | _ => simp [Value.equal] at he
  | _ => cases w <;> simp_all [Value.equal, check]

/-- A check goes as well for an equal value, present or absent. -/
lemma Extensional.deepCheck_congr {s : Schema} (h : s.Extensional) {v w : Option Value}
    (he : Value.equalOption v w = true) (path path' : DataPath) :
    deepCheck v (some s) path = .ok () ↔ deepCheck w (some s) path' = .ok () := by
  cases v with
  | none => cases w <;> simp_all [Value.equalOption, deepCheck]
  | some v =>
    cases w with
    | none => simp [Value.equalOption] at he
    | some w => exact h v w path path' he

end Schema

end GuardedData
