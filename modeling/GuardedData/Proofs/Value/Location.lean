import GuardedData.Path.DataPath
import GuardedData.Value.Text
import Mathlib.Tactic.Common

/-!
# Places inside a value

The steps of a data path lead from a value through objects and arrays to a value inside it. What is
there is shown by its compact text, and no text is that of an absent value
(`Value.text_ne_undefined`).
-/

namespace GuardedData

namespace Value

/-! ### Inside a value -/


/-- Induction on a value through its elements and entries. -/
@[elab_as_elim]
theorem induct {motive : Value → Prop} (null : motive .null) (bool : ∀ b, motive (.bool b))
    (number : ∀ n, motive (.number n)) (string : ∀ s, motive (.string s))
    (array : ∀ items, (∀ item ∈ items, motive item) → motive (.array items))
    (object : ∀ entries, (∀ entry ∈ entries, motive entry.2) → motive (.object entries))
    (v : Value) : motive v := by
  match v with
  | .null => exact null
  | .bool b => exact bool b
  | .number n => exact number n
  | .string s => exact string s
  | .array items => exact array items fun item _ => induct null bool number string array object item
  | .object entries =>
    exact object entries fun entry _ => induct null bool number string array object entry.2
termination_by sizeOf v
decreasing_by
  · have hmem := List.sizeOf_lt_of_mem ‹_›
    rw [Value.array.sizeOf_spec]
    omega
  · have hmem := List.sizeOf_lt_of_mem ‹_›
    have hentry : sizeOf entry = 1 + sizeOf entry.1 + sizeOf entry.2 := rfl
    rw [Value.object.sizeOf_spec]
    omega

def step? : Segment → Value → Option Value
  | .key name, .object entries => Entries.get? name entries
  | .index i, .array items => items[i]?
  | _, _ => none

def along? : List Segment → Value → Option Value
  | [], v => some v
  | segment :: rest, v => (v.step? segment).bind (along? rest)

@[simp] lemma along?_nil (v : Value) : v.along? [] = some v := rfl

lemma along?_append (p q : List Segment) (v : Value) :
    v.along? (p ++ q) = (v.along? p).bind (along? q) := by
  induction p generalizing v with
  | nil => rfl
  | cons segment rest ih =>
    rw [List.cons_append, along?, along?]
    cases v.step? segment with
    | none => rfl
    | some child => exact ih child

/-- One step further than some steps. -/
lemma along?_concat {v w : Value} {steps : List Segment} (h : v.along? steps = some w)
    (segment : Segment) : v.along? (steps ++ [segment]) = w.step? segment := by
  rw [along?_append, h, Option.bind_some, along?]
  cases w.step? segment <;> rfl

end Value

/-! ### The text of what is there -/

lemma Decimal.point_mem_plain (d : Decimal) : '.' ∈ d.plain := by
  rw [plain]
  split <;> simp

lemma Decimal.sign_mem_scientific (d : Decimal) : '-' ∈ d.scientific ∨ '+' ∈ d.scientific := by
  by_cases h : d.exponent < 0
  · left
    simp [scientific, h]
  · right
    simp [scientific, h]

/-- The text of a double has a point or a sign in it, whatever its digits are. -/
lemma Double.mark_mem_text (d : Double) : ∃ c ∈ ['.', '-', '+'], c ∈ d.text.toList := by
  have hmagnitude {magnitude : List Char} (h : ∃ c ∈ ['.', '-', '+'], c ∈ magnitude) :
      ∃ c ∈ ['.', '-', '+'], c ∈ if d.negative then '-' :: magnitude else magnitude := by
    obtain ⟨c, hc, hmem⟩ := h
    refine ⟨c, hc, ?_⟩
    split
    · exact List.mem_cons_of_mem _ hmem
    · exact hmem
  rw [text, String.toList_ofList]
  refine hmagnitude ?_
  split_ifs
  · exact ⟨'.', by decide, by decide⟩
  · exact ⟨'.', by decide, d.shortest.point_mem_plain⟩
  · rcases d.shortest.sign_mem_scientific with h | h
    · exact ⟨'-', by decide, h⟩
    · exact ⟨'+', by decide, h⟩

lemma Number.text_ne_undefined (n : Number) : n.text ≠ "undefined" := by
  intro h
  cases n with
  | integer i hi =>
    cases i with
    | ofNat m =>
      have hu : 'u' ∈ (Nat.repr m).toList := by
        rw [show Nat.repr m = "undefined" from h]
        decide
      rw [Nat.toList_repr] at hu
      exact absurd (Nat.isDigit_of_mem_toDigits (by decide) (by decide) hu) (by decide)
    | negSucc m =>
      have hsign : '-' ∈ ("-" ++ Nat.repr (m + 1)).toList := by simp
      rw [show "-" ++ Nat.repr (m + 1) = "undefined" from h] at hsign
      exact absurd hsign (by decide)
  | double d =>
    obtain ⟨c, hc, hmem⟩ := d.mark_mem_text
    rw [show d.text = "undefined" from h] at hmem
    simp only [List.mem_cons, List.not_mem_nil, or_false] at hc
    rcases hc with rfl | rfl | rfl <;> exact absurd hmem (by decide)

/-- What is there is never shown as what is absent. -/
theorem Value.text_ne_undefined (v : Value) : v.text ≠ "undefined" := by
  have hlist {a b : String} (h : a.toList ≠ b.toList) : a ≠ b := by
    rintro rfl
    exact h rfl
  cases v with
  | null => decide
  | bool b => cases b <;> decide
  | number n => exact n.text_ne_undefined
  | string s => exact hlist (by simp [text, quoted])
  | array items => exact hlist (by simp [text])
  | object entries => exact hlist (by simp [text])

end GuardedData
