import GuardedData.Proofs.Value.Location
import GuardedData.Store.Edit
import GuardedData.Value.Equality
import Mathlib.Data.List.Forall2

/-!
# Equality by way of look-ups

Equality of values looks at objects and arrays by way of what their keys and indices lead to
(`Value.equal_object_iff`, `Value.equal_array_iff`). So it does not matter which of two values comes
first, and equal values have equal values along every path (`Value.equalOption_find?`).
-/

namespace GuardedData

/-! ### Numbers -/

lemma Double.equal_congr {b c : Double} (h : b.equal c = true) (a : Double) :
    a.equal b = a.equal c := by
  simp only [Double.equal, Double.isZero, Bool.and_eq_true, Bool.or_eq_true, beq_iff_eq] at h ⊢
  obtain ⟨hrank, hsign | hzero⟩ := h
  · rw [hrank, hsign]
  · rw [← hrank, hzero]
    cases ha : a.rank == 0 <;> simp

lemma Double.equal_symm {a b : Double} (h : a.equal b = true) : b.equal a = true := by
  rw [Double.equal_congr h b]
  exact b.equal_self

lemma Number.equal_symm {a b : Number} (h : a.equal b = true) : b.equal a = true := by
  cases a <;> cases b <;> simp_all [equal, Double.equal_symm]

namespace Value

/-! ### Arrays -/

lemma equalItems_iff {a b : List Value} :
    equalItems a b = true ↔ List.Forall₂ (fun v w => v.equal w = true) a b := by
  induction a generalizing b with
  | nil => cases b <;> simp [equalItems]
  | cons v rest ih => cases b <;> simp [equalItems, ih]

lemma equal_array_iff {a b : List Value} :
    equal (.array a) (.array b) = true ↔ ∀ i : Nat, equalOption a[i]? b[i]? = true := by
  rw [equal]
  constructor
  · intro h i
    induction a generalizing b i with
    | nil =>
      cases b with
      | nil => rfl
      | cons y b => simp [equalItems] at h
    | cons x a ih =>
      cases b with
      | nil => simp [equalItems] at h
      | cons y b =>
        rw [equalItems, Bool.and_eq_true] at h
        cases i with
        | zero => simpa [equalOption] using h.1
        | succ i => simpa using ih h.2 i
  · intro h
    induction a generalizing b with
    | nil =>
      cases b with
      | nil => rfl
      | cons y b => simpa [equalOption] using h 0
    | cons x a ih =>
      cases b with
      | nil => simpa [equalOption] using h 0
      | cons y b =>
        have hx : x.equal y = true := h 0
        rw [equalItems, hx, Bool.true_and]
        exact ih fun i => h (i + 1)

/-! ### Order -/

lemma equalOption_symm {v w : Option Value}
    (ih : ∀ a, v = some a → ∀ b, a.equal b = true → b.equal a = true)
    (h : equalOption v w = true) : equalOption w v = true := by
  cases v with
  | none => cases w <;> simp_all [equalOption]
  | some a =>
    cases w with
    | none => cases h
    | some b => exact ih a rfl b h

theorem equal_symm {v w : Value} (h : v.equal w = true) : w.equal v = true := by
  induction v using Value.induct generalizing w with
  | null | bool b | string s => cases w <;> simp_all [equal]
  | number n =>
    cases w with
    | number m =>
      rw [equal] at h ⊢
      exact Number.equal_symm h
    | _ => simp [equal] at h
  | array items ih =>
    cases w with
    | array others =>
      rw [equal_array_iff] at h ⊢
      intro i
      exact equalOption_symm (fun a ha b => ih a (List.mem_of_getElem? ha)) (h i)
    | _ => simp [equal] at h
  | object entries ih =>
    cases w with
    | object others =>
      rw [equal_object_iff] at h ⊢
      intro key
      exact equalOption_symm (fun a ha b => ih (key, a) (Entries.mem_of_get? ha)) (h key)
    | _ => simp [equal] at h

/-! ### Paths -/

/-- A segment leads from equal values to equal values. -/
lemma equalOption_child? {v w : Value} (h : v.equal w = true) (segment : String) :
    equalOption (v.child? segment) (w.child? segment) = true := by
  cases v with
  | object entries =>
    cases w with
    | object others => exact equal_object_iff.1 h segment
    | _ => simp [equal] at h
  | array items =>
    cases w with
    | array others =>
      rw [child?, child?]
      cases Dotted.index? segment with
      | none => rfl
      | some i => exact equal_array_iff.1 h i
    | _ => simp [equal] at h
  | _ => cases w <;> simp_all [equal, child?, equalOption]

/-- A path leads from equal values to equal values. -/
theorem equalOption_find? {v w : Value} (h : v.equal w = true) (q : List String) :
    equalOption (v.find? q) (w.find? q) = true := by
  induction q generalizing v w with
  | nil => exact h
  | cons segment rest ih =>
    have hchild := equalOption_child? h segment
    rw [find?, find?]
    cases hv : v.child? segment with
    | none =>
      cases hw : w.child? segment with
      | none => rfl
      | some b => simp [hv, hw, equalOption] at hchild
    | some a =>
      cases hw : w.child? segment with
      | none => simp [hv, hw, equalOption] at hchild
      | some b =>
        rw [hv, hw] at hchild
        exact ih hchild

end Value

end GuardedData
