import GuardedData.Value.Basic

/-!
# Equality of values

Numbers are equal within a kind, arrays element by element, and objects as finite maps, whatever
the order of their entries: `equal_object_iff` says so by way of looking keys up.
-/

namespace GuardedData

theorem Double.equal_self (d : Double) : d.equal d = true := by simp [Double.equal]

theorem Number.equal_self (n : Number) : n.equal n = true := by
  cases n <;> simp [Number.equal, Double.equal_self]

namespace Value

mutual

/-- Equality of values. -/
def equal : Value → Value → Bool
  | .null, .null => true
  | .bool a, .bool b => a == b
  | .number a, .number b => a.equal b
  | .string a, .string b => a == b
  | .array a, .array b => equalItems a b
  | .object a, .object b =>
    equalEntries [] a b && b.all fun (key, _) => (Entries.get? key a).isSome
  | _, _ => false

def equalItems : List Value → List Value → Bool
  | [], [] => true
  | a :: as, b :: bs => a.equal b && equalItems as bs
  | _, _ => false

/-- Whether each key among the first entries, those seen before apart, has an equal value among
the second. -/
def equalEntries (seen : List String) : List (String × Value) → List (String × Value) → Bool
  | [], _ => true
  | (key, a) :: rest, others =>
    (seen.contains key ||
      match Entries.get? key others with
      | some b => a.equal b
      | none => false) && equalEntries (key :: seen) rest others

end

/-- Equality of values that may be absent. -/
def equalOption : Option Value → Option Value → Bool
  | none, none => true
  | some a, some b => a.equal b
  | _, _ => false

/-! ### Objects as maps -/

theorem equalEntries_iff {seen : List String} {a b : List (String × Value)} :
    equalEntries seen a b = true ↔ ∀ key v, key ∉ seen → Entries.get? key a = some v →
      ∃ w, Entries.get? key b = some w ∧ v.equal w = true := by
  induction a generalizing seen with
  | nil => simp [equalEntries]
  | cons entry rest ih =>
    obtain ⟨k, u⟩ := entry
    rw [equalEntries, Bool.and_eq_true, ih, Bool.or_eq_true, List.contains_iff_mem]
    constructor
    · rintro ⟨hhead, hrest⟩ key v hseen hget
      rw [Entries.get?_cons] at hget
      split at hget
      · rename_i hk
        subst hk
        cases hget
        have hhead := hhead.resolve_left hseen
        cases hb : Entries.get? k b with
        | none => simp [hb] at hhead
        | some w => exact ⟨w, rfl, by simpa [hb] using hhead⟩
      · rename_i hk
        refine hrest key v ?_ hget
        simp only [List.mem_cons, not_or]
        exact ⟨fun he => hk he.symm, hseen⟩
    · intro h
      constructor
      · by_cases hk : k ∈ seen
        · exact Or.inl hk
        · obtain ⟨w, hw, he⟩ := h k u hk (by simp [Entries.get?_cons])
          exact Or.inr (by simp [hw, he])
      · intro key v hseen hget
        simp only [List.mem_cons, not_or] at hseen
        refine h key v hseen.2 ?_
        rw [Entries.get?_cons, if_neg (fun he => hseen.1 he.symm), hget]

theorem equal_object_iff {a b : List (String × Value)} :
    equal (.object a) (.object b) = true ↔
      ∀ key, equalOption (Entries.get? key a) (Entries.get? key b) = true := by
  rw [equal, Bool.and_eq_true, equalEntries_iff]
  constructor
  · rintro ⟨hab, hba⟩ key
    cases ha : Entries.get? key a with
    | some v =>
      obtain ⟨w, hw, he⟩ := hab key v (by simp) ha
      simpa [hw, equalOption] using he
    | none =>
      have hb : Entries.get? key b = none := by
        rw [Entries.get?_eq_none_iff]
        intro hm
        obtain ⟨⟨k, w⟩, hmem, rfl⟩ := List.mem_map.1 hm
        have := List.all_eq_true.1 hba (k, w) hmem
        simp [ha] at this
      simp [hb, equalOption]
  · intro h
    constructor
    · intro key v _ hv
      have := h key
      rw [hv] at this
      cases hb : Entries.get? key b with
      | none => simp [hb, equalOption] at this
      | some w => exact ⟨w, rfl, by simpa [hb, equalOption] using this⟩
    · rw [List.all_eq_true]
      rintro ⟨key, w⟩ hmem
      cases ha : Entries.get? key a with
      | some v => simp [ha]
      | none =>
        have := h key
        cases hb : Entries.get? key b with
        | none =>
          rw [Entries.get?_eq_none_iff] at hb
          exact absurd (List.mem_map_of_mem (f := (·.1)) hmem) hb
        | some w => simp [ha, hb, equalOption] at this

mutual

theorem equal_self : ∀ v : Value, v.equal v = true
  | .null | .bool _ | .string _ => by simp [equal]
  | .number n => by simp [equal, Number.equal_self]
  | .array items => by rw [equal]; exact equalItems_self items
  | .object entries => by
    rw [equal_object_iff]
    intro key
    cases h : Entries.get? key entries with
    | none => rfl
    | some v => simpa [equalOption] using equal_get?_self entries key v h

theorem equalItems_self : ∀ items : List Value, equalItems items items = true
  | [] => by simp [equalItems]
  | v :: rest => by simp [equalItems, equal_self v, equalItems_self rest]

theorem equal_get?_self : ∀ (entries : List (String × Value)) (key : String) (v : Value),
    Entries.get? key entries = some v → v.equal v = true
  | [], _, _, h => by simp at h
  | (k, u) :: rest, key, v, h => by
    rw [Entries.get?_cons] at h
    split at h
    · cases h
      exact equal_self u
    · exact equal_get?_self rest key v h

end

theorem equalOption_self (v : Option Value) : equalOption v v = true := by
  cases v <;> simp [equalOption, equal_self]

end Value

end GuardedData
