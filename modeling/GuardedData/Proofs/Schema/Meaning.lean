import GuardedData.Proofs.Schema.Built

/-!
# What a descriptor means

A descriptor describes a set of values, by recursion on the descriptor and without any talk of
schemas, predicates or paths. The schema that is parsed from a descriptor accepts just these values
(`Schema.validate_eq_ok_iff_describes`). That a nullable wrapper is a predicate that walks a whole
tree, and that a union swallows the errors of its members, makes no difference to that.
-/

namespace GuardedData.Schema

/-! ### The values that a descriptor describes -/

/-- Whether a value is one of some literals. Numbers compare with each other as doubles. -/
def IsLiteral (literals : List Value) (v : Value) : Prop :=
  v.isContainer = false ∧ ∃ literal ∈ literals, literal = v ∨
    ∃ a b, literal = .number a ∧ v = .number b ∧ a.toDouble.equal b.toDouble = true

mutual

/-- Whether a descriptor describes a value. -/
def Describes : Value → Value → Prop
  | .string "boolean", v => ∃ b, v = .bool b
  | .string "number", v => ∃ n, v = .number n
  | .string "string", v => ∃ s, v = .string s
  | .object [("$enum", .array literals)], v => IsLiteral literals v
  | .object [("$union", .array members)], v => DescribesAny members v
  | .object [("$maybeNull", inner)], v => v = .null ∨ Describes inner v
  | .object [("$model", .string model)], v =>
    ∃ entries, v = .object entries ∧ Entries.get? handleKey entries = some (.string model)
  | .object fields, v => ∃ entries, v = .object entries ∧ DescribesFields [] fields entries
  | .array [], v => ∃ items, v = .array items
  | .array [element], v => ∃ items, v = .array items ∧ ∀ item ∈ items, Describes element item
  | _, _ => False
termination_by structural d => d

def DescribesAny : List Value → Value → Prop
  | [], _ => False
  | d :: rest, v => Describes d v ∨ DescribesAny rest v
termination_by structural members => members

/-- Whether an object has all keys of a descriptor, those seen before apart, each with a value that
is described there. -/
def DescribesFields (seen : List String) :
    List (String × Value) → List (String × Value) → Prop
  | [], _ => True
  | (key, d) :: rest, entries =>
    (key ∉ seen → ∃ v, Entries.get? key entries = some v ∧ Describes d v) ∧
      DescribesFields (key :: seen) rest entries
termination_by structural fields => fields

end

lemma describesAny_iff {members : List Value} {v : Value} :
    DescribesAny members v ↔ ∃ d ∈ members, Describes d v := by
  induction members with
  | nil => simp [DescribesAny]
  | cons d rest ih => simp [DescribesAny, ih]

lemma describesFields_iff {seen : List String} {fields entries : List (String × Value)} :
    DescribesFields seen fields entries ↔ ∀ key d, key ∉ seen → Entries.get? key fields = some d →
      ∃ v, Entries.get? key entries = some v ∧ Describes d v := by
  induction fields generalizing seen with
  | nil => simp [DescribesFields]
  | cons field rest ih =>
    obtain ⟨k, c⟩ := field
    rw [DescribesFields, ih]
    constructor
    · rintro ⟨hfirst, hrest⟩ key d hseen hget
      rw [Entries.get?_cons] at hget
      split at hget
      · rename_i hk
        subst hk
        cases hget
        exact hfirst hseen
      · rename_i hk
        exact hrest key d (by simp [hseen, Ne.symm hk]) hget
    · intro h
      refine ⟨fun hk => h k c hk (by simp [Entries.get?_cons]), fun key d hseen hget => ?_⟩
      simp only [List.mem_cons, not_or] at hseen
      exact h key d hseen.2 (by rw [Entries.get?_cons, if_neg (Ne.symm hseen.1), hget])

/-- The four reserved keys apart, an object describes the objects that have each key of it with a
value that is described there, whatever other keys they have. -/
lemma describes_object_iff {fields : List (String × Value)} {v : Value}
    (h : ∀ key ∈ Entries.keys fields, isReserved key = false) :
    Describes (.object fields) v ↔
      ∃ entries, v = .object entries ∧ DescribesFields [] fields entries := by
  rw [Describes]
  all_goals
    intro _ he
    subst he
    simp [Entries.keys, isReserved] at h

/-! ### The forms of a descriptor -/

lemma check_builtin_iff {name : String} {p : Predicate} (h : Registry.builtins.lookup name = some p)
    {v : Value} {path : DataPath} :
    check (.leaf p) v path = .ok () ↔ Describes (.string name) v := by
  rw [check, Predicate.require_eq_ok_iff]
  simp only [Registry.lookup, Registry.builtins, Entries.get?_cons, Entries.get?_nil] at h
  split_ifs at h with hboolean hnumber hstring <;> cases h
  · subst hboolean
    cases v <;> simp [Describes, Predicate.accepts, Predicate.boolean, Predicate.ofTest]
  · subst hnumber
    cases v <;> simp [Describes, Predicate.accepts, Predicate.number, Predicate.ofTest]
  · subst hstring
    cases v <;> simp [Describes, Predicate.accepts, Predicate.string, Predicate.ofTest]

/-- Of values that are no containers, only numbers can match a literal that is another value. -/
lemma matchesLiteral_iff {literal v : Value} (h : v.isContainer = false) :
    Predicate.matchesLiteral literal v = true ↔ literal = v ∨
      ∃ a b, literal = .number a ∧ v = .number b ∧ a.toDouble.equal b.toDouble = true := by
  cases literal <;> cases v <;>
    simp_all [Predicate.matchesLiteral, Value.equal, Value.isContainer]
  case number.number a b =>
    rintro rfl
    exact Double.equal_self _

lemma check_oneOf_iff {literals : List Value} {v : Value} {path : DataPath} :
    check (.leaf (.oneOf literals)) v path = .ok () ↔ IsLiteral literals v := by
  rw [check, Predicate.require_eq_ok_iff]
  show (!v.isContainer && literals.any (Predicate.matchesLiteral · v)) = true ↔ _
  rw [Bool.and_eq_true, Bool.not_eq_true', List.any_eq_true, IsLiteral]
  refine and_congr_right fun hv => exists_congr fun literal => and_congr_right fun _ => ?_
  exact matchesLiteral_iff hv

lemma check_anyOf_iff {members : List Predicate} {v : Value} {path : DataPath} :
    check (.leaf (.anyOf members)) v path = .ok () ↔
      ∃ p ∈ members, check (.leaf p) v path = .ok () := by
  simp only [check, Predicate.require_eq_ok_iff]
  exact List.any_eq_true

lemma check_orNull_iff {s : Schema} {v : Value} {path : DataPath} :
    check (.leaf (.orNull s)) v path = .ok () ↔ v = .null ∨ s.check v path = .ok () := by
  rw [check, Predicate.require_eq_ok_iff, Predicate.accepts_orNull]

lemma check_handleOf_iff {model : String} {v : Value} {path : DataPath} :
    check (.leaf (.handleOf model)) v path = .ok () ↔
      ∃ entries, v = .object entries ∧ Entries.get? handleKey entries = some (.string model) := by
  rw [check, Predicate.require_eq_ok_iff]
  show (v.handleName? == some model) = true ↔ _
  rw [beq_iff_eq]
  cases v with
  | object entries =>
    simp only [Value.handleName?, Value.field?, Option.bind_eq_some_iff, Value.object.injEq,
      exists_eq_left']
    constructor
    · rintro ⟨w, hw, hstring⟩
      cases w <;> cases hstring
      exact hw
    · exact fun h => ⟨_, h, rfl⟩
  | _ => simp [Value.handleName?, Value.field?]

lemma check_arrayOf_iff {element : Schema} {v : Value} {path : DataPath} :
    check (.array (some element)) v path = .ok () ↔ ∃ items, v = .array items ∧
      ∀ i item, items[i]? = some item → element.check item (path.index i) = .ok () := by
  cases v with
  | array items => simp [check, checkItems_eq_ok_iff]
  | _ => simp [check]

lemma check_object_iff {fields : List (String × Schema)} {v : Value} {path : DataPath} :
    check (.object fields) v path = .ok () ↔ ∃ entries, v = .object entries ∧
      ∀ field ∈ fields, ∃ child, Entries.get? field.1 entries = some child ∧
        field.2.check child (path.key field.1) = .ok () := by
  cases v with
  | object entries => simp [check, checkFields_eq_ok_iff]
  | _ => simp [check]

/-! ### The schema of a descriptor -/

/-- What a descriptor is parsed as accepts what it describes, wherever it is. -/
theorem Parses.check_iff_describes {d : Value} {s : Schema} (h : Parses .builtins d s) {v : Value}
    {path : DataPath} : s.check v path = .ok () ↔ Describes d v := by
  induction h generalizing v path with
  | named h => exact check_builtin_iff h
  | anyArray => cases v <;> simp [check, Describes]
  | arrayOf h ih =>
    rw [check_arrayOf_iff, Describes]
    refine exists_congr fun items => and_congr_right fun _ => ?_
    simp only [ih, List.mem_iff_getElem?]
    constructor
    · rintro h item ⟨i, hi⟩
      exact h i item hi
    · exact fun h i item hi => h item ⟨i, hi⟩
  | oneOf h => rw [check_oneOf_iff, Describes]
  | anyOf hlength h ih =>
    rw [check_anyOf_iff, Describes, describesAny_iff]
    constructor
    · rintro ⟨p, hp, hcheck⟩
      obtain ⟨d, hmem⟩ := List.exists_mem_zip_right hlength hp
      exact ⟨d, (List.of_mem_zip hmem).1, (ih d p hmem).1 hcheck⟩
    · rintro ⟨d, hd, hdescribes⟩
      obtain ⟨p, hmem⟩ := List.exists_mem_zip_left hlength hd
      exact ⟨p, (List.of_mem_zip hmem).2, (ih d p hmem).2 hdescribes⟩
  | orNull hnull h ih => rw [check_orNull_iff, Describes, ih]
  | handleOf model => rw [check_handleOf_iff, Describes]
  | @object fields schemas hfree hkeys h ih =>
    have hnodup : (Entries.keys schemas).Nodup := hkeys ▸ Entries.nodup_keys_firsts fields
    rw [check_object_iff, describes_object_iff hfree]
    refine exists_congr fun entries => and_congr_right fun _ => ?_
    rw [describesFields_iff]
    constructor
    · intro hcheck key d _ hd
      obtain ⟨s, hs⟩ := (Entries.exists_get?_iff hkeys key).2 ⟨d, hd⟩
      obtain ⟨child, hchild, hok⟩ := hcheck (key, s) (Entries.mem_of_get? hs)
      exact ⟨child, hchild, (ih key d s hd hs).1 hok⟩
    · rintro hdescribes ⟨key, s⟩ hmem
      have hs := Entries.get?_of_mem hnodup hmem
      obtain ⟨d, hd⟩ := (Entries.exists_get?_iff hkeys key).1 ⟨s, hs⟩
      obtain ⟨child, hchild, hok⟩ := hdescribes key d List.not_mem_nil hd
      exact ⟨child, hchild, (ih key d s hd hs).2 hok⟩

/-- **A descriptor means what it says**: data of any label conforms to the schema that is parsed
from a descriptor exactly if the descriptor describes it. -/
theorem validate_eq_ok_iff_describes {d : Value} {s : Schema} (h : parse .builtins d = .ok s)
    (v : Value) (label : String) : validate v s label = .ok () ↔ Describes d v :=
  (parseNode_eq_ok_iff.1 h).check_iff_describes

/-- A union passes over the error that its nullable member raises for a number, and a double
matches the integer of the other member. -/
theorem validate_eq_ok_iff_describes_union :
    let nullable : Value := .object [("$maybeNull", .object [("id", .string "number")])]
    let one : Value := .object [("$enum", .array [.number (.ofNat 1 (by decide))])]
    let d : Value := .object [("owner", .object [("$union", .array [nullable, one])])]
    let data (owner : Value) : Value := .object [("owner", owner)]
    ∃ s, parse .builtins d = .ok s ∧
      validate (data (.number (.double (Double.ofInt 1)))) s "post" = .ok () ∧
      validate (data (.object [("id", .null)])) s "post" ≠ .ok () := by
  intro nullable one d data
  have hparse : ∃ s, parse .builtins d = .ok s := ⟨_, rfl⟩
  obtain ⟨s, hs⟩ := hparse
  refine ⟨s, hs, (validate_eq_ok_iff_describes hs _ _).2 ?_,
    fun h => ?_⟩
  · simp [d, data, nullable, one, Describes, DescribesAny, DescribesFields, IsLiteral,
      Entries.get?_cons, Value.isContainer, Number.ofNat, Number.toDouble, Double.equal_self]
  · have hdescribes := (validate_eq_ok_iff_describes hs _ _).1 h
    simp [d, data, nullable, one, Describes, DescribesAny, DescribesFields, IsLiteral,
      Entries.get?_cons, Value.isContainer] at hdescribes

end GuardedData.Schema
