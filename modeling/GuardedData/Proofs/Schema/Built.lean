import GuardedData.Proofs.Schema.Acceptance
import GuardedData.Proofs.Schema.Parsing

/-!
# Built schemas

A schema that a descriptor describes is built from registered predicates by enumerations, unions,
nullable wrappers, handles, object nodes and array nodes (`Schema.built_of_parse`), and its object
nodes have each key once. Over the predicates that are there from the start such a schema is
extensional, and so is every node of it (`Schema.Built.extensional`).
-/

namespace GuardedData

namespace Schema

/-- Whether a schema is built the way that descriptors do it. -/
inductive Built (r : Registry) : Schema → Prop
  | named {name : String} {p : Predicate} (h : r.lookup name = some p) : Built r (.leaf p)
  | oneOf {literals : List Value} (h : literals.any Value.isContainer = false) :
    Built r (.leaf (.oneOf literals))
  | anyOf {members : List Predicate} (h : ∀ p ∈ members, Built r (.leaf p)) :
    Built r (.leaf (.anyOf members))
  | orNull {s : Schema} (h : Built r s) : Built r (.leaf (.orNull s))
  | handleOf (model : String) : Built r (.leaf (.handleOf model))
  | object {fields : List (String × Schema)} (hkeys : (Entries.keys fields).Nodup)
    (hfree : ∀ key ∈ Entries.keys fields, isReserved key = false)
    (h : ∀ field ∈ fields, Built r field.2) : Built r (.object fields)
  | anyArray : Built r (.array none)
  | arrayOf {element : Schema} (h : Built r element) : Built r (.array (some element))

/-! ### Descriptors -/

/-- What a descriptor is parsed as is built. -/
lemma Parses.built {r : Registry} {d : Value} {s : Schema} (h : Parses r d s) : Built r s := by
  induction h with
  | named h => exact .named h
  | anyArray => exact .anyArray
  | arrayOf h ih => exact .arrayOf ih
  | oneOf h => exact .oneOf h
  | anyOf hlength h ih =>
    refine .anyOf fun p hp => ?_
    obtain ⟨d, hmem⟩ := List.exists_mem_zip_right hlength hp
    exact ih d p hmem
  | orNull hnull h ih => exact .orNull ih
  | handleOf model => exact .handleOf model
  | @object fields schemas hfree hkeys h ih =>
    have hnodup : (Entries.keys schemas).Nodup := hkeys ▸ Entries.nodup_keys_firsts fields
    refine .object hnodup (fun key hkey => hfree key ?_) fun (key, s) hmem => ?_
    · rwa [hkeys, Entries.mem_keys_firsts] at hkey
    · have hs := Entries.get?_of_mem hnodup hmem
      obtain ⟨d, hd⟩ := (Entries.exists_get?_iff hkeys key).1 ⟨s, hs⟩
      exact ih key d s hd hs

theorem built_of_parse {r : Registry} {descriptor : Value} {s : Schema}
    (h : parse r descriptor = .ok s) : Built r s := (parseNode_eq_ok_iff.1 h).built

/-- Every node of a built schema is built. -/
lemma Built.of_find? {r : Registry} {s node : Schema} (h : Built r s) {keys : List String}
    (hnode : s.find? keys = some node) : Built r node := by
  induction keys generalizing s with
  | nil =>
    cases hnode
    exact h
  | cons key rest ih =>
    cases h with
    | object hkeys hfree hfields =>
      obtain ⟨t, ht, hrest⟩ := Option.bind_eq_some_iff.1 hnode
      exact ih (hfields (key, t) (Entries.mem_of_get? ht)) hrest
    | _ => cases hnode

/-! ### The predicates that are there from the start -/

end Schema

lemma Number.toDouble_equal_congr {b c : Number} (h : b.equal c = true) (a : Double) :
    a.equal b.toDouble = a.equal c.toDouble := by
  cases b with
  | integer m hm =>
    cases c with
    | integer n hn =>
      have hmn : m = n := by simpa [Number.equal] using h
      subst hmn
      rfl
    | double d => simp [Number.equal] at h
  | double d =>
    cases c with
    | integer n hn => simp [Number.equal] at h
    | double e => exact Double.equal_congr h a

namespace Predicate

lemma extensional_ofTest {name : String} {test : Value → Bool}
    (h : ∀ v w : Value, v.equal w = true → test v = test w) : (ofTest name test).Extensional :=
  fun v w _ _ he => h v w he

lemma extensional_boolean : boolean.Extensional :=
  extensional_ofTest fun v w he => by cases v <;> cases w <;> simp_all [Value.equal]

lemma extensional_number : number.Extensional :=
  extensional_ofTest fun v w he => by cases v <;> cases w <;> simp_all [Value.equal]

lemma extensional_string : string.Extensional :=
  extensional_ofTest fun v w he => by cases v <;> cases w <;> simp_all [Value.equal]

/-- Equal scalars match the same literals. -/
lemma extensional_oneOf (literals : List Value) : (oneOf literals).Extensional := by
  refine extensional_ofTest fun v w he => ?_
  have hmatch (hv : v.isContainer = false) (literal : Value) :
      matchesLiteral literal v = matchesLiteral literal w := by
    cases v <;> cases w <;> simp_all [Value.equal, Value.isContainer]
    case number.number b c =>
      cases literal <;> simp [matchesLiteral, Value.equal, Number.toDouble_equal_congr he]
  have hcontainer : v.isContainer = w.isContainer := by
    cases v <;> cases w <;> simp_all [Value.equal, Value.isContainer]
  cases hv : v.isContainer with
  | true => rw [← hcontainer, hv]; simp
  | false => rw [← hcontainer, hv]; simp [hmatch hv]

lemma extensional_anyOf {members : List Predicate} (h : ∀ p ∈ members, p.Extensional) :
    (anyOf members).Extensional := by
  intro v w path path' he
  show members.any (·.accepts v path) = members.any (·.accepts w path')
  induction members with
  | nil => rfl
  | cons p rest ih =>
    obtain ⟨hp, hrest⟩ := List.forall_mem_cons.1 h
    rw [List.any_cons, List.any_cons, hp v w path path' he, ih hrest]

lemma extensional_handleOf (model : String) : (handleOf model).Extensional := by
  refine extensional_ofTest fun v w he => ?_
  have hname : v.handleName? = w.handleName? := by
    cases v with
    | object a =>
      cases w with
      | object b =>
        have hentry := Value.equal_object_iff.1 he handleKey
        simp only [Value.handleName?, Value.field?]
        cases ha : Entries.get? handleKey a with
        | none => cases hb : Entries.get? handleKey b <;> simp_all [Value.equalOption]
        | some x =>
          cases hb : Entries.get? handleKey b with
          | none => simp [ha, hb, Value.equalOption] at hentry
          | some y =>
            rw [ha, hb, Value.equalOption] at hentry
            cases x <;> cases y <;> simp_all [Value.equal, Value.asString?]
      | _ => simp [Value.equal] at he
    | _ => cases w <;> simp_all [Value.equal, Value.handleName?, Value.field?]
  rw [hname]

/-- A nullable wrapper accepts what it wraps, and `null`. -/
lemma accepts_orNull {s : Schema} {v : Value} {path : DataPath} :
    (orNull s).accepts v path = true ↔ v = .null ∨ s.check v path = .ok () := by
  cases s with
  | leaf p =>
    rw [Schema.check, require_eq_ok_iff]
    cases v <;> simp [orNull, accepts]
  | object fields =>
    cases v with
    | null => simp [orNull, accepts]
    | _ =>
      simp only [orNull, accepts, reduceCtorEq, false_or]
      cases Schema.check (.object fields) _ path <;> simp [Except.map]
  | array element =>
    cases v with
    | null => simp [orNull, accepts]
    | _ =>
      simp only [orNull, accepts, reduceCtorEq, false_or]
      cases Schema.check (.array element) _ path <;> simp [Except.map]

lemma extensional_orNull {s : Schema} (h : s.Extensional) : (orNull s).Extensional := by
  intro v w path path' he
  have hnull : v = .null ↔ w = .null := by
    cases v <;> cases w <;> simp_all [Value.equal]
  rw [Bool.eq_iff_iff, accepts_orNull, accepts_orNull, hnull, h v w path path' he]

end Predicate

namespace Schema

lemma extensional_of_leaf {p : Predicate} (h : Extensional (.leaf p)) : p.Extensional := by
  intro v w path path' he
  have hcheck := h v w path path' he
  rw [check, check, Predicate.require_eq_ok_iff, Predicate.require_eq_ok_iff] at hcheck
  rwa [Bool.eq_iff_iff]

/-- What is built from the predicates that are there from the start is extensional. -/
theorem Built.extensional {s : Schema} (h : Built .builtins s) : s.Extensional := by
  induction h with
  | named h =>
    simp only [Registry.lookup, Registry.builtins, Entries.get?_cons, Entries.get?_nil] at h
    split_ifs at h <;> cases h
    · exact extensional_leaf Predicate.extensional_boolean
    · exact extensional_leaf Predicate.extensional_number
    · exact extensional_leaf Predicate.extensional_string
  | oneOf h => exact extensional_leaf (Predicate.extensional_oneOf _)
  | anyOf h ih =>
    exact extensional_leaf (Predicate.extensional_anyOf fun p hp => extensional_of_leaf (ih p hp))
  | orNull h ih => exact extensional_leaf (Predicate.extensional_orNull ih)
  | handleOf model => exact extensional_leaf (Predicate.extensional_handleOf model)
  | object hkeys hfree h ih => exact extensional_object ih
  | anyArray => exact extensional_anyArray
  | arrayOf h ih => exact extensional_arrayOf ih

end Schema

end GuardedData
