import GuardedData.Proofs.Schema.Diagnostics

/-!
# Nullable parts of a schema

A part of a schema stands in a context: object nodes with other fields around it, and array nodes
over it. A value conforms to the whole exactly if it fits the context and, at each location that
answers to the part, conforms to the part (`Context.deepCheck_plug_eq_ok_iff`). Where nothing at
these locations is `null` or absent, the part and its nullable wrapper give the same result, error
included, and the wrapper exempts just the locations that are `null`
(`Schema.validate_plug_orNull`).
-/

namespace GuardedData

/-- A schema with a hole in the place of one of its parts, below fields and elements. -/
inductive Context
  | hole
  | field (front : List (String × Schema)) (key : String) (inner : Context)
    (back : List (String × Schema))
  | element (inner : Context)

namespace Context

/-- The schema that has a given part in the hole. -/
def plug : Context → Schema → Schema
  | .hole, part => part
  | .field front key inner back, part => .object (front ++ (key, inner.plug part) :: back)
  | .element inner, part => .array (some (inner.plug part))

/-- The locations of a value that answer to the hole, with what is there, if something is. -/
def locations : Context → Option Value → DataPath → List (Option Value × DataPath)
  | .hole, v, path => [(v, path)]
  | .field _ key inner _, some (.object entries), path =>
    inner.locations (Entries.get? key entries) (path.key key)
  | .element inner, some (.array items), path =>
    items.zipIdx.flatMap fun (item, i) => inner.locations (some item) (path.index i)
  | _, _, _ => []

/-- Whether a value has all that a context asks for beside its hole. -/
def Fits : Context → Option Value → DataPath → Prop
  | .hole, _, _ => True
  | .field front key inner back, some (.object entries), path =>
    (∀ field ∈ front ++ back,
      deepCheck (Entries.get? field.1 entries) (some field.2) (path.key field.1) = .ok ()) ∧
      inner.Fits (Entries.get? key entries) (path.key key)
  | .element inner, some (.array items), path =>
    ∀ i item, items[i]? = some item → inner.Fits (some item) (path.index i)
  | _, _, _ => False

/-- Whether a value conforms to a schema with a part in its hole, except that what is exempt need
not conform to the part. -/
def ConformsBut (c : Context) (part : Schema) (exempt : Option Value → Prop) (v : Value)
    (path : DataPath) : Prop :=
  c.Fits (some v) path ∧ ∀ location ∈ c.locations (some v) path,
    exempt location.1 ∨ deepCheck location.1 (some part) location.2 = .ok ()

variable {c : Context} {part : Schema} {v : Value} {path : DataPath}

lemma mem_locations_element {inner : Context} {items : List Value}
    {location : Option Value × DataPath} :
    location ∈ locations (.element inner) (some (.array items)) path ↔
      ∃ i item, items[i]? = some item ∧
        location ∈ inner.locations (some item) (path.index i) := by
  simp only [locations, List.mem_flatMap, Prod.exists, List.mem_zipIdx_iff_getElem?]
  exact exists_comm

/-! ### Conforming piece by piece -/

lemma deepCheck_object_eq_ok_iff {fields : List (String × Schema)}
    {entries : List (String × Value)} :
    deepCheck (some (.object entries)) (some (.object fields)) path = .ok () ↔ ∀ field ∈ fields,
      deepCheck (Entries.get? field.1 entries) (some field.2) (path.key field.1) = .ok () := by
  have hfield (field : String × Schema) (found : Option Value) :
      (∃ u, found = some u ∧ field.2.check u (path.key field.1) = .ok ()) ↔
        deepCheck found (some field.2) (path.key field.1) = .ok () := by
    cases found <;> simp [deepCheck]
  simp only [deepCheck, Schema.check, checkFields_eq_ok_iff, hfield]

/-- A value conforms to a schema exactly if it fits the context of a part and what answers to the
part conforms to it. -/
theorem deepCheck_plug_eq_ok_iff (c : Context) (part : Schema) (v : Option Value)
    (path : DataPath) : deepCheck v (some (c.plug part)) path = .ok () ↔
      c.Fits v path ∧ ∀ location ∈ c.locations v path,
        deepCheck location.1 (some part) location.2 = .ok () := by
  induction c generalizing v path with
  | hole => simp [plug, Fits, locations]
  | field front key inner back ih =>
    rcases v with _ | v
    · simp [Fits, deepCheck]
    cases v with
    | object entries =>
      rw [plug, deepCheck_object_eq_ok_iff, List.forall_mem_append, List.forall_mem_cons, ih, Fits,
        List.forall_mem_append, locations]
      tauto
    | _ => simp [plug, Fits, deepCheck, Schema.check]
  | element inner ih =>
    rcases v with _ | v
    · simp [Fits, deepCheck]
    cases v with
    | array items =>
      have hitems : deepCheck (some (.array items)) (some (.array (some (inner.plug part)))) path =
          .ok () ↔ ∀ i item, items[i]? = some item →
            deepCheck (some item) (some (inner.plug part)) (path.index i) = .ok () := by
        simp [deepCheck, Schema.check_arrayOf_iff]
      rw [plug, hitems]
      simp only [ih, Fits]
      constructor
      · intro h
        refine ⟨fun i item hitem => (h i item hitem).1, fun location hmem => ?_⟩
        obtain ⟨i, item, hitem, hmem⟩ := mem_locations_element.1 hmem
        exact (h i item hitem).2 location hmem
      · rintro ⟨hfits, hpart⟩ i item hitem
        exact ⟨hfits i item hitem, fun location hmem =>
          hpart location (mem_locations_element.2 ⟨i, item, hitem, hmem⟩)⟩
    | _ => simp [plug, Fits, deepCheck, Schema.check]

/-! ### Parts that are checked alike -/

/-- An object node reports the value of a field in its own name only if the field is absent. -/
lemma checkFields_append_congr {front back : List (String × Schema)} {key : String} {s t : Schema}
    {entries : List (String × Value)}
    (habsent : Entries.get? key entries = none → s.isObject = t.isObject)
    (hpresent : ∀ u, Entries.get? key entries = some u →
      s.check u (path.key key) = t.check u (path.key key)) :
    checkFields (front ++ (key, s) :: back) entries path =
      checkFields (front ++ (key, t) :: back) entries path := by
  induction front with
  | nil =>
    rw [List.nil_append, List.nil_append]
    cases hget : Entries.get? key entries with
    | none =>
      rw [Schema.checkFields_cons_of_absent hget, Schema.checkFields_cons_of_absent hget,
        habsent hget]
    | some u =>
      rw [Schema.checkFields_cons_of_present hget, Schema.checkFields_cons_of_present hget,
        hpresent u hget]
  | cons field front ih =>
    obtain ⟨other, r⟩ := field
    rw [List.cons_append, List.cons_append]
    cases hget : Entries.get? other entries with
    | none =>
      rw [Schema.checkFields_cons_of_absent hget, Schema.checkFields_cons_of_absent hget]
    | some u =>
      rw [Schema.checkFields_cons_of_present hget, Schema.checkFields_cons_of_present hget, ih]

/-- Two parts that check alike what is at the locations of a hole, none of them absent, make two
schemas that check alike the whole. -/
theorem check_plug_congr {s t : Schema} (c : Context) {v : Value} {path : DataPath}
    (h : ∀ location ∈ c.locations (some v) path, ∃ u, location.1 = some u ∧
      s.check u location.2 = t.check u location.2) :
    (c.plug s).check v path = (c.plug t).check v path := by
  induction c generalizing v path with
  | hole => simpa [plug, locations] using h
  | field front key inner back ih =>
    cases v with
    | object entries =>
      rw [plug, plug, Schema.check, Schema.check]
      refine checkFields_append_congr (fun habsent => ?_) fun u hget => ?_
      · cases inner with
        | hole => simp [locations, habsent] at h
        | _ => rfl
      · rw [locations, hget] at h
        exact ih h
    | _ => rfl
  | element inner ih =>
    cases v with
    | array items =>
      rw [plug, plug, Schema.check, Schema.check]
      refine checkItems_congr rfl fun i item other hitem hother => ?_
      obtain rfl : item = other := Option.some.inj (hitem.symm.trans hother)
      rw [Nat.zero_add]
      exact ih fun location hmem =>
        h location (mem_locations_element.2 ⟨i, item, hitem, hmem⟩)
    | _ => rfl

end Context

/-- **A nullable wrapper is transparent.** Where what answers to a part of a schema is there and is
not `null`, data is checked alike with the part and with its nullable wrapper. With the wrapper data
conforms exactly if it conforms with the part, the locations that are `null` exempted. -/
theorem Schema.validate_plug_orNull (c : Context) (t : Schema) (v : Value) (label : String) :
    let at_ := DataPath.root label
    ((∀ location ∈ c.locations (some v) at_, location.1 ≠ some .null ∧ location.1 ≠ none) →
      validate v (c.plug (.leaf (.orNull t))) label = validate v (c.plug t) label) ∧
    (validate v (c.plug (.leaf (.orNull t))) label = .ok () ↔
      c.ConformsBut t (· = some .null) v at_) ∧
    (validate v (c.plug t) label = .ok () ↔ c.ConformsBut t (fun _ => False) v at_) := by
  intro at_
  have hwhole (s : Schema) : validate v s label = deepCheck (some v) (some s) at_ := rfl
  refine ⟨fun h => c.check_plug_congr fun location hmem => ?_, ?_, ?_⟩
  · obtain ⟨hnull, habsent⟩ := h location hmem
    obtain ⟨u, hu⟩ := Option.ne_none_iff_exists'.1 habsent
    refine ⟨u, hu, check_orNull_of_ne_null ?_ _⟩
    rintro rfl
    exact hnull hu
  · have hpart (found : Option Value) (path : DataPath) :
        deepCheck found (some (.leaf (.orNull t))) path = .ok () ↔
          found = some .null ∨ deepCheck found (some t) path = .ok () := by
      cases found with
      | none => simp [deepCheck]
      | some u => simpa [deepCheck] using check_orNull_iff
    simp only [hwhole, Context.deepCheck_plug_eq_ok_iff, hpart, Context.ConformsBut]
  · simp only [hwhole, Context.deepCheck_plug_eq_ok_iff, false_or, Context.ConformsBut]

/-- An address of authors that is an object node: its wrong street is told of at the same place
through the wrapper, and only with the wrapper may it be `null`. -/
theorem Schema.validate_plug_orNull_address :
    let c : Context := .field [("id", .leaf .number)] "authors"
      (.element (.field [] "address" .hole [("name", .leaf .string)])) []
    let t : Schema := .object [("street", .leaf .string)]
    let author (address : Value) : Value := .object [("name", .string "x"), ("address", address)]
    let data (addresses : List Value) : Value :=
      .object [("id", .ofInt 1), ("authors", .array (addresses.map author))]
    let home (street : Value) : Value := .object [("street", street)]
    let v := data [home (.string "a"), home (.ofInt 5)]
    let w := data [home (.string "a"), .null]
    let e : ValidationError := .checkFailed
      ⟨"shop", [.key "authors", .index 1, .key "address", .key "street"]⟩ "5"
    validate v (c.plug t) "shop" = .error e ∧
      validate v (c.plug (.leaf (.orNull t))) "shop" = .error e ∧
      validate w (c.plug t) "shop" ≠ .ok () ∧
      validate w (c.plug (.leaf (.orNull t))) "shop" = .ok () := by
  intro c t author data home v w e
  have he : validate v (c.plug t) "shop" = .error e := rfl
  have hlocations (address : Value) :
      c.locations (some (data [home (.string "a"), address])) (DataPath.root "shop") =
        [(some (home (.string "a")), ⟨"shop", [.key "authors", .index 0, .key "address"]⟩),
          (some address, ⟨"shop", [.key "authors", .index 1, .key "address"]⟩)] := rfl
  refine ⟨he, ?_, fun h => ?_, ?_⟩
  · rw [(validate_plug_orNull c t v "shop").1 ?_, he]
    simp [v, hlocations, home]
  · have hpart := ((validate_plug_orNull c t w "shop").2.2.1 h).2
    rw [hlocations] at hpart
    simp [deepCheck, t, check] at hpart
  · refine (validate_plug_orNull c t w "shop").2.1.2 ⟨?_, ?_⟩
    · refine ⟨List.forall_mem_singleton.2 rfl, fun i item hitem => ?_⟩
      have hitem : item = author (home (.string "a")) ∨ item = author .null := by
        simpa using List.mem_of_getElem? hitem
      rcases hitem with rfl | rfl <;> exact ⟨List.forall_mem_singleton.2 rfl, trivial⟩
    · rw [hlocations, List.forall_mem_cons, List.forall_mem_singleton]
      exact ⟨.inr rfl, .inl rfl⟩

end GuardedData
