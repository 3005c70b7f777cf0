import GuardedData.Proofs.Schema.Grammar
import GuardedData.Proofs.Schema.Meaning

/-!
# What a failed validation tells

A descriptor asks for something at places of a value: at the value itself, behind the keys of an
object node, at the elements of an array node, and once more at the same place where it allows
`null` and there is something else. The error of a validation is told of the first of these places
that does not conform, and it says what is there (`Schema.validate_eq_error`). Places come depth
first, in the order of keys and elements, each one behind the places below it.
-/

namespace GuardedData

/-! ### Errors -/

/-- Whether some steps lead to an object that lacks the last key. -/
def Value.Lacks (v : Value) (steps : List Segment) : Prop :=
  ∃ front key entries, steps = front ++ [.key key] ∧ v.along? front = some (.object entries) ∧
    key ∉ Entries.keys entries

/-- Whether an error of a validation is true of what some steps lead to. -/
def ValidationError.TellsOf (v : Value) (steps : List Segment) : ValidationError → Prop
  | .undefinedProperty _ => v.Lacks steps
  | .expectedObject _ got =>
    if got = "undefined" then v.Lacks steps
    else ∃ w, v.along? steps = some w ∧ got = w.text ∧ ∀ entries, w ≠ .object entries
  | .expectedArray _ got =>
    ∃ w, v.along? steps = some w ∧ got = w.text ∧ ∀ items, w ≠ .array items
  | .checkFailed _ got => ∃ w, v.along? steps = some w ∧ got = w.text
  | .invalidSchema _ | .missingArgument _ => False

namespace Schema

/-! ### Places -/

/-- A place that a descriptor asks for something at. -/
structure Place where
  steps : List Segment
  descriptor : Value

/-- Whether what is at a place of a value is described there. -/
def Place.Conforms (v : Value) (place : Place) : Prop :=
  ∃ w, v.along? place.steps = some w ∧ Describes place.descriptor w

/-- The steps from a value to what is described behind a key, if the descriptor asks for it. -/
def stepsBehind? (key : String) (w : Value) : Option (List Segment) :=
  if key = "$maybeNull" then
    match w with
    | .null => none
    | _ => some []
  else if isReserved key then none
  else
    match w with
    | .object _ => some [.key key]
    | _ => none

mutual

/-- The places below one, where a descriptor asks for something in a value. -/
def placesBelow (v : Value) (steps : List Segment) : Value → List Place
  | .array [d] =>
    match v.along? steps with
    | some (.array items) => (List.range' 0 items.length).flatMap fun i =>
      placesBelow v (steps ++ [.index i]) d ++ [⟨steps ++ [.index i], d⟩]
    | _ => []
  | .object fields =>
    match v.along? steps with
    | some w => fieldPlaces v steps w [] fields
    | none => []
  | _ => []

/-- The places where fields ask for something in a value, those of keys seen before apart. -/
def fieldPlaces (v : Value) (steps : List Segment) (w : Value) (seen : List String) :
    List (String × Value) → List Place
  | [] => []
  | (key, d) :: rest =>
    if seen.contains key then fieldPlaces v steps w seen rest
    else
      (match stepsBehind? key w with
      | some more => placesBelow v (steps ++ more) d ++ [⟨steps ++ more, d⟩]
      | none => []) ++ fieldPlaces v steps w (key :: seen) rest

end

/-- The places where a descriptor asks for something in a value. -/
def places (v : Value) (steps : List Segment) (d : Value) : List Place :=
  placesBelow v steps d ++ [⟨steps, d⟩]

lemma placesBelow_of_absent {v : Value} {steps : List Segment} (h : v.along? steps = none)
    (d : Value) : placesBelow v steps d = [] := by
  unfold placesBelow
  split <;> simp [h]

lemma placesBelow_object {v w : Value} {steps : List Segment} (h : v.along? steps = some w)
    (fields : List (String × Value)) :
    placesBelow v steps (.object fields) = fieldPlaces v steps w [] fields := by
  rw [placesBelow, h]

lemma placesBelow_array {v d : Value} {steps : List Segment} {items : List Value}
    (h : v.along? steps = some (.array items)) : placesBelow v steps (.array [d]) =
      (List.range' 0 items.length).flatMap fun i => places v (steps ++ [.index i]) d := by
  rw [placesBelow, h]
  rfl

lemma placesBelow_alone {v w : Value} {steps : List Segment} (h : v.along? steps = some w)
    (key : String) (d : Value) : placesBelow v steps (.object [(key, d)]) =
      match stepsBehind? key w with
      | some more => places v (steps ++ more) d
      | none => [] := by
  rw [placesBelow_object h, fieldPlaces]
  exact List.append_nil _

/-- Of the reserved keys only the one that allows `null` has a place behind it. -/
lemma stepsBehind?_of_isReserved {key : String} (h : isReserved key = true)
    (hne : key ≠ "$maybeNull") (w : Value) : stepsBehind? key w = none := by
  unfold stepsBehind?
  rw [if_neg hne, if_pos h]

lemma placesBelow_of_isReserved {key : String} (h : isReserved key = true)
    (hne : key ≠ "$maybeNull") {v w : Value} {steps : List Segment}
    (halong : v.along? steps = some w) (d : Value) :
    placesBelow v steps (.object [(key, d)]) = [] := by
  rw [placesBelow_alone halong, stepsBehind?_of_isReserved h hne]

lemma stepsBehind?_of_not_isReserved {key : String} (h : isReserved key = false)
    (entries : List (String × Value)) : stepsBehind? key (.object entries) = some [.key key] := by
  have hne : key ≠ "$maybeNull" := by
    rintro rfl
    exact absurd h (by decide)
  rw [stepsBehind?, if_neg hne, h]
  rfl

lemma stepsBehind?_maybeNull {w : Value} (h : w ≠ .null) :
    stepsBehind? "$maybeNull" w = some [] := by
  cases w with
  | null => exact absurd rfl h
  | _ => rfl

lemma mem_fieldPlaces {v w : Value} {steps : List Segment} {seen : List String}
    {fields : List (String × Value)} {place : Place}
    (h : place ∈ fieldPlaces v steps w seen fields) : ∃ key d more, key ∉ seen ∧
      Entries.get? key fields = some d ∧ stepsBehind? key w = some more ∧
        place ∈ places v (steps ++ more) d := by
  obtain ⟨key, d, hnew, hget, hplace⟩ :=
    Entries.exists_of_mem_walk (fun _ => rfl) (fun _ _ _ _ => rfl) h
  split at hplace
  · rename_i more hmore
    exact ⟨key, d, more, hnew, hget, hmore, hplace⟩
  · cases hplace

/-! ### A value that is described -/

lemma conforms_places {v w d : Value} {steps : List Segment} (halong : v.along? steps = some w)
    (h : Describes d w) (hbelow : ∀ place ∈ placesBelow v steps d, place.Conforms v) :
    ∀ place ∈ places v steps d, place.Conforms v := by
  intro place hplace
  rcases List.mem_append.1 hplace with hplace | hself
  · exact hbelow place hplace
  · rw [List.mem_singleton.1 hself]
    exact ⟨w, halong, h⟩

/-- All places below a value that is described conform. -/
lemma conforms_placesBelow {v w d : Value} {steps : List Segment} (hd : IsDescriptor .builtins d)
    (halong : v.along? steps = some w) (h : Describes d w) :
    ∀ place ∈ placesBelow v steps d, place.Conforms v := by
  induction hd generalizing steps w with
  | named hname => simp [placesBelow]
  | anyArray => simp [placesBelow]
  | @arrayOf d hd ih =>
    obtain ⟨items, rfl, hitems⟩ : ∃ items, w = .array items ∧ ∀ item ∈ items, Describes d item := by
      rwa [Describes] at h
    rw [placesBelow_array halong]
    intro place hplace
    obtain ⟨i, hi, hplace⟩ := List.mem_flatMap.1 hplace
    have hlt : i < items.length := by simpa using hi
    have hitem : v.along? (steps ++ [.index i]) = some items[i] := by
      rw [Value.along?_concat halong, Value.step?, List.getElem?_eq_getElem hlt]
    have hdescribes := hitems _ (List.getElem_mem hlt)
    exact conforms_places hitem hdescribes (ih hitem hdescribes) place hplace
  | oneOf hliterals =>
    rw [placesBelow_of_isReserved (by decide) (by decide) halong]
    simp
  | anyOf hleaf hmembers ih =>
    rw [placesBelow_of_isReserved (by decide) (by decide) halong]
    simp
  | @orNull d hnull hd ih =>
    rw [placesBelow_alone halong]
    have hcases : w = .null ∨ Describes d w := by rwa [Describes] at h
    by_cases hw : w = .null
    · subst hw
      simp [stepsBehind?]
    · rw [stepsBehind?_maybeNull hw]
      simp only [List.append_nil]
      have hdescribes := hcases.resolve_left hw
      exact conforms_places halong hdescribes (ih halong hdescribes)
  | handleOf model =>
    rw [placesBelow_of_isReserved (by decide) (by decide) halong]
    simp
  | @object fields hkeys hfields ih =>
    obtain ⟨entries, rfl, hentries⟩ := (describes_object_iff hkeys).1 h
    rw [placesBelow_object halong]
    intro place hplace
    obtain ⟨key, d, more, hnew, hget, hmore, hplace⟩ := mem_fieldPlaces hplace
    have hkey := hkeys key (Entries.mem_keys_of_get? hget)
    rw [stepsBehind?_of_not_isReserved hkey, Option.some.injEq] at hmore
    subst hmore
    obtain ⟨u, hu, hdescribes⟩ := describesFields_iff.1 hentries key d hnew hget
    have halong' : v.along? (steps ++ [.key key]) = some u := by
      rw [Value.along?_concat halong, Value.step?, hu]
    exact conforms_places halong' hdescribes (ih key d hget halong' hdescribes) place hplace

/-- All places of a value that is checked well conform. -/
lemma conforms_of_check {v w d : Value} {path : DataPath} {s : Schema} {steps : List Segment}
    (hd : Parses .builtins d s) (halong : v.along? steps = some w) (h : s.check w path = .ok ()) :
    ∀ place ∈ places v steps d, place.Conforms v := by
  have hdescribes := hd.check_iff_describes.1 h
  exact conforms_places halong hdescribes
    (conforms_placesBelow hd.isDescriptor halong hdescribes)

/-! ### Checks of one node -/

/-- A nullable wrapper checks a value other than `null` as its schema does. -/
lemma check_orNull_of_ne_null {s : Schema} {w : Value} (h : w ≠ .null) (path : DataPath) :
    check (.leaf (.orNull s)) w path = s.check w path := by
  have hrequire {p : Predicate} {x : Except ValidationError Unit}
      (hp : p.check w path = x.map fun _ => true) : p.require w path = x := by
    rw [Predicate.require, hp]
    cases x <;> rfl
  have hsome (t : Schema) (ht : ∀ p, t ≠ .leaf p) :
      (Predicate.orNull t).check w path = (t.check w path).map fun _ => true := by
    cases t with
    | leaf p => exact absurd rfl (ht p)
    | _ =>
      cases w with
      | null => exact absurd rfl h
      | _ => rfl
  rw [check]
  cases s with
  | leaf p =>
    cases w with
    | null => exact absurd rfl h
    | _ => rfl
  | object fields => exact hrequire (hsome _ (by simp))
  | array element => exact hrequire (hsome _ (by simp))

lemma checkFields_cons_of_absent {key : String} {s : Schema} {rest : List (String × Schema)}
    {entries : List (String × Value)} (h : Entries.get? key entries = none) (path : DataPath) :
    checkFields ((key, s) :: rest) entries path =
      .error (if s.isObject then .expectedObject (path.key key) "undefined"
        else .undefinedProperty (path.key key)) := by
  rw [checkFields, h]
  cases s <;> rfl

lemma checkFields_cons_of_present {key : String} {s : Schema} {rest : List (String × Schema)}
    {entries : List (String × Value)} {u : Value} (h : Entries.get? key entries = some u)
    (path : DataPath) : checkFields ((key, s) :: rest) entries path =
      (s.check u (path.key key)).bind fun _ => checkFields rest entries path := by
  -- That a field is to be an object is checked once more by its own node.
  have hobject (hs : (s.isObject && !Value.isObject (some u)) = true) :
      s.check u (path.key key) = .error (.expectedObject (path.key key) u.text) := by
    cases s <;> cases u <;> simp_all [isObject, Value.isObject, check]
  rw [checkFields, h]
  split
  · rename_i hs
    rw [hobject hs]
    rfl
  · dsimp only
    cases s.check u (path.key key) <;> rfl

/-! ### The first fault -/

/-- Whether an error is told of the first of some places that does not conform, in a value with a
label. -/
def IsFirstFault (v : Value) (label : String) (ps : List Place) (e : ValidationError) : Prop :=
  ∃ front place back, ps = front ++ place :: back ∧ (∀ p ∈ front, p.Conforms v) ∧
    ¬place.Conforms v ∧ e.path? = some ⟨label, place.steps⟩ ∧ e.TellsOf v place.steps

namespace IsFirstFault

variable {v : Value} {label : String} {ps : List Place} {e : ValidationError}

lemma append (h : IsFirstFault v label ps e) (qs : List Place) :
    IsFirstFault v label (ps ++ qs) e := by
  obtain ⟨front, place, back, rfl, hrest⟩ := h
  exact ⟨front, place, back ++ qs, by simp, hrest⟩

lemma behind {qs : List Place} (hqs : ∀ place ∈ qs, place.Conforms v)
    (h : IsFirstFault v label ps e) : IsFirstFault v label (qs ++ ps) e := by
  obtain ⟨front, place, back, rfl, hfront, hrest⟩ := h
  refine ⟨qs ++ front, place, back, by simp, fun p hp => ?_, hrest⟩
  rcases List.mem_append.1 hp with hp | hp
  · exact hqs p hp
  · exact hfront p hp

/-- The fault of a place with no places below it. -/
lemma alone {steps : List Segment} {d : Value} (hbelow : placesBelow v steps d = [])
    (h : ∀ w, v.along? steps = some w → ¬Describes d w) (hpath : e.path? = some ⟨label, steps⟩)
    (htells : e.TellsOf v steps) : IsFirstFault v label (places v steps d) e := by
  refine ⟨[], ⟨steps, d⟩, [], by rw [places, hbelow, List.nil_append], by simp, ?_, hpath, htells⟩
  rintro ⟨w, hw, hd⟩
  exact h w hw hd

end IsFirstFault

/-! ### Faults of one node -/

/-- The first of the elements that fails makes the error. -/
lemma isFirstFault_of_checkItems {v d : Value} {label : String} {steps : List Segment}
    {check : Value → DataPath → Except ValidationError Unit}
    (hok : ∀ {item steps}, v.along? steps = some item → check item ⟨label, steps⟩ = .ok () →
      ∀ place ∈ places v steps d, place.Conforms v)
    (herror : ∀ {item steps e}, v.along? steps = some item → check item ⟨label, steps⟩ = .error e →
      IsFirstFault v label (places v steps d) e)
    {items : List Value} {i : Nat} {e : ValidationError}
    (hitems : ∀ j item, items[j]? = some item →
      v.along? (steps ++ [.index (i + j)]) = some item)
    (h : checkItems check ⟨label, steps⟩ i items = .error e) : IsFirstFault v label
      ((List.range' i items.length).flatMap fun i => places v (steps ++ [.index i]) d) e := by
  induction items generalizing i with
  | nil => cases h
  | cons item rest ih =>
    have hitem : v.along? (steps ++ [.index i]) = some item := hitems 0 item rfl
    rw [checkItems] at h
    rw [List.length_cons, List.range'_succ, List.flatMap_cons]
    split at h
    · rename_i e' he
      cases h
      exact (herror hitem he).append _
    · rename_i hitemOk
      refine (ih (fun j next hnext => ?_) h).behind (hok hitem hitemOk)
      rw [Nat.add_assoc, Nat.add_comm 1 j]
      exact hitems (j + 1) next hnext

section Faults

variable {v : Value} {label : String}

lemma not_describes_of_check {d w : Value} {path : DataPath} {s : Schema} {steps : List Segment}
    {e : ValidationError} (hd : Parses .builtins d s) (halong : v.along? steps = some w)
    (h : s.check w path = .error e) : ∀ u, v.along? steps = some u → ¬Describes d u := by
  intro u hu hdescribes
  rw [halong] at hu
  cases hu
  rw [hd.check_iff_describes.2 hdescribes] at h
  cases h

/-- The fault of a leaf that raises no error of its own. -/
lemma isFirstFault_of_leaf {p : Predicate} {d w : Value} {steps : List Segment}
    {e : ValidationError} (hquiet : ∀ e, p.check w ⟨label, steps⟩ ≠ .error e)
    (hd : Parses .builtins d (.leaf p)) (hbelow : placesBelow v steps d = [])
    (halong : v.along? steps = some w) (h : check (.leaf p) w ⟨label, steps⟩ = .error e) :
    IsFirstFault v label (places v steps d) e := by
  have hnot := not_describes_of_check hd halong h
  rw [check, Predicate.require] at h
  split at h
  · cases h
  · cases h
    exact .alone hbelow hnot rfl ⟨w, halong, rfl⟩
  · rename_i e' he
    exact absurd he (hquiet e')

lemma fieldPlaces_eq_nil {w : Value} (hw : ∀ entries, w ≠ .object entries)
    {fields : List (String × Value)} (hkeys : ∀ key ∈ Entries.keys fields, isReserved key = false)
    (steps : List Segment) (seen : List String) : fieldPlaces v steps w seen fields = [] := by
  rw [List.eq_nil_iff_forall_not_mem]
  intro place hplace
  obtain ⟨key, d, more, -, hget, hmore, -⟩ := mem_fieldPlaces hplace
  have hkey := hkeys key (Entries.mem_keys_of_get? hget)
  have hne : key ≠ "$maybeNull" := by
    rintro rfl
    exact absurd hkey (by decide)
  unfold stepsBehind? at hmore
  rw [if_neg hne, hkey] at hmore
  cases w with
  | object entries => exact hw entries rfl
  | _ => cases hmore

/-- The fault of an object node is that it finds no object, or it is behind a key. -/
lemma isFirstFault_of_object {fields : List (String × Value)} {schemas : List (String × Schema)}
    {steps : List Segment} {w : Value} {e : ValidationError}
    (hd : Parses .builtins (.object fields) (.object schemas))
    (hkeys : ∀ key ∈ Entries.keys fields, isReserved key = false)
    (halong : v.along? steps = some w) (he : check (.object schemas) w ⟨label, steps⟩ = .error e)
    (hbehind : ∀ {entries}, v.along? steps = some (.object entries) →
      checkFields schemas entries ⟨label, steps⟩ = .error e →
        IsFirstFault v label (fieldPlaces v steps (.object entries) [] fields) e) :
    IsFirstFault v label (places v steps (.object fields)) e := by
  have hnot := not_describes_of_check hd halong he
  cases w with
  | object entries =>
    rw [check] at he
    rw [places, placesBelow_object halong]
    exact (hbehind halong he).append _
  | _ =>
    cases he
    refine .alone ?_ hnot rfl ?_
    · rw [placesBelow_object halong]
      exact fieldPlaces_eq_nil (by simp) hkeys steps []
    · rw [ValidationError.TellsOf, if_neg (Value.text_ne_undefined _)]
      exact ⟨_, halong, rfl, by simp⟩

end Faults

/-! ### Faults of a whole value -/

/-- The error of fields is told of the first place that does not conform, if that is so of each of
them. -/
lemma isFirstFault_of_checkFields {v : Value} {label : String} {steps : List Segment}
    {entries : List (String × Value)} (halong : v.along? steps = some (.object entries))
    {seen : List String} {fields : List (String × Value)} {schemas : List (String × Schema)}
    (h : Entries.Firstwise (fun key d s => isReserved key = false ∧ Parses .builtins d s ∧
      ∀ {u e}, v.along? (steps ++ [.key key]) = some u →
        s.check u ⟨label, steps ++ [.key key]⟩ = .error e →
          IsFirstFault v label (places v (steps ++ [.key key]) d) e) seen fields schemas)
    {e : ValidationError} (he : checkFields schemas entries ⟨label, steps⟩ = .error e) :
    IsFirstFault v label (fieldPlaces v steps (.object entries) seen fields) e := by
  induction h with
  | nil => cases he
  | again hseen h ih =>
    rw [fieldPlaces, if_pos (by simpa)]
    exact ih he
  | @next seen key d t _ later hnew hfield h ih =>
    obtain ⟨hfree, hd, hfault⟩ := hfield
    rw [fieldPlaces, if_neg (by simpa), stepsBehind?_of_not_isReserved hfree]
    have hstep := Value.along?_concat halong (.key key)
    rw [Value.step?] at hstep
    cases hget : Entries.get? key entries with
    | none =>
      rw [checkFields_cons_of_absent hget] at he
      rw [hget] at hstep
      have hlacks : v.Lacks (steps ++ [.key key]) :=
        ⟨steps, key, entries, rfl, halong, Entries.get?_eq_none_iff.1 hget⟩
      refine .append (.alone (placesBelow_of_absent hstep d) (by simp [hstep]) ?_ ?_) _
      · cases he
        split <;> rfl
      · cases he
        split
        · rw [ValidationError.TellsOf, if_pos rfl]
          exact hlacks
        · exact hlacks
    | some u =>
      rw [checkFields_cons_of_present hget] at he
      rw [hget] at hstep
      cases hcheck : t.check u (DataPath.key ⟨label, steps⟩ key) with
      | error e' =>
        rw [hcheck] at he
        cases he
        exact (hfault hstep hcheck).append _
      | ok _ =>
        rw [hcheck] at he
        exact (ih he).behind (conforms_of_check hd hstep hcheck)

/-- The error of a node is told of the first place that does not conform. -/
theorem Parses.isFirstFault {v : Value} {label : String} {d : Value} {s : Schema}
    (h : Parses .builtins d s) {steps : List Segment} {w : Value} {e : ValidationError}
    (halong : v.along? steps = some w) (he : s.check w ⟨label, steps⟩ = .error e) :
    IsFirstFault v label (places v steps d) e := by
  induction h generalizing steps w e with
  | named h =>
    refine isFirstFault_of_leaf ?_ (.named h) (by simp [placesBelow]) halong he
    intro e' hcheck
    simp only [Registry.lookup, Registry.builtins, Entries.get?_cons, Entries.get?_nil] at h
    split_ifs at h <;> cases h <;> cases hcheck
  | anyArray =>
    have hnot := not_describes_of_check .anyArray halong he
    cases w with
    | array items => cases he
    | _ =>
      cases he
      exact .alone (by simp [placesBelow]) hnot rfl ⟨_, halong, rfl, by simp⟩
  | arrayOf h ih =>
    have hnot := not_describes_of_check (.arrayOf h) halong he
    cases w with
    | array items =>
      rw [check] at he
      rw [places, placesBelow_array halong]
      have hitems (i : Nat) (item : Value) (hitem : items[i]? = some item) :
          v.along? (steps ++ [.index (0 + i)]) = some item := by
        rw [Value.along?_concat halong, Value.step?, Nat.zero_add, hitem]
      exact (isFirstFault_of_checkItems (conforms_of_check h) ih hitems he).append _
    | _ =>
      cases he
      exact .alone (by simp [placesBelow, halong]) hnot rfl ⟨_, halong, rfl, by simp⟩
  | oneOf h =>
    exact isFirstFault_of_leaf (by intro e' h; cases h) (.oneOf h)
      (placesBelow_of_isReserved (by decide) (by decide) halong _) halong he
  | anyOf hlength h =>
    exact isFirstFault_of_leaf (by intro e' h; cases h) (.anyOf hlength h)
      (placesBelow_of_isReserved (by decide) (by decide) halong _) halong he
  | @orNull d s hnull h ih =>
    by_cases hw : w = .null
    · subst hw
      cases s <;> cases he
    · rw [check_orNull_of_ne_null hw] at he
      rw [places, placesBelow_alone halong, stepsBehind?_maybeNull hw]
      simp only [List.append_nil]
      exact (ih halong he).append _
  | handleOf model =>
    exact isFirstFault_of_leaf (by intro e' h; cases h) (.handleOf model)
      (placesBelow_of_isReserved (by decide) (by decide) halong _) halong he
  | object hfree hkeys h ih =>
    refine isFirstFault_of_object (.object hfree hkeys h) hfree halong he fun hobject hfields => ?_
    refine isFirstFault_of_checkFields hobject (firstwise_of_keys hfree hkeys ?_) hfields
    exact fun key d s hd hs => ⟨h key d s hd hs, fun hu hcheck => ih key d s hd hs hu hcheck⟩

/-- **A failed validation is told of the first place that does not conform**, and what it tells is
true of what is there, also where a nullable wrapper hands it on. -/
theorem validate_eq_error {d v : Value} {s : Schema} {label : String} {e : ValidationError}
    (h : parse .builtins d = .ok s) (he : validate v s label = .error e) :
    ∃ front place back, places v [] d = front ++ place :: back ∧ (∀ p ∈ front, p.Conforms v) ∧
      ¬place.Conforms v ∧ e.path? = some ⟨label, place.steps⟩ ∧ e.TellsOf v place.steps :=
  (parseNode_eq_ok_iff.1 h).isFirstFault rfl he

/-- The third element of an array is the first that a nullable object node objects to: the one
before conforms, and the one before that is `null`. -/
theorem validate_eq_error_nullable_element :
    let d : Value := .object [("owners", .array [.object [("$maybeNull",
      .object [("id", .string "number")])]]), ("tag", .string "string")]
    let v : Value := .object [("owners", .array [.null, .object [("id", .ofInt 1)],
      .object [("id", .string "x")]])]
    let e : ValidationError := .checkFailed
      ⟨"post", [.key "owners", .index 2, .key "id"]⟩ "\"x\""
    ∃ s, parse .builtins d = .ok s ∧ validate v s "post" = .error e ∧
      ∃ front place back, places v [] d = front ++ place :: back ∧ (∀ p ∈ front, p.Conforms v) ∧
        ¬place.Conforms v ∧ e.path? = some ⟨"post", place.steps⟩ ∧ e.TellsOf v place.steps := by
  intro d v e
  obtain ⟨s, hs⟩ : ∃ s, parse .builtins d = .ok s := ⟨_, rfl⟩
  have he : validate v s "post" = .error e := by
    cases hs
    rfl
  exact ⟨s, hs, he, validate_eq_error hs he⟩

end Schema

end GuardedData
