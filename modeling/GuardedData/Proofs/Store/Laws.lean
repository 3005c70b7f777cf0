import GuardedData.Proofs.Path.Segments
import GuardedData.Store.Edit

/-!
# Laws of edits

Two paths part in a value where they take different keys of an object or different elements of an
array. An edit puts at its path what it is meant to put there and leaves everything at paths that
part from its own as it was, and of two values set at one place only the second one is left. A
removal gives out what was there; the elements behind a removed one move down by one
(`Edit.apply_laws`).
-/

namespace GuardedData

/-- Of two values written to a key only the second one is left, in the place of the first. -/
lemma Entries.put_put {β : Type} (key : String) (first second : β) (entries : List (String × β)) :
    put key second (put key first entries) = put key second entries := by
  induction entries with
  | nil => simp [put]
  | cons entry rest ih =>
    obtain ⟨k, v⟩ := entry
    by_cases h : k = key <;> simp [put, h, ih]

namespace Value

open Dotted

/-! ### Where paths part -/

/-- Whether two segments take one key of an object or one element of an array. -/
def SameChild : Value → String → String → Prop
  | .object _, a, b => a = b
  | .array _, a, b => index? a = index? b
  | _, _, _ => True

/-- Whether a path, walked through a value, parts from another one at a different key or a different
element. -/
inductive Parts : Value → List String → List String → Prop
  | here {v : Value} {a b : String} (as bs : List String) (h : ¬v.SameChild a b) :
    Parts v (a :: as) (b :: bs)
  | further {v child : Value} {a b : String} {as bs : List String} (hsame : v.SameChild a b)
    (hchild : v.child? b = some child) (h : Parts child as bs) : Parts v (a :: as) (b :: bs)

/-- Whether a value is another one as far as paths go that part from some segments. -/
def AgreesApart (v' v : Value) (segments : List String) : Prop :=
  ∀ q, v.Parts q segments → v'.find? q = v.find? q

@[simp] lemma not_parts_nil (v : Value) (q : List String) : ¬v.Parts q [] := by
  intro h
  cases h

@[simp] lemma parts_singleton {v : Value} {q : List String} {b : String} :
    v.Parts q [b] ↔ ∃ a as, q = a :: as ∧ ¬v.SameChild a b := by
  constructor
  · intro h
    cases h with
    | here as _ h => exact ⟨_, as, rfl, h⟩
    | further _ _ h => exact absurd h (not_parts_nil _ _)
  · rintro ⟨a, as, rfl, h⟩
    exact .here as [] h

lemma SameChild.child?_eq {v : Value} {a b : String} (h : v.SameChild a b) :
    v.child? a = v.child? b := by
  cases v with
  | object entries => rw [SameChild] at h; rw [h]
  | array items => rw [SameChild] at h; simp [child?, h]
  | _ => rfl

/-! ### Changing a child -/

lemma sameChild_putChild (v new : Value) (segment a b : String) :
    (v.putChild segment new).SameChild a b ↔ v.SameChild a b := by
  cases v with
  | array items =>
    rw [putChild]
    split <;> rfl
  | _ => rfl

lemma child?_putChild_self {v old : Value} {segment : String} (h : v.child? segment = some old)
    (new : Value) : (v.putChild segment new).child? segment = some new := by
  cases v with
  | object entries => exact Entries.get?_put_self segment new entries
  | array items =>
    obtain ⟨i, hi, hold⟩ := Option.bind_eq_some_iff.1 h
    have hlt : i < items.length := (List.getElem?_eq_some_iff.1 hold).1
    simp [putChild, child?, hi, hlt]
  | _ => cases h

lemma child?_putChild_of_not_sameChild {v : Value} {a b : String} (h : ¬v.SameChild a b)
    (new : Value) : (v.putChild b new).child? a = v.child? a := by
  cases v with
  | object entries => exact Entries.get?_put_of_ne h new entries
  | array items =>
    cases hb : index? b with
    | none => simp [putChild, hb]
    | some i =>
      cases ha : index? a with
      | none => simp [putChild, child?, ha, hb]
      | some j =>
        have hij : i ≠ j := by
          rintro rfl
          exact h (ha.trans hb.symm)
        simp [putChild, child?, ha, hb, hij]
  | _ => rfl

lemma putChild_putChild (v first second : Value) (segment : String) :
    (v.putChild segment first).putChild segment second = v.putChild segment second := by
  cases v with
  | object entries => simp [putChild, Entries.put_put]
  | array items => cases h : index? segment <;> simp [putChild, h]
  | _ => rfl

/-! ### Changing a place -/

/-- A value with another one in the place that some segments lead to. -/
def putAt : Value → List String → Value → Value
  | _, [], new => new
  | v, segment :: rest, new =>
    match v.child? segment with
    | none => v
    | some old => v.putChild segment (old.putAt rest new)

lemma putAt_cons {v child : Value} {segment : String} (h : v.child? segment = some child)
    (rest : List String) (new : Value) :
    v.putAt (segment :: rest) new = v.putChild segment (child.putAt rest new) := by
  rw [putAt, h]

lemma find?_cons {v child : Value} {segment : String} (h : v.child? segment = some child)
    (rest : List String) : v.find? (segment :: rest) = child.find? rest := by
  rw [find?, h, Option.bind_some]

lemma find?_concat {v w : Value} {p : List String} (h : v.find? p = some w) (last : String) :
    v.find? (p ++ [last]) = w.child? last := by
  rw [find?_append, h, Option.bind_some, find?]
  cases w.child? last <;> rfl

lemma find?_putAt_self {v old : Value} {p : List String} (h : v.find? p = some old) (new : Value) :
    (v.putAt p new).find? p = some new := by
  induction p generalizing v with
  | nil => rfl
  | cons segment rest ih =>
    obtain ⟨child, hchild, hrest⟩ := Option.bind_eq_some_iff.1 h
    rw [putAt_cons hchild, find?_cons (child?_putChild_self hchild _)]
    exact ih hrest

lemma putAt_putAt {v old : Value} {p : List String} (h : v.find? p = some old)
    (first second : Value) : (v.putAt p first).putAt p second = v.putAt p second := by
  induction p generalizing v with
  | nil => rfl
  | cons segment rest ih =>
    obtain ⟨child, hchild, hrest⟩ := Option.bind_eq_some_iff.1 h
    rw [putAt_cons hchild, putAt_cons (child?_putChild_self hchild _), ih hrest, putChild_putChild,
      putAt_cons hchild]

/-- If a new value agrees with the old one apart from some segments, so does the whole apart from
the path that leads on through these segments. -/
lemma agreesApart_putAt {v old new : Value} {p s : List String} (h : v.find? p = some old)
    (hnew : new.AgreesApart old s) : (v.putAt p new).AgreesApart v (p ++ s) := by
  induction p generalizing v with
  | nil =>
    cases h
    exact hnew
  | cons segment rest ih =>
    obtain ⟨child, hchild, hrest⟩ := Option.bind_eq_some_iff.1 h
    intro q hq
    rw [putAt_cons hchild]
    cases hq with
    | here as _ hother => rw [find?, find?, child?_putChild_of_not_sameChild hother]
    | further hsame hbelow hparts =>
      have hsame' := (sameChild_putChild v (child.putAt rest new) segment _ _).2 hsame
      rw [hchild, Option.some.injEq] at hbelow
      subst hbelow
      rw [find?_cons (hsame'.child?_eq.trans (child?_putChild_self hchild _)),
        find?_cons (hsame.child?_eq.trans hchild)]
      exact ih hrest _ hparts

/-! ### Altering a place -/

section Alter

variable {α : Type} {missing : PathFault} {f : Value → Except PathFault (Value × α)}

lemma alter_of_find?_eq_none {v : Value} {p : List String} (h : v.find? p = none) :
    v.alter missing f p = .error missing := by
  induction p generalizing v with
  | nil => cases h
  | cons segment rest ih =>
    rw [alter]
    cases hchild : v.child? segment with
    | none => rfl
    | some child =>
      rw [find?_cons hchild] at h
      simp only [ih h]

lemma alter_of_find? {v old : Value} {p : List String} (h : v.find? p = some old) :
    v.alter missing f p = (f old).map fun (new, a) => (v.putAt p new, a) := by
  induction p generalizing v with
  | nil =>
    cases h
    rw [alter]
    cases f old <;> rfl
  | cons segment rest ih =>
    obtain ⟨child, hchild, hrest⟩ := Option.bind_eq_some_iff.1 h
    rw [alter, hchild]
    simp only [ih hrest, putAt_cons hchild]
    cases f old <;> rfl

lemma alter_eq_ok_iff {v v' : Value} {p : List String} {a : α} :
    v.alter missing f p = .ok (v', a) ↔
      ∃ old new, v.find? p = some old ∧ f old = .ok (new, a) ∧ v' = v.putAt p new := by
  cases hold : v.find? p with
  | none => simp [alter_of_find?_eq_none hold]
  | some old =>
    rw [alter_of_find? hold]
    cases hf : f old with
    | error fault => simp [Except.map, hf]
    | ok changed => simp [Except.map, hf, Prod.ext_iff, and_comm, eq_comm]

end Alter

end Value

namespace Edit

open Dotted

/-! ### Changing the last segment -/

lemma map_indexIn_eq_ok_iff {β : Type} {items : List Value} {segment : String} {f : Nat → β}
    {b : β} : (indexIn items segment).map f = .ok b ↔
      ∃ i, index? segment = some i ∧ i < items.length ∧ f i = b := by
  rw [indexIn]
  cases index? segment with
  | none => simp [Except.map]
  | some i => by_cases h : i < items.length <;> simp [Except.map, h]

lemma setChild_eq_ok_iff {segment : String} {value v v' : Value} {removed : Option Value} :
    setChild segment value v = .ok (v', removed) ↔ removed = none ∧
      ((∃ entries, v = .object entries ∧ v' = .object (Entries.put segment value entries)) ∨
        ∃ items i, v = .array items ∧ index? segment = some i ∧ i < items.length ∧
          v' = .array (items.set i value)) := by
  cases v with
  | object entries => simp [setChild, and_comm, eq_comm]
  | array items =>
    simp only [setChild, map_indexIn_eq_ok_iff, Prod.mk.injEq]
    constructor
    · rintro ⟨i, hi, hlt, rfl, rfl⟩
      exact ⟨rfl, Or.inr ⟨items, i, rfl, hi, hlt, rfl⟩⟩
    · rintro ⟨rfl, ⟨entries, h, -⟩ | ⟨items', i, h, hi, hlt, rfl⟩⟩
      · cases h
      · cases h
        exact ⟨i, hi, hlt, rfl, rfl⟩
  | _ => simp [setChild]

lemma removeChild_eq_ok_iff {segment : String} {v v' : Value} {removed : Option Value} :
    removeChild segment v = .ok (v', removed) ↔ removed = v.child? segment ∧
      ((∃ entries, v = .object entries ∧ v' = .object (Entries.remove segment entries)) ∨
        ∃ items i, v = .array items ∧ index? segment = some i ∧ i < items.length ∧
          v' = .array (items.eraseIdx i)) := by
  cases v with
  | object entries => simp [removeChild, Value.child?, and_comm, eq_comm]
  | array items =>
    simp only [removeChild, map_indexIn_eq_ok_iff, Prod.mk.injEq]
    constructor
    · rintro ⟨i, hi, hlt, rfl, rfl⟩
      exact ⟨by simp [Value.child?, hi], Or.inr ⟨items, i, rfl, hi, hlt, rfl⟩⟩
    · rintro ⟨rfl, ⟨entries, h, -⟩ | ⟨items', i, h, hi, hlt, rfl⟩⟩
      · cases h
      · cases h
        exact ⟨i, hi, hlt, rfl, by simp [Value.child?, hi]⟩
  | _ => simp [removeChild]

lemma pushItem_eq_ok_iff {value v v' : Value} {removed : Option Value} :
    pushItem value v = .ok (v', removed) ↔
      removed = none ∧ ∃ items, v = .array items ∧ v' = .array (items ++ [value]) := by
  cases v with
  | array items => simp [pushItem, and_comm, eq_comm]
  | _ => simp [pushItem]

lemma setChild_eq_putChild {segment : String} {value v v' : Value} {removed : Option Value}
    (h : setChild segment value v = .ok (v', removed)) : v' = v.putChild segment value := by
  obtain ⟨-, ⟨entries, rfl, rfl⟩ | ⟨items, i, rfl, hi, -, rfl⟩⟩ := setChild_eq_ok_iff.1 h
  · rfl
  · simp [Value.putChild, hi]

lemma child?_setChild {segment : String} {value v v' : Value} {removed : Option Value}
    (h : setChild segment value v = .ok (v', removed)) : v'.child? segment = some value := by
  obtain ⟨-, ⟨entries, rfl, rfl⟩ | ⟨items, i, rfl, hi, hlt, rfl⟩⟩ := setChild_eq_ok_iff.1 h
  · exact Entries.get?_put_self segment value entries
  · simp [Value.child?, hi, hlt]

/-- Another value can be set in place of the first one, and comes to the same as without it. -/
lemma exists_setChild_setChild {segment : String} {value v v' : Value} {removed : Option Value}
    (h : setChild segment value v = .ok (v', removed)) (other : Value) : ∃ v₂,
      setChild segment other v = .ok (v₂, none) ∧ setChild segment other v' = .ok (v₂, none) := by
  obtain ⟨-, ⟨entries, rfl, rfl⟩ | ⟨items, i, rfl, hi, hlt, rfl⟩⟩ := setChild_eq_ok_iff.1 h
  · exact ⟨.object (Entries.put segment other entries), rfl, by simp [setChild, Entries.put_put]⟩
  · exact ⟨.array (items.set i other), by simp [setChild, indexIn, hi, hlt, Except.map],
      by simp [setChild, indexIn, hi, hlt, Except.map]⟩

lemma agreesApart_of_child? {v v' : Value} {segment : String}
    (h : ∀ other, ¬v.SameChild other segment → v'.child? other = v.child? other) :
    v'.AgreesApart v [segment] := by
  intro q hq
  obtain ⟨other, rest, rfl, hother⟩ := Value.parts_singleton.1 hq
  rw [Value.find?, Value.find?, h other hother]

lemma agreesApart_setChild {segment : String} {value v v' : Value} {removed : Option Value}
    (h : setChild segment value v = .ok (v', removed)) : v'.AgreesApart v [segment] := by
  refine agreesApart_of_child? fun other hother => ?_
  rw [setChild_eq_putChild h]
  exact Value.child?_putChild_of_not_sameChild hother value

/-! ### Whole edits -/

lemma onParent_eq_ok_iff {f : String → Value → Except PathFault (Value × Option Value)}
    {path : String} {root root' : Value} {removed : Option Value} :
    onParent f path root = .ok (root', removed) ↔ ∃ parent last old new,
      segments path = parent ++ [last] ∧ root.find? parent = some old ∧
        f last old = .ok (new, removed) ∧ root' = root.putAt parent new := by
  rw [onParent]
  cases hparent : parent? path with
  | none => simp [parent?_eq_none_iff.1 hparent]
  | some parts =>
    obtain ⟨parent, last⟩ := parts
    simp [segments_eq_of_parent?_eq_some hparent, Value.alter_eq_ok_iff]

/-- What is set at a place is found there, whatever was set there before leaves nothing behind, and
what is apart from the place stays. -/
lemma set_laws {path : String} {value root root' : Value} {removed : Option Value}
    (h : (set value).apply path root = .ok (root', removed)) : root'.at? path = some value ∧
      (∀ other, ∃ root₂, (set other).apply path root = .ok (root₂, none) ∧
        (set other).apply path root' = .ok (root₂, none)) ∧
      root'.AgreesApart root (segments path) := by
  obtain ⟨parent, last, old, new, hpath, hold, hset, rfl⟩ := onParent_eq_ok_iff.1 h
  have hnew := Value.find?_putAt_self hold new
  refine ⟨?_, ?_, ?_⟩
  · rw [Value.at?, hpath, Value.find?_concat hnew, child?_setChild hset]
  · intro other
    obtain ⟨new₂, hold₂, hnew₂⟩ := exists_setChild_setChild hset other
    have hafter := Value.putAt_putAt hold new new₂
    exact ⟨root.putAt parent new₂,
      onParent_eq_ok_iff.2 ⟨parent, last, old, new₂, hpath, hold, hold₂, rfl⟩,
      onParent_eq_ok_iff.2 ⟨parent, last, new, new₂, hpath, hnew, hnew₂, hafter.symm⟩⟩
  · rw [hpath]
    exact Value.agreesApart_putAt hold (agreesApart_setChild hset)

lemma agreesApart_putAt_self {root old : Value} {p : List String} (h : root.find? p = some old)
    (new : Value) : (root.putAt p new).AgreesApart root p := by
  have hnone : new.AgreesApart old [] := by
    intro q hq
    exact absurd hq (Value.not_parts_nil old q)
  simpa using Value.agreesApart_putAt h hnone

/-- An update changes what it finds, and what is apart from the place stays. -/
lemma update_laws {path : String} {f : Value → Value} {root root' : Value}
    {removed : Option Value} (h : (update f).apply path root = .ok (root', removed)) :
    ∃ old, root.at? path = some old ∧ root'.at? path = some (f old) ∧
      root'.AgreesApart root (segments path) := by
  obtain ⟨old, new, hold, hf, rfl⟩ := Value.alter_eq_ok_iff.1 h
  cases hf
  exact ⟨old, hold, Value.find?_putAt_self hold (f old), agreesApart_putAt_self hold (f old)⟩

/-- An array gets one more element at its end, and what is apart from the place stays. -/
lemma push_laws {path : String} {value root root' : Value} {removed : Option Value}
    (h : (push value).apply path root = .ok (root', removed)) :
    ∃ items, root.at? path = some (.array items) ∧
      root'.at? path = some (.array (items ++ [value])) ∧
        root'.AgreesApart root (segments path) := by
  obtain ⟨old, new, hold, hpush, rfl⟩ := Value.alter_eq_ok_iff.1 h
  obtain ⟨-, items, rfl, rfl⟩ := pushItem_eq_ok_iff.1 hpush
  exact ⟨items, hold, Value.find?_putAt_self hold _, agreesApart_putAt_self hold _⟩

/-- A removal gives out what was there. It takes the key out of an object, and what is apart from
the key stays; or it takes an element out of an array, moves the later ones down, and what is apart
from the array stays. -/
lemma remove_laws {path : String} {root root' : Value} {removed : Option Value}
    (h : remove.apply path root = .ok (root', removed)) : removed = root.at? path ∧
      ∃ parent last, segments path = parent ++ [last] ∧
        ((∃ entries, root.find? parent = some (.object entries) ∧ root'.at? path = none ∧
            root'.AgreesApart root (segments path)) ∨
          ∃ items items' i, root.find? parent = some (.array items) ∧
            root'.find? parent = some (.array items') ∧ index? last = some i ∧ i < items.length ∧
              (∀ j < i, items'[j]? = items[j]?) ∧ (∀ j, i ≤ j → items'[j]? = items[j + 1]?) ∧
                root'.AgreesApart root parent) := by
  obtain ⟨parent, last, old, new, hpath, hold, hremove, rfl⟩ := onParent_eq_ok_iff.1 h
  have hnew := Value.find?_putAt_self hold new
  obtain ⟨rfl, hcontainer⟩ := removeChild_eq_ok_iff.1 hremove
  refine ⟨by rw [Value.at?, hpath, Value.find?_concat hold], parent, last, hpath, ?_⟩
  obtain ⟨entries, rfl, rfl⟩ | ⟨items, i, rfl, hi, hlt, rfl⟩ := hcontainer
  · refine Or.inl ⟨entries, hold, ?_, ?_⟩
    · rw [Value.at?, hpath, Value.find?_concat hnew]
      exact Entries.get?_remove_self last entries
    · rw [hpath]
      refine Value.agreesApart_putAt hold (agreesApart_of_child? fun other hother => ?_)
      exact Entries.get?_remove_of_ne hother entries
  · refine Or.inr ⟨items, items.eraseIdx i, i, hold, hnew, hi, hlt, ?_, ?_, ?_⟩
    · intro j hj
      rw [List.getElem?_eraseIdx_of_lt hj]
    · intro j hj
      rw [List.getElem?_eraseIdx_of_ge hj]
    · exact agreesApart_putAt_self hold _

/-- **Edits are lawful.** What is set is found at the path and a second value set there comes to the
same as without the first; an update leaves there what it makes of the old value, and a push the old
array with one more element. All three leave what is at paths that part from the path of the edit as
it was. A removal gives out what was there: from an object it takes the key and nothing else, and in
an array the elements before the removed one stay and each later one moves down by one. -/
theorem apply_laws (path : String) (root root' : Value) (removed : Option Value) :
    (∀ value, (set value).apply path root = .ok (root', removed) → root'.at? path = some value ∧
      (∀ other, ∃ root₂, (set other).apply path root = .ok (root₂, none) ∧
        (set other).apply path root' = .ok (root₂, none)) ∧
      root'.AgreesApart root (segments path)) ∧
    (∀ f, (update f).apply path root = .ok (root', removed) → ∃ old, root.at? path = some old ∧
      root'.at? path = some (f old) ∧ root'.AgreesApart root (segments path)) ∧
    (∀ value, (push value).apply path root = .ok (root', removed) →
      ∃ items, root.at? path = some (.array items) ∧
        root'.at? path = some (.array (items ++ [value])) ∧
          root'.AgreesApart root (segments path)) ∧
    (remove.apply path root = .ok (root', removed) → removed = root.at? path ∧
      ∃ parent last, segments path = parent ++ [last] ∧
        ((∃ entries, root.find? parent = some (.object entries) ∧ root'.at? path = none ∧
            root'.AgreesApart root (segments path)) ∨
          ∃ items items' i, root.find? parent = some (.array items) ∧
            root'.find? parent = some (.array items') ∧ index? last = some i ∧ i < items.length ∧
              (∀ j < i, items'[j]? = items[j]?) ∧ (∀ j, i ≤ j → items'[j]? = items[j + 1]?) ∧
                root'.AgreesApart root parent)) :=
  ⟨fun _ => set_laws, fun _ => update_laws, fun _ => push_laws, remove_laws⟩

/-- The path of an edit may write its index in another way, and have dots at its ends. -/
theorem apply_laws_respelled_index :
    let second : Value := .object [("x", .ofInt 2)]
    let root : Value := .object [("a", .array [.array [.ofInt 1], second]), ("b", .ofInt 3)]
    (∃ root', (set .null).apply ".a..+0" root = .ok (root', none) ∧
      root'.at? ".a..+0" = some .null ∧ root'.at? "a.1" = some second) ∧
    (∃ root', (update fun _ => .null).apply ".a..+0" root = .ok (root', none) ∧
      root'.at? ".a..+0" = some .null ∧ root'.at? "a.1" = some second) ∧
    (∃ root', (push .null).apply ".a..+0" root = .ok (root', none) ∧
      root'.at? ".a..+0" = some (.array [.ofInt 1, .null]) ∧ root'.at? "a.1" = some second) ∧
    ∃ root' items, remove.apply ".a..+0" root = .ok (root', some (.array [.ofInt 1])) ∧
      root'.at? "a" = some (.array items) ∧ items[0]? = some second ∧
        root'.at? "b" = some (.ofInt 3) := by
  intro second root
  obtain ⟨rootSet, hset⟩ : ∃ root', (set .null).apply ".a..+0" root = .ok (root', none) := ⟨_, rfl⟩
  obtain ⟨rootUpdate, hupdate⟩ :
      ∃ root', (update fun _ => .null).apply ".a..+0" root = .ok (root', none) := ⟨_, rfl⟩
  obtain ⟨rootPush, hpush⟩ :
      ∃ root', (push .null).apply ".a..+0" root = .ok (root', none) := ⟨_, rfl⟩
  obtain ⟨rootRemove, hremove⟩ :
      ∃ root', remove.apply ".a..+0" root = .ok (root', some (.array [.ofInt 1])) := ⟨_, rfl⟩
  have hsegments : segments ".a..+0" = ["a"] ++ ["+0"] := by decide
  have hsecond : root.Parts ["a", "1"] (segments ".a..+0") := by
    rw [hsegments]
    refine .further rfl rfl (.here [] [] ?_)
    show index? "1" ≠ index? "+0"
    decide
  refine ⟨⟨rootSet, hset, ?_⟩, ⟨rootUpdate, hupdate, ?_⟩, ⟨rootPush, hpush, ?_⟩, ?_⟩
  · obtain ⟨hvalue, -, hapart⟩ := (apply_laws ".a..+0" root rootSet none).1 .null hset
    exact ⟨hvalue, hapart _ hsecond⟩
  · obtain ⟨old, -, hvalue, hapart⟩ :=
      (apply_laws ".a..+0" root rootUpdate none).2.1 (fun _ => .null) hupdate
    exact ⟨hvalue, hapart _ hsecond⟩
  · obtain ⟨items, hitems, hvalue, hapart⟩ :=
      (apply_laws ".a..+0" root rootPush none).2.2.1 .null hpush
    cases hitems
    exact ⟨hvalue, hapart _ hsecond⟩
  · obtain ⟨-, parent, last, hpath, hcontainer⟩ :=
      (apply_laws ".a..+0" root rootRemove (some (.array [.ofInt 1]))).2.2.2 hremove
    obtain ⟨rfl, hlast⟩ := List.append_inj' (hpath.symm.trans hsegments) rfl
    cases hlast
    obtain ⟨entries, hobject, -⟩ | ⟨items, items', i, hitems, hitems', hi, -, -, hlater, hapart⟩ :=
      hcontainer
    · cases hobject
    · cases hitems
      cases hi
      refine ⟨rootRemove, items', hremove, hitems', hlater 0 (Nat.le_refl 0), ?_⟩
      refine hapart ["b"] (.here [] [] ?_)
      show "b" ≠ "a"
      decide

end Edit

end GuardedData
