import GuardedData.Files.Document
import GuardedData.Proofs.Schema.Built
import GuardedData.Proofs.Value.Equality
import Mathlib.Data.Option.Basic

/-!
# Documents and their values

The item of a document has a value exactly if no number in it is infinite or no number at all, and
the value mirrors the item part by part (`Toml.Item.toValue_eq_ok_iff`). Nothing is lost but that a
date becomes a string: items without dates whose values are equal are equal themselves, be it as
they are written or as what they mean (`Document.ofItem_outcome`).
-/

namespace GuardedData

namespace Toml.Item

/-- Induction on an item through its elements and entries. -/
@[elab_as_elim]
theorem induct {motive : Item → Prop} (string : ∀ s, motive (.string s))
    (integer : ∀ n inRange, motive (.integer n inRange)) (float : ∀ d, motive (.float d))
    (nonFinite : ∀ x, motive (.nonFinite x)) (boolean : ∀ b, motive (.boolean b))
    (datetime : ∀ d, motive (.datetime d))
    (array : ∀ items, (∀ item ∈ items, motive item) → motive (.array items))
    (table : ∀ entries, (∀ entry ∈ entries, motive entry.2) → motive (.table entries))
    (item : Item) : motive item := by
  match item with
  | .string s => exact string s
  | .integer n inRange => exact integer n inRange
  | .float d => exact float d
  | .nonFinite x => exact nonFinite x
  | .boolean b => exact boolean b
  | .datetime d => exact datetime d
  | .array items =>
    exact array items fun item _ =>
      induct string integer float nonFinite boolean datetime array table item
  | .table entries =>
    exact table entries fun entry _ =>
      induct string integer float nonFinite boolean datetime array table entry.2
termination_by sizeOf item
decreasing_by
  · have hmem := List.sizeOf_lt_of_mem ‹_›
    rw [Item.array.sizeOf_spec]
    omega
  · have hmem := List.sizeOf_lt_of_mem ‹_›
    have hentry : sizeOf entry = 1 + sizeOf entry.1 + sizeOf entry.2 := rfl
    rw [Item.table.sizeOf_spec]
    omega

/-! ### Parts and shapes -/

/-- Whether an item is part of another one, at any depth. -/
inductive Within (part : Item) : Item → Prop
  | self : Within part part
  | element {items : List Item} {item : Item} (hmem : item ∈ items) (h : Within part item) :
    Within part (.array items)
  | entry {entries : List (String × Item)} {key : String} {item : Item}
    (hmem : (key, item) ∈ entries) (h : Within part item) : Within part (.table entries)

/-- Whether a value has the shape of an item: arrays of the same length, tables with the same keys
in the same order, and scalars of the same kind that are the same. Dates stand as their text. -/
inductive Mirrors : Item → Value → Prop
  | string (s : String) : Mirrors (.string s) (.string s)
  | integer {n : Int} (h : -0x8000000000000000 ≤ n ∧ n < 0x8000000000000000)
    (h' : -0x8000000000000000 ≤ n ∧ n < 0x10000000000000000) :
    Mirrors (.integer n h) (.number (.integer n h'))
  | float (d : Double) : Mirrors (.float d) (.number (.double d))
  | boolean (b : Bool) : Mirrors (.boolean b) (.bool b)
  | datetime (d : Datetime) : Mirrors (.datetime d) (.string d.text)
  | array {items : List Item} {values : List Value} (h : List.Forall₂ Mirrors items values) :
    Mirrors (.array items) (.array values)
  | table {entries : List (String × Item)} {fields : List (String × Value)}
    (hkeys : Entries.keys entries = Entries.keys fields)
    (h : List.Forall₂ Mirrors (entries.map (·.2)) (fields.map (·.2))) :
    Mirrors (.table entries) (.object fields)

/-- Equality of items: floats are equal numerically, arrays element by element, and tables as
finite maps. What is no number equals nothing. -/
inductive Equal : Item → Item → Prop
  | string (s : String) : Equal (.string s) (.string s)
  | integer {n : Int} (h h' : -0x8000000000000000 ≤ n ∧ n < 0x8000000000000000) :
    Equal (.integer n h) (.integer n h')
  | float {d e : Double} (h : d.equal e = true) : Equal (.float d) (.float e)
  | infinite (negative : Bool) :
    Equal (.nonFinite (.infinite negative)) (.nonFinite (.infinite negative))
  | boolean (b : Bool) : Equal (.boolean b) (.boolean b)
  | datetime (d : Datetime) : Equal (.datetime d) (.datetime d)
  | array {items others : List Item} (h : List.Forall₂ Equal items others) :
    Equal (.array items) (.array others)
  | table {entries others : List (String × Item)}
    (h : ∀ key, Option.Rel Equal (Entries.get? key entries) (Entries.get? key others)) :
    Equal (.table entries) (.table others)

@[simp] lemma equal_string_iff {s : String} {b : Item} : Equal (.string s) b ↔ .string s = b := by
  constructor
  · intro h
    cases h
    rfl
  · rintro rfl
    exact .string s

@[simp] lemma equal_integer_iff {n : Int} {b : Item}
    (h : -0x8000000000000000 ≤ n ∧ n < 0x8000000000000000) :
    Equal (.integer n h) b ↔ .integer n h = b := by
  constructor
  · intro h
    cases h
    rfl
  · rintro rfl
    exact .integer h h

@[simp] lemma equal_float_iff {d : Double} {b : Item} :
    Equal (.float d) b ↔ ∃ e, b = .float e ∧ d.equal e = true := by
  constructor
  · intro h
    cases h with
    | float h => exact ⟨_, rfl, h⟩
  · rintro ⟨e, rfl, h⟩
    exact .float h

@[simp] lemma equal_boolean_iff {c : Bool} {b : Item} : Equal (.boolean c) b ↔ .boolean c = b := by
  constructor
  · intro h
    cases h
    rfl
  · rintro rfl
    exact .boolean c

@[simp] lemma equal_array_iff {items : List Item} {b : Item} :
    Equal (.array items) b ↔ ∃ others, b = .array others ∧ List.Forall₂ Equal items others := by
  constructor
  · intro h
    cases h with
    | array h => exact ⟨_, rfl, h⟩
  · rintro ⟨others, rfl, h⟩
    exact .array h

@[simp] lemma equal_table_iff {entries : List (String × Item)} {b : Item} :
    Equal (.table entries) b ↔ ∃ others, b = .table others ∧
      ∀ key, Option.Rel Equal (Entries.get? key entries) (Entries.get? key others) := by
  constructor
  · intro h
    cases h with
    | table h => exact ⟨_, rfl, h⟩
  · rintro ⟨others, rfl, h⟩
    exact .table h

/-! ### What has a value -/

/-- The values of table entries are those of array elements, behind the keys. -/
lemma entryValues_eq (entries : List (String × Item)) : entryValues entries =
    (itemValues (entries.map (·.2))).map (Entries.keys entries).zip := by
  induction entries with
  | nil => rfl
  | cons entry rest ih =>
    obtain ⟨key, item⟩ := entry
    rw [entryValues, List.map_cons, itemValues, ih]
    cases item.toValue with
    | error x => rfl
    | ok v => cases itemValues (rest.map (·.2)) <;> rfl

lemma itemValues_eq_ok_iff {items : List Item} {values : List Value} :
    itemValues items = .ok values ↔
      List.Forall₂ (fun item v => item.toValue = .ok v) items values := by
  induction items generalizing values with
  | nil => cases values <;> simp [itemValues]
  | cons item rest ih =>
    rw [itemValues]
    cases hitem : item.toValue with
    | error x => cases values <;> simp [hitem]
    | ok v =>
      cases values with
      | nil => cases itemValues rest <;> simp [Except.map]
      | cons w values =>
        rw [List.forall₂_cons, ← ih, hitem]
        cases itemValues rest <;> simp [Except.map]

lemma itemValues_eq_error {items : List Item} {x : NonFinite} (h : itemValues items = .error x) :
    ∃ item ∈ items, item.toValue = .error x := by
  induction items with
  | nil => cases h
  | cons item rest ih =>
    rw [itemValues] at h
    cases hitem : item.toValue with
    | error y =>
      rw [hitem] at h
      cases h
      exact ⟨item, List.mem_cons_self, hitem⟩
    | ok v =>
      rw [hitem] at h
      cases hrest : itemValues rest with
      | error y =>
        rw [hrest] at h
        cases h
        obtain ⟨other, hmem, hother⟩ := ih hrest
        exact ⟨other, List.mem_cons_of_mem _ hmem, hother⟩
      | ok values =>
        rw [hrest] at h
        cases h

lemma toValue_array_eq_ok_iff {items : List Item} {v : Value} :
    (Item.array items).toValue = .ok v ↔ ∃ values, v = .array values ∧
      List.Forall₂ (fun item v => item.toValue = .ok v) items values := by
  rw [toValue]
  constructor
  · intro h
    obtain ⟨values, hvalues, rfl⟩ := Except.map_eq_ok_iff.1 h
    exact ⟨values, rfl, itemValues_eq_ok_iff.1 hvalues⟩
  · rintro ⟨values, rfl, hvalues⟩
    rw [itemValues_eq_ok_iff.2 hvalues]
    rfl

lemma toValue_table_eq_ok_iff {entries : List (String × Item)} {v : Value} :
    (Item.table entries).toValue = .ok v ↔ ∃ fields, v = .object fields ∧
      Entries.keys entries = Entries.keys fields ∧
      List.Forall₂ (fun item v => item.toValue = .ok v) (entries.map (·.2)) (fields.map (·.2)) := by
  rw [toValue, entryValues_eq]
  constructor
  · intro h
    obtain ⟨fields, hfields, rfl⟩ := Except.map_eq_ok_iff.1 h
    obtain ⟨values, hvalues, rfl⟩ := Except.map_eq_ok_iff.1 hfields
    have hall := itemValues_eq_ok_iff.1 hvalues
    have hlength : (Entries.keys entries).length = values.length := by
      simpa [Entries.keys] using hall.length_eq
    refine ⟨_, rfl, (List.map_fst_zip (Nat.le_of_eq hlength)).symm, ?_⟩
    rwa [List.map_snd_zip (Nat.le_of_eq hlength.symm)]
  · rintro ⟨fields, rfl, hkeys, hall⟩
    have hzip : (Entries.keys entries).zip (fields.map (·.2)) = fields :=
      (List.zip_of_prod hkeys.symm rfl).symm
    rw [itemValues_eq_ok_iff.2 hall, Except.map, hzip]
    rfl

/-- Lists are alike element by element under two relations that are alike on the first list. -/
lemma forall₂_congr_left {α β : Type} {R S : α → β → Prop} {as : List α} {bs : List β}
    (h : ∀ a ∈ as, ∀ b, R a b ↔ S a b) : List.Forall₂ R as bs ↔ List.Forall₂ S as bs := by
  constructor
  · intro hR
    exact ((List.forall₂_and_left as bs).2 ⟨h, hR⟩).imp fun a b hab => (hab.1 b).1 hab.2
  · intro hS
    exact ((List.forall₂_and_left as bs).2 ⟨h, hS⟩).imp fun a b hab => (hab.1 b).2 hab.2

/-- The value of an item is the one that mirrors it, if there is one. -/
theorem toValue_eq_ok_iff {item : Item} {v : Value} : item.toValue = .ok v ↔ item.Mirrors v := by
  induction item using Item.induct generalizing v with
  | string s | boolean b | datetime d | float d | integer n inRange =>
    constructor
    · intro h
      cases h
      constructor
    · intro h
      cases h
      rfl
  | nonFinite x =>
    constructor
    · intro h
      cases h
    · intro h
      cases h
  | array items ih =>
    rw [toValue_array_eq_ok_iff]
    simp only [forall₂_congr_left fun item hmem _ => ih item hmem]
    constructor
    · rintro ⟨values, rfl, h⟩
      exact .array h
    · intro h
      cases h with
      | array h => exact ⟨_, rfl, h⟩
  | table entries ih =>
    rw [toValue_table_eq_ok_iff]
    have ih' : ∀ item ∈ entries.map (·.2), ∀ v, item.toValue = .ok v ↔ item.Mirrors v := by
      intro item hmem v
      obtain ⟨entry, hentry, rfl⟩ := List.mem_map.1 hmem
      exact ih entry hentry
    simp only [forall₂_congr_left ih']
    constructor
    · rintro ⟨fields, rfl, hkeys, h⟩
      exact .table hkeys h
    · intro h
      cases h with
      | table hkeys h => exact ⟨_, rfl, hkeys, h⟩

/-! ### What has no value -/

lemma exists_of_forall₂ {α β : Type} {R : α → β → Prop} {as : List α} {bs : List β}
    (h : List.Forall₂ R as bs) {a : α} (hmem : a ∈ as) : ∃ b ∈ bs, R a b := by
  induction h with
  | nil => cases hmem
  | cons hab _ ih =>
    rcases List.mem_cons.1 hmem with rfl | hmem
    · exact ⟨_, List.mem_cons_self, hab⟩
    · obtain ⟨b, hb, hR⟩ := ih hmem
      exact ⟨b, List.mem_cons_of_mem _ hb, hR⟩

/-- All parts of an item that has a value have one. -/
lemma Within.exists_mirrors {part item : Item} (h : part.Within item) {v : Value}
    (hv : item.Mirrors v) : ∃ w, part.Mirrors w := by
  induction h generalizing v with
  | self => exact ⟨v, hv⟩
  | element hmem _ ih =>
    cases hv with
    | array hall =>
      obtain ⟨w, -, hw⟩ := exists_of_forall₂ hall hmem
      exact ih hw
  | entry hmem _ ih =>
    cases hv with
    | table hkeys hall =>
      obtain ⟨w, -, hw⟩ := exists_of_forall₂ hall (List.mem_map_of_mem hmem)
      exact ih hw

/-- What has no value has a part that is no finite number. -/
lemma within_of_toValue_eq_error {item : Item} {x : NonFinite} (h : item.toValue = .error x) :
    (Item.nonFinite x).Within item := by
  induction item using Item.induct with
  | nonFinite y =>
    cases h
    exact .self
  | array items ih =>
    rw [toValue] at h
    obtain ⟨item, hmem, he⟩ := itemValues_eq_error (Except.map_eq_error_iff.1 h)
    exact .element hmem (ih item hmem he)
  | table entries ih =>
    rw [toValue, entryValues_eq] at h
    have hvalues := Except.map_eq_error_iff.1 (Except.map_eq_error_iff.1 h)
    obtain ⟨item, hmem, he⟩ := itemValues_eq_error hvalues
    obtain ⟨⟨key, item⟩, hentry, rfl⟩ := List.mem_map.1 hmem
    exact .entry hentry (ih (key, item) hentry he)
  | _ => cases h

theorem exists_toValue_eq_error_iff {item : Item} :
    (∃ x, item.toValue = .error x) ↔ ∃ x, (Item.nonFinite x).Within item := by
  constructor
  · rintro ⟨x, h⟩
    exact ⟨x, within_of_toValue_eq_error h⟩
  · rintro ⟨x, hwithin⟩
    cases h : item.toValue with
    | error y => exact ⟨y, rfl⟩
    | ok v =>
      obtain ⟨w, hw⟩ := hwithin.exists_mirrors (toValue_eq_ok_iff.1 h)
      cases hw

/-! ### Items of equal values -/

/-- Whether no part of an item is a date or time. -/
def Dateless (item : Item) : Prop := ∀ d, ¬(Item.datetime d).Within item

namespace Dateless

lemma false_of_datetime {d : Datetime} (h : Dateless (.datetime d)) : False := h d .self

lemma element {items : List Item} (h : Dateless (.array items)) {item : Item}
    (hmem : item ∈ items) : item.Dateless := fun d hd => h d (.element hmem hd)

lemma entry {entries : List (String × Item)} (h : Dateless (.table entries)) {item : Item}
    (hmem : item ∈ entries.map (·.2)) : item.Dateless := by
  obtain ⟨⟨key, item⟩, hentry, rfl⟩ := List.mem_map.1 hmem
  exact fun d hd => h d (.entry hentry hd)

end Dateless

lemma eq_of_forall₂_mirrors {items others : List Item} {values : List Value}
    (h : List.Forall₂ Mirrors items values) (h' : List.Forall₂ Mirrors others values)
    (ih : ∀ a ∈ items, ∀ b ∈ others, ∀ v, a.Mirrors v → b.Mirrors v → a = b) : items = others := by
  induction h generalizing others with
  | nil =>
    cases h'
    rfl
  | cons ha _ ihRest =>
    cases h' with
    | cons hb hrest =>
      rw [ih _ List.mem_cons_self _ List.mem_cons_self _ ha hb,
        ihRest hrest fun a hmem b hmem' =>
          ih a (List.mem_cons_of_mem _ hmem) b (List.mem_cons_of_mem _ hmem')]

/-- A value mirrors one item without dates only. -/
theorem Mirrors.left_unique {a b : Item} {v : Value} (ha : a.Mirrors v) (hb : b.Mirrors v)
    (hda : a.Dateless) (hdb : b.Dateless) : a = b := by
  induction a using Item.induct generalizing b v with
  | datetime d => exact absurd hda Dateless.false_of_datetime
  | array items ih =>
    cases ha with
    | array hall =>
      cases hb with
      | array hall' =>
        rw [eq_of_forall₂_mirrors hall hall' fun a hmem b hmem' v hv hw =>
          ih a hmem hv hw (hda.element hmem) (hdb.element hmem')]
  | table entries ih =>
    cases ha with
    | table hkeys hall =>
      cases hb with
      | @table others _ hkeys' hall' =>
        have hitems : entries.map (·.2) = others.map (·.2) := by
          refine eq_of_forall₂_mirrors hall hall' fun a hmem b hmem' v hv hw => ?_
          obtain ⟨entry, hentry, rfl⟩ := List.mem_map.1 hmem
          exact ih entry hentry hv hw (hda.entry hmem) (hdb.entry hmem')
        have hzip : entries = others := (List.zip_of_prod (hkeys.trans hkeys'.symm) hitems).trans
          (List.zip_of_prod rfl rfl).symm
        rw [hzip]
  | nonFinite x => cases ha
  | string s =>
    cases ha
    cases hb with
    | string => rfl
    | datetime d => exact absurd hdb Dateless.false_of_datetime
  | _ =>
    cases ha
    cases hb
    rfl

lemma forall₂_equal_iff {items others : List Item} {values values' : List Value}
    (h : List.Forall₂ Mirrors items values) (h' : List.Forall₂ Mirrors others values')
    (ih : ∀ a ∈ items, ∀ b ∈ others, ∀ v w, a.Mirrors v → b.Mirrors w →
      (v.equal w = true ↔ a.Equal b)) :
    List.Forall₂ (fun v w => v.equal w = true) values values' ↔
      List.Forall₂ Equal items others := by
  induction h generalizing others values' with
  | nil => cases h' <;> simp
  | cons ha _ ihRest =>
    cases h' with
    | nil => simp
    | cons hb hrest =>
      rw [List.forall₂_cons, List.forall₂_cons,
        ih _ List.mem_cons_self _ List.mem_cons_self _ _ ha hb,
        ihRest hrest fun a hmem b hmem' =>
          ih a (List.mem_cons_of_mem _ hmem) b (List.mem_cons_of_mem _ hmem')]

/-- A key means items and values that mirror each other. -/
lemma rel_get? {entries : List (String × Item)} {fields : List (String × Value)}
    (hkeys : Entries.keys entries = Entries.keys fields)
    (h : List.Forall₂ Mirrors (entries.map (·.2)) (fields.map (·.2))) (key : String) :
    Option.Rel Mirrors (Entries.get? key entries) (Entries.get? key fields) := by
  induction entries generalizing fields with
  | nil =>
    cases fields with
    | nil => exact .none
    | cons field fields => cases hkeys
  | cons entry entries ih =>
    cases fields with
    | nil => cases hkeys
    | cons field fields =>
      obtain ⟨k, item⟩ := entry
      obtain ⟨k', v⟩ := field
      obtain ⟨rfl, hrest⟩ : k = k' ∧ Entries.keys entries = Entries.keys fields := by
        simpa [Entries.keys] using hkeys
      obtain ⟨hitem, hitems⟩ := List.forall₂_cons.1 h
      rw [Entries.get?_cons, Entries.get?_cons]
      split
      · exact .some hitem
      · exact ih hrest hitems

lemma equalOption_iff {a b : Option Item} {v w : Option Value} (ha : Option.Rel Mirrors a v)
    (hb : Option.Rel Mirrors b w)
    (h : ∀ x y v' w', a = some x → b = some y → x.Mirrors v' → y.Mirrors w' →
      (v'.equal w' = true ↔ x.Equal y)) :
    Value.equalOption v w = true ↔ Option.Rel Equal a b := by
  cases ha with
  | none => cases hb <;> simp [Value.equalOption]
  | some hx =>
    cases hb with
    | none => simp [Value.equalOption]
    | some hy =>
      rw [Option.rel_some_some]
      exact h _ _ _ _ rfl rfl hx hy

/-- Values that mirror items without dates are equal exactly if the items are. -/
theorem Mirrors.equal_iff {a b : Item} {v w : Value} (ha : a.Mirrors v) (hb : b.Mirrors w)
    (hda : a.Dateless) (hdb : b.Dateless) : v.equal w = true ↔ a.Equal b := by
  induction a using Item.induct generalizing b v w with
  | datetime d => exact absurd hda Dateless.false_of_datetime
  | nonFinite x => cases ha
  | array items ih =>
    cases ha with
    | array hall =>
      cases hb with
      | array hall' =>
        have hitems := forall₂_equal_iff hall hall' fun a hmem b hmem' v w hv hw =>
          ih a hmem hv hw (hda.element hmem) (hdb.element hmem')
        simp [Value.equal, Value.equalItems_iff, hitems]
      | _ => simp [Value.equal]
  | table entries ih =>
    cases ha with
    | table hkeys hall =>
      cases hb with
      | table hkeys' hall' =>
        have hentry (key : String) := equalOption_iff (rel_get? hkeys hall key)
          (rel_get? hkeys' hall' key) fun a b v w hget hget' hv hw =>
            have hmem := Entries.mem_of_get? hget
            have hmem' := Entries.mem_of_get? hget'
            ih (key, a) hmem hv hw (hda.entry (List.mem_map_of_mem hmem))
              (hdb.entry (List.mem_map_of_mem hmem'))
        simp [Value.equal_object_iff, hentry]
      | _ => simp [Value.equal]
  | string s =>
    cases ha
    cases hb with
    | datetime d => exact absurd hdb Dateless.false_of_datetime
    | _ => simp [Value.equal]
  | _ =>
    cases ha
    cases hb <;> simp [Value.equal, Number.equal]

end Toml.Item

/-! ### Documents -/

namespace Document

variable {name : String} {item : Toml.Item}

lemma ofItem_eq_ok_iff {v : Value} : ofItem name item = .ok v ↔ item.Mirrors v := by
  rw [← Toml.Item.toValue_eq_ok_iff, ofItem]
  cases item.toValue <;> simp

lemma ofItem_eq_error_iff {e : LoadError} :
    ofItem name item = .error e ↔ ∃ x, e = .notFinite name x ∧ item.toValue = .error x := by
  rw [ofItem]
  cases item.toValue <;> simp [eq_comm]

/-- An item has a value unless part of it is no finite number, and the error then names the file and
such a part. The value mirrors the item, and it tells the item from all others without dates, both
as they are written and as what they mean. -/
theorem ofItem_outcome (name : String) (item : Toml.Item) :
    ((∃ e, ofItem name item = .error e) ↔ ∃ x, (Toml.Item.nonFinite x).Within item) ∧
    (∀ e, ofItem name item = .error e →
      ∃ x, e = .notFinite name x ∧ (Toml.Item.nonFinite x).Within item) ∧
    (∀ v, ofItem name item = .ok v ↔ item.Mirrors v) ∧
    ∀ name' other v w, item.Dateless → other.Dateless → ofItem name item = .ok v →
      ofItem name' other = .ok w →
        (v = w → item = other) ∧ (v.equal w = true ↔ item.Equal other) := by
  refine ⟨?_, ?_, fun v => ofItem_eq_ok_iff, ?_⟩
  · rw [← Toml.Item.exists_toValue_eq_error_iff]
    simp only [ofItem_eq_error_iff]
    constructor
    · rintro ⟨e, x, -, h⟩
      exact ⟨x, h⟩
    · rintro ⟨x, h⟩
      exact ⟨.notFinite name x, x, rfl, h⟩
  · intro e he
    obtain ⟨x, rfl, hx⟩ := ofItem_eq_error_iff.1 he
    exact ⟨x, rfl, Toml.Item.within_of_toValue_eq_error hx⟩
  · intro name' other v w hdate hdate' hv hw
    have hitem := ofItem_eq_ok_iff.1 hv
    have hother := ofItem_eq_ok_iff.1 hw
    constructor
    · rintro rfl
      exact hitem.left_unique hother hdate hdate'
    · exact hitem.equal_iff hother hdate hdate'

/-- An infinity in a table in an array is found, and two tables that list a negative zero and a
truth value in different orders are equal as they have equal values. -/
theorem ofItem_outcome_nested :
    (∃ e, ofItem "a.toml" (.array [.boolean true,
      .table [("x", .nonFinite (.infinite false))]]) = .error e) ∧
    (Toml.Item.table [("x", .float (.zero true)), ("y", .boolean true)]).Equal
      (.table [("y", .boolean true), ("x", .float (.zero false))]) := by
  constructor
  · refine (ofItem_outcome _ _).1.2 ⟨.infinite false, ?_⟩
    exact .element (List.mem_cons_of_mem _ List.mem_cons_self) (.entry List.mem_cons_self .self)
  · refine ((ofItem_outcome "a.toml" _).2.2.2 "b.toml" _ _ _ ?_ ?_ rfl rfl).2.1 ?_
    · intro d h
      cases h with
      | entry hmem h =>
        simp only [List.mem_cons, Prod.mk.injEq, List.not_mem_nil, or_false] at hmem
        rcases hmem with ⟨-, rfl⟩ | ⟨-, rfl⟩ <;> cases h
    · intro d h
      cases h with
      | entry hmem h =>
        simp only [List.mem_cons, Prod.mk.injEq, List.not_mem_nil, or_false] at hmem
        rcases hmem with ⟨-, rfl⟩ | ⟨-, rfl⟩ <;> cases h
    · decide

end Document

end GuardedData
