import GuardedData.Proofs.Schema.Diagnostics
import Mathlib.Data.List.Forall2

/-!
# What a schema mentions

A schema mentions the keys of its object nodes and the elements of its typed arrays. Two values that
agree on these are checked alike, wherever they are: both pass, or both fail with the same error,
although an error quotes what it has found (`Schema.deepCheck_eq_of_agrees`). An object node quotes
only what is no object, and an array node only what is no array, so that what lies beside the
mentioned parts is never seen.
-/

namespace GuardedData.Schema

mutual

/-- Whether two values agree on what a schema mentions. -/
def Agrees : Schema → Value → Value → Prop
  | .object fields, .object a, .object b => AgreesFields fields a b
  | .array none, .array _, .array _ => True
  | .array (some element), .array a, .array b =>
    List.Forall₂ (fun x y => element.Agrees x y) a b
  | _, v, w => v = w

/-- Whether two objects agree on some fields: on each key both have values that agree, or both have
none. -/
def AgreesFields : List (String × Schema) → List (String × Value) → List (String × Value) → Prop
  | [], _, _ => True
  | (key, s) :: rest, a, b =>
    Option.Rel (fun x y => s.Agrees x y) (Entries.get? key a) (Entries.get? key b) ∧
      AgreesFields rest a b

end

lemma agrees_leaf {p : Predicate} {v w : Value} : Agrees (.leaf p) v w ↔ v = w := by simp [Agrees]

lemma agreesFields_iff {fields : List (String × Schema)} {a b : List (String × Value)} :
    AgreesFields fields a b ↔ ∀ field ∈ fields,
      Option.Rel field.2.Agrees (Entries.get? field.1 a) (Entries.get? field.1 b) := by
  induction fields with
  | nil => simp [AgreesFields]
  | cons field rest ih =>
    rw [AgreesFields, ih, List.forall_mem_cons]

/-! ### Nodes with parts -/

/-- Fields that check the values of their keys alike check two objects alike. -/
lemma checkFields_congr {fields : List (String × Schema)} {a b : List (String × Value)}
    {path : DataPath} (h : ∀ field ∈ fields,
      Option.Rel
        (fun v w => field.2.check v (path.key field.1) = field.2.check w (path.key field.1))
        (Entries.get? field.1 a) (Entries.get? field.1 b)) :
    checkFields fields a path = checkFields fields b path := by
  induction fields with
  | nil => rw [checkFields, checkFields]
  | cons field rest ih =>
    obtain ⟨key, s⟩ := field
    obtain ⟨hfirst, hrest⟩ := List.forall_mem_cons.1 h
    simp only at hfirst
    generalize ha : Entries.get? key a = x at hfirst
    generalize hb : Entries.get? key b = y at hfirst
    cases hfirst with
    | none => rw [checkFields_cons_of_absent ha, checkFields_cons_of_absent hb]
    | some hcheck =>
      rw [checkFields_cons_of_present ha, checkFields_cons_of_present hb, hcheck, ih hrest]

/-- Values that agree on what a schema mentions are checked alike. -/
theorem Agrees.check_eq {s : Schema} {v w : Value} (h : s.Agrees v w) (path : DataPath) :
    s.check v path = s.check w path := by
  induction s using Schema.induct generalizing v w path with
  | leaf p => rw [agrees_leaf.1 h]
  | object fields ih =>
    cases v with
    | object a =>
      cases w with
      | object b =>
        rw [Agrees] at h
        rw [check, check]
        refine checkFields_congr fun field hmem => ?_
        have hfield := agreesFields_iff.1 h field hmem
        generalize Entries.get? field.1 a = x at hfield ⊢
        generalize Entries.get? field.1 b = y at hfield ⊢
        cases hfield with
        | none => exact .none
        | some hagrees => exact .some (ih field hmem hagrees _)
      | _ => simp [Agrees] at h
    | _ =>
      simp only [Agrees] at h
      rw [h]
  | anyArray =>
    cases v with
    | array a =>
      cases w with
      | array b => rw [check, check]
      | _ => simp [Agrees] at h
    | _ =>
      simp only [Agrees] at h
      rw [h]
  | arrayOf element ih =>
    cases v with
    | array a =>
      cases w with
      | array b =>
        rw [Agrees] at h
        rw [check, check]
        obtain ⟨hlength, hitems⟩ := List.forall₂_iff_get.1 h
        refine checkItems_congr hlength fun i x y hx hy => ?_
        obtain ⟨ha, rfl⟩ := List.getElem?_eq_some_iff.1 hx
        obtain ⟨hb, rfl⟩ := List.getElem?_eq_some_iff.1 hy
        exact ih (hitems i ha hb) _
      | _ => simp [Agrees] at h
    | _ =>
      simp only [Agrees] at h
      rw [h]

/-- **What a schema does not mention is never looked at.** Two values that agree on what a schema
mentions pass its check together, or fail it with the same error. -/
theorem deepCheck_eq_of_agrees {s : Schema} {v w : Value} (h : s.Agrees v w) (path : DataPath) :
    deepCheck (some v) (some s) path = deepCheck (some w) (some s) path := h.check_eq path

/-- Two shops with their keys in another order, other tags and other keys beside the mentioned ones
fail for the same name, also where the author that has it has more than a name. -/
theorem deepCheck_eq_of_agrees_unmentioned_keys :
    let author : Schema := .object [("name", .leaf .string)]
    let s : Schema := .object [("id", .leaf .number), ("tags", .array none),
      ("authors", .array (some author)), ("owner", author)]
    let v : Value := .object [("id", .ofInt 1), ("tags", .array [.string "new"]),
      ("authors", .array [.object [("name", .string "x")],
        .object [("born", .null), ("name", .ofInt 5)]])]
    let w : Value := .object [("secret", .object [("id", .ofInt 7)]),
      ("authors", .array [.object [("name", .string "x"), ("name", .null)],
        .object [("name", .ofInt 5), ("age", .ofInt 3)]]), ("tags", .array []), ("id", .ofInt 1)]
    let path := (DataPath.root "shop").key "stock"
    let e : ValidationError := .checkFailed
      ⟨"shop", [.key "stock", .key "authors", .index 1, .key "name"]⟩ "5"
    s.Agrees v w ∧ deepCheck (some v) (some s) path = .error e ∧
      deepCheck (some w) (some s) path = .error e := by
  intro author s v w path e
  have hauthor (name : Value) (a b : List (String × Value))
      (ha : Entries.get? "name" a = some name) (hb : Entries.get? "name" b = some name) :
      author.Agrees (.object a) (.object b) := by
    simp only [author, Agrees, AgreesFields, ha, hb, and_true]
    exact .some rfl
  have hagrees : s.Agrees v w := by
    simp only [s, v, w, Agrees, AgreesFields, and_true]
    refine ⟨.some rfl, .some trivial, .some ?_, .none⟩
    exact .cons (hauthor _ _ _ rfl rfl) (.cons (hauthor _ _ _ rfl rfl) .nil)
  have he : deepCheck (some v) (some s) path = .error e := rfl
  exact ⟨hagrees, he, (deepCheck_eq_of_agrees hagrees path).symm.trans he⟩

end GuardedData.Schema
