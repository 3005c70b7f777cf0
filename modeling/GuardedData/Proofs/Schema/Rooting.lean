import GuardedData.Proofs.Schema.Mismatch
import GuardedData.Proofs.Schema.Placement

/-!
# Checks from two roots

A schema that is built from the predicates that are there from the start may be checked from any
path. Checks of one value from two paths succeed together, or they fail with errors that say the
same thing of places that are reached in the same steps, each from its own path
(`Schema.deepCheck_rooted_anywhere`).
-/

namespace GuardedData

/-! ### Errors but for their roots -/

namespace ValidationError

inductive Kind
  | invalidSchema
  | undefinedProperty
  | expectedArray
  | expectedObject
  | checkFailed
  | missingArgument
deriving DecidableEq

def kind : ValidationError → Kind
  | .invalidSchema _ => .invalidSchema
  | .undefinedProperty _ => .undefinedProperty
  | .expectedArray _ _ => .expectedArray
  | .expectedObject _ _ => .expectedObject
  | .checkFailed _ _ => .checkFailed
  | .missingArgument _ => .missingArgument

def got? : ValidationError → Option String
  | .expectedArray _ got | .expectedObject _ got | .checkFailed _ got => some got
  | .invalidSchema _ | .undefinedProperty _ | .missingArgument _ => none

@[simp] lemma kind_under (e : ValidationError) (base : DataPath) :
    (e.under base).kind = e.kind := by
  cases e <;> rfl

@[simp] lemma got?_under (e : ValidationError) (base : DataPath) :
    (e.under base).got? = e.got? := by
  cases e <;> rfl

@[simp] lemma path?_under (e : ValidationError) (base : DataPath) :
    (e.under base).path? = e.path?.map (·.under base) := by
  cases e <;> rfl

/-- Data that does not conform does so at a place. -/
lemma exists_path?_of_isMismatch {e : ValidationError} (h : e.isMismatch = true) :
    ∃ path, e.path? = some path := by
  cases e with
  | invalidSchema path | missingArgument name => cases h
  | undefinedProperty path => exact ⟨path, rfl⟩
  | expectedArray path got | expectedObject path got | checkFailed path got => exact ⟨path, rfl⟩

/-- Whether two errors say the same of places that the same steps lead to, from two paths. -/
structure Alike (p q : DataPath) (e f : ValidationError) : Prop where
  kind : e.kind = f.kind
  got : e.got? = f.got?
  place : ∃ steps, e.path? = some ⟨p.label, p.segments ++ steps⟩ ∧
    f.path? = some ⟨q.label, q.segments ++ steps⟩

/-- An error that is told of a place is alike below any two paths. -/
lemma alike_under {e : ValidationError} (h : e.isMismatch = true) (p q : DataPath) :
    Alike p q (e.under p) (e.under q) := by
  obtain ⟨path, hpath⟩ := exists_path?_of_isMismatch h
  refine ⟨by simp, by simp, path.segments, ?_, ?_⟩
  · rw [path?_under, hpath]
    rfl
  · rw [path?_under, hpath]
    rfl

end ValidationError

namespace Schema

/-- **It makes no difference where a check is rooted.** A value that may be absent passes a schema
from any two paths, or fails from both in the same way: the errors are of one kind, they show the
same thing, and the same steps lead to their places, each from its own path. -/
theorem deepCheck_rooted_anywhere {d : Value} {s : Schema} (h : parse .builtins d = .ok s)
    (value : Option Value) (p q : DataPath) :
    (deepCheck value (some s) p = .ok () ∧ deepCheck value (some s) q = .ok ()) ∨
      ∃ e f, deepCheck value (some s) p = .error e ∧ deepCheck value (some s) q = .error f ∧
        ValidationError.Alike p q e f := by
  have hbuilt := built_of_parse h
  -- Both checks are the check from an empty path, moved.
  have hmove (base : DataPath) : deepCheck value (some s) base =
      (deepCheck value (some s) (.root "")).mapError (·.under base) := by
    have := (hbuilt.movable movable_of_lookup_builtins).deepCheck_under value (.root "") base
    rwa [DataPath.root_under] at this
  rw [hmove p, hmove q]
  cases hroot : deepCheck value (some s) (.root "") with
  | ok => exact Or.inl ⟨rfl, rfl⟩
  | error e =>
    have hmismatch := hbuilt.isMismatch_of_deepCheck hroot
    exact Or.inr ⟨e.under p, e.under q, rfl, rfl, ValidationError.alike_under hmismatch p q⟩

/-- The second owner has an id that no member of a union accepts. The member that objects to a value
inside of the id is not heard, and the nullable wrapper of the owner hands on that the id fails, at
the same steps below a whole post and below one of the posts of a site. -/
theorem deepCheck_rooted_anywhere_union :
    let note : Value := .object [("$maybeNull", .object [("n", .string "number")])]
    let id : Value := .object [("$union", .array [.string "string", note])]
    let d : Value := .object [("owners", .array [.object [("$maybeNull", .object [("id", id)])]])]
    let v : Value := .object [("owners", .array [.null,
      .object [("id", .object [("n", .string "x")])]])]
    let p := DataPath.root "post"
    let q := ((DataPath.root "site").key "posts").index 3
    let steps : List Segment := [.key "owners", .index 1, .key "id"]
    let e : ValidationError := .checkFailed ⟨"post", steps⟩ "\x7b\"n\":\"x\"\x7d"
    let f : ValidationError :=
      .checkFailed ⟨"site", .key "posts" :: .index 3 :: steps⟩ "\x7b\"n\":\"x\"\x7d"
    ∃ s, parse .builtins d = .ok s ∧ deepCheck (some v) (some s) p = .error e ∧
      deepCheck (some v) (some s) q = .error f ∧ ValidationError.Alike p q e f := by
  intro note id d v p q steps e f
  obtain ⟨s, hs⟩ : ∃ s, parse .builtins d = .ok s := ⟨_, rfl⟩
  have he : deepCheck (some v) (some s) p = .error e := by
    cases hs
    rfl
  have hf : deepCheck (some v) (some s) q = .error f := by
    cases hs
    rfl
  refine ⟨s, hs, he, hf, ?_⟩
  rcases deepCheck_rooted_anywhere hs (some v) p q with ⟨hok, -⟩ | ⟨e', f', he', hf', halike⟩
  · rw [he] at hok
    cases hok
  · rw [he] at he'
    rw [hf] at hf'
    cases he'
    cases hf'
    exact halike

end Schema

end GuardedData
