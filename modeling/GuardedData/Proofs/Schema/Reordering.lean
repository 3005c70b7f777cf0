import GuardedData.Proofs.Schema.Diagnostics
import GuardedData.Schema.WatchPaths
import Mathlib.Data.List.Perm.Basic

/-!
# The order of the members of a union

The order in which a union has its members never matters, be it at the root of a descriptor or deep
inside of it (`Schema.parse_of_reordered`). What a descriptor is parsed as does not depend on its
place in a list of members, and schemas that check alike make wholes that check alike
(`Schema.Alike`). The schemas of two descriptors that differ in the order of members are not equal:
the name of a union lists its members.
-/

namespace GuardedData.Schema

/-- Whether a descriptor is another one with the members of unions in it in another order. -/
inductive Reordered : Value → Value → Prop
  | refl (d : Value) : Reordered d d
  | trans {d e f : Value} (h : Reordered d e) (h' : Reordered e f) : Reordered d f
  | members {members others : List Value} (h : members.Perm others) :
    Reordered (.object [("$union", .array members)]) (.object [("$union", .array others)])
  | member {front back : List Value} {d e : Value} (h : Reordered d e) :
    Reordered (.object [("$union", .array (front ++ d :: back))])
      (.object [("$union", .array (front ++ e :: back))])
  | orNull {d e : Value} (h : Reordered d e) :
    Reordered (.object [("$maybeNull", d)]) (.object [("$maybeNull", e)])
  | arrayOf {d e : Value} (h : Reordered d e) : Reordered (.array [d]) (.array [e])
  | field {front back : List (String × Value)} {key : String} {d e : Value}
    (hkey : isReserved key = false) (h : Reordered d e) :
    Reordered (.object (front ++ (key, d) :: back)) (.object (front ++ (key, e) :: back))

/-! ### Schemas that check alike -/

/-- Whether two schemas are of one kind, check alike and have the same nodes to watch. -/
structure Alike (s t : Schema) : Prop where
  check_eq (v : Value) (path : DataPath) : s.check v path = t.check v path
  watchSegments_eq : s.watchSegments = t.watchSegments
  isObject_eq : s.isObject = t.isObject
  isLeaf_eq : s.isLeaf = t.isLeaf

namespace Alike

lemma refl (s : Schema) : Alike s s := ⟨fun _ _ => rfl, rfl, rfl, rfl⟩

lemma trans {s t u : Schema} (h : Alike s t) (h' : Alike t u) : Alike s u where
  check_eq v path := (h.check_eq v path).trans (h'.check_eq v path)
  watchSegments_eq := h.watchSegments_eq.trans h'.watchSegments_eq
  isObject_eq := h.isObject_eq.trans h'.isObject_eq
  isLeaf_eq := h.isLeaf_eq.trans h'.isLeaf_eq

lemma watchPaths_eq {s t : Schema} (h : Alike s t) : s.watchPaths = t.watchPaths := by
  have hsegments := h.watchSegments_eq
  have hobject := h.isObject_eq
  cases s <;> cases t <;> simp_all [watchPaths, watchSegments, isObject]

lemma leaf {p q : Predicate} (h : ∀ v path, p.require v path = q.require v path) :
    Alike (.leaf p) (.leaf q) := ⟨h, by simp [watchSegments], rfl, rfl⟩

lemma accepts_eq {p q : Predicate} (h : Alike (.leaf p) (.leaf q)) (v : Value) (path : DataPath) :
    p.accepts v path = q.accepts v path := by
  have hcheck := h.check_eq v path
  rw [check, check] at hcheck
  rw [Bool.eq_iff_iff, ← Predicate.require_eq_ok_iff, ← Predicate.require_eq_ok_iff, hcheck]

lemma exists_leaf {p : Predicate} {t : Schema} (h : Alike (.leaf p) t) : ∃ q, t = .leaf q := by
  have hleaf := h.isLeaf_eq
  cases t with
  | leaf q => exact ⟨q, rfl⟩
  | _ => cases hleaf

/-! #### Nodes with parts -/

/-- A union answers as any other one whose members accept alike. -/
lemma anyOf_congr {ps qs : List Predicate}
    (h : ∀ v path, ps.any (·.accepts v path) = qs.any (·.accepts v path)) :
    Alike (.leaf (.anyOf ps)) (.leaf (.anyOf qs)) := by
  refine leaf fun v path => ?_
  have hcheck : (Predicate.anyOf ps).check v path = (Predicate.anyOf qs).check v path :=
    congrArg Except.ok (h v path)
  rw [Predicate.require, Predicate.require, hcheck]

lemma anyOf_of_perm {ps qs : List Predicate} (h : ps.Perm qs) :
    Alike (.leaf (.anyOf ps)) (.leaf (.anyOf qs)) := anyOf_congr fun _ _ => h.any_eq

lemma anyOf_of_member {front back : List Predicate} {p q : Predicate}
    (h : Alike (.leaf p) (.leaf q)) :
    Alike (.leaf (.anyOf (front ++ p :: back))) (.leaf (.anyOf (front ++ q :: back))) := by
  refine anyOf_congr fun v path => ?_
  simp only [List.any_append, List.any_cons, h.accepts_eq v path]

lemma orNull {s t : Schema} (h : Alike s t) : Alike (.leaf (.orNull s)) (.leaf (.orNull t)) := by
  refine leaf fun v path => ?_
  by_cases hv : v = .null
  · subst hv
    cases s <;> cases t <;> rfl
  · have hs := check_orNull_of_ne_null (s := s) hv path
    have ht := check_orNull_of_ne_null (s := t) hv path
    rw [check] at hs ht
    rw [hs, ht, h.check_eq]

lemma arrayOf {s t : Schema} (h : Alike s t) : Alike (.array (some s)) (.array (some t)) where
  check_eq v path := by
    cases v with
    | array items =>
      rw [check, check]
      refine checkItems_congr rfl fun i item other hitem hother => ?_
      obtain rfl : item = other := Option.some.inj (hitem.symm.trans hother)
      exact h.check_eq item _
    | _ => rfl
  watchSegments_eq := by simp [watchSegments]
  isObject_eq := rfl
  isLeaf_eq := rfl

/-- Whether two lists of fields have the same keys and schemas that check alike. -/
def Fields (fields others : List (String × Schema)) : Prop :=
  List.Forall₂ (fun field other => field.1 = other.1 ∧ Alike field.2 other.2) fields others

lemma Fields.refl (fields : List (String × Schema)) : Fields fields fields :=
  List.forall₂_same.2 fun field _ => ⟨rfl, Alike.refl field.2⟩

lemma Fields.put {fields : List (String × Schema)} {key : String} {s t : Schema}
    (hget : Entries.get? key fields = some s) (h : Alike s t) :
    Fields fields (Entries.put key t fields) := by
  induction fields with
  | nil => cases hget
  | cons field rest ih =>
    obtain ⟨k, u⟩ := field
    rw [Entries.get?_cons] at hget
    rw [Entries.put]
    split
    · rename_i hk
      rw [if_pos hk] at hget
      cases hget
      exact .cons ⟨rfl, h⟩ (refl rest)
    · rename_i hk
      rw [if_neg hk] at hget
      exact .cons ⟨rfl, Alike.refl u⟩ (ih hget)

lemma Fields.checkFields_eq {fields others : List (String × Schema)} (h : Fields fields others)
    (entries : List (String × Value)) (path : DataPath) :
    checkFields fields entries path = checkFields others entries path := by
  induction h with
  | nil => rfl
  | @cons field other rest rest' hfield _ ih =>
    obtain ⟨key, s⟩ := field
    obtain ⟨key', t⟩ := other
    obtain ⟨rfl, hs⟩ : key = key' ∧ Alike s t := hfield
    cases hget : Entries.get? key entries with
    | none =>
      rw [checkFields_cons_of_absent hget, checkFields_cons_of_absent hget, hs.isObject_eq]
    | some u =>
      rw [checkFields_cons_of_present hget, checkFields_cons_of_present hget, hs.check_eq, ih]

lemma Fields.fieldSegments_eq {fields others : List (String × Schema)} (h : Fields fields others) :
    fieldSegments fields = fieldSegments others := by
  induction h with
  | nil => rfl
  | @cons field other rest rest' hfield _ ih =>
    obtain ⟨key, s⟩ := field
    obtain ⟨key', t⟩ := other
    obtain ⟨rfl, hs⟩ : key = key' ∧ Alike s t := hfield
    rw [fieldSegments, fieldSegments, hs.watchSegments_eq, ih]

lemma object {fields others : List (String × Schema)} (h : Fields fields others) :
    Alike (.object fields) (.object others) where
  check_eq v path := by
    cases v with
    | object entries =>
      rw [check, check]
      exact h.checkFields_eq entries path
    | _ => rfl
  watchSegments_eq := by
    rw [watchSegments, watchSegments]
    exact h.fieldSegments_eq
  isObject_eq := rfl
  isLeaf_eq := rfl

end Alike

/-! ### Forms that are parsed -/

section Forms

variable {r : Registry} {s : Schema}

lemma Parses.ne_null {d : Value} (h : Parses r d s) : d ≠ .null := by
  rintro rfl
  cases h

lemma parses_arrayOf_iff {d : Value} :
    Parses r (.array [d]) s ↔ ∃ t, Parses r d t ∧ s = .array (some t) := by
  constructor
  · intro h
    cases h with
    | arrayOf h => exact ⟨_, h, rfl⟩
  · rintro ⟨t, h, rfl⟩
    exact .arrayOf h

lemma parses_union_iff {members : List Value} :
    Parses r (.object [("$union", .array members)]) s ↔
      ∃ ps, List.Forall₂ (fun d p => Parses r d (.leaf p)) members ps ∧ s = .leaf (.anyOf ps) := by
  constructor
  · intro h
    generalize hd : Value.object [("$union", .array members)] = d at h
    cases h with
    | anyOf hlength h =>
      cases hd
      exact ⟨_, List.forall₂_iff_zip.2 ⟨hlength, fun {d p} hmem => h d p hmem⟩, rfl⟩
    | object hfree =>
      cases hd
      simp [Entries.keys, isReserved] at hfree
    | _ => simp at hd
  · rintro ⟨ps, h, rfl⟩
    obtain ⟨hlength, h⟩ := List.forall₂_iff_zip.1 h
    exact .anyOf hlength fun d p hmem => h hmem

lemma parses_orNull_iff {d : Value} :
    Parses r (.object [("$maybeNull", d)]) s ↔ ∃ t, Parses r d t ∧ s = .leaf (.orNull t) := by
  constructor
  · intro h
    generalize hd : Value.object [("$maybeNull", d)] = d' at h
    cases h with
    | orNull hnull h =>
      cases hd
      exact ⟨_, h, rfl⟩
    | object hfree =>
      cases hd
      simp [Entries.keys, isReserved] at hfree
    | _ => simp at hd
  · rintro ⟨t, h, rfl⟩
    exact .orNull h.ne_null h

/-- An object with a key that is not reserved is parsed field by field. -/
lemma Parses.exists_schemas {fields : List (String × Value)} {key : String}
    (hmem : key ∈ Entries.keys fields) (hkey : isReserved key = false)
    (h : Parses r (.object fields) s) : ∃ schemas, s = .object schemas ∧
      (∀ key ∈ Entries.keys fields, isReserved key = false) ∧
      Entries.keys schemas = Entries.keys (Entries.firsts fields) ∧
      ∀ key d s, Entries.get? key fields = some d → Entries.get? key schemas = some s →
        Parses r d s := by
  have hnot {k : String} {d : Value} (hk : isReserved k = true) : fields ≠ [(k, d)] := by
    rintro rfl
    rw [List.mem_singleton.1 hmem, hk] at hkey
    cases hkey
  generalize hd : Value.object fields = d at h
  cases h with
  | object hfree hkeys h =>
    cases hd
    exact ⟨_, rfl, hfree, hkeys, h⟩
  | oneOf | anyOf | orNull | handleOf =>
    exact absurd (Value.object.inj hd) (hnot (by decide))
  | _ => cases hd

end Forms

/-! ### Members in another order -/

/-- Where one field is parsed alike, so are all fields together. -/
lemma exists_parses_of_field {r : Registry} {d e : Value}
    (h : ∀ {s}, Parses r d s → ∃ t, Parses r e t ∧ Alike s t) {front back : List (String × Value)}
    {key : String} (hkey : isReserved key = false) {s : Schema}
    (hs : Parses r (.object (front ++ (key, d) :: back)) s) :
    ∃ t, Parses r (.object (front ++ (key, e) :: back)) t ∧ Alike s t := by
  obtain ⟨schemas, rfl, hfree, hkeys, hparses⟩ := hs.exists_schemas (by simp [Entries.keys]) hkey
  have hsame : Entries.keys (front ++ (key, e) :: back) =
      Entries.keys (front ++ (key, d) :: back) := by simp [Entries.keys]
  rw [← Entries.keys_firsts_congr hsame] at hkeys
  rw [← hsame] at hfree
  by_cases hfront : key ∈ Entries.keys front
  · -- The field is behind another one of its key and is not looked at.
    obtain ⟨c, hc⟩ := Entries.mem_keys_iff.1 hfront
    refine ⟨.object schemas, .object hfree hkeys fun k v t hv ht => hparses k v t ?_ ht, .refl _⟩
    by_cases hk : k = key
    · subst hk
      rw [Entries.get?_append, hc] at hv ⊢
      exact hv
    · rwa [Entries.get?_replace_of_ne hk front d e back]
  · have hnone : Entries.get? key front = none := Entries.get?_eq_none_iff.2 hfront
    have hd : Entries.get? key (front ++ (key, d) :: back) = some d := by
      simp [Entries.get?_append, hnone, Entries.get?_cons]
    have he : Entries.get? key (front ++ (key, e) :: back) = some e := by
      simp [Entries.get?_append, hnone, Entries.get?_cons]
    obtain ⟨u, hu⟩ := (Entries.exists_get?_iff hkeys key).2 ⟨e, he⟩
    obtain ⟨t, ht, halike⟩ := h (hparses key d u hd hu)
    have hput : Entries.keys (Entries.put key t schemas) = Entries.keys schemas := by
      rw [Entries.keys_put, if_pos (Entries.mem_keys_of_get? hu)]
    refine ⟨.object (Entries.put key t schemas), .object hfree (hput.trans hkeys) ?_,
      .object (.put hu halike)⟩
    intro k v t' hv ht'
    by_cases hk : k = key
    · subst hk
      rw [he] at hv
      rw [Entries.get?_put_self] at ht'
      cases hv
      cases ht'
      exact ht
    · rw [Entries.get?_put_of_ne hk] at ht'
      exact hparses k v t' (by rwa [Entries.get?_replace_of_ne hk front d e back]) ht'

/-- What a descriptor is parsed as checks alike with members of unions in another order. -/
theorem Reordered.exists_parses {r : Registry} {d e : Value} (h : Reordered d e) {s : Schema}
    (hs : Parses r d s) : ∃ t, Parses r e t ∧ Alike s t := by
  induction h generalizing s with
  | refl d => exact ⟨s, hs, .refl s⟩
  | trans _ _ ih ih' =>
    obtain ⟨t, ht, hst⟩ := ih hs
    obtain ⟨u, hu, htu⟩ := ih' ht
    exact ⟨u, hu, hst.trans htu⟩
  | members hperm =>
    obtain ⟨ps, hps, rfl⟩ := parses_union_iff.1 hs
    obtain ⟨qs, hqs, hpq⟩ := List.perm_comp_forall₂ hperm.symm hps
    exact ⟨_, parses_union_iff.2 ⟨qs, hqs, rfl⟩, .anyOf_of_perm hpq.symm⟩
  | @member front back d e _ ih =>
    obtain ⟨ps, hps, rfl⟩ := parses_union_iff.1 hs
    have hbefore := (List.forall₂_take_append _ _ _ hps.flip).flip
    have hbehind := (List.forall₂_drop_append _ _ _ hps.flip).flip
    rw [← ps.take_append_drop front.length]
    generalize ps.drop front.length = behind at hbehind ⊢
    cases hbehind with
    | cons hp hback =>
      obtain ⟨t, ht, halike⟩ := ih hp
      obtain ⟨q, rfl⟩ := halike.exists_leaf
      refine ⟨_, parses_union_iff.2 ⟨_, ?_, rfl⟩, halike.anyOf_of_member⟩
      exact List.rel_append hbefore (.cons ht hback)
  | orNull _ ih =>
    obtain ⟨inner, hinner, rfl⟩ := parses_orNull_iff.1 hs
    obtain ⟨t, ht, halike⟩ := ih hinner
    exact ⟨_, parses_orNull_iff.2 ⟨t, ht, rfl⟩, halike.orNull⟩
  | arrayOf _ ih =>
    obtain ⟨element, helement, rfl⟩ := parses_arrayOf_iff.1 hs
    obtain ⟨t, ht, halike⟩ := ih helement
    exact ⟨_, parses_arrayOf_iff.2 ⟨t, ht, rfl⟩, halike.arrayOf⟩
  | field hkey _ ih => exact exists_parses_of_field ih hkey hs

/-- **The order of the members of a union never matters.** Over any registry, a descriptor with
the members of unions in it in another order is read too, and what it is read as answers for each
value and label as before, with the same error, and has the same watch paths. A union itself, of any
predicates, raises no error: it accepts what one of its members accepts, whichever others raise an
error, in any order of them. -/
theorem parse_of_reordered (r : Registry) :
    (∀ d e s, Reordered d e → parse r d = .ok s → ∃ t, parse r e = .ok t ∧
      (∀ v label, validate v t label = validate v s label) ∧ t.watchPaths = s.watchPaths) ∧
    ∀ (members : List Predicate) (v : Value) (path : DataPath),
      (∃ b, (Predicate.anyOf members).check v path = .ok b ∧
        (b = true ↔ ∃ p ∈ members, p.check v path = .ok true)) ∧
      ∀ others : List Predicate, members.Perm others →
        (Predicate.anyOf others).check v path = (Predicate.anyOf members).check v path := by
  constructor
  · intro d e s h hs
    obtain ⟨t, ht, halike⟩ := h.exists_parses (parseNode_eq_ok_iff.1 hs)
    exact ⟨t, ht.parseNode_eq _, fun v label => (halike.check_eq v _).symm,
      halike.watchPaths_eq.symm⟩
  · intro members v path
    refine ⟨⟨_, rfl, ?_⟩, fun others hperm => congrArg Except.ok hperm.symm.any_eq⟩
    rw [List.any_eq_true]
    refine exists_congr fun p => and_congr_right fun _ => ?_
    rw [Predicate.accepts]
    cases p.check v path <;> simp

/-- A union with a member that always raises an error, a nullable object node and another union has
its members turned around, and those of the union in it. An owner that no member accepts is told of
at the same place, and one that the last member accepts passes in spite of the error. -/
theorem parse_of_reordered_raising_member :
    let r := Registry.builtins.register "picky"
      ⟨"picky", fun _ path => .error (.invalidSchema path)⟩
    let nullable : Value := .object [("$maybeNull", .object [("id", .string "number")])]
    let union (members : List Value) : Value := .object [("$union", .array members)]
    let d (owner : Value) : Value := .object [("name", .string "string"),
      ("owners", .array [.object [("$maybeNull", owner)]])]
    let first := d (union [.string "picky", nullable, union [.string "boolean", .string "string"]])
    let second := d (union [union [.string "string", .string "boolean"], nullable, .string "picky"])
    let data (owner : Value) : Value :=
      .object [("owners", .array [.null, owner]), ("name", .string "x")]
    let e : ValidationError := .checkFailed ⟨"post", [.key "owners", .index 1]⟩ "7"
    Reordered first second ∧ ∃ s t, parse r first = .ok s ∧ parse r second = .ok t ∧
      validate (data (.ofInt 7)) s "post" = .error e ∧
      validate (data (.ofInt 7)) t "post" = .error e ∧
      validate (data (.string "y")) s "post" = .ok () ∧
      validate (data (.string "y")) t "post" = .ok () ∧
      s.watchPaths = ["name", "owners"] ∧ t.watchPaths = ["name", "owners"] := by
  intro r nullable union d first second data e
  have hd {owner owner' : Value} (h : Reordered owner owner') : Reordered (d owner) (d owner') :=
    @Reordered.field [("name", .string "string")] [] "owners" _ _ (by decide) (.arrayOf (.orNull h))
  have hinner : Reordered (union [.string "boolean", .string "string"])
      (union [.string "string", .string "boolean"]) := .members (.swap ..)
  have houter (inner : Value) : Reordered (union [.string "picky", nullable, inner])
      (union [inner, nullable, .string "picky"]) := .members (List.reverse_perm _).symm
  have hreordered : Reordered first second :=
    hd ((houter _).trans (@Reordered.member [] _ _ _ hinner))
  obtain ⟨s, hs⟩ : ∃ s, parse r first = .ok s := ⟨_, rfl⟩
  obtain ⟨t, ht, hvalidate, hwatch⟩ := (parse_of_reordered r).1 first second s hreordered hs
  have hfails : validate (data (.ofInt 7)) s "post" = .error e := by
    cases hs
    rfl
  have hpasses : validate (data (.string "y")) s "post" = .ok () := by
    cases hs
    rfl
  have hpaths : s.watchPaths = ["name", "owners"] := by
    cases hs
    decide
  exact ⟨hreordered, s, t, hs, ht, hfails, (hvalidate ..).trans hfails, hpasses,
    (hvalidate ..).trans hpasses, hpaths, hwatch.trans hpaths⟩

end GuardedData.Schema
