import GuardedData.Proofs.Entries
import GuardedData.Proofs.Except
import GuardedData.Schema.Descriptor
import Mathlib.Data.List.Forall2
import Mathlib.Tactic.Common

/-!
# How descriptors are parsed

The parser is told of by two relations: which schema a descriptor is parsed as (`Parses`), and which
error it is rejected with (`Rejects`). One of the two holds of the answer of the parser to any value
(`answers_parseNode`), and what a descriptor is parsed as does not depend on where it is
(`parseNode_eq_ok_iff`). What is true of all schemas that are parsed, or of all errors, is then
shown by induction on these relations.
-/

namespace List

variable {α β : Type*} {as : List α} {bs : List β}

lemma exists_mem_zip_left (h : as.length = bs.length) {a : α} (ha : a ∈ as) :
    ∃ b, (a, b) ∈ as.zip bs := by
  rw [← map_fst_zip (Nat.le_of_eq h)] at ha
  simpa using ha

lemma exists_mem_zip_right (h : as.length = bs.length) {b : β} (hb : b ∈ bs) :
    ∃ a, (a, b) ∈ as.zip bs := by
  rw [← map_snd_zip (Nat.le_of_eq h.symm)] at hb
  simpa using hb

end List

namespace GuardedData.Schema

/-! ### The two relations -/

/-- Whether a descriptor is parsed as a schema. -/
inductive Parses (r : Registry) : Value → Schema → Prop
  | named {name : String} {p : Predicate} (h : r.lookup name = some p) :
    Parses r (.string name) (.leaf p)
  | anyArray : Parses r (.array []) (.array none)
  | arrayOf {d : Value} {s : Schema} (h : Parses r d s) : Parses r (.array [d]) (.array (some s))
  | oneOf {literals : List Value} (h : literals.any Value.isContainer = false) :
    Parses r (.object [("$enum", .array literals)]) (.leaf (.oneOf literals))
  | anyOf {members : List Value} {predicates : List Predicate}
    (hlength : members.length = predicates.length)
    (h : ∀ d p, (d, p) ∈ members.zip predicates → Parses r d (.leaf p)) :
    Parses r (.object [("$union", .array members)]) (.leaf (.anyOf predicates))
  | orNull {d : Value} {s : Schema} (hnull : d ≠ .null) (h : Parses r d s) :
    Parses r (.object [("$maybeNull", d)]) (.leaf (.orNull s))
  | handleOf (model : String) :
    Parses r (.object [("$model", .string model)]) (.leaf (.handleOf model))
  | object {fields : List (String × Value)} {schemas : List (String × Schema)}
    (hfree : ∀ key ∈ Entries.keys fields, isReserved key = false)
    (hkeys : Entries.keys schemas = Entries.keys (Entries.firsts fields))
    (h : ∀ key d s, Entries.get? key fields = some d → Entries.get? key schemas = some s →
      Parses r d s) : Parses r (.object fields) (.object schemas)

/-- Whether a value at a path is rejected with an error. What comes before the place that is to
blame is parsed. -/
inductive Rejects (r : Registry) : Value → DataPath → ValidationError → Prop
  | unknown {name : String} {path : DataPath} (h : r.lookup name = none) :
    Rejects r (.string name) path (.invalidSchema path)
  | scalar {d : Value} {path : DataPath} (hstring : d.asString? = none)
    (h : d.isContainer = false) : Rejects r d path (.invalidSchema path)
  | elements {items : List Value} {path : DataPath} (h : 1 < items.length) :
    Rejects r (.array items) path (.invalidSchema path)
  | element {d : Value} {path : DataPath} {e : ValidationError} (h : Rejects r d (path.index 0) e) :
    Rejects r (.array [d]) path e
  | literals {d : Value} {path : DataPath} (h : literals? d = none) :
    Rejects r (.object [("$enum", d)]) path (.invalidSchema (path.key "$enum"))
  | members {d : Value} {path : DataPath} (h : ∀ members, d ≠ .array members) :
    Rejects r (.object [("$union", d)]) path (.invalidSchema (path.key "$union"))
  | member {front back : List Value} {d : Value} {path : DataPath} {e : ValidationError}
    (hfront : ∀ c ∈ front, ∃ p, Parses r c (.leaf p))
    (h : Rejects r d ((path.key "$union").index front.length) e) :
    Rejects r (.object [("$union", .array (front ++ d :: back))]) path e
  | branch {front back : List Value} {d : Value} {s : Schema} {path : DataPath}
    (hfront : ∀ c ∈ front, ∃ p, Parses r c (.leaf p)) (h : Parses r d s)
    (hs : ∀ p, s ≠ .leaf p) : Rejects r (.object [("$union", .array (front ++ d :: back))]) path
      (.invalidSchema ((path.key "$union").index front.length))
  | missing {path : DataPath} :
    Rejects r (.object [("$maybeNull", .null)]) path (.missingArgument "maybeNull")
  | argument {d : Value} {path : DataPath} {e : ValidationError} (hnull : d ≠ .null)
    (h : Rejects r d (path.key "$maybeNull") e) : Rejects r (.object [("$maybeNull", d)]) path e
  | model {d : Value} {path : DataPath} (h : d.asString? = none) :
    Rejects r (.object [("$model", d)]) path (.invalidSchema (path.key "$model"))
  | stray {front back : List (String × Value)} {key : String} {d : Value} {path : DataPath}
    (hfront : ∀ k c, Entries.get? k front = some c → isReserved k = false ∧ ∃ s, Parses r c s)
    (hnew : key ∉ Entries.keys front) (hreserved : isReserved key = true)
    (halone : front = [] → back = [] → key ∉ ["$enum", "$union", "$maybeNull", "$model"]) :
    Rejects r (.object (front ++ (key, d) :: back)) path (.invalidSchema (path.key key))
  | field {front back : List (String × Value)} {key : String} {d : Value} {path : DataPath}
    {e : ValidationError}
    (hfront : ∀ k c, Entries.get? k front = some c → isReserved k = false ∧ ∃ s, Parses r c s)
    (hnew : key ∉ Entries.keys front) (hfree : isReserved key = false)
    (h : Rejects r d (path.key key) e) : Rejects r (.object (front ++ (key, d) :: back)) path e

/-! ### What the parser answers -/

/-- Whether an answer to a value at a path is the one that the relations give. -/
def Answers (r : Registry) (d : Value) (path : DataPath) : Except ValidationError Schema → Prop
  | .ok s => Parses r d s
  | .error e => Rejects r d path e

/-- Whether an answer to fields is the one that the relations give, keys seen before apart. -/
def AnswersFields (r : Registry) (seen : List String) (fields : List (String × Value))
    (path : DataPath) : Except ValidationError (List (String × Schema)) → Prop
  | .ok schemas =>
    Entries.Firstwise (fun key d s => isReserved key = false ∧ Parses r d s) seen fields schemas
  | .error e => ∃ front key d back, fields = front ++ (key, d) :: back ∧
    key ∉ seen ∧ key ∉ Entries.keys front ∧
    (∀ k c, k ∉ seen → Entries.get? k front = some c →
      isReserved k = false ∧ ∃ s, Parses r c s) ∧
    (isReserved key = true ∧ e = .invalidSchema (path.key key) ∨
      isReserved key = false ∧ Rejects r d (path.key key) e)

/-- Whether an answer to the members of a union from an index on is the one that the relations
give. -/
def AnswersMembers (r : Registry) (members : List Value) (path : DataPath) (i : Nat) :
    Except ValidationError (List Predicate) → Prop
  | .ok predicates => members.length = predicates.length ∧
    ∀ d p, (d, p) ∈ members.zip predicates → Parses r d (.leaf p)
  | .error e => ∃ front d back, members = front ++ d :: back ∧
    (∀ c ∈ front, ∃ p, Parses r c (.leaf p)) ∧
    (Rejects r d (path.index (i + front.length)) e ∨
      (∃ s, Parses r d s ∧ ∀ p, s ≠ .leaf p) ∧
        e = .invalidSchema (path.index (i + front.length)))

lemma answers_object {r : Registry} {fields : List (String × Value)} {path : DataPath}
    {answer : Except ValidationError (List (String × Schema))}
    (h : AnswersFields r [] fields path answer)
    (halone : ∀ key d, fields = [(key, d)] → isReserved key = false) :
    Answers r (.object fields) path (answer.map .object) := by
  cases answer with
  | ok schemas =>
    have hfields (key : String) (d : Value) (hd : Entries.get? key fields = some d) :=
      h.exists_get? (by simp) hd
    have hkeys : Entries.keys schemas = Entries.keys (Entries.firsts fields) :=
      h.keys_eq.trans (List.filter_eq_self.2 (by simp))
    refine Parses.object (fun key hkey => ?_) hkeys fun key d s hd hs => ?_
    · obtain ⟨d, hd⟩ := Entries.mem_keys_iff.1 hkey
      obtain ⟨_, -, hfree, -⟩ := hfields key d hd
      exact hfree
    · obtain ⟨t, ht, -, hparses⟩ := hfields key d hd
      rwa [Option.some.inj (hs.symm.trans ht)]
  | error e =>
    obtain ⟨front, key, d, back, rfl, -, hnew, hfront, hkey⟩ := h
    have hfront' (k : String) (c : Value) := hfront k c (by simp)
    rcases hkey with ⟨hreserved, rfl⟩ | ⟨hfree, hd⟩
    · refine Rejects.stray hfront' hnew hreserved fun hf hb => ?_
      subst hf hb
      rw [halone key d rfl] at hreserved
      cases hreserved
    · exact Rejects.field hfront' hnew hfree hd

mutual

/-- The parser answers to a value what the relations say. -/
theorem answers_parseNode (r : Registry) :
    ∀ (d : Value) (path : DataPath), Answers r d path (parseNode r d path)
  | .string name, path => by
    rw [parseNode]
    cases h : r.lookup name with
    | some p => exact Parses.named h
    | none => exact Rejects.unknown h
  | .array [], path => Parses.anyArray
  | .array [element], path => by
    rw [parseNode]
    have helement := answers_parseNode r element (path.index 0)
    generalize parseNode r element (path.index 0) = answer at helement ⊢
    cases answer with
    | ok s => exact Parses.arrayOf helement
    | error e => exact Rejects.element helement
  | .object [(key, inner)], path => by
    rw [parseNode]
    split_ifs with hreserved henum hunion hnull hmodel
    · subst henum
      cases hliterals : literals? inner with
      | some literals =>
        cases inner with
        | array items =>
          rw [literals?] at hliterals
          split_ifs at hliterals with hany
          cases hliterals
          exact Parses.oneOf (by simpa using hany)
        | _ => cases hliterals
      | none => exact Rejects.literals hliterals
    · subst hunion
      cases inner with
      | array members =>
        have hmembers := answers_parseMembers r members (path.key "$union") 0
        dsimp only
        generalize parseMembers r members (path.key "$union") 0 = answer at hmembers ⊢
        cases answer with
        | ok predicates => exact Parses.anyOf hmembers.1 hmembers.2
        | error e =>
          obtain ⟨front, d, back, rfl, hfront, hd | ⟨⟨s, hs, hleaf⟩, rfl⟩⟩ := hmembers
          · rw [Nat.zero_add] at hd
            exact Rejects.member hfront hd
          · rw [Nat.zero_add]
            exact Rejects.branch hfront hs hleaf
      | _ => exact Rejects.members (by simp)
    · subst hnull
      have hinner := answers_parseNode r inner (path.key "$maybeNull")
      cases inner with
      | null => exact Rejects.missing
      | _ =>
        dsimp only
        generalize parseNode r _ (path.key "$maybeNull") = answer at hinner ⊢
        cases answer with
        | ok s => exact Parses.orNull (by simp) hinner
        | error e => exact Rejects.argument (by simp) hinner
    · subst hmodel
      cases inner with
      | string model => exact Parses.handleOf model
      | _ => exact Rejects.model rfl
    · have hkey : key ∉ ["$enum", "$union", "$maybeNull", "$model"] := by
        simp [henum, hunion, hnull, hmodel]
      exact @Rejects.stray r [] [] key inner path (by simp) (by simp [Entries.keys]) hreserved
        fun _ _ => hkey
    · refine answers_object (answers_parseFields r [] [(key, inner)] path) fun k d h => ?_
      cases h
      simpa using hreserved
  | .object [], path => answers_object (answers_parseFields r [] [] path) (by simp)
  | .object (first :: second :: rest), path => by
    rw [parseNode]
    · exact answers_object (answers_parseFields r [] (first :: second :: rest) path) (by simp)
    · simp
  | .null, path | .bool _, path | .number _, path => Rejects.scalar rfl rfl
  | .array (_ :: _ :: _), path => Rejects.elements (by simp)
termination_by structural d => d

/-- The parser answers to fields what the relations say. -/
theorem answers_parseFields (r : Registry) : ∀ (seen : List String)
    (fields : List (String × Value)) (path : DataPath),
    AnswersFields r seen fields path (parseFields r seen fields path)
  | seen, [], path => Entries.Firstwise.nil
  | seen, (key, d) :: rest, path => by
    rw [parseFields]
    split_ifs with hseen hreserved
    · have hmem : key ∈ seen := by simpa using hseen
      have hrest := answers_parseFields r seen rest path
      generalize parseFields r seen rest path = answer at hrest ⊢
      cases answer with
      | ok schemas => exact .again hmem hrest
      | error e =>
        obtain ⟨front, key', d', back, rfl, hnew, hother, hfront, hkey⟩ := hrest
        have hne {k : String} (hk : k ∉ seen) : key ≠ k := fun he => hk (he ▸ hmem)
        refine ⟨(key, d) :: front, key', d', back, rfl, hnew, ?_, fun k c hk hc => ?_, hkey⟩
        · simpa [Entries.keys, (hne hnew).symm] using hother
        · rw [Entries.get?_cons, if_neg (hne hk)] at hc
          exact hfront k c hk hc
    · exact ⟨[], key, d, rest, rfl, by simpa using hseen, by simp [Entries.keys], by simp,
        Or.inl ⟨hreserved, rfl⟩⟩
    · have hnew : key ∉ seen := by simpa using hseen
      have hfree : isReserved key = false := by simpa using hreserved
      have hnode := answers_parseNode r d (path.key key)
      generalize parseNode r d (path.key key) = answer at hnode ⊢
      cases answer with
      | error e =>
        exact ⟨[], key, d, rest, rfl, hnew, by simp [Entries.keys], by simp,
          Or.inr ⟨hfree, hnode⟩⟩
      | ok s =>
        have hrest := answers_parseFields r (key :: seen) rest path
        generalize parseFields r (key :: seen) rest path = answer at hrest ⊢
        cases answer with
        | ok schemas => exact .next hnew ⟨hfree, hnode⟩ hrest
        | error e =>
          obtain ⟨front, key', d', back, rfl, hnew', hother, hfront, hkey⟩ := hrest
          simp only [List.mem_cons, not_or] at hnew'
          refine ⟨(key, d) :: front, key', d', back, rfl, hnew'.2, ?_, fun k c hk hc => ?_, hkey⟩
          · simpa [Entries.keys, hnew'.1] using hother
          · rw [Entries.get?_cons] at hc
            split at hc
            · rename_i hkey
              subst hkey
              cases hc
              exact ⟨hfree, s, hnode⟩
            · rename_i hkey
              exact hfront k c (by simp [hk, Ne.symm hkey]) hc
termination_by structural _ fields => fields

/-- The parser answers to members of a union what the relations say. -/
theorem answers_parseMembers (r : Registry) : ∀ (members : List Value) (path : DataPath) (i : Nat),
    AnswersMembers r members path i (parseMembers r members path i)
  | [], path, i => ⟨rfl, by simp⟩
  | d :: rest, path, i => by
    rw [parseMembers]
    have hnode := answers_parseNode r d (path.index i)
    generalize parseNode r d (path.index i) = answer at hnode ⊢
    cases answer with
    | error e => exact ⟨[], d, rest, rfl, by simp, Or.inl hnode⟩
    | ok s =>
      cases s with
      | leaf p =>
        have hrest := answers_parseMembers r rest path (i + 1)
        dsimp only
        generalize parseMembers r rest path (i + 1) = answer at hrest ⊢
        cases answer with
        | ok predicates =>
          refine ⟨congrArg (· + 1) hrest.1, fun c q hmem => ?_⟩
          rcases List.mem_cons.1 hmem with he | hmem
          · cases he
            exact hnode
          · exact hrest.2 c q hmem
        | error e =>
          obtain ⟨front, c, back, rfl, hfront, hc⟩ := hrest
          refine ⟨d :: front, c, back, rfl, List.forall_mem_cons.2 ⟨⟨p, hnode⟩, hfront⟩, ?_⟩
          rwa [List.length_cons, Nat.add_comm front.length 1, ← Nat.add_assoc]
      | _ => exact ⟨[], d, rest, rfl, by simp, Or.inr ⟨⟨_, hnode, by simp⟩, rfl⟩⟩
termination_by structural members => members

end

/-! ### Parsing in any place -/

variable {r : Registry}

lemma firstwise_of_keys {fields : List (String × Value)} {schemas : List (String × Schema)}
    {R : String → Value → Schema → Prop}
    (hfree : ∀ key ∈ Entries.keys fields, isReserved key = false)
    (hkeys : Entries.keys schemas = Entries.keys (Entries.firsts fields))
    (h : ∀ key d s, Entries.get? key fields = some d → Entries.get? key schemas = some s →
      R key d s) :
    Entries.Firstwise (fun key d s => isReserved key = false ∧ R key d s) [] fields schemas := by
  refine .of_keys_eq ?_ fun key d s _ hd hs => ⟨hfree key (Entries.mem_keys_of_get? hd), ?_⟩
  · rw [hkeys, List.filter_eq_self.2 (by simp)]
  · exact h key d s hd hs

lemma parseFields_eq_ok {seen : List String} {fields : List (String × Value)}
    {schemas : List (String × Schema)} (h : Entries.Firstwise (fun key d s =>
      isReserved key = false ∧ ∀ path, parseNode r d path = .ok s) seen fields schemas)
    (path : DataPath) : parseFields r seen fields path = .ok schemas := by
  induction h with
  | nil => rfl
  | again hseen h ih => rw [parseFields, if_pos (by simpa), ih]
  | next hnew hfield h ih =>
    rw [parseFields, if_neg (by simpa), if_neg (by simp [hfield.1]), hfield.2, ih]
    rfl

lemma parseMembers_eq_ok {members : List Value} {predicates : List Predicate}
    (h : List.Forall₂ (fun d p => ∀ path, parseNode r d path = .ok (.leaf p)) members predicates)
    (path : DataPath) (i : Nat) : parseMembers r members path i = .ok predicates := by
  induction h generalizing i with
  | nil => rfl
  | cons hmember h ih =>
    rw [parseMembers, hmember, ih]
    rfl

/-- An object that is not a single reserved key is parsed field by field. -/
lemma parseNode_object (r : Registry) {fields : List (String × Value)}
    (h : ∀ key ∈ Entries.keys fields, isReserved key = false) (path : DataPath) :
    parseNode r (.object fields) path = (parseFields r [] fields path).map .object := by
  match fields, h with
  | [], _ => rfl
  | [(key, d)], h => rw [parseNode, if_neg (by simp [h key (by simp [Entries.keys])])]
  | _ :: _ :: _, _ =>
    rw [parseNode]
    simp

/-- What a descriptor is parsed as, it is parsed as everywhere. -/
theorem Parses.parseNode_eq {d : Value} {s : Schema} (h : Parses r d s) (path : DataPath) :
    parseNode r d path = .ok s := by
  induction h generalizing path with
  | named h => rw [parseNode, h]
  | anyArray => rfl
  | arrayOf h ih =>
    rw [parseNode, ih]
    rfl
  | oneOf h =>
    rw [parseNode, if_pos (by decide), if_pos rfl, literals?, h]
    rfl
  | anyOf hlength h ih =>
    have hmembers := parseMembers_eq_ok
      (List.forall₂_iff_zip.2 ⟨hlength, fun {d p} hmem => ih d p hmem⟩) (path.key "$union") 0
    rw [parseNode, if_pos (by decide), if_neg (by decide), if_pos rfl]
    exact Except.map_eq_ok_iff.2 ⟨_, hmembers, rfl⟩
  | @orNull d s hnull h ih =>
    rw [parseNode, if_pos (by decide), if_neg (by decide), if_neg (by decide), if_pos rfl]
    cases d with
    | null => exact absurd rfl hnull
    | _ => exact Except.map_eq_ok_iff.2 ⟨s, ih _, rfl⟩
  | handleOf model => rfl
  | object hfree hkeys h ih =>
    rw [parseNode_object r hfree, parseFields_eq_ok (firstwise_of_keys hfree hkeys ih)]
    rfl

theorem parseNode_eq_ok_iff {d : Value} {path : DataPath} {s : Schema} :
    parseNode r d path = .ok s ↔ Parses r d s := by
  constructor
  · intro h
    have hanswer := answers_parseNode r d path
    rwa [h] at hanswer
  · exact fun h => h.parseNode_eq path

lemma rejects_of_parseNode {d : Value} {path : DataPath} {e : ValidationError}
    (h : parseNode r d path = .error e) : Rejects r d path e := by
  have hanswer := answers_parseNode r d path
  rwa [h] at hanswer

end GuardedData.Schema
