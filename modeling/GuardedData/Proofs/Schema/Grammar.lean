import GuardedData.Proofs.Schema.Built
import GuardedData.Proofs.Value.Location

/-!
# The grammar of descriptors

The descriptors over a registry are those of a grammar (`Schema.IsDescriptor`). Each part of a value
has a role, which says what the part has to be, whatever is in it (`Schema.Role.admits`). A value is
read as a schema exactly if it is a descriptor, and else the error is that of the first part that is
not admitted (`Schema.parse_outcome`). Parts come depth first and from left to right, each one
behind the parts in it; this order matters only for a member of a union, whose own parts are read
before it is asked to be a leaf.
-/

namespace GuardedData.Schema

/-! ### Descriptors -/

/-- Whether a value has the form of a leaf: a name, or one of the four reserved keys alone. -/
def isLeafForm : Value → Bool
  | .string _ => true
  | .object [(key, _)] => ["$enum", "$union", "$maybeNull", "$model"].contains key
  | _ => false

/-- Whether a value is a descriptor over a registry of names. -/
inductive IsDescriptor (r : Registry) : Value → Prop
  | named {name : String} (h : name ∈ r.names) : IsDescriptor r (.string name)
  | anyArray : IsDescriptor r (.array [])
  | arrayOf {d : Value} (h : IsDescriptor r d) : IsDescriptor r (.array [d])
  | oneOf {literals : List Value} (h : ∀ v ∈ literals, v.isContainer = false) :
    IsDescriptor r (.object [("$enum", .array literals)])
  | anyOf {members : List Value} (hleaf : ∀ d ∈ members, isLeafForm d = true)
    (h : ∀ d ∈ members, IsDescriptor r d) : IsDescriptor r (.object [("$union", .array members)])
  | orNull {d : Value} (hnull : d ≠ .null) (h : IsDescriptor r d) :
    IsDescriptor r (.object [("$maybeNull", d)])
  | handleOf (model : String) : IsDescriptor r (.object [("$model", .string model)])
  | object {fields : List (String × Value)}
    (hkeys : ∀ key ∈ Entries.keys fields, isReserved key = false)
    (h : ∀ key d, Entries.get? key fields = some d → IsDescriptor r d) :
    IsDescriptor r (.object fields)

/-! ### Parts -/

/-- What a part of a value stands for. -/
inductive Role
  | node
  | member
  | argument
  | literals
  | members
  | model
  | stray

namespace Role

def isDescriptor : Role → Bool
  | .node | .member | .argument => true
  | _ => false

/-- The role of what is behind a key of an object, which may be its only key. -/
def ofKey (alone : Bool) (key : String) : Role :=
  if !isReserved key then .node
  else if !alone then .stray
  else if key = "$enum" then .literals
  else if key = "$union" then .members
  else if key = "$maybeNull" then .argument
  else if key = "$model" then .model
  else .stray

@[simp] lemma ofKey_enum : ofKey true "$enum" = .literals := rfl

@[simp] lemma ofKey_union : ofKey true "$union" = .members := rfl

@[simp] lemma ofKey_maybeNull : ofKey true "$maybeNull" = .argument := rfl

@[simp] lemma ofKey_model : ofKey true "$model" = .model := rfl

lemma ofKey_of_not_isReserved {key : String} (h : isReserved key = false) (alone : Bool) :
    ofKey alone key = .node := by
  rw [ofKey, h]
  rfl

/-- The role of the elements of an array of some length, if they have one. -/
def ofElements? (role : Role) (length : Nat) : Option Role :=
  match role with
  | .members => some .member
  | .node | .member | .argument => if length = 1 then some .node else none
  | _ => none

/-- Whether a value could be a descriptor, whatever is in it. -/
def isFormed (r : Registry) : Value → Bool
  | .string name => r.names.contains name
  | .array items => items.length ≤ 1
  | .object _ => true
  | _ => false

/-- Whether a value can have a role, as far as its parts are not concerned. -/
def admits (r : Registry) : Role → Value → Bool
  | .node, v | .argument, v => isFormed r v
  | .member, v => isFormed r v && isLeafForm v
  | .literals, .array items => items.all (!·.isContainer)
  | .members, .array _ => true
  | .model, .string _ => true
  | _, _ => false

end Role

/-- A part of a value: its role, the steps that lead to it, and what is there. -/
structure Part where
  role : Role
  steps : List Segment
  value : Value

namespace Part

/-- Whether a part cannot have its role. -/
def offends (r : Registry) (part : Part) : Bool := !part.role.admits r part.value

/-- What is to be said about a part that cannot have its role. -/
def error : Part → ValidationError
  | ⟨.argument, _, .null⟩ => .missingArgument "maybeNull"
  | ⟨_, steps, _⟩ => .invalidSchema ⟨"schema", steps⟩

end Part

mutual

/-- The parts inside a value of some role. -/
def partsInside (role : Role) (steps : List Segment) : Value → List Part
  | .array items =>
    match role.ofElements? items.length with
    | some role => itemParts role steps 0 items
    | none => []
  | .object entries =>
    if role.isDescriptor then entryParts (entries.length == 1) steps [] entries else []
  | _ => []

/-- The parts of array elements from an index on. -/
def itemParts (role : Role) (steps : List Segment) : Nat → List Value → List Part
  | _, [] => []
  | i, v :: rest =>
    let at_ := steps ++ [.index i]
    (partsInside role at_ v ++ [⟨role, at_, v⟩]) ++ itemParts role steps (i + 1) rest

/-- The parts of object entries, those of keys seen before apart. -/
def entryParts (alone : Bool) (steps : List Segment) (seen : List String) :
    List (String × Value) → List Part
  | [] => []
  | (key, v) :: rest =>
    if seen.contains key then entryParts alone steps seen rest
    else
      let role := Role.ofKey alone key
      let at_ := steps ++ [.key key]
      (partsInside role at_ v ++ [⟨role, at_, v⟩]) ++ entryParts alone steps (key :: seen) rest

end

def parts (role : Role) (steps : List Segment) (v : Value) : List Part :=
  partsInside role steps v ++ [⟨role, steps, v⟩]

/-- The first part of a value that cannot have its role, where the value is to be a descriptor. -/
def firstOffence? (r : Registry) (d : Value) : Option Part :=
  (parts .node [] d).find? (·.offends r)

lemma itemParts_cons (role : Role) (steps : List Segment) (i : Nat) (v : Value)
    (rest : List Value) : itemParts role steps i (v :: rest) =
      parts role (steps ++ [.index i]) v ++ itemParts role steps (i + 1) rest := rfl

lemma entryParts_cons (alone : Bool) (steps : List Segment) (seen : List String) (key : String)
    (v : Value) (rest : List (String × Value)) :
    entryParts alone steps seen ((key, v) :: rest) =
      if seen.contains key then entryParts alone steps seen rest
      else parts (.ofKey alone key) (steps ++ [.key key]) v ++
        entryParts alone steps (key :: seen) rest := rfl

lemma itemParts_append (role : Role) (steps : List Segment) (i : Nat) (front back : List Value) :
    itemParts role steps i (front ++ back) =
      itemParts role steps i front ++ itemParts role steps (i + front.length) back := by
  induction front generalizing i with
  | nil => rfl
  | cons v rest ih =>
    rw [List.cons_append, itemParts_cons, itemParts_cons, ih, List.append_assoc, List.length_cons,
      Nat.add_assoc, Nat.add_comm 1]

lemma exists_entryParts_append {alone : Bool} {steps : List Segment} {seen : List String}
    {front : List (String × Value)} {key : String} (hseen : key ∉ seen)
    (hfront : key ∉ Entries.keys front) (v : Value) (back : List (String × Value)) :
    ∃ later, entryParts alone steps seen (front ++ (key, v) :: back) =
      entryParts alone steps seen front ++ (parts (.ofKey alone key) (steps ++ [.key key]) v ++
        later) := by
  induction front generalizing seen with
  | nil =>
    have hnew : ¬seen.contains key = true := by simpa using hseen
    rw [List.nil_append, entryParts_cons, if_neg hnew]
    exact ⟨_, rfl⟩
  | cons entry rest ih =>
    obtain ⟨k, w⟩ := entry
    simp only [Entries.keys, List.map_cons, List.mem_cons, not_or] at hfront
    rw [List.cons_append, entryParts_cons, entryParts_cons]
    split
    · exact ih hseen hfront.2
    · have hnew : key ∉ k :: seen := by simp [hseen, hfront.1]
      obtain ⟨later, hlater⟩ := ih hnew hfront.2
      exact ⟨later, by rw [hlater, List.append_assoc]⟩

lemma mem_itemParts {role : Role} {steps : List Segment} {i : Nat} {items : List Value}
    {part : Part} (h : part ∈ itemParts role steps i items) :
    ∃ j item, items[j]? = some item ∧ part ∈ parts role (steps ++ [.index (i + j)]) item := by
  induction items generalizing i with
  | nil => cases h
  | cons v rest ih =>
    rcases List.mem_append.1 (itemParts_cons .. ▸ h) with hv | hrest
    · exact ⟨0, v, rfl, hv⟩
    · obtain ⟨j, item, hitem, hpart⟩ := ih hrest
      refine ⟨j + 1, item, hitem, ?_⟩
      rwa [Nat.add_comm j 1, ← Nat.add_assoc]

lemma mem_entryParts {alone : Bool} {steps : List Segment} {seen : List String}
    {entries : List (String × Value)} {part : Part}
    (h : part ∈ entryParts alone steps seen entries) : ∃ key v, key ∉ seen ∧
      Entries.get? key entries = some v ∧
        part ∈ parts (.ofKey alone key) (steps ++ [.key key]) v :=
  Entries.exists_of_mem_walk (fun _ => rfl) (fun _ _ _ _ => rfl) h

/-- The steps of a part lead to it. -/
lemma along?_of_mem_parts {v : Value} {role : Role} {steps : List Segment} {part : Part}
    (h : part ∈ parts role steps v) :
    ∃ rest, part.steps = steps ++ rest ∧ v.along? rest = some part.value := by
  have hself {role : Role} {steps : List Segment} {w : Value} (h : part ∈ [⟨role, steps, w⟩]) :
      ∃ rest, part.steps = steps ++ rest ∧ w.along? rest = some part.value := by
    rw [List.mem_singleton] at h
    subst h
    exact ⟨[], by simp, rfl⟩
  induction v using Value.induct generalizing role steps with
  | array items ih =>
    rcases List.mem_append.1 h with hinside | h
    · rw [partsInside] at hinside
      split at hinside
      · obtain ⟨i, item, hitem, hpart⟩ := mem_itemParts hinside
        rw [Nat.zero_add] at hpart
        obtain ⟨rest, hsteps, hrest⟩ := ih item (List.mem_of_getElem? hitem) hpart
        refine ⟨.index i :: rest, by simp [hsteps], ?_⟩
        rw [Value.along?, Value.step?, hitem, Option.bind_some, hrest]
      · cases hinside
    · exact hself h
  | object entries ih =>
    rcases List.mem_append.1 h with hinside | h
    · rw [partsInside] at hinside
      split at hinside
      · obtain ⟨key, d, -, hget, hpart⟩ := mem_entryParts hinside
        obtain ⟨rest, hsteps, hrest⟩ := ih (key, d) (Entries.mem_of_get? hget) hpart
        refine ⟨.key key :: rest, by simp [hsteps], ?_⟩
        rw [Value.along?, Value.step?, hget, Option.bind_some, hrest]
      · cases hinside
    · exact hself h
  | _ =>
    rcases List.mem_append.1 h with hinside | h
    · cases hinside
    · exact hself h

/-! ### What is read -/

def isLeaf : Schema → Bool
  | .leaf _ => true
  | _ => false

lemma isLeafForm_of_not_isReserved {key : String} {inner : Value} (h : isReserved key = false) :
    isLeafForm (.object [(key, inner)]) = false := by
  by_contra hleaf
  have hmem : key ∈ ["$enum", "$union", "$maybeNull", "$model"] :=
    List.contains_iff_mem.1 (eq_true_of_ne_false hleaf)
  have hall : ∀ k ∈ ["$enum", "$union", "$maybeNull", "$model"], isReserved k = true := by decide
  rw [hall key hmem] at h
  cases h

/-- What is parsed has the form of a leaf if it is parsed as one. -/
lemma Parses.isLeafForm_eq {r : Registry} {d : Value} {s : Schema} (h : Parses r d s) :
    isLeafForm d = s.isLeaf := by
  cases h with
  | @object fields schemas hfree =>
    match fields, hfree with
    | [], _ | _ :: _ :: _, _ => rfl
    | [(key, inner)], hfree =>
      exact isLeafForm_of_not_isReserved (hfree key (by simp [Entries.keys]))
  | _ => rfl

/-- What is parsed is a descriptor. -/
lemma Parses.isDescriptor {r : Registry} {d : Value} {s : Schema} (h : Parses r d s) :
    IsDescriptor r d := by
  induction h with
  | named h => exact .named (Entries.mem_keys_of_get? h)
  | anyArray => exact .anyArray
  | arrayOf h ih => exact .arrayOf ih
  | oneOf h => exact .oneOf (by simpa using h)
  | anyOf hlength h ih =>
    refine .anyOf (fun d hd => ?_) fun d hd => ?_
    · obtain ⟨p, hmem⟩ := List.exists_mem_zip_left hlength hd
      exact (h d p hmem).isLeafForm_eq
    · obtain ⟨p, hmem⟩ := List.exists_mem_zip_left hlength hd
      exact ih d p hmem
  | orNull hnull h ih => exact .orNull hnull ih
  | handleOf model => exact .handleOf model
  | object hfree hkeys h ih =>
    refine .object hfree fun key d hd => ?_
    obtain ⟨s, hs⟩ := (Entries.exists_get?_iff hkeys key).2 ⟨d, hd⟩
    exact ih key d s hd hs

/-! ### What is in a descriptor -/

lemma partsInside_of_isDescriptor {role : Role} (h : role.isDescriptor = true)
    (steps : List Segment) (v : Value) : partsInside role steps v = partsInside .node steps v := by
  cases role <;> cases h <;> cases v <;> rfl

lemma partsInside_singleton (steps : List Segment) (d : Value) :
    partsInside .node steps (.array [d]) = parts .node (steps ++ [.index 0]) d := by
  simp [partsInside, Role.ofElements?, itemParts, parts]

lemma partsInside_alone (steps : List Segment) (key : String) (v : Value) :
    partsInside .node steps (.object [(key, v)]) =
      parts (.ofKey true key) (steps ++ [.key key]) v := by
  simp [partsInside, Role.isDescriptor, entryParts, parts]

lemma IsDescriptor.isFormed {r : Registry} {d : Value} (h : IsDescriptor r d) :
    Role.isFormed r d = true := by
  cases h with
  | named h => simpa [Role.isFormed] using h
  | _ => rfl

lemma not_offends_of_partsInside {r : Registry} {d : Value} {role : Role} {steps : List Segment}
    (hrole : role.isDescriptor = true) (hleaf : role = .member → isLeafForm d = true)
    (h : IsDescriptor r d) (hinside : ∀ part ∈ partsInside .node steps d, part.offends r = false) :
    ∀ part ∈ parts role steps d, part.offends r = false := by
  intro part hpart
  rcases List.mem_append.1 hpart with hpart | hself
  · rw [partsInside_of_isDescriptor hrole] at hpart
    exact hinside part hpart
  · rw [List.mem_singleton] at hself
    subst hself
    cases role <;> cases hrole
    · simp [Part.offends, Role.admits, h.isFormed]
    · simp [Part.offends, Role.admits, h.isFormed, hleaf rfl]
    · simp [Part.offends, Role.admits, h.isFormed]

/-- All parts inside a descriptor can have their roles. -/
lemma IsDescriptor.not_offends_inside {r : Registry} {d : Value} (h : IsDescriptor r d)
    (steps : List Segment) : ∀ part ∈ partsInside .node steps d, part.offends r = false := by
  induction h generalizing steps with
  | named h => simp [partsInside]
  | anyArray => simp [partsInside, Role.ofElements?]
  | arrayOf h ih =>
    rw [partsInside_singleton]
    exact not_offends_of_partsInside rfl (by simp) h (ih _)
  | oneOf h =>
    rw [partsInside_alone, Role.ofKey_enum]
    intro part hpart
    rw [List.mem_singleton.1 hpart]
    simpa [Part.offends, Role.admits] using h
  | anyOf hleaf h ih =>
    rw [partsInside_alone, Role.ofKey_union]
    intro part hpart
    rcases List.mem_append.1 hpart with hinside | hself
    · obtain ⟨i, member, hmember, hpart⟩ := mem_itemParts hinside
      have hmem := List.mem_of_getElem? hmember
      exact not_offends_of_partsInside rfl (fun _ => hleaf _ hmem) (h _ hmem) (ih _ hmem _) part
        hpart
    · rw [List.mem_singleton.1 hself]
      rfl
  | orNull hnull h ih =>
    rw [partsInside_alone, Role.ofKey_maybeNull]
    exact not_offends_of_partsInside rfl (by simp) h (ih _)
  | handleOf model =>
    rw [partsInside_alone, Role.ofKey_model]
    intro part hpart
    rw [List.mem_singleton.1 hpart]
    rfl
  | object hkeys h ih =>
    intro part hpart
    obtain ⟨key, d, -, hget, hpart⟩ := mem_entryParts hpart
    have hkey := hkeys key (Entries.mem_keys_of_get? hget)
    rw [Role.ofKey_of_not_isReserved hkey] at hpart
    exact not_offends_of_partsInside rfl (by simp) (h key d hget) (ih key d hget _) part hpart

lemma Parses.not_offends {r : Registry} {d : Value} {s : Schema} (h : Parses r d s) {role : Role}
    (hrole : role.isDescriptor = true) (hleaf : role = .member → s.isLeaf = true)
    (steps : List Segment) : ∀ part ∈ parts role steps d, part.offends r = false :=
  not_offends_of_partsInside hrole (fun hmember => h.isLeafForm_eq.trans (hleaf hmember))
    h.isDescriptor (h.isDescriptor.not_offends_inside steps)

/-! ### The first offence -/

/-- Whether the first of some parts that cannot have its role makes an error. -/
def IsFirstError (r : Registry) (ps : List Part) (e : ValidationError) : Prop :=
  ∃ part, ps.find? (·.offends r) = some part ∧ part.error = e

namespace IsFirstError

variable {r : Registry} {ps qs : List Part} {e : ValidationError}

lemma append (h : IsFirstError r ps e) (qs : List Part) : IsFirstError r (ps ++ qs) e := by
  obtain ⟨part, hpart, he⟩ := h
  exact ⟨part, by rw [List.find?_append, hpart, Option.some_or], he⟩

lemma behind (hps : ∀ part ∈ ps, part.offends r = false) (h : IsFirstError r qs e) :
    IsFirstError r (ps ++ qs) e := by
  obtain ⟨part, hpart, he⟩ := h
  refine ⟨part, ?_, he⟩
  rw [List.find?_append, List.find?_eq_none.2 (by simpa using hps), Option.none_or, hpart]

lemma of_offends {part : Part} (h : part.offends r = true) : IsFirstError r [part] part.error :=
  ⟨part, by simp [h], rfl⟩

/-- What is wrong with a node is wrong with a member or argument in its place. -/
lemma of_node {d : Value} {role : Role} {steps : List Segment} (hrole : role.isDescriptor = true)
    (hnull : role = .argument → d ≠ .null) (h : IsFirstError r (parts .node steps d) e) :
    IsFirstError r (parts role steps d) e := by
  obtain ⟨part, hpart, he⟩ := h
  rw [parts, List.find?_append, Option.or_eq_some_iff] at hpart
  rcases hpart with hinside | ⟨hinside, hself⟩
  · refine ⟨part, ?_, he⟩
    rw [parts, List.find?_append, partsInside_of_isDescriptor hrole, hinside, Option.some_or]
  · rw [List.find?_singleton] at hself
    split at hself
    · rename_i hoff
      cases hself
      have hformed : Role.isFormed r d = false := by simpa [Part.offends, Role.admits] using hoff
      rw [parts, partsInside_of_isDescriptor hrole]
      refine behind (by simpa using List.find?_eq_none.1 hinside) ⟨⟨role, steps, d⟩, ?_, ?_⟩
      · have : Part.offends r ⟨role, steps, d⟩ = true := by
          cases role <;> cases hrole <;> simp [Part.offends, Role.admits, hformed]
        rw [List.find?_singleton, if_pos this]
      · rw [← he]
        cases role <;> cases hrole
        · rfl
        · rfl
        · cases d with
          | null => exact absurd rfl (hnull rfl)
          | _ => rfl
    · cases hself

/-- A part that offends by itself and has no parts inside. -/
lemma alone {role : Role} {steps : List Segment} {d : Value}
    (hinside : partsInside role steps d = []) (h : role.admits r d = false) :
    IsFirstError r (parts role steps d) (Part.error ⟨role, steps, d⟩) := by
  rw [parts, hinside]
  exact of_offends (by simp [Part.offends, h])

/-- What is wrong behind the only key of an object is wrong with the object. -/
lemma of_key {key : String} {d : Value} {steps : List Segment}
    (h : IsFirstError r (parts (.ofKey true key) (steps ++ [.key key]) d) e) :
    IsFirstError r (parts .node steps (.object [(key, d)])) e := by
  rw [parts, partsInside_alone]
  exact h.append _

/-- What is wrong with a member of a union behind good ones is wrong with the union. -/
lemma of_member {front back : List Value} {d : Value} {steps : List Segment}
    (hfront : ∀ c ∈ front, ∃ p, Parses r c (.leaf p))
    (h : IsFirstError r (parts .member (steps ++ [.key "$union"] ++ [.index front.length]) d) e) :
    IsFirstError r (parts .node steps (.object [("$union", .array (front ++ d :: back))])) e := by
  refine of_key ?_
  rw [Role.ofKey_union, parts, partsInside, Role.ofElements?]
  dsimp only
  rw [itemParts_append, itemParts_cons, Nat.zero_add]
  refine ((h.append _).behind fun part hpart => ?_).append _
  obtain ⟨i, c, hc, hpart⟩ := mem_itemParts hpart
  obtain ⟨p, hp⟩ := hfront c (List.mem_of_getElem? hc)
  exact hp.not_offends rfl (fun _ => rfl) _ part hpart

/-- What is wrong behind a key of an object that comes behind good fields is wrong with the
object. -/
lemma of_field {front back : List (String × Value)} {key : String} {d : Value}
    {steps : List Segment}
    (hfront : ∀ k c, Entries.get? k front = some c → isReserved k = false ∧ ∃ s, Parses r c s)
    (hnew : key ∉ Entries.keys front)
    (h : IsFirstError r (parts (.ofKey ((front ++ (key, d) :: back).length == 1) key)
      (steps ++ [.key key]) d) e) :
    IsFirstError r (parts .node steps (.object (front ++ (key, d) :: back))) e := by
  have hinside : partsInside .node steps (.object (front ++ (key, d) :: back)) =
      entryParts ((front ++ (key, d) :: back).length == 1) steps []
        (front ++ (key, d) :: back) := by
    rw [partsInside]
    rfl
  rw [parts, hinside]
  obtain ⟨later, hparts⟩ := exists_entryParts_append List.not_mem_nil hnew d back
  rw [hparts]
  refine ((h.append _).behind fun part hpart => ?_).append _
  obtain ⟨k, c, -, hc, hpart⟩ := mem_entryParts hpart
  obtain ⟨hfree, s, hs⟩ := hfront k c hc
  rw [Role.ofKey_of_not_isReserved hfree] at hpart
  exact hs.not_offends rfl (by simp) _ part hpart

end IsFirstError

/-- What a value is rejected with is the error of its first part that cannot have its role. -/
lemma Rejects.isFirstError {r : Registry} {d : Value} {steps : List Segment} {e : ValidationError}
    (h : Rejects r d ⟨"schema", steps⟩ e) : IsFirstError r (parts .node steps d) e := by
  generalize hpath : (⟨"schema", steps⟩ : DataPath) = path at h
  induction h generalizing steps with
  | unknown h =>
    cases hpath
    have hname : _ ∉ r.names := Entries.get?_eq_none_iff.1 h
    exact .alone rfl (by simpa [Role.admits, Role.isFormed] using hname)
  | @scalar d _ hstring h =>
    cases hpath
    cases d with
    | string => cases hstring
    | array | object => cases h
    | _ => exact .alone rfl rfl
  | @elements items _ h =>
    cases hpath
    have hlength : items.length ≠ 1 := Nat.ne_of_gt h
    refine .alone ?_ ?_
    · simp [partsInside, Role.ofElements?, hlength]
    · simpa [Role.admits, Role.isFormed] using h
  | element h ih =>
    rw [parts, partsInside_singleton]
    exact (ih (hpath ▸ rfl)).append _
  | @literals d _ h =>
    cases hpath
    refine .of_key (.alone ?_ ?_)
    · cases d <;> rfl
    · cases d with
      | array items => simpa [literals?, Role.admits] using h
      | _ => rfl
  | @members d _ h =>
    cases hpath
    refine .of_key ?_
    cases d with
    | array items => exact absurd rfl (h items)
    | _ => exact .alone rfl rfl
  | member hfront h ih =>
    exact .of_member hfront ((ih (hpath ▸ rfl)).of_node rfl (by simp))
  | @branch front back d s _ hfront h hs =>
    cases hpath
    have hleaf : s.isLeaf = false := by
      cases s with
      | leaf p => exact absurd rfl (hs p)
      | _ => rfl
    refine .of_member hfront ?_
    -- All that is in this member can have its role; the member itself is no leaf.
    rw [parts, partsInside_of_isDescriptor rfl]
    refine .behind (h.isDescriptor.not_offends_inside _) (.of_offends ?_)
    simp [Part.offends, Role.admits, h.isLeafForm_eq, hleaf]
  | missing =>
    cases hpath
    exact .of_key (.alone rfl rfl)
  | argument hnull h ih => exact .of_key ((ih (hpath ▸ rfl)).of_node rfl fun _ => hnull)
  | @model d _ h =>
    cases hpath
    refine .of_key ?_
    cases d with
    | string model => cases h
    | _ => exact .alone rfl rfl
  | @stray front back key d _ hfront hnew hreserved halone =>
    cases hpath
    have hrole : Role.ofKey ((front ++ (key, d) :: back).length == 1) key = .stray := by
      by_cases hlength : (front ++ (key, d) :: back).length = 1
      · have hnil : front = [] ∧ back = [] := by
          rw [List.length_append, List.length_cons] at hlength
          exact ⟨List.eq_nil_of_length_eq_zero (by omega), List.eq_nil_of_length_eq_zero (by omega)⟩
        have hkey := halone hnil.1 hnil.2
        simp only [List.mem_cons, List.not_mem_nil, or_false, not_or] at hkey
        simp [Role.ofKey, hreserved, hkey]
      · rw [Role.ofKey, hreserved, beq_eq_false_iff_ne.2 hlength]
        rfl
    refine .of_field hfront hnew ?_
    rw [hrole]
    exact .alone (by cases d <;> rfl) rfl
  | field hfront hnew hfree h ih =>
    refine .of_field hfront hnew ?_
    rw [Role.ofKey_of_not_isReserved hfree]
    exact ih (hpath ▸ rfl)

/-- **A value is read as a schema exactly if it is a descriptor**, and else the error is that of the
first part of it that cannot have its role; that part is where its steps lead to. -/
theorem parse_outcome (r : Registry) (d : Value) :
    ((∃ s, parse r d = .ok s) ↔ IsDescriptor r d) ∧
      ∀ e, parse r d = .error e ↔ ∃ part, firstOffence? r d = some part ∧ part.error = e ∧
        d.along? part.steps = some part.value := by
  have hnone (h : IsDescriptor r d) {part : Part} : firstOffence? r d ≠ some part := by
    intro hpart
    have hoff := not_offends_of_partsInside rfl (by simp) h (h.not_offends_inside []) part
      (List.mem_of_find?_eq_some hpart)
    have := List.find?_some hpart
    rw [hoff] at this
    cases this
  have herror {e : ValidationError} (h : parse r d = .error e) :
      ∃ part, firstOffence? r d = some part ∧ part.error = e ∧
        d.along? part.steps = some part.value := by
    obtain ⟨part, hpart, he⟩ := (rejects_of_parseNode h).isFirstError
    obtain ⟨rest, hsteps, hrest⟩ := along?_of_mem_parts (List.mem_of_find?_eq_some hpart)
    rw [List.nil_append] at hsteps
    exact ⟨part, hpart, he, hsteps ▸ hrest⟩
  cases hparse : parse r d with
  | ok s =>
    have hd := (parseNode_eq_ok_iff.1 hparse).isDescriptor
    refine ⟨⟨fun _ => hd, fun _ => ⟨s, rfl⟩⟩, fun e => ⟨fun h => (by cases h), ?_⟩⟩
    rintro ⟨part, hpart, -⟩
    exact absurd hpart (hnone hd)
  | error e =>
    obtain ⟨part, hpart, he, halong⟩ := herror hparse
    constructor
    · constructor
      · rintro ⟨s, hs⟩
        cases hs
      · intro hd
        exact absurd hpart (hnone hd)
    · intro e'
      constructor
      · intro h
        cases h
        exact ⟨part, hpart, he, halong⟩
      · rintro ⟨part', hpart', rfl, -⟩
        rw [hpart] at hpart'
        cases hpart'
        rw [he]

/-- The members of a union are read before they are asked to be leaves, and so the name inside the
second member comes before that member itself. -/
example : parse .builtins (.object [("id", .object [("$union",
    .array [.string "number", .object [("a", .string "integer")]])])]) =
      .error (.invalidSchema ⟨"schema", [.key "id", .key "$union", .index 1, .key "a"]⟩) := rfl

end GuardedData.Schema
