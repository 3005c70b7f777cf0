import GuardedData.Proofs.Schema.Piecewise
import GuardedData.Proofs.Schema.Placement

/-!
# The error of a piece and the error of the whole

The nodes of a schema come depth first, each before the nodes of its fields, and the first of them
that a value does not suit makes the error of the whole value (`Schema.check_eq_error_of_first`). A
piece is checked at its watch path, which takes a key of digits for an index, and the whole knows it
for a key. So the error of the piece is the error of the whole but for the steps to the piece, and
the very same where no key on the way writes an index (`Schema.validate_eq_error_of_deepCheck`).
-/

namespace GuardedData

namespace DataPath

lemma keys_eq (path : DataPath) (keys : List String) :
    path.keys keys = ⟨path.label, path.segments ++ keys.map .key⟩ := by
  induction keys generalizing path with
  | nil => simp [keys]
  | cons key rest ih =>
    rw [keys, List.foldl_cons, ← keys, ih]
    simp [DataPath.key, step]

/-- Where no segment of a dotted path writes an index, all of them are taken for keys. -/
lemma joinDotted_eq_keys {path : DataPath} {dotted : String}
    (h : ∀ key ∈ Dotted.segments dotted, Dotted.index? key = none) :
    path.joinDotted dotted = path.keys (Dotted.segments dotted) := by
  have hparts : (Dotted.segments dotted).map Segment.ofPart =
      (Dotted.segments dotted).map .key :=
    List.map_congr_left fun key hkey => by rw [Segment.ofPart, h key hkey]
  rw [keys_eq, joinDotted, hparts]

end DataPath

namespace Schema

/-! ### Nodes depth first -/

mutual

/-- The keys to each node that keys lead to, depth first and a node before those of its fields. -/
def nodeKeys : Schema → List (List String)
  | .object fields => [] :: fieldNodeKeys fields
  | _ => [[]]

/-- The keys to each node at or below some fields. -/
def fieldNodeKeys : List (String × Schema) → List (List String)
  | [] => []
  | (key, s) :: rest => (nodeKeys s).map (key :: ·) ++ fieldNodeKeys rest

end

lemma exists_nodeKeys_eq_cons (s : Schema) : ∃ below, s.nodeKeys = [] :: below := by
  cases s with
  | object fields => exact ⟨fieldNodeKeys fields, by rw [nodeKeys]⟩
  | _ => exact ⟨[], by rw [nodeKeys]; simp⟩

/-- Check of a node what is its own: of an object node that it finds an object, and of any other
node all. -/
def checkAlone (node : Schema) (value : Option Value) (path : DataPath) :
    Except ValidationError Unit :=
  if node.isObject then
    if Value.isObject value then .ok ()
    else .error (.expectedObject path (Value.describe value))
  else deepCheck value (some node) path

/-- Check what some keys lead to against the node that they lead to. -/
def checkNode (s : Schema) (v : Value) (path : DataPath) (keys : List String) :
    Except ValidationError Unit :=
  match s.find? keys with
  | none => .ok ()
  | some node => node.checkAlone (v.behind? keys) (path.keys keys)

lemma checkNode_of_find? {s node : Schema} {keys : List String} (h : s.find? keys = some node)
    (v : Value) (path : DataPath) :
    s.checkNode v path keys = node.checkAlone (v.behind? keys) (path.keys keys) := by
  rw [checkNode, h]

lemma checkAlone_eq_ok_iff {node : Schema} {value : Option Value} {path : DataPath} :
    node.checkAlone value path = .ok () ↔ node.Suits value path := by
  rw [checkAlone, Suits]
  split
  · split <;> simp_all
  · rfl

lemma checkNode_eq_ok {s : Schema} {keys : List String} {v : Value} {path : DataPath}
    (h : ∀ node, s.find? keys = some node → node.Suits (v.behind? keys) (path.keys keys)) :
    s.checkNode v path keys = .ok () := by
  cases hnode : s.find? keys with
  | none => rw [checkNode, hnode]
  | some node =>
    rw [checkNode_of_find? hnode]
    exact checkAlone_eq_ok_iff.2 (h node hnode)

lemma checkAlone_of_absent (node : Schema) (path : DataPath) :
    node.checkAlone none path = .error (if node.isObject then .expectedObject path "undefined"
      else .undefinedProperty path) := by
  rw [checkAlone]
  split <;> rfl

/-- The nodes behind a key are those of the field of the key. -/
lemma checkNode_cons {fields : List (String × Schema)} (hkeys : (Entries.keys fields).Nodup)
    {key : String} {s : Schema} (h : (key, s) ∈ fields) {entries : List (String × Value)}
    {u : Value} (hget : Entries.get? key entries = some u) (path : DataPath) (keys : List String) :
    checkNode (.object fields) (.object entries) path (key :: keys) =
      s.checkNode u (path.key key) keys := by
  rw [checkNode, find?_cons_of_mem hkeys h, checkNode, Value.behind?, Value.field?, hget]
  rfl

lemma checkFields_eq_forM {all fields : List (String × Schema)}
    (hkeys : (Entries.keys all).Nodup) (hfields : ∀ field ∈ fields, field ∈ all)
    (ih : ∀ field ∈ fields, ∀ v path,
      field.2.check v path = forM field.2.nodeKeys (field.2.checkNode v path))
    (entries : List (String × Value)) (path : DataPath) : checkFields fields entries path =
      forM (fieldNodeKeys fields) (checkNode (.object all) (.object entries) path) := by
  induction fields with
  | nil => rfl
  | cons field rest ihRest =>
    obtain ⟨key, s⟩ := field
    obtain ⟨hfield, hrest⟩ := List.forall_mem_cons.1 hfields
    obtain ⟨hs, ihs⟩ := List.forall_mem_cons.1 ih
    rw [fieldNodeKeys, List.forM_append, List.forM_map, ← ihRest hrest ihs]
    cases hget : Entries.get? key entries with
    | none =>
      -- The field itself is the first of its nodes, and it has nothing to check.
      obtain ⟨below, hbelow⟩ := exists_nodeKeys_eq_cons s
      have hfirst : checkNode (.object all) (.object entries) path [key] =
          s.checkAlone none (path.key key) := by
        rw [checkNode_of_find? (find?_cons_of_mem hkeys hfield []), Value.behind?, Value.field?,
          hget]
        rfl
      rw [checkFields_cons_of_absent hget, hbelow, List.forM_cons, hfirst, checkAlone_of_absent]
      rfl
    | some u =>
      have hnodes : (fun keys => checkNode (.object all) (.object entries) path (key :: keys)) =
          s.checkNode u (path.key key) := funext (checkNode_cons hkeys hfield hget path)
      rw [checkFields_cons_of_present hget, hnodes, ← hs]
      rfl

/-- A node that is no object node is all that there is to check. -/
lemma check_eq_forM_of_leaf {s : Schema} (hs : s.isObject = false) (v : Value) (path : DataPath) :
    s.check v path = forM s.nodeKeys (s.checkNode v path) := by
  have hnodes : s.nodeKeys = [[]] := by
    cases s with
    | object fields => cases hs
    | _ => rw [nodeKeys]; simp
  have halone : s.checkNode v path [] = s.check v path := by
    rw [checkNode_of_find? rfl, checkAlone, hs]
    rfl
  rw [hnodes, List.forM_cons, halone]
  cases s.check v path <;> rfl

/-- A check of a value is that of what is behind any keys of it, node by node and depth first. -/
theorem check_eq_forM {s : Schema} (hkeys : s.DistinctKeys) (v : Value) (path : DataPath) :
    s.check v path = forM s.nodeKeys (s.checkNode v path) := by
  induction s using Schema.induct generalizing v path with
  | object fields ih =>
    rw [nodeKeys, List.forM_cons]
    cases v with
    | object entries =>
      have hfields : ∀ field ∈ fields, ∀ v path,
          field.2.check v path = forM field.2.nodeKeys (field.2.checkNode v path) :=
        fun field hmem => ih field hmem (hkeys.field hmem)
      rw [check, checkFields_eq_forM (hkeys [] fields rfl) (fun _ hmem => hmem) hfields]
      rfl
    | _ => rfl
  | _ => exact check_eq_forM_of_leaf rfl v path

/-- The first node that a value does not suit makes the error of the whole. -/
theorem check_eq_error_of_first {s : Schema} (hkeys : s.DistinctKeys) {v : Value} {path : DataPath}
    {front back : List (List String)} {keys : List String} {node : Schema} {e : ValidationError}
    (hnodes : s.nodeKeys = front ++ keys :: back)
    (hfront : ∀ keys ∈ front, ∀ node, s.find? keys = some node →
      node.Suits (v.behind? keys) (path.keys keys))
    (hnode : s.find? keys = some node)
    (he : node.checkAlone (v.behind? keys) (path.keys keys) = .error e) :
    s.check v path = .error e := by
  have hbefore : forM front (s.checkNode v path) = .ok () :=
    Except.forM_eq_ok fun keys hmem => checkNode_eq_ok (hfront keys hmem)
  rw [check_eq_forM hkeys, hnodes, List.forM_append, hbefore, List.forM_cons,
    checkNode_of_find? hnode, he]
  rfl

/-! ### Pieces -/

/-- Above the second of two keys there are the root and what the first key leads to. -/
lemma isObject_above {v : Value} {first last : String} (hroot : Value.isObject v = true)
    (hfirst : Value.isObject (v.behind? [first]) = true) (above : List String) (key : String)
    (below : List String) (h : [first, last] = above ++ key :: below) :
    Value.isObject (v.behind? above) = true := by
  match above, h with
  | [], _ => exact hroot
  | [_], rfl => exact hfirst
  | _ :: _ :: _, h => simp at h

/-- **The first piece that fails makes the error of the whole**, but for the steps to the piece:
validation has a key where a watch path that writes an index has the index. If the object nodes
above a watched node find objects, all nodes before it suit the value, and the check of its piece
fails, then validation fails in the same way, with the same text of what is there, at the place that
is reached from the keys as the other one is from the watch path. Where no key on the way writes an
index the errors are the same. -/
theorem validate_eq_error_of_deepCheck {r : Registry} {d : Value} {s : Schema}
    (hparse : parse r d = .ok s) (hplain : s.PlainKeys) {w : String} (hw : w ∈ s.watchPaths)
    {v : Value} {label : String}
    (habove : ∀ above key below, Dotted.segments w = above ++ key :: below →
      Value.isObject (v.behind? above) = true)
    {front back : List (List String)} (hnodes : s.nodeKeys = front ++ Dotted.segments w :: back)
    (hfront : ∀ keys ∈ front, ∀ node, s.find? keys = some node →
      node.Suits (v.behind? keys) ((DataPath.root label).keys keys))
    {e : ValidationError}
    (he : deepCheck (v.at? w) (s.lookup w) ((DataPath.root label).joinDotted w) = .error e) :
    ((∀ key ∈ Dotted.segments w, Dotted.index? key = none) → validate v s label = .error e) ∧
    ((∀ name p, r.lookup name = some p → Movable (.leaf p)) →
      ∃ e₀ : ValidationError, e = e₀.under ((DataPath.root label).joinDotted w) ∧
        validate v s label =
          .error (e₀.under ((DataPath.root label).keys (Dotted.segments w)))) := by
  have hbuilt := built_of_parse hparse
  obtain ⟨keys, node, rfl, hnode, hleaf⟩ := exists_of_mem_watchPaths hbuilt.distinctKeys hw
  have hsegments := Dotted.segments_join (hplain.of_find? hnode)
  rw [hsegments] at habove hnodes ⊢
  rw [Value.at?, hsegments, Value.find?_eq_behind? habove,
    lookup_join_of_plain s (hplain.of_find? hnode), hnode] at he
  have hwhole {e : ValidationError}
      (he : deepCheck (v.behind? keys) (some node) ((DataPath.root label).keys keys) = .error e) :
      validate v s label = .error e := by
    refine check_eq_error_of_first hbuilt.distinctKeys hnodes hfront hnode ?_
    rw [checkAlone, hleaf]
    exact he
  constructor
  · intro hindex
    refine hwhole ?_
    rw [← hsegments] at hindex
    rw [← he, DataPath.joinDotted_eq_keys hindex, hsegments]
  · intro hr
    have hmovable := (hbuilt.of_find? hnode).movable hr
    have hmove (base : DataPath) := hmovable.deepCheck_under (v.behind? keys) (.root label) base
    simp only [DataPath.root_under] at hmove
    rw [hmove] at he
    cases hpiece : deepCheck (v.behind? keys) (some node) (.root label) with
    | ok u =>
      rw [hpiece] at he
      cases he
    | error e₀ =>
      rw [hpiece] at he
      cases he
      refine ⟨e₀, rfl, hwhole ?_⟩
      rw [hmove, hpiece]
      rfl

/-- The second element of a list behind plain keys fails in a nullable object node, and both checks
say so in the same words. The piece before it has a key of digits, and where that fails the errors
are told of an index and of a key. -/
theorem validate_eq_error_of_deepCheck_nullable_element :
    let list : Value := .array [.object [("$maybeNull", .object [("id", .string "number")])]]
    let d : Value := .object [("name", .string "string"),
      ("slots", .object [("0", .string "number"), ("list", list)])]
    let v (first : Value) : Value := .object [("slots", .object [("0", first),
      ("list", .array [.null, .object [("id", .string "x")]])]), ("name", .string "n")]
    let e : ValidationError := .checkFailed
      ⟨"shop", [.key "slots", .key "list", .index 1, .key "id"]⟩ "\"x\""
    ∃ s, parse .builtins d = .ok s ∧
      (deepCheck ((v (.ofInt 1)).at? "slots.list") (s.lookup "slots.list")
          ((DataPath.root "shop").joinDotted "slots.list") = .error e ∧
        validate (v (.ofInt 1)) s "shop" = .error e) ∧
      ∃ e₀ : ValidationError,
        .checkFailed ⟨"shop", [.key "slots", .index 0]⟩ "null" =
          e₀.under ⟨"shop", [.key "slots", .index 0]⟩ ∧
        validate (v .null) s "shop" = .error (e₀.under ⟨"shop", [.key "slots", .key "0"]⟩) := by
  intro list d v e
  obtain ⟨s, hparse⟩ : ∃ s, parse .builtins d = .ok s := ⟨_, rfl⟩
  have hs : s = .object [("name", .leaf .string), ("slots", .object [("0", .leaf .number),
      ("list", .array (some (.leaf (.orNull (.object [("id", .leaf .number)])))))])] := by
    cases hparse
    rfl
  have hplain : s.PlainKeys := by
    rw [hs]
    refine plainKeys_object (by decide) ?_
    simp only [List.forall_mem_cons, List.not_mem_nil, false_imp_iff, implies_true, and_true]
    refine ⟨plainKeys_of_isObject rfl, plainKeys_object (by decide) ?_⟩
    simp only [List.forall_mem_cons, List.not_mem_nil, false_imp_iff, implies_true, and_true]
    exact ⟨plainKeys_of_isObject rfl, plainKeys_of_isObject rfl⟩
  have hlist : deepCheck ((v (.ofInt 1)).at? "slots.list") (s.lookup "slots.list")
      ((DataPath.root "shop").joinDotted "slots.list") = .error e := by
    rw [hs]
    rfl
  have hdigits : deepCheck ((v .null).at? "slots.0") (s.lookup "slots.0")
      ((DataPath.root "shop").joinDotted "slots.0") =
        .error (.checkFailed ⟨"shop", [.key "slots", .index 0]⟩ "null") := by
    rw [hs]
    rfl
  have hlistNodes : s.nodeKeys = [[], ["name"], ["slots"], ["slots", "0"]] ++
      Dotted.segments "slots.list" :: [] := by
    rw [hs]
    decide
  have hdigitsNodes : s.nodeKeys = [[], ["name"], ["slots"]] ++
      Dotted.segments "slots.0" :: [["slots", "list"]] := by
    rw [hs]
    decide
  have hlistSegments : Dotted.segments "slots.list" = ["slots", "list"] := by decide
  have hdigitsSegments : Dotted.segments "slots.0" = ["slots", "0"] := by decide
  refine ⟨s, hparse, ⟨hlist, ?_⟩, ?_⟩
  · refine (validate_eq_error_of_deepCheck hparse hplain ?_ ?_ hlistNodes ?_ hlist).1 (by decide)
    · rw [hs]
      decide
    · rw [hlistSegments]
      exact isObject_above rfl rfl
    · rw [hs]
      simp only [List.forall_mem_cons, List.not_mem_nil, false_imp_iff, implies_true, and_true]
      refine ⟨?_, ?_, ?_, ?_⟩ <;> rintro node ⟨⟩ <;> exact checkAlone_eq_ok_iff.1 rfl
  · refine (validate_eq_error_of_deepCheck hparse hplain ?_ ?_ hdigitsNodes ?_ hdigits).2
      movable_of_lookup_builtins
    · rw [hs]
      decide
    · rw [hdigitsSegments]
      exact isObject_above rfl rfl
    · rw [hs]
      simp only [List.forall_mem_cons, List.not_mem_nil, false_imp_iff, implies_true, and_true]
      refine ⟨?_, ?_, ?_⟩ <;> rintro node ⟨⟩ <;> exact checkAlone_eq_ok_iff.1 rfl

/-- A key of digits is an index in the error of its piece and a key in that of the whole, though it
has its place among the keys of an object and all nodes before it suit. -/
theorem recheck_misnames_digits :
    let d : Value := .object [("slots", .object [("0", .string "number")])]
    let v : Value := .object [("slots", .object [("0", .null)])]
    let e (step : Segment) : ValidationError := .checkFailed ⟨"shop", [.key "slots", step]⟩ "null"
    ∃ s, parse .builtins d = .ok s ∧ s.PlainKeys ∧ "slots.0" ∈ s.watchPaths ∧
      (∀ above key below, Dotted.segments "slots.0" = above ++ key :: below →
        Value.isObject (v.behind? above) = true) ∧
      s.nodeKeys = [[], ["slots"]] ++ Dotted.segments "slots.0" :: [] ∧
      (∀ keys ∈ [[], ["slots"]], ∀ node, s.find? keys = some node →
        node.Suits (v.behind? keys) ((DataPath.root "shop").keys keys)) ∧
      deepCheck (v.at? "slots.0") (s.lookup "slots.0")
        ((DataPath.root "shop").joinDotted "slots.0") = .error (e (.index 0)) ∧
      validate v s "shop" = .error (e (.key "0")) ∧ e (.index 0) ≠ e (.key "0") := by
  intro d v e
  have hsegments : Dotted.segments "slots.0" = ["slots", "0"] := by decide
  refine ⟨.object [("slots", .object [("0", .leaf .number)])], rfl, ?_, by decide, ?_, by decide,
    ?_, rfl, rfl, by decide⟩
  · refine plainKeys_object (by decide) ?_
    simp only [List.forall_mem_cons, List.not_mem_nil, false_imp_iff, implies_true, and_true]
    refine plainKeys_object (by decide) ?_
    simp only [List.forall_mem_cons, List.not_mem_nil, false_imp_iff, implies_true, and_true]
    exact plainKeys_of_isObject rfl
  · rw [hsegments]
    exact isObject_above rfl rfl
  · simp only [List.forall_mem_cons, List.not_mem_nil, false_imp_iff, implies_true, and_true]
    constructor <;> rintro node ⟨⟩ <;> exact checkAlone_eq_ok_iff.1 rfl

end Schema

end GuardedData
