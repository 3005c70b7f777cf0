import GuardedData.Proofs.Model.Creation
import GuardedData.Proofs.Schema.Nodes

/-!
# Conformance along a run

After a model has been made only its watch paths are checked again. What is at such a path conforms
as long as no error is raised and no edit overlooks the path, or a check that would say so is still
to come (`Standing.Covered`). So once the queue is empty the data conforms exactly if that part of
it does which no watch path speaks for (`Model.validate_eq_ok_iff_of_run`).
-/

namespace GuardedData

/-- The watch paths at which the next step changes the value without noticing. -/
def Machine.overlooked (s : Machine) : List String :=
  match s.control with
  | .run (.ask (.edit path change) _) =>
    match change.apply path s.model.data with
    | .ok (after, _) => s.model.watchPaths.filter fun w =>
      !Dotted.related w path && !Value.equalOption (after.at? w) (s.model.data.at? w)
    | .error _ => []
  | _ => []

lemma Machine.not_overlooked {m : Model} {path : String} {change : Edit}
    {next : Except ModelError (Option Value) → Program} {stack : List Frame} {after : Value}
    {removed : Option Value} (h : overlooked ⟨m, .run (.ask (.edit path change) next), stack⟩ = [])
    (happly : change.apply path m.data = .ok (after, removed)) {w : String}
    (hw : w ∈ m.watchPaths) : ¬Overlooked m.data after path w := by
  rintro ⟨hunrelated, hdiff⟩
  have hmem : w ∈ overlooked ⟨m, .run (.ask (.edit path change) next), stack⟩ := by
    simp only [overlooked, happly]
    exact List.mem_filter.2 ⟨hw, by simp [hunrelated, show _ = false from hdiff]⟩
  rw [h] at hmem
  cases hmem

/-! ### Paths that are checked -/

namespace Standing

/-- Whether a callback on a path is still going to be told of a value. -/
def Awaits (a : Standing) (w : String) (callback : Callback) (value : Option Value) : Prop :=
  ⟨w, value⟩ ∈ a.store.pending ∨ (callback, value) ∈ a.untold

/-- Whether the value at a path is good, or would be if one is that a callback is still going to be
told of. -/
structure Covered (a : Standing) (w : String) (callback : Callback)
    (good : Option Value → Prop) : Prop where
  watched : ⟨w, callback⟩ ∈ a.store.watchers
  covered : good (a.store.tree.at? w) ∨
    ∃ value, a.Awaits w callback value ∧ (good value → good (a.store.tree.at? w))

namespace Covered

variable {a : Standing} {w : String} {callback : Callback} {good : Option Value → Prop}

/-- An edit that changes the value and is noticed queues the new value. -/
lemma edit (h : a.Covered w callback good) {path : String} {change : Edit}
    (hequal : ∀ v v', Value.equalOption v v' = true → (good v ↔ good v'))
    (hseen : ∀ after removed, change.apply path a.store.tree = .ok (after, removed) →
      ¬Overlooked a.store.tree after path w) :
    (a.after (.edit path change)).Covered w callback good := by
  cases happly : change.apply path a.store.tree with
  | error fault =>
    have hsame : a.after (.edit path change) = a := by simp [after, Store.edit, happly]
    rwa [hsame]
  | ok result =>
    obtain ⟨tree, removed⟩ := result
    simp only [after, Store.edit, happly]
    refine ⟨h.watched, ?_⟩
    cases hdiff : Value.equalOption (tree.at? w) (a.store.tree.at? w) with
    | true =>
      rcases h.covered with hgood | ⟨value, hawaits | hawaits, himp⟩
      · exact Or.inl ((hequal _ _ hdiff).2 hgood)
      · exact Or.inr ⟨value, Or.inl (List.mem_append_left _ hawaits),
          fun hv => (hequal _ _ hdiff).2 (himp hv)⟩
      · exact Or.inr ⟨value, Or.inr hawaits, fun hv => (hequal _ _ hdiff).2 (himp hv)⟩
    | false =>
      have hrelated : Dotted.related w path = true := by
        by_contra hr
        exact hseen tree removed happly ⟨by simpa using hr, hdiff⟩
      have hwatched : w ∈ a.store.watchedPaths :=
        List.mem_eraseDups.2 (List.mem_map.2 ⟨_, h.watched, rfl⟩)
      have hevent : (⟨w, tree.at? w⟩ : Event) ∈
          changes a.store.tree tree (a.store.affected path) :=
        mem_changes.2 ⟨List.mem_filter.2 ⟨hwatched, hrelated⟩, hdiff, rfl⟩
      exact Or.inr ⟨tree.at? w, Or.inl (List.mem_append_right _ hevent), id⟩

/-- An event that is taken is told to every callback of its path. -/
lemma take (h : a.Covered w callback good) : (a.after .take).Covered w callback good := by
  cases hpending : a.store.pending with
  | nil =>
    have hsame : a.after .take = a := by simp [after, Store.takeEvent?, hpending]
    rwa [hsame]
  | cons event rest =>
    simp only [after, Store.takeEvent?, hpending]
    refine ⟨h.watched, ?_⟩
    rcases h.covered with hgood | ⟨value, hawaits | hawaits, himp⟩
    · exact Or.inl hgood
    · rw [hpending] at hawaits
      rcases List.mem_cons.1 hawaits with he | hrest
      · subst he
        refine Or.inr ⟨value, Or.inr (List.mem_append_left _ ?_), himp⟩
        refine List.mem_map.2 ⟨callback, ?_, rfl⟩
        exact List.mem_map.2 ⟨⟨w, callback⟩, List.mem_filter.2 ⟨h.watched, by simp⟩, rfl⟩
      · exact Or.inr ⟨value, Or.inl hrest, himp⟩
    · exact Or.inr ⟨value, Or.inr (List.mem_append_right _ hawaits), himp⟩

/-- A callback that is told of a good value and has no objection needs not be told again. -/
lemma tell (h : a.Covered w callback good) {told : Callback} {value : Option Value}
    {rest : List (Callback × Option Value)} (huntold : a.untold = (told, value) :: rest)
    (hgood : told = callback → good value) :
    (a.after (.tell told value)).Covered w callback good := by
  have hafter : (a.after (.tell told value)).store = a.store ∧
      (a.after (.tell told value)).untold = rest := by
    cases told <;> simp [after, huntold]
  refine ⟨hafter.1 ▸ h.watched, ?_⟩
  rw [hafter.1]
  rcases h.covered with hcovered | ⟨v, hawaits | hawaits, himp⟩
  · exact Or.inl hcovered
  · exact Or.inr ⟨v, Or.inl (by rwa [hafter.1]), himp⟩
  · rw [huntold] at hawaits
    rcases List.mem_cons.1 hawaits with he | hrest
    · cases he
      exact Or.inl (himp (hgood rfl))
    · exact Or.inr ⟨v, Or.inr (by rwa [hafter.2]), himp⟩

end Covered

end Standing

namespace Machine

variable {w : String} {callback : Callback} {good : Option Value → Prop}

/-- A step keeps a watch path covered unless it overlooks the path or the callback objects. -/
theorem covered_of_step {t : Machine} (h : t.standing.Covered w callback good)
    (hequal : ∀ v v', Value.equalOption v v' = true → (good v ↔ good v'))
    (hpath : w ∈ t.model.watchPaths) (hseen : t.overlooked = [])
    (hgood : ∀ value, objection? t.model value callback = none → good value)
    (hraised : t.raised? = none) : (t.standing.after t.move).Covered w callback good := by
  obtain ⟨m, control, stack⟩ := t
  -- What a guarded entry changes is not what is covered.
  have henter : (Standing.after (standing ⟨m, control, stack⟩) .enter).Covered w callback good :=
    ⟨h.watched, h.covered⟩
  cases control with
  | run p =>
    cases p with
    | finish result => exact h
    | ask request next =>
      cases request with
      | edit path change =>
        exact h.edit hequal fun after removed happly => not_overlooked hseen happly hpath
      | call name args =>
        simp only [move, moveOf]
        split <;> first | exact henter | exact h
      | setComputed name value =>
        simp only [move, moveOf]
        split <;> first | exact henter | exact h
      | start name args =>
        simp only [move, moveOf]
        split <;> first | exact henter | exact h
      | _ => exact h
    | watch path body next => exact ⟨List.mem_append_left _ h.watched, h.covered⟩
  | drain => exact h.take
  | deliver callbacks value failure =>
    cases callbacks with
    | nil => exact h
    | cons told callbacks => exact h.tell rfl fun he => hgood value (he ▸ hraised)
  | answer result => exact h

end Machine

/-! ### The data as a whole -/

namespace Schema

/-- Whether no watch path speaks for the node behind some keys: it is an object node, it is the
root, or one of the keys cannot be written in a dotted path. -/
def Blind (node : Schema) (keys : List String) : Prop :=
  node.isObject = true ∨ keys = [] ∨ ∃ key ∈ keys, ¬Dotted.Plain key

/-- Whether watch paths speak for all of a schema: the root is an object node, all keys can be
written in dotted paths, and each object node has a watched node behind a key that is no index. -/
structure Anchored (s : Schema) : Prop where
  root : s.isObject = true
  plain : ∀ keys node, s.find? keys = some node → ∀ key ∈ keys, Dotted.Plain key
  anchor : ∀ keys fields, s.find? keys = some (.object fields) → ∃ key rest node,
    Dotted.index? key = none ∧ s.find? (keys ++ key :: rest) = some node ∧ node.isObject = false

/-- Where all watch paths of an anchored schema conform, each object node finds an object. -/
lemma Anchored.isObject {s : Schema} (h : s.Anchored) {v : Value}
    (hwatched : ∀ keys node, s.find? keys = some node → node.isObject = false →
      ∃ child, v.find? keys = some child) {keys : List String} {fields : List (String × Schema)}
    (hkeys : s.find? keys = some (.object fields)) : Value.isObject (v.behind? keys) = true := by
  induction hn : keys.length using Nat.strongRecOn generalizing keys fields with
  | ind n ih =>
    have hbehind : v.find? keys = v.behind? keys := by
      refine Value.find?_eq_behind? fun front key back he => ?_
      obtain ⟨fields', hfront⟩ := exists_object_of_find?_append (he ▸ hkeys)
      have hlt : front.length < n := by
        rw [← hn, he, List.length_append, List.length_cons]
        omega
      exact ih front.length hlt hfront rfl
    obtain ⟨key, rest, node, hindex, hnode, hleaf⟩ := h.anchor keys fields hkeys
    obtain ⟨child, hchild⟩ := hwatched _ node hnode hleaf
    rw [Value.find?_append, Option.bind_eq_some_iff] at hchild
    obtain ⟨u, hu, hrest⟩ := hchild
    rw [← hbehind, hu]
    cases u with
    | object entries => rfl
    | array items => simp [Value.find?, Value.child?, hindex] at hrest
    | _ => simp [Value.find?, Value.child?] at hrest

end Schema

namespace Model

variable {d : Definition} {o : Options} {current : Environment} {m m' : Model} {s : Schema}

/-- A new model checks what is behind plain keys where its schema has no object node. -/
lemma Created.check_mem_watchers (hm : m.Created d o) (hs : d.schema = some s) {keys : List String}
    {node : Schema} (hne : keys ≠ []) (hplain : ∀ key ∈ keys, Dotted.Plain key)
    (hnode : s.find? keys = some node) (hleaf : node.isObject = false) :
    (⟨Dotted.join keys, .check (some node)
      ((DataPath.root m.name).joinDotted (Dotted.join keys))⟩ : Watcher Callback) ∈
        m.store.watchers := by
  have hpath : Dotted.join keys ∈ (Enforcement.ofDefinition d).paths := by
    simpa [Enforcement.ofDefinition, hs] using Schema.mem_watchPaths hne hnode hleaf
  rw [hm.watchers]
  refine List.mem_append_right _ (List.mem_append_right _ (List.mem_map.2 ⟨_, hpath, ?_⟩))
  simp [Enforcement.checkAt, Enforcement.ofDefinition, hs, hm.name, Schema.lookup,
    Dotted.segments_join hplain, hnode]

/-- What is behind some keys in a new model conforms. -/
lemma Created.conforms (hm : m.Created d o) (hs : d.schema = some s) (hkeys : s.DistinctKeys)
    {keys : List String} {node : Schema} (hnode : s.find? keys = some node)
    (hleaf : node.isObject = false) :
    deepCheck (m.data.find? keys) (some node) ((DataPath.root m.name).keys keys) = .ok () := by
  have hsuits := (Schema.check_eq_ok_iff hkeys).1 (hm.valid s hs)
  have hobjects : ∀ keys fields, s.find? keys = some (.object fields) →
      Value.isObject (m.data.behind? keys) = true := fun keys fields => hsuits keys (.object fields)
  have h := hsuits keys node hnode
  rwa [Schema.Suits, if_neg (by simp [hleaf]), ← Schema.find?_eq_behind? hobjects hnode] at h

/-- At the end of a run without errors and overlooked changes, when nothing is queued, what is
behind plain keys conforms. -/
lemma conforms_of_run (hm : create d o current = .ok m) (hdev : o.resolve current = .development)
    (hs : d.schema = some s) (hbuilt : s.Built .builtins) {past : List Machine} {result : Result}
    (hrun : Run m past ⟨m', .answer result, []⟩) (hraised : ∀ t ∈ past, t.raised? = none)
    (hseen : ∀ t ∈ past, t.overlooked = []) (hpending : m'.store.pending = []) {keys : List String}
    {node : Schema} (hne : keys ≠ []) (hplain : ∀ key ∈ keys, Dotted.Plain key)
    (hnode : s.find? keys = some node) (hleaf : node.isObject = false) (path : DataPath) :
    deepCheck (m'.data.find? keys) (some node) path = .ok () := by
  have hcreated := created_of_create hm hdev
  have hext := (hbuilt.of_find? hnode).extensional
  have hwatcher := hcreated.check_mem_watchers hs hne hplain hnode hleaf
  generalize (DataPath.root m.name).joinDotted (Dotted.join keys) = at_ at hwatcher
  have hat (v : Value) : v.at? (Dotted.join keys) = v.find? keys := by
    rw [Value.at?, Dotted.segments_join hplain]
  have hstart : deepCheck (m.data.at? (Dotted.join keys)) (some node) at_ = .ok () := by
    rw [hat]
    exact (hext.deepCheck_congr (Value.equalOption_self _) _ _).1
      (hcreated.conforms hs hbuilt.distinctKeys hnode hleaf)
  have hcovered := hrun.invariant (P := fun a => a.Covered (Dotted.join keys)
    (.check (some node) at_) fun v => deepCheck v (some node) at_ = .ok ())
    ⟨hwatcher, Or.inl hstart⟩ fun t ht h => by
      obtain ⟨before, hbefore⟩ := hrun.of_mem_past ht
      have hpath : Dotted.join keys ∈ t.model.watchPaths := by
        rw [hbefore.sameMake.watchPaths, hcreated.watchPaths]
        simpa [Enforcement.ofDefinition, hs] using Schema.mem_watchPaths hne hnode hleaf
      refine Machine.covered_of_step h (fun v v' he => hext.deepCheck_congr he _ _) hpath
        (hseen t ht) (fun value hnone => ?_) (hraised t ht)
      simp only [Machine.objection?] at hnone
      split at hnone
      · assumption
      · cases hnone
  -- Nothing is queued and nobody waits, so no check is still to come.
  rcases hcovered.covered with hgood | ⟨value, hawaits | hawaits, -⟩
  · rw [← hat]
    exact (hext.deepCheck_congr (Value.equalOption_self _) _ _).1 hgood
  · have hnil : (Machine.standing ⟨m', .answer result, []⟩).store.pending = [] := hpending
    rw [hnil] at hawaits
    cases hawaits
  · cases hawaits

/-- A run of a valid model that raises no error and overlooks no change ends, if nothing is left in
the queue, with data that is valid exactly if it suits the nodes that no watch path speaks for.
Where watch paths speak for all of the schema the data is valid. -/
theorem validate_eq_ok_iff_of_run {descriptor : Value}
    (hparse : Schema.parse .builtins descriptor = .ok s) (hs : d.schema = some s)
    (hm : create d o current = .ok m) (hdev : o.resolve current = .development)
    {past : List Machine} {result : Result} (hrun : Run m past ⟨m', .answer result, []⟩)
    (hraised : ∀ t ∈ past, t.raised? = none) (hseen : ∀ t ∈ past, t.overlooked = [])
    (hpending : m'.store.pending = []) :
    (validate m'.data s m'.name = .ok () ↔ ∀ keys node, s.find? keys = some node →
      node.Blind keys → node.Suits (m'.data.behind? keys) ((DataPath.root m'.name).keys keys)) ∧
    (s.Anchored → validate m'.data s m'.name = .ok ()) := by
  have hbuilt := Schema.built_of_parse hparse
  have hwatched {keys : List String} {node : Schema} (hne : keys ≠ [])
      (hplain : ∀ key ∈ keys, Dotted.Plain key) (hnode : s.find? keys = some node)
      (hleaf : node.isObject = false) (path : DataPath) :=
    conforms_of_run hm hdev hs hbuilt hrun hraised hseen hpending hne hplain hnode hleaf path
  have hiff : validate m'.data s m'.name = .ok () ↔ ∀ keys node, s.find? keys = some node →
      node.Blind keys →
        node.Suits (m'.data.behind? keys) ((DataPath.root m'.name).keys keys) := by
    rw [validate, Schema.check_eq_ok_iff hbuilt.distinctKeys]
    refine ⟨fun h keys node hnode _ => h keys node hnode, fun h keys node hnode => ?_⟩
    by_cases hblind : node.Blind keys
    · exact h keys node hnode hblind
    · have hobjects (keys : List String) (fields : List (String × Schema))
          (hobject : s.find? keys = some (.object fields)) :
          Value.isObject (m'.data.behind? keys) = true :=
        h keys (.object fields) hobject (Or.inl rfl)
      simp only [Schema.Blind, not_or, not_exists, not_and, not_not, Bool.not_eq_true] at hblind
      obtain ⟨hleaf, hne, hplain⟩ := hblind
      rw [Schema.Suits, if_neg (by simp [hleaf]), ← Schema.find?_eq_behind? hobjects hnode]
      exact hwatched hne hplain hnode hleaf _
  refine ⟨hiff, fun hanchored => hiff.2 fun keys node hnode hblind => ?_⟩
  have hpresent (keys : List String) (node : Schema) (hnode : s.find? keys = some node)
      (hleaf : node.isObject = false) : ∃ child, m'.data.find? keys = some child := by
    have hne : keys ≠ [] := by
      rintro rfl
      cases hnode
      simp [hanchored.root] at hleaf
    have hcheck := hwatched hne (hanchored.plain keys node hnode) hnode hleaf (.root m'.name)
    cases hchild : m'.data.find? keys with
    | none => simp [hchild, deepCheck] at hcheck
    | some child => exact ⟨child, rfl⟩
  have hobject : node.isObject = true := by
    rcases hblind with hobject | rfl | ⟨key, hkey, hplain⟩
    · exact hobject
    · cases hnode
      exact hanchored.root
    · exact absurd (hanchored.plain keys node hnode key hkey) hplain
  rw [Schema.Suits, if_pos hobject]
  cases node with
  | object fields => exact hanchored.isObject hpresent hnode
  | _ => cases hobject

/-- A method that sets a field of an object in an object keeps the data of a guarded model valid. -/
theorem validate_eq_ok_iff_of_run_guarded_field :
    let descriptor : Value := .object [("a", .object [("b", .string "number")])]
    let data : Value := .object [("a", .object [("b", .ofInt 1)])]
    let body : List Value → Program := fun _ => .edit "a.b" (.set (.ofInt 2))
    let start (m : Model) : Machine := ⟨m, .run (.ask (.call "assign" []) .finish), []⟩
    ∃ s m m' result, Schema.parse .builtins descriptor = .ok s ∧ s.Anchored ∧
      create { data := some data, schema := some s, methods := [("assign", .sync body)] } {}
        .development = .ok m ∧
      Run m (Machine.trail 20 (start m)) ⟨m', .answer result, []⟩ ∧
      (∀ t ∈ Machine.trail 20 (start m), t.raised? = none ∧ t.overlooked = []) ∧
      m'.store.pending = [] ∧ m'.data = .object [("a", .object [("b", .ofInt 2)])] ∧
      validate m'.data s m'.name = .ok () := by
  intro descriptor data body start
  obtain ⟨s, hparse⟩ : ∃ s, Schema.parse .builtins descriptor = .ok s := ⟨_, rfl⟩
  have hs : s = .object [("a", .object [("b", .leaf .number)])] := by
    cases hparse
    rfl
  obtain ⟨m, hm⟩ : ∃ m, create { data := some data, schema := some s, methods :=
      [("assign", .sync body)] } {} .development = .ok m := by
    subst hs
    exact ⟨_, rfl⟩
  obtain ⟨m', result, hend⟩ : ∃ m' result,
      Machine.runFor 20 (start m) = ⟨m', .answer result, []⟩ := by
    subst hs
    cases hm
    exact ⟨_, _, rfl⟩
  have hrun : Run m (Machine.trail 20 (start m)) ⟨m', .answer result, []⟩ := by
    rw [← hend]
    exact (Run.begin (.ask (.call "assign" []) .finish)).runFor 20
  have hall : ∀ t ∈ Machine.trail 20 (start m), t.raised? = none ∧ t.overlooked = [] := by
    have hcheck : (Machine.trail 20 (start m)).all
        (fun t => t.raised?.isNone && t.overlooked.isEmpty) = true := by
      subst hs
      cases hm
      rfl
    intro t ht
    simpa using List.all_eq_true.1 hcheck t ht
  have hresult : m'.store.pending = [] ∧ m'.data = .object [("a", .object [("b", .ofInt 2)])] := by
    subst hs
    cases hm
    cases hend
    exact ⟨rfl, rfl⟩
  have hnodes (keys : List String) (node : Schema) (hnode : s.find? keys = some node) :
      keys = [] ∨ keys = ["a"] ∨ keys = ["a", "b"] ∧ node = .leaf .number := by
    subst hs
    rcases keys with _ | ⟨a, _ | ⟨b, _ | ⟨c, rest⟩⟩⟩ <;>
      simp_all [Schema.find?, Schema.field?, Entries.get?_cons, Option.bind_eq_some_iff]
  have hanchored : s.Anchored := by
    constructor
    case root => rw [hs]; rfl
    case plain =>
      intro keys node hnode
      have ha : Dotted.Plain "a" := ⟨by decide, by decide⟩
      have hb : Dotted.Plain "b" := ⟨by decide, by decide⟩
      rcases hnodes keys node hnode with rfl | rfl | ⟨rfl, -⟩ <;> simp [ha, hb]
    case anchor =>
      intro keys fields hnode
      have hleaf : s.find? ["a", "b"] = some (.leaf .number) := by rw [hs]; rfl
      rcases hnodes keys _ hnode with rfl | rfl | ⟨-, hnode⟩
      · exact ⟨"a", ["b"], _, by decide, hleaf, rfl⟩
      · exact ⟨"b", [], _, by decide, hleaf, rfl⟩
      · cases hnode
  exact ⟨s, m, m', result, hparse, hanchored, hm, hrun, hall, hresult.1, hresult.2,
    (validate_eq_ok_iff_of_run hparse rfl hm rfl hrun (fun t ht => (hall t ht).1)
      (fun t ht => (hall t ht).2) hresult.1).2 hanchored⟩

/-- Whether some code on a new model leaves data that is not valid, although it raises no error,
overlooks no change and leaves nothing in the queue. -/
def Undetected (descriptor data : Value) (p : Program) : Prop :=
  ∃ s m m' result n, Schema.parse .builtins descriptor = .ok s ∧
    create { data := some data, schema := some s } { immutable := false } .development = .ok m ∧
    Run m (Machine.trail n ⟨m, .run p, []⟩) ⟨m', .answer result, []⟩ ∧
    (∀ t ∈ Machine.trail n ⟨m, .run p, []⟩, t.raised? = none ∧ t.overlooked = []) ∧
    m'.store.pending = [] ∧ validate m'.data s m'.name ≠ .ok ()

lemma undetected_of_runFor {descriptor data : Value} {p : Program} {result : Result} (n : Nat)
    (hparse : Schema.parse .builtins descriptor = .ok s)
    (hm : create { data := some data, schema := some s } { immutable := false } .development =
      .ok m) (hend : Machine.runFor n ⟨m, .run p, []⟩ = ⟨m', .answer result, []⟩)
    (hall : (Machine.trail n ⟨m, .run p, []⟩).all
      (fun t => t.raised?.isNone && t.overlooked.isEmpty) = true)
    (hpending : m'.store.pending.isEmpty = true)
    (hinvalid : (validate m'.data s m'.name).isOk = false) : Undetected descriptor data p := by
  refine ⟨s, m, m', result, n, hparse, hm, ?_, ?_, by simpa using hpending, ?_⟩
  · rw [← hend]
    exact (Run.begin p).runFor n
  · intro t ht
    simpa using List.all_eq_true.1 hall t ht
  · intro he
    rw [he] at hinvalid
    cases hinvalid

/-- An object node without fields, a root that is no object node, a key with a dot in it and an
array in the place of an object whose keys are indices all let a value through that does not
conform. -/
theorem undetected_where_no_path_speaks :
    Undetected (.object [("meta", .object [])]) (.object [("meta", .object [])])
      (.edit "meta" (.set (.ofInt 5))) ∧
    Undetected (.string "number") (.ofInt 5) (.edit "" (.update fun _ => .string "x")) ∧
    Undetected (.object [("a.b", .string "number")]) (.object [("a.b", .ofInt 1)])
      (.edit "" (.update fun _ => .object [("a.b", .string "x")])) ∧
    Undetected (.object [("a", .object [("0", .string "number")])])
      (.object [("a", .object [("0", .ofInt 1)])]) (.edit "a" (.set (.array [.ofInt 1]))) := by
  refine ⟨?_, ?_, ?_, ?_⟩
  · exact undetected_of_runFor 10 rfl rfl rfl rfl rfl rfl
  · exact undetected_of_runFor 10 rfl rfl rfl rfl rfl rfl
  · exact undetected_of_runFor 10 rfl rfl rfl rfl rfl rfl
  · exact undetected_of_runFor 10 rfl rfl rfl rfl rfl rfl

/-- An edit at a path written with two dots reaches the value at a watch path, and no event tells of
it: the change is overlooked, and the model ends with data that is not valid, without an error. -/
theorem validate_ne_ok_of_overlooked :
    let descriptor : Value := .object [("a", .object [("b", .string "number")])]
    let data : Value := .object [("a", .object [("b", .ofInt 1)])]
    let p : Program := .edit "a..b" (.set (.string "x"))
    ∃ s m m', Schema.parse .builtins descriptor = .ok s ∧
      create { data := some data, schema := some s } { immutable := false } .development = .ok m ∧
      Run m (Machine.trail 10 ⟨m, .run p, []⟩) ⟨m', .answer (.ok .null), []⟩ ∧
      (∀ t ∈ Machine.trail 10 ⟨m, .run p, []⟩, t.raised? = none) ∧
      (Machine.trail 10 ⟨m, .run p, []⟩).flatMap (·.overlooked) ≠ [] ∧
      m'.store.pending = [] ∧ validate m'.data s m'.name ≠ .ok () := by
  intro descriptor data p
  obtain ⟨s, m, m', hparse, hm, hend, hquiet, hoverlooked, hpending, hinvalid⟩ : ∃ s m m',
      Schema.parse .builtins descriptor = .ok s ∧
      create { data := some data, schema := some s } { immutable := false } .development = .ok m ∧
      Machine.runFor 10 ⟨m, .run p, []⟩ = ⟨m', .answer (.ok .null), []⟩ ∧
      (Machine.trail 10 ⟨m, .run p, []⟩).all (·.raised?.isNone) = true ∧
      ((Machine.trail 10 ⟨m, .run p, []⟩).flatMap (·.overlooked)).isEmpty = false ∧
      m'.store.pending = [] ∧ (validate m'.data s m'.name).isOk = false := by
    dsimp only [descriptor, data, p]
    exact ⟨_, _, _, rfl, rfl, rfl, rfl, rfl, rfl, rfl⟩
  refine ⟨s, m, m', hparse, hm, hend ▸ (Run.begin p).runFor 10, ?_, ?_, hpending, ?_⟩
  · simpa using hquiet
  · simpa using hoverlooked
  · intro he
    rw [he] at hinvalid
    cases hinvalid

end Model

end GuardedData
