import GuardedData.Proofs.Model.Bare
import GuardedData.Proofs.Schema.Mismatch

/-!
# Watch paths that are misread

The check on a watch path has the node of the schema that the path leads to. The path is written
from the keys of a node and read by the parts between its dots, so it leads back to the node as long
as all keys are plain. A key that has a dot in it, or is empty, can make it lead nowhere; then the
model is made all the same, and it says that its schema is invalid when the data there changes, in
place of checking the data (`Model.misread_of_invalidSchema`).
-/

namespace GuardedData

open Machine

/-- Whether a path into the data of a model is that of a watch path which leads nowhere. -/
def Schema.Misread (s : Schema) (label : String) (path : DataPath) : Prop :=
  ∃ w ∈ s.watchPaths, s.lookup w = none ∧ path = (DataPath.root label).joinDotted w

/-- User code that makes up no invalid schema, but may hand on one at some paths. -/
def Conduct.blaming (paths : DataPath → Prop) : Conduct where
  asks _ := True
  watches := True
  fails e := ∀ path, e = .validation (.invalidSchema path) → paths path
  fails_of_isRefusal e h path he := by
    subst he
    cases h

/-- Where all keys are plain no watch path is misread. -/
lemma Schema.not_misread {s : Schema} (hkeys : s.DistinctKeys)
    (hplain : ∀ keys node, s.find? keys = some node → ∀ key ∈ keys, Dotted.Plain key)
    (label : String) (path : DataPath) : ¬s.Misread label path := by
  rintro ⟨w, hw, hnone, -⟩
  obtain ⟨keys, node, rfl, hnode, -⟩ := exists_of_mem_watchPaths hkeys hw
  rw [lookup_join_of_plain s (hplain keys node hnode), hnode] at hnone
  cases hnone

namespace Machine

variable {t : Machine}

/-- Only a check objects with an error of validation. -/
lemma told?_of_objected?_validation {e : ValidationError}
    (h : t.objected? = some (.validation e)) :
    ∃ schema path value, t.told? = some (.check schema path, value) := by
  obtain ⟨m, control, stack⟩ := t
  cases control with
  | deliver callbacks value failure =>
    cases callbacks with
    | nil => cases h
    | cons callback callbacks =>
      cases callback with
      | react body => cases h
      | settle path =>
        have hviolation := Model.isGuardViolation_of_settle h
        cases hviolation
      | check schema path => exact ⟨schema, path, value, rfl⟩
  | _ => cases h

lemma objected?_eq_of_told? {callback : Callback} {value : Option Value}
    (h : t.told? = some (callback, value)) : t.objected? = objection? t.model value callback := by
  obtain ⟨m, control, stack⟩ := t
  have hmove := move_of_told? h
  cases control with
  | run p =>
    cases p with
    | ask request next => exact absurd hmove ((moveOf_ne m request).2 _ _)
    | _ => cases hmove
  | deliver callbacks value' failure =>
    cases callbacks with
    | nil => cases hmove
    | cons first callbacks =>
      cases hmove
      rfl
  | _ => cases hmove

end Machine

namespace Model

variable {d : Definition} {o : Options} {current : Environment} {m : Model} {s : Schema}

/-- A check of a new model is that of a watch path, against what the path leads to. -/
lemma check_of_create (hm : create d o current = .ok m) (hs : d.schema = some s)
    {w : Watcher Callback} (hw : w ∈ m.store.watchers) {schema : Option Schema} {path : DataPath}
    (hcheck : w.callback = .check schema path) : ∃ p ∈ s.watchPaths,
      schema = s.lookup p ∧ path = (DataPath.root m.name).joinDotted p := by
  cases henv : o.resolve current with
  | production =>
    -- In production no watcher is added to those of the user.
    cases hdata : d.data with
    | none => simp [create, hdata] at hm
    | some data =>
      rw [create, hdata] at hm
      simp only [henv, hs] at hm
      split at hm
      · cases hm
      · cases hm
        have hreacts := reacts_of_mem_unchecked w hw
        rw [hcheck] at hreacts
        cases hreacts
  | development =>
    have hcreated := created_of_create hm henv
    rw [hcreated.watchers] at hw
    rcases List.mem_append.1 hw with hw | hw
    · obtain ⟨user, -, rfl⟩ := List.mem_map.1 hw
      cases hcheck
    · rcases List.mem_append.1 hw with hw | hw
      · split at hw
        · obtain ⟨p, -, rfl⟩ := List.mem_map.1 hw
          cases hcheck
        · cases hw
      · obtain ⟨p, hp, rfl⟩ := List.mem_map.1 hw
        refine ⟨p, by simpa [Enforcement.ofDefinition, hs] using hp, ?_⟩
        cases hcheck
        simp [Enforcement.ofDefinition, hs, hcreated.name]

/-- A check that a run tells is that of a watch path. -/
lemma check_of_told? (hm : create d o current = .ok m) (hs : d.schema = some s)
    {past : List Machine} {t : Machine} (hrun : Run m past t) {schema : Option Schema}
    {path : DataPath} {value : Option Value} (htold : t.told? = some (.check schema path, value)) :
    ∃ p ∈ s.watchPaths, schema = s.lookup p ∧ path = (DataPath.root m.name).joinDotted p := by
  obtain ⟨w, hw, hcheck⟩ := hrun.exists_watcher_of_told? htold
  obtain ⟨later, hwatchers, hlater⟩ := hrun.watchers
  rw [hwatchers] at hw
  rcases List.mem_append.1 hw with hw | hw
  · exact check_of_create hm hs hw hcheck
  · obtain ⟨body, hbody⟩ := hlater w hw
    rw [hbody] at hcheck
    cases hcheck

/-- **A schema is called invalid only where a watch path is misread.** Whatever model a schema that
a descriptor describes has been made into, each of its watch paths is written from keys that lead to
a node and is looked up by the parts of the keys, so it leads back if they are plain. A run tells no
check but those of the watch paths; the check of a path that leads nowhere calls the schema invalid,
whatever the value is, and no other check does. Nothing that user code is answered, or that the run
comes to, does so elsewhere, unless user code makes it up; and where all keys are plain nothing does
so at all. -/
theorem misread_of_invalidSchema {descriptor : Value}
    (hparse : Schema.parse .builtins descriptor = .ok s) (hs : d.schema = some s)
    (hm : create d o current = .ok m) {past : List Machine} {t : Machine} (hrun : Run m past t) :
    (∀ w ∈ s.watchPaths, ∃ keys node, w = Dotted.join keys ∧ s.find? keys = some node ∧
      node.isObject = false ∧ s.lookup w = s.find? (keys.flatMap Dotted.segments) ∧
      ((∀ key ∈ keys, Dotted.Plain key) → s.lookup w = some node)) ∧
    (∀ schema path value, t.told? = some (.check schema path, value) →
      (∃ w ∈ s.watchPaths, schema = s.lookup w ∧ path = (DataPath.root m.name).joinDotted w) ∧
      ∀ at_, t.objected? = some (.validation (.invalidSchema at_)) ↔ schema = none ∧ path = at_) ∧
    (d.Keeps (.blaming (s.Misread m.name)) → Run.Keeping (.blaming (s.Misread m.name)) m past t →
      ∀ path, t.control = .answer (.error (.validation (.invalidSchema path))) →
        s.Misread m.name path ∧ ∃ keys node, s.find? keys = some node ∧
          ∃ key ∈ keys, ¬Dotted.Plain key) := by
  have hbuilt := Schema.built_of_parse hparse
  have hinvalid {past : List Machine} {t : Machine} (h : Run m past t) {schema : Option Schema}
      {path : DataPath} {value : Option Value} (htold : t.told? = some (.check schema path, value))
      (at_ : DataPath) :
      t.objected? = some (.validation (.invalidSchema at_)) ↔ schema = none ∧ path = at_ := by
    obtain ⟨w, -, hschema, -⟩ := check_of_told? hm hs h htold
    rw [objected?_eq_of_told? htold, ← deepCheck_eq_invalidSchema_iff
      fun s' hs' => hbuilt.of_find? (hschema.symm.trans hs')]
    simp only [objection?]
    cases deepCheck value schema path <;> simp
  -- What a run says of the schema it says in a check, and a check looks up a watch path.
  have hmisread {past : List Machine} {t : Machine} (h : Run m past t) {at_ : DataPath}
      (he : t.objected? = some (.validation (.invalidSchema at_))) : s.Misread m.name at_ := by
    obtain ⟨schema, path, value, htold⟩ := told?_of_objected?_validation he
    obtain ⟨w, hw, rfl, rfl⟩ := check_of_told? hm hs h htold
    obtain ⟨hnone, rfl⟩ := (hinvalid h htold at_).1 he
    exact ⟨w, hw, hnone, rfl⟩
  refine ⟨fun w hw => ?_, fun schema path value htold => ?_, fun hcode hkeeping path hanswer => ?_⟩
  · obtain ⟨keys, node, rfl, hnode, hleaf⟩ := Schema.exists_of_mem_watchPaths hbuilt.distinctKeys hw
    refine ⟨keys, node, rfl, hnode, hleaf, s.lookup_join keys, fun hplain => ?_⟩
    rw [s.lookup_join_of_plain hplain, hnode]
  · exact ⟨check_of_told? hm hs hrun htold, hinvalid hrun htold⟩
  · have hkeeps := hkeeping.keeps (keeps_of_create hm hcode) fun t' ht' e he path hpath => by
      obtain ⟨before, hbefore⟩ := hrun.of_mem_past ht'
      exact hmisread hbefore (hpath ▸ he)
    have hresult := hkeeps.control
    rw [hanswer] at hresult
    have hpath := hresult _ rfl path rfl
    refine ⟨hpath, ?_⟩
    by_contra hplain
    push Not at hplain
    exact Schema.not_misread hbuilt.distinctKeys hplain m.name path hpath

/-- A key with a dot in it makes a watch path that leads nowhere. Setting what is there makes the
model call its schema invalid. -/
theorem misread_of_invalidSchema_dotted_key :
    let descriptor : Value := .object [("a.b", .string "number")]
    let p : Program := .edit "a" (.set (.object [("b", .ofInt 1)]))
    ∃ s m m' path, Schema.parse .builtins descriptor = .ok s ∧
      create { data := some (.object [("a.b", .ofInt 1)]), schema := some s } { immutable := false }
        .development = .ok m ∧
      runFor 20 ⟨m, .run p, []⟩ =
        ⟨m', .answer (.error (.validation (.invalidSchema path))), []⟩ ∧
      path.text = "[anonymous].a.b" ∧ s.Misread m.name path := by
  intro descriptor p
  obtain ⟨s, hparse⟩ : ∃ s, Schema.parse .builtins descriptor = .ok s := ⟨_, rfl⟩
  obtain ⟨m, hm⟩ : ∃ m, create { data := some (.object [("a.b", .ofInt 1)]), schema := some s }
      { immutable := false } .development = .ok m := by
    cases hparse
    exact ⟨_, rfl⟩
  obtain ⟨m', path, hend, htext⟩ : ∃ m' path, runFor 20 ⟨m, .run p, []⟩ =
      ⟨m', .answer (.error (.validation (.invalidSchema path))), []⟩ ∧
        path.text = "[anonymous].a.b" := by
    cases hparse
    cases hm
    exact ⟨_, _, rfl, by decide⟩
  have hp : p.Keeps (.blaming (s.Misread m.name)) := .edit trivial
  have hkeeping := (Run.Keeping.begin (m := m) hp).runFor 20
  rw [hend] at hkeeping
  have hcode : Definition.Keeps (.blaming (s.Misread m.name))
      { data := some (.object [("a.b", .ofInt 1)]), schema := some s } :=
    .of_forall (List.forall_mem_nil _) (List.forall_mem_nil _) (List.forall_mem_nil _)
  obtain ⟨-, -, hblamed⟩ := misread_of_invalidSchema hparse rfl hm hkeeping.run
  exact ⟨s, m, m', path, hparse, hm, hend, htext, (hblamed hcode hkeeping path rfl).1⟩

end Model

end GuardedData
