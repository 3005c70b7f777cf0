import GuardedData.Proofs.Model.Run
import GuardedData.Proofs.Store.Laws

/-!
# Edits that have no place

To set or remove something takes a parent that has a slot for it: an object, or an array with an
element at the index that the last segment writes. A push takes an array and an update takes any
value. An edit fails exactly if its path leads to no such place, and then it is as if it had never
been asked for, but for its error (`Model.edit_error_iff`).
-/

namespace GuardedData

open Dotted

/-- Whether a value has no slot for a segment: it is a scalar, or an array of which the segment is
no index within its bounds. -/
def Value.LacksSlot (v : Value) (segment : String) : Prop :=
  v.isContainer = false ∨
    ∃ items, v = .array items ∧ ∀ i, index? segment = some i → items.length ≤ i

namespace Edit

/-- Whether the path of an edit leads to no place for it. -/
def Misplaced (root : Value) (path : String) : Edit → Prop
  | .set _ | .remove => segments path = [] ∨ ∃ parent last, segments path = parent ++ [last] ∧
    (root.find? parent = none ∨ ∃ v, root.find? parent = some v ∧ v.LacksSlot last)
  | .push _ => ∀ items, root.at? path ≠ some (.array items)
  | .update _ => root.at? path = none

end Edit

/-! ### Where changes fail -/

lemma Value.exists_alter_eq_error_iff {α : Type} {missing : PathFault}
    {f : Value → Except PathFault (Value × α)} {v : Value} {p : List String} :
    (∃ fault, v.alter missing f p = .error fault) ↔
      v.find? p = none ∨ ∃ old, v.find? p = some old ∧ ∃ fault, f old = .error fault := by
  cases hold : v.find? p with
  | none => simp [alter_of_find?_eq_none hold]
  | some old =>
    rw [alter_of_find? hold]
    cases hf : f old <;> simp [Except.map, hf]

namespace Edit

lemma exists_map_indexIn_eq_error_iff {β : Type} {items : List Value} {segment : String}
    {f : Nat → β} : (∃ fault, (indexIn items segment).map f = .error fault) ↔
      ∀ i, index? segment = some i → items.length ≤ i := by
  rw [indexIn]
  cases index? segment with
  | none => simp [Except.map]
  | some i => by_cases h : i < items.length <;> simp [Except.map, h, Nat.le_of_not_lt]

lemma exists_setChild_eq_error_iff {segment : String} {value v : Value} :
    (∃ fault, setChild segment value v = .error fault) ↔ v.LacksSlot segment := by
  cases v with
  | object entries => simp [setChild, Value.LacksSlot, Value.isContainer]
  | array items =>
    simp [setChild, exists_map_indexIn_eq_error_iff, Value.LacksSlot, Value.isContainer]
  | _ => simp [setChild, Value.LacksSlot, Value.isContainer]

lemma exists_removeChild_eq_error_iff {segment : String} {v : Value} :
    (∃ fault, removeChild segment v = .error fault) ↔ v.LacksSlot segment := by
  cases v with
  | object entries => simp [removeChild, Value.LacksSlot, Value.isContainer]
  | array items =>
    simp [removeChild, exists_map_indexIn_eq_error_iff, Value.LacksSlot, Value.isContainer]
  | _ => simp [removeChild, Value.LacksSlot, Value.isContainer]

lemma exists_pushItem_eq_error_iff {value v : Value} :
    (∃ fault, pushItem value v = .error fault) ↔ ∀ items, v ≠ .array items := by
  cases v <;> simp [pushItem]

/-- A change below a parent fails for want of a last segment or of a parent, or in the parent. -/
lemma exists_onParent_eq_error_iff
    {f : String → Value → Except PathFault (Value × Option Value)} {path : String}
    {root : Value} : (∃ fault, onParent f path root = .error fault) ↔
      segments path = [] ∨ ∃ parent last, segments path = parent ++ [last] ∧
        (root.find? parent = none ∨
          ∃ v, root.find? parent = some v ∧ ∃ fault, f last v = .error fault) := by
  rw [onParent]
  cases hparent : parent? path with
  | none => simp [parent?_eq_none_iff.1 hparent]
  | some parts =>
    obtain ⟨parent, last⟩ := parts
    rw [segments_eq_of_parent?_eq_some hparent]
    dsimp only
    rw [Value.exists_alter_eq_error_iff]
    constructor
    · intro h
      exact Or.inr ⟨segments parent, last, rfl, h⟩
    · rintro (hnil | ⟨parent', last', heq, h⟩)
      · simp at hnil
      · obtain ⟨rfl, hlast'⟩ := List.append_inj' heq rfl
        cases hlast'
        exact h

/-- An edit fails exactly if its path leads to no place for it. -/
theorem exists_apply_eq_error_iff {edit : Edit} {path : String} {root : Value} :
    (∃ fault, edit.apply path root = .error fault) ↔ edit.Misplaced root path := by
  cases edit with
  | set value =>
    simp only [apply, Misplaced, exists_onParent_eq_error_iff, exists_setChild_eq_error_iff]
  | remove =>
    simp only [apply, Misplaced, exists_onParent_eq_error_iff, exists_removeChild_eq_error_iff]
  | push value =>
    simp only [apply, Misplaced, Value.exists_alter_eq_error_iff, exists_pushItem_eq_error_iff]
    rw [← Value.at?]
    cases root.at? path <;> simp
  | update f => simp [apply, Misplaced, Value.exists_alter_eq_error_iff, Value.at?]

end Edit

namespace Model

open Machine

/-- **An edit fails exactly where it has no place, and then changes nothing.** Whatever a model
holds, has queued and is watched by, and whether or not a flush is under way, an edit whose path
leads to no place for it is answered at once with an error that gives the path as it was written.
The model is left as it was, down to the order of its keys, its queue and the credits of its guard,
and no watcher is told of anything. -/
theorem edit_error_iff (m : Model) (path : String) (change : Edit) :
    ((∃ fault, m.store.edit path change = .error fault) ↔ change.Misplaced m.data path) ∧
    (change.Misplaced m.data path → ∃ reason,
      (∀ stack next, step? ⟨m, .run (.ask (.edit path change) next), stack⟩ =
        some ⟨m, .run (next (.error (.invalidPath path reason))), stack⟩) ∧
      ∀ n ≥ 2, m.perform? n (.edit path change) =
        some (m, .error (.invalidPath path reason))) := by
  have hfault (fault : PathFault) :
      m.store.edit path change = .error fault ↔ change.apply path m.data = .error fault := by
    rw [Store.edit, data]
    cases change.apply path m.store.tree <;> simp
  constructor
  · simp only [hfault, Edit.exists_apply_eq_error_iff]
  · intro hmisplaced
    obtain ⟨fault, happly⟩ := Edit.exists_apply_eq_error_iff.2 hmisplaced
    have hstep (stack : List Frame) (next : Except ModelError (Option Value) → Program) :
        step? ⟨m, .run (.ask (.edit path change) next), stack⟩ =
          some ⟨m, .run (next (.error (.invalidPath path fault.reason))), stack⟩ :=
      congrArg some (edit_of_error happly stack next)
    refine ⟨fault.reason, hstep, fun n hn => perform?_of_le hn ?_⟩
    rw [perform?, Program.edit, runFor, hstep]
    rfl

/-- The index behind the last element is no place to remove from. The event that waits for its
watcher, which would fail, still waits afterwards, and the credit is still there. -/
theorem edit_error_iff_behind_the_end :
    let m : Model :=
      { name := anonymous
        store := ⟨.object [("list", .array [.ofInt 1])], .immediate,
          [⟨"list", .react fun _ => .fail (.custom "told")⟩], [⟨"list", none⟩], false⟩
        methods := []
        computed := []
        guard := some ⟨1⟩
        watchPaths := []
        environment := .development }
    ∃ reason, m.perform? 2 (.edit ".list..+1" .remove) =
      some (m, .error (.invalidPath ".list..+1" reason)) := by
  intro m
  have hmisplaced : Edit.remove.Misplaced m.data ".list..+1" := by
    refine Or.inr ⟨["list"], "+1", by decide, Or.inr ⟨.array [.ofInt 1], rfl, Or.inr ?_⟩⟩
    refine ⟨[.ofInt 1], rfl, fun i hi => ?_⟩
    cases (show index? "+1" = some 1 by decide).symm.trans hi
    exact Nat.le_refl 1
  obtain ⟨reason, -, hperform⟩ := (edit_error_iff m ".list..+1" .remove).2 hmisplaced
  exact ⟨reason, hperform 2 (Nat.le_refl 2)⟩

end Model

end GuardedData
