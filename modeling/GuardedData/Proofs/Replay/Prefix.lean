import GuardedData.Proofs.Model.Bare
import GuardedData.Proofs.Replay.Operation

/-!
# What a replay leaves behind

Whatever its model enforces, a replay leaves the data that the edits of a prefix of its script make
of the data at the start (`Replay.leaves_run`). No watcher of its model runs user code, so that a
flush comes to its end within the bound, touches no data, and fails with nothing but objections of
the guard and of the checks. An edit that these object to is made all the same, and is the last one.
-/

namespace GuardedData

open Machine (ComesTo)

/-! ### Flushes without user code -/

def ModelError.isObjection : ModelError → Bool
  | .validation _ => true
  | e => e.isGuardViolation

/-- Whether no watcher of a model runs user code. -/
def Model.Unattended (m : Model) : Prop := ∀ w ∈ m.store.watchers, w.callback.reacts = false

/-- A model with another guard, another queue and another mark of whether a flush is under way. -/
def Model.having (m : Model) (guard : Option Guard) (pending : List Event) (flushing : Bool) :
    Model :=
  { m with guard, store := { m.store with pending, flushing } }

namespace Model

variable {m : Model} {guard : Option Guard} {pending : List Event} {flushing : Bool}
  {callbacks : List Callback} {value : Option Value}

lemma isObjection_of_objection? {callback : Callback} {e : ModelError}
    (h : Machine.objection? m value callback = some e) : e.isObjection = true := by
  cases callback with
  | react body => cases h
  | settle path =>
    have hviolation := isGuardViolation_of_settle h
    cases e <;> first | rfl | exact hviolation
  | check schema path =>
    simp only [Machine.objection?] at h
    split at h <;> cases h
    rfl

/-- A callback that runs no user code changes the guard at most, and may object. -/
lemma exists_step?_tell (m : Model) (guard : Option Guard) (pending : List Event)
    (flushing : Bool) (value : Option Value) (failure : Option ModelError) {callback : Callback}
    (h : callback.reacts = false) (callbacks : List Callback) : ∃ guard', ∀ stack,
      Machine.step? ⟨m.having guard pending flushing,
        .deliver (callback :: callbacks) value failure, stack⟩ = some ⟨m.having guard' pending flushing, .deliver callbacks value
          (failure.or (Machine.objection? (m.having guard pending flushing) value callback)),
            stack⟩ := by
  cases callback with
  | react body => cases h
  | settle path =>
    refine ⟨guard.map (·.spend path), fun stack => ?_⟩
    simp only [Machine.step?, Machine.tell, Machine.settle_fst, Machine.objection?]
    rfl
  | check schema path => exact ⟨guard, fun stack => rfl⟩

/-- Callbacks that run no user code are all told, in one step each. -/
lemma exists_comesTo_deliver (m : Model) (guard : Option Guard) (pending : List Event)
    (flushing : Bool) (value : Option Value) (failure : Option ModelError)
    (hfailure : ∀ e ∈ failure, e.isObjection = true)
    (hcallbacks : ∀ callback ∈ callbacks, callback.reacts = false) :
    ∃ guard' failure', (∀ e ∈ failure', e.isObjection = true) ∧ ∀ stack,
      ComesTo callbacks.length
        ⟨m.having guard pending flushing, .deliver callbacks value failure, stack⟩
        ⟨m.having guard' pending flushing, .deliver [] value failure', stack⟩ := by
  induction callbacks generalizing guard failure with
  | nil => exact ⟨guard, failure, hfailure, fun stack => .refl _⟩
  | cons callback callbacks ih =>
    obtain ⟨hfirst, hrest⟩ := List.forall_mem_cons.1 hcallbacks
    obtain ⟨guard', htold⟩ :=
      exists_step?_tell m guard pending flushing value failure hfirst callbacks
    have hkept : ∀ e ∈ failure.or (Machine.objection? (m.having guard pending flushing) value
        callback), e.isObjection = true := by
      intro e he
      rcases Option.or_eq_some_iff.1 he with he | ⟨-, he⟩
      · exact hfailure e he
      · exact isObjection_of_objection? he
    obtain ⟨last, failure', hobjection, hcome⟩ := ih guard' _ hkept hrest
    exact ⟨last, failure', hobjection, fun stack => .head (htold stack) (hcome stack)⟩

/-- A flush without user code comes to its end. -/
lemma exists_comesTo_drain (hm : m.Unattended) (guard : Option Guard) (pending : List Event) :
    ∃ guard' rest failure, (∀ e ∈ failure, e.isObjection = true) ∧ ∀ stack,
      ComesTo (pending.length * (m.store.watchers.length + 2) + 1)
        ⟨m.having guard pending true, .drain, stack⟩
        ⟨m.having guard' rest false, .answer (outcome failure), stack⟩ := by
  induction pending generalizing guard with
  | nil => exact ⟨guard, [], none, by simp, fun stack => .mono (by omega) (.head rfl (.refl _))⟩
  | cons event pending ih =>
    have hcallbacks : ∀ callback ∈ m.store.callbacks event.path, callback.reacts = false := by
      intro callback hmem
      obtain ⟨w, hw, rfl⟩ := List.mem_map.1 hmem
      exact hm w (List.mem_filter.1 hw).1
    have hlength : (m.store.callbacks event.path).length ≤ m.store.watchers.length := by
      rw [Store.callbacks, List.length_map]
      exact List.length_filter_le _ _
    -- Beside its callbacks an event takes two steps: it is taken, and the queue is looked at again.
    obtain ⟨guard', failure, hfailure, htold⟩ :=
      exists_comesTo_deliver m guard pending true event.value none (by simp) hcallbacks
    cases failure with
    | none =>
      obtain ⟨last, rest, failure', hobjection, hcome⟩ := ih guard'
      refine ⟨last, rest, failure', hobjection, fun stack => ?_⟩
      refine .mono ?_ (.head rfl ((htold stack).trans (.head rfl (hcome stack))))
      rw [List.length_cons, Nat.add_one_mul]
      omega
    | some e =>
      refine ⟨guard', pending, some e, hfailure, fun stack => ?_⟩
      refine .mono ?_ (.head rfl ((htold stack).trans (.head rfl (.refl _))))
      rw [List.length_cons, Nat.add_one_mul]
      omega

/-- A flush that is asked for without one under way comes to its end. -/
lemma exists_comesTo_beginFlush (hm : m.Unattended) (hidle : m.store.flushing = false) :
    ∃ guard rest failure, (∀ e ∈ failure, e.isObjection = true) ∧ ∀ stack next,
      ComesTo (m.store.pending.length * (m.store.watchers.length + 2) + 2)
        (Machine.beginFlush stack m next)
        ⟨m.having guard rest false, .run (next ((outcome failure).map fun _ => ())), stack⟩ := by
  obtain ⟨guard, rest, failure, hobjection, hcome⟩ :=
    exists_comesTo_drain hm m.guard m.store.pending
  refine ⟨guard, rest, failure, hobjection, fun stack next => ?_⟩
  have hbegin : Machine.beginFlush stack m next = ⟨m.having m.guard m.store.pending true, .drain,
      .resume (fun r => next (r.map fun _ => ())) :: stack⟩ := by
    rw [Machine.beginFlush, hidle]
    rfl
  rw [hbegin]
  exact (hcome _).trans (.head rfl (.refl _))

/-- An edit that can be made is made, and its flush comes to its end. -/
lemma exists_comesTo_edit (hm : m.Unattended) (hidle : m.store.flushing = false) {path : String}
    {change : Edit} {after : Value} {removed : Option Value}
    (happly : change.apply path m.data = .ok (after, removed)) :
    ∃ guard rest answer, (∀ e, answer = .error e → e.isObjection = true) ∧ ∀ stack next,
      ComesTo ((m.edited path after).store.pending.length * (m.store.watchers.length + 2) + 3)
        ⟨m, .run (.ask (.edit path change) next), stack⟩
        ⟨(m.edited path after).having guard rest false, .run (next answer), stack⟩ := by
  have hmade : (m.edited path after).Unattended := hm
  have hstep {stack : List Frame} {next : Except ModelError (Option Value) → Program} {t : Machine}
      (h : Machine.edit stack m path change next = t) :
      Machine.step? ⟨m, .run (.ask (.edit path change) next), stack⟩ = some t := congrArg some h
  cases hmode : m.store.mode with
  | immediate =>
    obtain ⟨guard, rest, failure, hobjection, hcome⟩ := exists_comesTo_beginFlush hmade hidle
    refine ⟨guard, rest, (outcome failure).map fun _ => removed, fun e he => ?_,
      fun stack next => ?_⟩
    · cases failure with
      | none => cases he
      | some e' =>
        cases he
        exact hobjection e rfl
    · have hserved := Machine.edit_of_ok happly stack next
      rw [hmode] at hserved
      have hflush := hcome stack fun r => next (r.map fun _ => removed)
      cases failure <;> exact .head (hstep hserved) hflush
  | deferred =>
    have hsame : (m.edited path after).having m.guard (m.edited path after).store.pending false =
        m.edited path after := by
      simp only [having, edited, ← hidle]
    refine ⟨m.guard, (m.edited path after).store.pending, .ok removed, by simp,
      fun stack next => ?_⟩
    have hserved := Machine.edit_of_ok happly stack next
    rw [hmode] at hserved
    rw [hsame]
    exact .mono (by omega) (.head (hstep hserved) (.refl _))

end Model

namespace Replay

/-! ### Operations -/

/-- Whether a model offers what a replay calls, and neither user code watches it nor a flush is
under way. -/
structure Ready (m : Model) : Prop where
  methods : m.methods =
    [("append", .sync append), ("assign", .sync assign), ("delete", .sync delete)]
  unattended : m.Unattended
  flushing : m.store.flushing = false

variable {m : Model} {op : Op}

lemma Ready.entered (h : Ready m) (op : Op) : Ready (entered m op) := by
  unfold Replay.entered
  split
  · exact { h with }
  · exact h

lemma ready_of_create {name : String} {data : Value} {schema : Schema} {o : Options}
    {current : Environment} (hm : Model.create (definition name data schema) o current = .ok m) :
    Ready m ∧ m.data = data := by
  obtain ⟨_, others, hdata, -, hothers, rfl⟩ := Model.exists_of_create hm
  cases hdata
  exact ⟨⟨rfl, hothers, rfl⟩, rfl⟩

/-- An operation whose edit can be made makes it, and fails at most with what is objected to it. -/
theorem perform_op_of_ok (h : Ready m) {after : Value} {removed : Option Value}
    (happly : op.verb.toEdit.apply op.path m.data = .ok (after, removed)) :
    ∃ m' result, perform m (opProgram op) = (m', result) ∧ Ready m' ∧ m'.data = after ∧
      ∀ e, result = .error e → e.isObjection = true := by
  have hm := h.entered op
  have hedit : op.verb.toEdit.apply op.path (entered m op).data = .ok (after, removed) := by
    rw [Model.data, store_entered]
    exact happly
  obtain ⟨guard, rest, answer, hobjection, hrun⟩ :=
    Model.exists_comesTo_edit hm.unattended hm.flushing hedit
  obtain ⟨value, hop⟩ := comesTo_op h.methods op
  have hcome := hop _ _ _ hrun
  have hbound : ((entered m op).edited op.path after).store.pending.length ≤
      m.store.pending.length + m.store.watchers.length := by
    have hlength := length_changes_le m.store after op.path
    simp only [Model.edited, store_entered, List.length_append]
    omega
  have hmul := Nat.mul_le_mul_right (m.store.watchers.length + 2) hbound
  rw [perform_eq hcome (by simp only [stepBound, store_entered]; omega)]
  refine ⟨_, _, rfl, ⟨hm.methods, hm.unattended, rfl⟩, rfl, fun e he => ?_⟩
  cases answer with
  | ok removed => cases he
  | error e' =>
    cases he
    exact hobjection e rfl

/-- The end of a replay touches no data, and fails with no operation. -/
lemma finish_data (h : Ready m) : (finish m).1.data = m.data ∧
    ∀ index op e, (finish m).2 ≠ some (.operation index op e) := by
  obtain ⟨guard, rest, failure, -, hflush⟩ :=
    Model.exists_comesTo_beginFlush h.unattended h.flushing
  have hcome : ComesTo (m.store.pending.length * (m.store.watchers.length + 2) + 4)
      ⟨m, .run flushProgram, []⟩ ⟨m.having guard rest false, .answer (outcome failure), []⟩ := by
    refine .head rfl ((hflush [] _).trans (.head ?_ (.refl _)))
    cases failure <;> rfl
  have hmul := Nat.mul_le_mul_right (m.store.watchers.length + 2)
    (Nat.le_add_right m.store.pending.length m.store.watchers.length)
  rw [finish, perform_eq hcome (by simp only [stepBound]; omega)]
  cases failure with
  | some e => exact ⟨rfl, by simp [outcome]⟩
  | none =>
    simp only [outcome]
    cases (m.having guard rest false).credits with
    | none => exact ⟨rfl, by simp⟩
    | some credits => exact ⟨rfl, by split <;> simp⟩

/-! ### Scripts -/

/-- The tree after the edit of an operation, if it can be made. -/
def edited? (tree : Value) (op : Op) : Option Value :=
  (op.verb.toEdit.apply op.path tree).toOption.map (·.1)

/-- The tree after the edits of some operations, if all can be made. -/
def editAll? (tree : Value) (script : List Op) : Option Value := script.foldlM edited? tree

/-- What a replay of a script on a tree leaves, with its fault. -/
inductive Leaves (tree : Value) (script : List Op) : Value → Option Fault → Prop
  /-- Every edit has been made, and what fails, if anything does, is the end. -/
  | whole {final : Value} {fault? : Option Fault} (hfold : editAll? tree script = some final)
    (hfault : ∀ index op e, fault? ≠ some (.operation index op e)) : Leaves tree script final fault?
  /-- An edit has been made and was objected to. -/
  | refused {index : Nat} {op : Op} {e : ModelError} {final : Value}
    (hop : script[index]? = some op)
    (hfold : editAll? tree (script.take (index + 1)) = some final) (he : e.isObjection = true) :
    Leaves tree script final (some (.operation index op e))
  /-- An edit could not be made. -/
  | misplaced {index : Nat} {op : Op} {fault : PathFault} {final : Value}
    (hop : script[index]? = some op) (hfold : editAll? tree (script.take index) = some final)
    (happly : op.verb.toEdit.apply op.path final = .error fault) :
    Leaves tree script final
      (some (.operation index op (.invalidPath op.path fault.reason)))

lemma editAll?_concat (tree : Value) (script : List Op) (op : Op) :
    editAll? tree (script ++ [op]) = (editAll? tree script).bind (edited? · op) := by
  simp [editAll?, List.foldlM_append]

/-- Where some operations have been carried out, the rest of a script leaves what the whole does. -/
theorem leaves_runFrom {tree : Value} {done : List Op} (h : Ready m)
    (hdone : editAll? tree done = some m.data) (rest : List Op) :
    Leaves tree (done ++ rest) (runFrom done.length m rest).1.data
      (runFrom done.length m rest).2 := by
  induction rest generalizing m done with
  | nil =>
    obtain ⟨hdata, hfault⟩ := finish_data h
    rw [List.append_nil, runFrom, hdata]
    exact .whole hdone hfault
  | cons op rest ih =>
    have hop : (done ++ op :: rest)[done.length]? = some op := by simp
    cases happly : op.verb.toEdit.apply op.path m.data with
    | error fault =>
      have hdata : (entered m op).data = m.data := by rw [Model.data, store_entered]; rfl
      rw [runFrom, perform_op_of_error h.methods happly]
      refine .misplaced hop ?_ (by rw [hdata, happly])
      rw [List.take_left, hdone, hdata]
    | ok result =>
      obtain ⟨after, removed⟩ := result
      obtain ⟨m', result, hperform, hready, rfl, hobjection⟩ := perform_op_of_ok h happly
      have hmade : editAll? tree (done ++ [op]) = some m'.data := by
        rw [editAll?_concat, hdone, Option.bind_some, edited?, happly]
        rfl
      rw [runFrom, hperform]
      cases result with
      | error e =>
        refine .refused hop ?_ (hobjection e rfl)
        rwa [List.take_append, List.take_of_length_le (by omega), Nat.add_sub_cancel_left]
      | ok v =>
        have hrest := ih hready hmade
        rwa [List.append_assoc, List.length_append] at hrest

/-! ### Where a replay stops -/

def Fault.index? : Fault → Option Nat
  | .operation index _ _ => some index
  | .flush _ | .leftover _ => none

/-- The tree when a script has stopped at an operation, whose own edit is made if it can be, or at
its end. -/
def treeAt? (tree : Value) (script : List Op) : Option Nat → Option Value
  | none => editAll? tree script
  | some index =>
    (editAll? tree (script.take (index + 1))).or (editAll? tree (script.take index))

lemma Leaves.treeAt?_eq {tree final : Value} {script : List Op} {fault? : Option Fault}
    (h : Leaves tree script final fault?) :
    treeAt? tree script (fault?.bind Fault.index?) = some final := by
  cases h with
  | whole hfold hfault =>
    cases fault? with
    | none => exact hfold
    | some fault =>
      cases fault with
      | operation index op e => exact absurd rfl (hfault index op e)
      | _ => exact hfold
  | @refused index op e _ hop hfold he =>
    show (editAll? tree (script.take (index + 1))).or _ = _
    rw [hfold, Option.some_or]
  | @misplaced index op fault _ hop hfold happly =>
    have hnone : editAll? tree (script.take (index + 1)) = none := by
      rw [List.take_add_one, hop, Option.toList_some, editAll?_concat, hfold, Option.bind_some,
        edited?, happly]
      rfl
    show (editAll? tree (script.take (index + 1))).or _ = _
    rw [hnone, Option.none_or, hfold]

/-- Scripts that differ in what is guarded make the same edits. -/
lemma editAll?_congr {script script' : List Op}
    (h : script'.map (fun op => (op.verb, op.path)) = script.map fun op => (op.verb, op.path))
    (tree : Value) : editAll? tree script' = editAll? tree script := by
  have hmap (s : List Op) : editAll? tree s = (s.map fun op => (op.verb, op.path)).foldlM
      (fun tree edit => edited? tree ⟨edit.1, edit.2, false⟩) tree := by
    rw [List.foldlM_map]
    rfl
  rw [hmap, hmap, h]

lemma treeAt?_congr {script script' : List Op}
    (h : script'.map (fun op => (op.verb, op.path)) = script.map fun op => (op.verb, op.path))
    (tree : Value) (stop : Option Nat) : treeAt? tree script' stop = treeAt? tree script stop := by
  have htake (n : Nat) : editAll? tree (script'.take n) = editAll? tree (script.take n) :=
    editAll?_congr (by rw [List.map_take, List.map_take, h]) tree
  cases stop with
  | none => exact editAll?_congr h tree
  | some index => rw [treeAt?, treeAt?, htake, htake]

/-- **A replay leaves the edits of a prefix of its script.** That prefix is the whole script unless
an operation fails; it ends with this operation if its edit can be made, and before it otherwise.
What is guarded, and all that the model enforces, bear on the data through where the replay stops
and in no other way. -/
theorem leaves_run {name : String} {data : Value} {schema : Schema} {o : Options}
    {current : Environment} {m : Model}
    (hm : Model.create (definition name data schema) o current = .ok m) (script : List Op) :
    Leaves data script (run m script).1.data (run m script).2 ∧
    ∀ {name' : String} {schema' : Schema} {o' : Options} {current' : Environment} {m' : Model},
      Model.create (definition name' data schema') o' current' = .ok m' → ∀ script' : List Op,
      (script'.map (fun op => (op.verb, op.path)) = script.map fun op => (op.verb, op.path)) →
      (run m' script').2.bind Fault.index? = (run m script).2.bind Fault.index? →
      (run m' script').1.data = (run m script).1.data := by
  have hleaves {name : String} {schema : Schema} {o : Options} {current : Environment} {m : Model}
      (hm : Model.create (definition name data schema) o current = .ok m) (script : List Op) :
      Leaves data script (run m script).1.data (run m script).2 := by
    obtain ⟨hready, rfl⟩ := ready_of_create hm
    have hdone : editAll? m.data [] = some m.data := rfl
    exact leaves_runFrom hready hdone script
  refine ⟨hleaves hm script, ?_⟩
  intro name' schema' o' current' m' hm' script' hedits hstop
  have hfinal := (hleaves hm script).treeAt?_eq
  have hfinal' := (hleaves hm' script').treeAt?_eq
  rw [hstop, treeAt?_congr hedits, hfinal] at hfinal'
  exact (Option.some.inj hfinal').symm

/-- A direct edit that the guard objects to stays, and so does the same edit where nothing is
guarded and the schema objects to it; the operation after it is not carried out. -/
theorem leaves_run_refused :
    let data : Value := .object [("a", .ofInt 1)]
    let script : List Op :=
      [⟨.set (.ofInt 2), "a", true⟩, ⟨.set (.string "x"), "a", false⟩,
        ⟨.set (.ofInt 4), "a", true⟩]
    let direct : List Op := script.map fun op => { op with guarded := false }
    let schema : Schema := .object [("a", .leaf (.anyOf [.number, .string]))]
    let strict : Schema := .object [("a", .leaf .number)]
    let final : Value := .object [("a", .string "x")]
    let stop : String := "op 1: set a (direct): "
    ∃ m m',
      Model.create (definition "m" data schema) {} .development = .ok m ∧
      Model.create (definition "n" data strict) { immutable := false } .development = .ok m' ∧
      (run m script).2.map Fault.message = some (stop ++ (ModelError.immutable "a").message) ∧
      (run m' direct).2.map Fault.message =
        some (stop ++ (ModelError.validation (.checkFailed ⟨"n", [.key "a"]⟩ "\"x\"")).message) ∧
      (run m script).1.data = final ∧ (run m' direct).1.data = final := by
  intro data script direct schema strict final stop
  obtain ⟨m, hm, hindex, hstop⟩ : ∃ m,
      Model.create (definition "m" data schema) {} .development = .ok m ∧
      (run m script).2.bind Fault.index? = some 1 ∧
      (run m script).2.map Fault.message = some (stop ++ (ModelError.immutable "a").message) :=
    ⟨_, rfl, by decide +kernel, by decide +kernel⟩
  obtain ⟨m', hm', hindex', hstop'⟩ : ∃ m',
      Model.create (definition "n" data strict) { immutable := false } .development = .ok m' ∧
      (run m' direct).2.bind Fault.index? = some 1 ∧
      (run m' direct).2.map Fault.message =
        some (stop ++ (ModelError.validation (.checkFailed ⟨"n", [.key "a"]⟩ "\"x\"")).message) :=
    ⟨_, rfl, by decide +kernel, by decide +kernel⟩
  obtain ⟨hleaves, hsame⟩ := leaves_run hm script
  have hdata : (run m script).1.data = final := by
    have hfinal := hleaves.treeAt?_eq
    rw [hindex] at hfinal
    exact (Option.some.inj hfinal).symm
  refine ⟨m, m', hm, hm', hstop, hstop', hdata, ?_⟩
  rw [hsame hm' direct rfl (hindex'.trans hindex.symm), hdata]

end Replay

end GuardedData
