import GuardedData.Model.Machine
import GuardedData.Proofs.Value.Distinct

/-!
# Runs of a model

User code can do anything between two changes of the data, but what it does to the data, the queue,
the watchers and the guard is one of a few moves. A standing keeps of a machine only these and the
callbacks still to be told, and every step of the machine is a move of its standing
(`Machine.standing_of_step?`). What each allowed move keeps is kept by a whole run
(`Run.invariant`): so it is with data whose objects have each key once (`Run.distinct_data`).
-/

namespace GuardedData

/-! ### Standings -/

def Store.atRest {κ : Type} (s : Store κ) : Store κ := { s with flushing := false }

/-- What a machine does to the data, the queue, the watchers and the guard in one step. -/
inductive Move
  /-- Nothing. -/
  | quiet
  /-- Edit the data. -/
  | edit (path : String) (change : Edit)
  /-- Watch a path from now on. -/
  | watch (path : String) (body : Option Value → Program)
  /-- Make a guarded entry. -/
  | enter
  /-- Take the event at the front of the queue, if there is one. -/
  | take
  /-- Tell a callback of a value. -/
  | tell (callback : Callback) (value : Option Value)

/-- What of a machine its moves are about. -/
structure Standing where
  store : Store Callback
  guard : Option Guard
  /-- The callbacks of events that have been taken, with the values to tell them of. -/
  untold : List (Callback × Option Value)

/-- The guard after a change at a path; without a credit it stays as it is. -/
def Guard.spend (g : Guard) (path : String) : Guard :=
  match g.settle path with
  | .ok g => g
  | .error _ => g

def Standing.after (a : Standing) : Move → Standing
  | .quiet => a
  | .edit path change =>
    match a.store.edit path change with
    | .ok (store, _) => { a with store }
    | .error _ => a
  | .watch path body => { a with store := a.store.watch path (.react body) }
  | .enter => { a with guard := a.guard.map Guard.enter }
  | .take =>
    match a.store.takeEvent? with
    | some (event, store) =>
      { a with store, untold := (store.callbacks event.path).map (·, event.value) ++ a.untold }
    | none => a
  | .tell (.settle path) _ =>
    { a with guard := a.guard.map (·.spend path), untold := a.untold.tail }
  | .tell _ _ => { a with untold := a.untold.tail }

/-- A move adds watchers that run user code at most. -/
lemma Standing.watchers_after (a : Standing) (move : Move) :
    ∃ later, (a.after move).store.watchers = a.store.watchers ++ later ∧
      ∀ w ∈ later, ∃ body, w.callback = .react body := by
  cases move with
  | quiet => exact ⟨[], by simp [after]⟩
  | edit path change =>
    refine ⟨[], ?_, by simp⟩
    simp only [after, Store.edit, List.append_nil]
    cases change.apply path a.store.tree <;> rfl
  | watch path body => exact ⟨[⟨path, .react body⟩], rfl, by simp⟩
  | enter => exact ⟨[], by simp [after]⟩
  | take =>
    refine ⟨[], ?_, by simp⟩
    simp only [after, Store.takeEvent?, List.append_nil]
    cases a.store.pending <;> rfl
  | tell callback value => cases callback <;> exact ⟨[], by simp [after]⟩

/-- The callbacks that a control is going to tell. -/
def Control.untold : Control → List (Callback × Option Value)
  | .deliver callbacks value _ => callbacks.map (·, value)
  | _ => []

/-- The callbacks that are told when a frame goes on. -/
def Frame.untold : Frame → List (Callback × Option Value)
  | .deliver callbacks value _ => callbacks.map (·, value)
  | _ => []

/-- The standing of a model on which nothing runs. -/
def Model.standing (m : Model) : Standing := ⟨m.store.atRest, m.guard, []⟩

/-- To take an event takes it from the front of the queue, and nothing else. -/
lemma Store.eq_of_takeEvent? {κ : Type} {s s' : Store κ} {event : Event}
    (h : s.takeEvent? = some (event, s')) :
    ∃ rest, s.pending = event :: rest ∧ s' = { s with pending := rest } := by
  unfold takeEvent? at h
  split at h
  · cases h
  · rename_i hpending
    cases h
    exact ⟨_, hpending, rfl⟩

/-- The guard raises no other errors than its own. -/
lemma Model.isGuardViolation_of_settle {m : Model} {path : String} {e : ModelError}
    (h : (m.settle path).2 = some e) : e.isGuardViolation = true := by
  unfold settle at h
  cases hguard : m.guard with
  | none => simp [hguard] at h
  | some g =>
    rw [hguard] at h
    simp only [Guard.settle] at h
    split_ifs at h <;> cases h <;> rfl

/-- The model after an edit at a path that leads to a given tree. -/
def Model.edited (m : Model) (path : String) (tree : Value) : Model :=
  { m with store := { m.store with
      tree, pending := m.store.pending ++ changes m.store.tree tree (m.store.affected path) } }

namespace Machine

/-- The standing of a machine. -/
def standing (s : Machine) : Standing :=
  ⟨s.model.store.atRest, s.model.guard, s.control.untold ++ s.stack.flatMap Frame.untold⟩

/-! ### Edits -/

lemma edit_of_error {m : Model} {path : String} {change : Edit} {fault : PathFault}
    (h : change.apply path m.data = .error fault) (stack : List Frame)
    (next : Except ModelError (Option Value) → Program) :
    edit stack m path change next =
      runOn stack m (next (.error (.invalidPath path fault.reason))) := by
  rw [Model.data] at h
  simp [edit, Store.edit, h]

lemma edit_of_ok {m : Model} {path : String} {change : Edit} {result : Value × Option Value}
    (h : change.apply path m.data = .ok result) (stack : List Frame)
    (next : Except ModelError (Option Value) → Program) :
    edit stack m path change next =
      match m.store.mode with
      | .immediate =>
        beginFlush stack (m.edited path result.1) fun r => next (r.map fun _ => result.2)
      | .deferred => runOn stack (m.edited path result.1) (next (.ok result.2)) := by
  have hstore : m.store.edit path change = .ok ((m.edited path result.1).store, result.2) := by
    rw [Model.data] at h
    simp [Store.edit, h, Model.edited]
  cases hmode : m.store.mode with
  | immediate => simp [edit, hstore, Model.edited, hmode]
  | deferred => simp [edit, hstore, Model.edited, hmode]

/-! ### Moves -/

def moveOf (m : Model) : Request → Move
  | .edit path change => .edit path change
  | .call name _ =>
    match Entries.get? name m.methods with
    | some (.sync _) => .enter
    | _ => .quiet
  | .setComputed name _ =>
    match (Entries.get? name m.computed).bind Computed.set? with
    | some _ => .enter
    | none => .quiet
  | .start name _ =>
    match Entries.get? name m.methods with
    | some _ => .enter
    | none => .quiet
  | _ => .quiet

def move (s : Machine) : Move :=
  match s.control with
  | .run (.ask request _) => moveOf s.model request
  | .run (.watch path body _) => .watch path body
  | .drain => .take
  | .deliver (callback :: _) value _ => .tell callback value
  | _ => .quiet

@[simp] lemma standing_run (m : Model) (p : Program) (stack : List Frame) :
    standing ⟨m, .run p, stack⟩ = ⟨m.store.atRest, m.guard, stack.flatMap Frame.untold⟩ := rfl

@[simp] lemma standing_deliver (m : Model) (callbacks : List Callback) (value : Option Value)
    (failure : Option ModelError) (stack : List Frame) :
    standing ⟨m, .deliver callbacks value failure, stack⟩ =
      ⟨m.store.atRest, m.guard, callbacks.map (·, value) ++ stack.flatMap Frame.untold⟩ := rfl

lemma standing_beginFlush (stack : List Frame) (m : Model)
    (next : Except ModelError Unit → Program) :
    (beginFlush stack m next).standing =
      ⟨m.store.atRest, m.guard, stack.flatMap Frame.untold⟩ := by
  unfold beginFlush
  split <;> rfl

lemma standing_edit (stack : List Frame) (m : Model) (path : String) (change : Edit)
    (next : Except ModelError (Option Value) → Program) :
    (edit stack m path change next).standing =
      Standing.after ⟨m.store.atRest, m.guard, stack.flatMap Frame.untold⟩ (.edit path change) := by
  cases h : change.apply path m.data with
  | error fault =>
    rw [edit_of_error h]
    rw [Model.data] at h
    simp [runOn, Standing.after, Store.edit, Store.atRest, h]
  | ok result =>
    have hafter : Standing.after ⟨m.store.atRest, m.guard, stack.flatMap Frame.untold⟩
        (.edit path change) =
          ⟨(m.edited path result.1).store.atRest, m.guard, stack.flatMap Frame.untold⟩ := by
      rw [Model.data] at h
      simp only [Standing.after, Store.edit, Store.atRest, h]
      rfl
    rw [edit_of_ok h, hafter]
    cases m.store.mode with
    | immediate => exact standing_beginFlush stack _ _
    | deferred => rfl

lemma standing_serve (stack : List Frame) (m : Model) (request : Request)
    (next : request.Answer → Program) :
    (serve stack m request next).standing =
      Standing.after ⟨m.store.atRest, m.guard, stack.flatMap Frame.untold⟩ (moveOf m request) := by
  cases request with
  | value path => rfl
  | credits => rfl
  | pending => rfl
  | environment => rfl
  | note entry => rfl
  | edit path change => exact standing_edit stack m path change next
  | flush => exact standing_beginFlush stack m next
  | call name args =>
    simp only [serve, moveOf]
    cases Entries.get? name m.methods with
    | none => rfl
    | some method => cases method <;> rfl
  | computed name =>
    simp only [serve, moveOf]
    cases Entries.get? name m.computed <;> rfl
  | setComputed name value =>
    simp only [serve, moveOf]
    cases Entries.get? name m.computed with
    | none => rfl
    | some property => cases property <;> rfl
  | start name args =>
    simp only [serve, moveOf]
    cases Entries.get? name m.methods with
    | none => rfl
    | some method => cases method <;> rfl
  | poll task =>
    simp only [serve, moveOf]
    cases m.task? task <;> rfl
  | drop task => rfl
  | pause =>
    simp only [serve, moveOf, pause]
    cases stack with
    | nil => rfl
    | cons frame stack => cases frame <;> rfl

lemma settle_fst (m : Model) (path : String) :
    (m.settle path).1 = { m with guard := m.guard.map (·.spend path) } := by
  obtain ⟨_, _, _, _, guard, _, _, _, _, _⟩ := m
  cases guard with
  | none => rfl
  | some g =>
    simp only [Model.settle, Option.map_some, Guard.spend]
    cases g.settle path <;> rfl

lemma standing_tell (stack : List Frame) (m : Model) (callbacks : List Callback)
    (value : Option Value) (failure : Option ModelError) (callback : Callback) :
    (tell stack m callbacks value failure callback).standing =
      Standing.after (standing ⟨m, .deliver (callback :: callbacks) value failure, stack⟩)
        (.tell callback value) := by
  cases callback with
  | react body => rfl
  | settle path => simp [tell, Standing.after, settle_fst]
  | check schema path => rfl

lemma standing_resume (stack : List Frame) (m : Model) (result : Result) (frame : Frame) :
    (resume stack m result frame).standing =
      ⟨m.store.atRest, m.guard, (frame :: stack).flatMap Frame.untold⟩ := by
  cases frame <;> rfl

/-- A step is a move of the standing. -/
theorem standing_of_step? {s t : Machine} (h : s.step? = some t) :
    t.standing = s.standing.after s.move := by
  obtain ⟨m, control, stack⟩ := s
  cases control with
  | run p =>
    cases p with
    | finish result =>
      cases h
      rfl
    | ask request next =>
      cases h
      exact standing_serve stack m request next
    | watch path body next =>
      cases h
      rfl
  | drain =>
    obtain ⟨name, ⟨tree, mode, watchers, pending, flushing⟩, methods, computed, guard, watchPaths,
      environment, tasks, nextTask, journal⟩ := m
    cases pending <;> cases h <;> rfl
  | deliver callbacks value failure =>
    cases callbacks with
    | nil => cases failure <;> cases h <;> rfl
    | cons callback callbacks =>
      cases h
      exact standing_tell stack m callbacks value failure callback
  | answer result =>
    cases stack with
    | nil => cases h
    | cons frame stack =>
      cases h
      exact standing_resume stack m result frame

/-! ### What stays -/

end Machine

/-- Whether two models are alike in all that is settled when a model is made. -/
structure Model.SameMake (m m' : Model) : Prop where
  name : m'.name = m.name
  methods : m'.methods = m.methods
  computed : m'.computed = m.computed
  watchPaths : m'.watchPaths = m.watchPaths
  environment : m'.environment = m.environment
  mode : m'.store.mode = m.store.mode
  guarded : m'.guard.isSome = m.guard.isSome

namespace Model.SameMake

lemma refl (m : Model) : SameMake m m := ⟨rfl, rfl, rfl, rfl, rfl, rfl, rfl⟩

lemma trans {m m' m'' : Model} (h : SameMake m m') (h' : SameMake m' m'') : SameMake m m'' :=
  ⟨h'.name.trans h.name, h'.methods.trans h.methods, h'.computed.trans h.computed,
    h'.watchPaths.trans h.watchPaths, h'.environment.trans h.environment, h'.mode.trans h.mode,
    h'.guarded.trans h.guarded⟩

lemma enter (m : Model) : SameMake m m.enter :=
  ⟨rfl, rfl, rfl, rfl, rfl, rfl, by simp [Model.enter]⟩

end Model.SameMake

namespace Machine

lemma sameMake_beginFlush (stack : List Frame) (m : Model)
    (next : Except ModelError Unit → Program) : m.SameMake (beginFlush stack m next).model := by
  unfold beginFlush
  split <;> exact ⟨rfl, rfl, rfl, rfl, rfl, rfl, rfl⟩

lemma sameMake_edit (stack : List Frame) (m : Model) (path : String) (change : Edit)
    (next : Except ModelError (Option Value) → Program) :
    m.SameMake (edit stack m path change next).model := by
  cases h : change.apply path m.data with
  | error fault =>
    rw [edit_of_error h]
    exact .refl m
  | ok result =>
    have hedited : m.SameMake (m.edited path result.1) := ⟨rfl, rfl, rfl, rfl, rfl, rfl, rfl⟩
    rw [edit_of_ok h]
    cases m.store.mode with
    | immediate => exact hedited.trans (sameMake_beginFlush stack _ _)
    | deferred => exact hedited

lemma sameMake_serve (stack : List Frame) (m : Model) (request : Request)
    (next : request.Answer → Program) : m.SameMake (serve stack m request next).model := by
  cases request with
  | value path => exact .refl m
  | credits => exact .refl m
  | pending => exact .refl m
  | environment => exact .refl m
  | note entry => exact ⟨rfl, rfl, rfl, rfl, rfl, rfl, rfl⟩
  | edit path change => exact sameMake_edit stack m path change next
  | flush => exact sameMake_beginFlush stack m next
  | call name args =>
    simp only [serve]
    cases Entries.get? name m.methods with
    | none => exact .refl m
    | some method =>
      cases method with
      | sync body => exact .enter m
      | async body => exact .refl m
  | computed name =>
    simp only [serve]
    cases Entries.get? name m.computed <;> exact .refl m
  | setComputed name value =>
    simp only [serve]
    cases Entries.get? name m.computed with
    | none => exact .refl m
    | some property =>
      cases property with
      | getter get => exact .refl m
      | accessor get set => exact .enter m
  | start name args =>
    simp only [serve]
    cases Entries.get? name m.methods with
    | none => exact ⟨rfl, rfl, rfl, rfl, rfl, rfl, rfl⟩
    | some method =>
      cases method with
      | sync body => exact .enter m
      | async body => exact .trans (.enter m) ⟨rfl, rfl, rfl, rfl, rfl, rfl, rfl⟩
  | poll task =>
    simp only [serve]
    cases m.task? task <;> exact ⟨rfl, rfl, rfl, rfl, rfl, rfl, rfl⟩
  | drop task => exact ⟨rfl, rfl, rfl, rfl, rfl, rfl, rfl⟩
  | pause =>
    simp only [serve, pause]
    cases stack with
    | nil => exact .refl m
    | cons frame stack => cases frame <;> exact ⟨rfl, rfl, rfl, rfl, rfl, rfl, rfl⟩

/-- No step changes how a model is made. -/
theorem sameMake_of_step? {s t : Machine} (h : s.step? = some t) : s.model.SameMake t.model := by
  obtain ⟨m, control, stack⟩ := s
  cases control with
  | run p =>
    cases p with
    | finish result =>
      cases h
      exact .refl m
    | ask request next =>
      cases h
      exact sameMake_serve stack m request next
    | watch path body next =>
      cases h
      exact ⟨rfl, rfl, rfl, rfl, rfl, rfl, rfl⟩
  | drain =>
    obtain ⟨name, ⟨tree, mode, watchers, pending, flushing⟩, methods, computed, guard, watchPaths,
      environment, tasks, nextTask, journal⟩ := m
    cases pending <;> cases h <;> exact ⟨rfl, rfl, rfl, rfl, rfl, rfl, rfl⟩
  | deliver callbacks value failure =>
    cases callbacks with
    | nil => cases failure <;> cases h <;> exact ⟨rfl, rfl, rfl, rfl, rfl, rfl, rfl⟩
    | cons callback callbacks =>
      cases h
      cases callback with
      | react body => exact .refl m
      | settle path =>
        simp only [tell, settle_fst]
        exact ⟨rfl, rfl, rfl, rfl, rfl, rfl, by simp⟩
      | check schema path => exact .refl m
  | answer result =>
    cases stack with
    | nil => cases h
    | cons frame stack =>
      cases h
      cases frame <;> exact ⟨rfl, rfl, rfl, rfl, rfl, rfl, rfl⟩

/-! ### Errors -/

/-- The error that answers a request at once. -/
def refusal? (m : Model) : Request → Option ModelError
  | .edit path change =>
    match change.apply path m.data with
    | .error fault => some (.invalidPath path fault.reason)
    | .ok _ => none
  | .call name _ =>
    match Entries.get? name m.methods with
    | none => some (.unknownMethod name)
    | some (.async _) => some (.asyncMethod name)
    | some (.sync _) => none
  | .computed name =>
    match Entries.get? name m.computed with
    | none => some (.unknownComputed name)
    | some _ => none
  | .setComputed name _ =>
    match Entries.get? name m.computed with
    | none => some (.unknownComputed name)
    | some property =>
      match property.set? with
      | none => some (.readOnlyComputed name)
      | some _ => none
  | _ => none

/-- The error of a callback that is no user code. -/
def objection? (m : Model) (value : Option Value) : Callback → Option ModelError
  | .react _ => none
  | .settle path => (m.settle path).2
  | .check schema path =>
    match deepCheck value schema path with
    | .ok () => none
    | .error e => some (.validation e)

/-- The error that the next step raises: user code fails, a request is refused, a callback objects
or a flush ends with an error. -/
def raised? (s : Machine) : Option ModelError :=
  match s.control with
  | .run (.finish (.error e)) => some e
  | .run (.ask request _) => refusal? s.model request
  | .deliver (callback :: _) value _ => objection? s.model value callback
  | .deliver [] _ failure => failure
  | _ => none

end Machine

/-- The machines that the next steps are taken from. -/
def Machine.trail : Nat → Machine → List Machine
  | 0, _ => []
  | n + 1, s =>
    match s.step? with
    | none => []
    | some t => s :: trail n t

namespace Machine

lemma trail_add (n k : Nat) (s : Machine) :
    trail (n + k) s = trail n s ++ trail k (runFor n s) := by
  induction n generalizing s with
  | zero => simp [trail, runFor]
  | succ n ih =>
    rw [Nat.succ_add, trail, trail, runFor]
    cases h : s.step? with
    | some t => simp [ih t]
    | none => cases k <;> simp [trail, h]

end Machine

/-! ### Runs -/

/-- `Run m past s`: user code, one piece after the other, is run on the model `m`, and the machine
`s` is reached by a step from each of the machines `past`. -/
inductive Run (m : Model) : List Machine → Machine → Prop
  | begin (p : Program) : Run m [] ⟨m, .run p, []⟩
  | step {past : List Machine} {s t : Machine} (h : Run m past s) (hs : s.step? = some t) :
    Run m (past ++ [s]) t
  | next {past : List Machine} {m' : Model} {result : Result}
    (h : Run m past ⟨m', .answer result, []⟩) (p : Program) : Run m past ⟨m', .run p, []⟩

namespace Run

variable {m : Model} {past : List Machine} {s : Machine}

/-- What holds of a model at the start and is kept by the moves of a run holds in its end. -/
theorem invariant {P : Standing → Prop} (h : Run m past s) (hstart : P m.standing)
    (hmove : ∀ t ∈ past, P t.standing → P (t.standing.after t.move)) : P s.standing := by
  induction h with
  | begin p => exact hstart
  | step h hs ih =>
    rw [Machine.standing_of_step? hs]
    refine hmove _ (by simp) (ih fun t ht => hmove t (by simp [ht]))
  | next h p ih => exact ih hmove

theorem sameMake (h : Run m past s) : m.SameMake s.model := by
  induction h with
  | begin p => exact .refl m
  | step h hs ih => exact ih.trans (Machine.sameMake_of_step? hs)
  | next h p ih => exact ih

/-- A run comes through all machines that it has stepped from. -/
lemma of_mem_past (h : Run m past s) {t : Machine} (ht : t ∈ past) : ∃ before, Run m before t := by
  induction h with
  | begin p => cases ht
  | step h hs ih =>
    rcases List.mem_append.1 ht with ht | ht
    · exact ih ht
    · rw [List.mem_singleton.1 ht]
      exact ⟨_, h⟩
  | next h p ih => exact ih ht

/-- The watchers that a run adds run user code, and those of before stay in front of them. -/
theorem watchers (h : Run m past s) : ∃ later, s.model.store.watchers = m.store.watchers ++ later ∧
    ∀ w ∈ later, ∃ body, w.callback = .react body := by
  refine h.invariant (P := fun a => ∃ later, a.store.watchers = m.store.watchers ++ later ∧
    ∀ w ∈ later, ∃ body, w.callback = .react body) ⟨[], by simp [Model.standing, Store.atRest]⟩ ?_
  rintro t - ⟨later, hw, hlater⟩
  obtain ⟨more, hmore, hreact⟩ := t.standing.watchers_after t.move
  refine ⟨later ++ more, by rw [hmore, hw, List.append_assoc], fun w hmem => ?_⟩
  rcases List.mem_append.1 hmem with hmem | hmem
  · exact hlater w hmem
  · exact hreact w hmem

/-- Data in which no object has a key twice stays so, as long as no edit writes such an object. -/
theorem distinct_data (h : Run m past s) (hdata : m.data.Distinct)
    (hedits : ∀ t ∈ past, ∀ path change, t.move = .edit path change → change.Distinct) :
    s.model.data.Distinct := by
  refine h.invariant (P := fun a => a.store.tree.Distinct) hdata fun t ht hkept => ?_
  cases hmove : t.move with
  | edit path change =>
    have hchange := hedits t ht path change hmove
    simp only [Standing.after, Store.edit]
    cases happly : change.apply path t.standing.store.tree with
    | error fault => exact hkept
    | ok result => exact hchange.apply hkept happly
  | take =>
    simp only [Standing.after]
    split
    · rename_i htake
      obtain ⟨rest, -, rfl⟩ := Store.eq_of_takeEvent? htake
      exact hkept
    · exact hkept
  | tell callback value => cases callback <;> exact hkept
  | _ => exact hkept

/-- A run on what another one has left is a longer run. -/
lemma append {before : List Machine} {m' : Model} {last : Result}
    (h : Run m before ⟨m', .answer last, []⟩) (h' : Run m' past s) : Run m (before ++ past) s := by
  induction h' with
  | begin p =>
    rw [List.append_nil]
    exact h.next p
  | step h' hs ih =>
    rw [← List.append_assoc]
    exact ih.step hs
  | next h' p ih => exact ih.next p

/-- A run goes on for as long as there are steps. -/
lemma runFor (h : Run m past s) (n : Nat) : Run m (past ++ s.trail n) (s.runFor n) := by
  induction n generalizing past s with
  | zero => simpa [Machine.trail, Machine.runFor] using h
  | succ n ih =>
    rw [Machine.trail, Machine.runFor]
    cases hs : s.step? with
    | none => simpa using h
    | some t => simpa using ih (h.step hs)

end Run

end GuardedData
