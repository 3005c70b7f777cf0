import GuardedData.Model.Basic

/-!
# Running user code on a model

A machine takes one step at a time. It runs a program, drains the queue of events, tells the
callbacks of one event, or hands a result to the frame that waits for it. Only one flush is ever
under way: a flush asked for inside of another one ends at once, and what it would have delivered
is left to the one that is running.
-/

namespace GuardedData

/-- What a machine is about to do. -/
inductive Control
  /-- Run user code. -/
  | run (p : Program)
  /-- Deliver the event at the front of the queue, or end the flush. -/
  | drain
  /-- Tell the remaining callbacks of an event; the first error so far is kept. -/
  | deliver (callbacks : List Callback) (value : Option Value) (failure : Option ModelError)
  /-- Hand over a result. -/
  | answer (result : Result)

/-- What waits for a result. -/
inductive Frame
  /-- User code that goes on with the result. -/
  | resume (next : Result → Program)
  /-- The delivery of an event to the callbacks after the one that is running. -/
  | deliver (callbacks : List Callback) (value : Option Value) (failure : Option ModelError)
  /-- The poll of a task. -/
  | poll (task : Nat) (next : Polled → Program)
  /-- The start of a task by a method that runs to its end at once. -/
  | start (next : Nat → Program)

/-- A model, what happens next on it, and what waits. -/
structure Machine where
  model : Model
  control : Control
  stack : List Frame

namespace Model

def addTask (m : Model) (p : Program) : Model :=
  { m with tasks := m.tasks ++ [(m.nextTask, p)], nextTask := m.nextTask + 1 }

/-- Put a task back with the code left to run. -/
def putTask (m : Model) (task : Nat) (p : Program) : Model :=
  { m with tasks := m.tasks ++ [(task, p)] }

/-- The code that a task has left to run. -/
def task? (m : Model) (task : Nat) : Option Program := m.tasks.lookup task

def dropTask (m : Model) (task : Nat) : Model :=
  { m with tasks := m.tasks.filter (·.1 != task) }

def setFlushing (m : Model) (flushing : Bool) : Model :=
  { m with store := { m.store with flushing } }

end Model

namespace Machine

/-- Go on with user code on a model. -/
def runOn (stack : List Frame) (m : Model) (p : Program) : Machine := ⟨m, .run p, stack⟩

/-- Begin a flush, unless one is under way, and go on with its outcome. -/
def beginFlush (stack : List Frame) (m : Model) (next : Except ModelError Unit → Program) :
    Machine :=
  if m.store.flushing then runOn stack m (next (.ok ()))
  else ⟨m.setFlushing true, .drain, .resume (fun r => next (r.map fun _ => ())) :: stack⟩

def endFlush (stack : List Frame) (m : Model) (result : Result) : Machine :=
  ⟨m.setFlushing false, .answer result, stack⟩

/-- Edit the data and, unless changes are deferred, flush. An edit stays when its flush fails. -/
def edit (stack : List Frame) (m : Model) (path : String) (change : Edit)
    (next : Except ModelError (Option Value) → Program) : Machine :=
  match m.store.edit path change with
  | .error fault => runOn stack m (next (.error (.invalidPath path fault.reason)))
  | .ok (store, removed) =>
    let m := { m with store }
    match store.mode with
    | .immediate => beginFlush stack m fun r => next (r.map fun _ => removed)
    | .deferred => runOn stack m (next (.ok removed))

/-- Give way to the poll that runs the code, if one does. -/
def pause (stack : List Frame) (m : Model) (rest : Program) : Machine :=
  match stack with
  | .poll task next :: stack => runOn stack (m.putTask task rest) (next .pending)
  | stack => runOn stack m rest

/-- Do what user code asks for. -/
def serve (stack : List Frame) (m : Model) :
    (request : Request) → (request.Answer → Program) → Machine
  | .value path, next => runOn stack m (next (m.data.at? path))
  | .credits, next => runOn stack m (next m.credits)
  | .pending, next => runOn stack m (next m.store.pending)
  | .environment, next => runOn stack m (next m.environment)
  | .note entry, next => runOn stack { m with journal := m.journal ++ [entry] } (next ())
  | .edit path change, next => edit stack m path change next
  | .flush, next => beginFlush stack m next
  | .call name args, next =>
    match Entries.get? name m.methods with
    | none => runOn stack m (next (.error (.unknownMethod name)))
    | some (.async _) => runOn stack m (next (.error (.asyncMethod name)))
    | some (.sync body) => runOn (.resume next :: stack) m.enter (body args)
  | .computed name, next =>
    match Entries.get? name m.computed with
    | none => runOn stack m (next (.error (.unknownComputed name)))
    | some property => runOn (.resume next :: stack) m property.get
  | .setComputed name value, next =>
    match Entries.get? name m.computed with
    | none => runOn stack m (next (.error (.unknownComputed name)))
    | some property =>
      match property.set? with
      | none => runOn stack m (next (.error (.readOnlyComputed name)))
      | some set =>
        runOn (.resume (fun r => next (r.map fun _ => ())) :: stack) m.enter (set value)
  | .start name args, next =>
    match Entries.get? name m.methods with
    | none =>
      runOn stack (m.addTask (.fail (.unknownMethod name))) (next m.nextTask)
    | some (.async body) => runOn stack (m.enter.addTask (body args)) (next m.nextTask)
    | some (.sync body) => runOn (.start next :: stack) m.enter (body args)
  | .poll task, next =>
    match m.task? task with
    | none => runOn stack m (next .absent)
    | some p => runOn (.poll task next :: stack) (m.dropTask task) p
  | .drop task, next => runOn stack (m.dropTask task) (next (m.task? task).isSome)
  | .pause, next => pause stack m (next ())

/-- Hand a result to the frame that waits for it. -/
def resume (stack : List Frame) (m : Model) (result : Result) : Frame → Machine
  | .resume next => runOn stack m (next result)
  | .deliver callbacks value failure =>
    ⟨m, .deliver callbacks value (failure.or (errorOf result)), stack⟩
  | .poll _ next => runOn stack m (next (.done result))
  | .start next => runOn stack (m.addTask (.finish result)) (next m.nextTask)
where
  /-- The error that a result is, if it is one. -/
  errorOf : Result → Option ModelError
    | .ok _ => none
    | .error e => some e

/-- Tell one callback of a value. -/
def tell (stack : List Frame) (m : Model) (callbacks : List Callback) (value : Option Value)
    (failure : Option ModelError) : Callback → Machine
  | .react body => runOn (.deliver callbacks value failure :: stack) m (body value)
  | .settle path =>
    let (m, e) := m.settle path
    ⟨m, .deliver callbacks value (failure.or e), stack⟩
  | .check schema path =>
    let e := match deepCheck value schema path with
      | .ok () => none
      | .error e => some (.validation e)
    ⟨m, .deliver callbacks value (failure.or e), stack⟩

/-- The next state of a machine; there is none once a result is there and nothing waits for it. -/
def step? (s : Machine) : Option Machine :=
  match s.control with
  | .run (.finish result) => some ⟨s.model, .answer result, s.stack⟩
  | .run (.ask request next) => some (serve s.stack s.model request next)
  | .run (.watch path react next) =>
    some (runOn s.stack (s.model.watch path (.react react)) next)
  | .drain =>
    match s.model.store.takeEvent? with
    | none => some (endFlush s.stack s.model (.ok .null))
    | some (event, store) =>
      some ⟨{ s.model with store }, .deliver (store.callbacks event.path) event.value none, s.stack⟩
  | .deliver [] _ none => some ⟨s.model, .drain, s.stack⟩
  | .deliver [] _ (some e) => some (endFlush s.stack s.model (.error e))
  | .deliver (callback :: callbacks) value failure =>
    some (tell s.stack s.model callbacks value failure callback)
  | .answer result =>
    match s.stack with
    | [] => none
    | frame :: stack => some (resume stack s.model result frame)

/-- The state of a machine after at most some steps. -/
def runFor : Nat → Machine → Machine
  | 0, s => s
  | n + 1, s =>
    match s.step? with
    | none => s
    | some s => runFor n s

/-- The result of a machine that has come to its end, with the model that it leaves. -/
def outcome? (s : Machine) : Option (Model × Result) :=
  match s.control, s.stack with
  | .answer result, [] => some (s.model, result)
  | _, _ => none

/-! ### Runs -/

theorem runFor_add (n k : Nat) (s : Machine) : runFor (n + k) s = runFor k (runFor n s) := by
  induction n generalizing s with
  | zero => simp [runFor]
  | succ n ih =>
    rw [Nat.succ_add, runFor, runFor]
    cases h : s.step? with
    | some t => exact ih t
    | none => cases k <;> simp [runFor, h]

theorem step?_eq_none_iff {s : Machine} : s.step? = none ↔ (s.outcome?).isSome = true := by
  obtain ⟨m, control, stack⟩ := s
  cases control with
  | run p => cases p <;> simp [step?, outcome?]
  | drain => simp only [step?, outcome?]; split <;> simp
  | deliver callbacks value failure =>
    cases callbacks with
    | nil => cases failure <;> simp [step?, outcome?]
    | cons callback callbacks => simp [step?, outcome?]
  | answer result => cases stack <;> simp [step?, outcome?]

theorem runFor_of_outcome? {s : Machine} {r : Model × Result} (h : s.outcome? = some r) (n : Nat) :
    runFor n s = s := by
  have hs : s.step? = none := step?_eq_none_iff.2 (by simp [h])
  cases n <;> simp [runFor, hs]

end Machine

/-- Run user code on an idle model, for at most some steps. -/
def Model.perform? (steps : Nat) (m : Model) (p : Program) : Option (Model × Result) :=
  (Machine.runFor steps ⟨m, .run p, []⟩).outcome?

/-- Once some steps are enough, more steps change nothing. -/
theorem Model.perform?_of_le {n k : Nat} (h : n ≤ k) {m : Model} {p : Program} {r : Model × Result}
    (hr : m.perform? n p = some r) : m.perform? k p = some r := by
  obtain ⟨d, rfl⟩ := Nat.exists_eq_add_of_le h
  unfold Model.perform? at *
  rw [Machine.runFor_add, Machine.runFor_of_outcome? hr, hr]

end GuardedData
