import GuardedData.Model.Guard
import GuardedData.Model.Program
import GuardedData.Schema.Predicates
import GuardedData.Schema.WatchPaths

/-!
# Models

A model is a store together with the methods and computed properties through which its data is
meant to change. In development its data is validated once as a whole when the model is made; after
that two watchers stand on every watch path, one that settles the guard and one that checks the
part of the data below it. User watchers come first, then the guard, then the checks, so that a
guarded entry that writes a bad value has spent its credit when the value is refused.

An asynchronous method is the task that it returns. To call it counts a guarded entry and runs none
of its code: the body begins when the task is first polled, and ends with the task. Code that would
run at the call, before there is a task, is not part of such a method.
-/

namespace GuardedData

/-- A way to change a model. -/
inductive Method
  /-- Runs to its end when called. -/
  | sync (body : List Value → Program)
  /-- Is a task, none of whose code runs when it is called. -/
  | async (body : List Value → Program)

/-- A derived property. -/
inductive Computed
  | getter (get : Program)
  | accessor (get : Program) (set : Value → Program)

namespace Computed

/-- The code that computes the property. -/
def get : Computed → Program
  | .getter get => get
  | .accessor get _ => get

def set? : Computed → Option (Value → Program)
  | .getter _ => none
  | .accessor _ set => some set

end Computed

/-- What a watcher of a model does when told of a value. -/
inductive Callback
  /-- Run user code. -/
  | react (body : Option Value → Program)
  /-- Spend a credit of the guard. -/
  | settle (path : String)
  /-- Check the value against a part of the schema. -/
  | check (schema : Option Schema) (path : DataPath)

/-- What a model holds. -/
structure Definition where
  name : Option String := none
  data : Option Value := none
  schema : Option Schema := none
  methods : List (String × Method) := []
  computed : List (String × Computed) := []
  watch : List (String × (Option Value → Program)) := []

/-- How a model is enforced. Without an environment of its own it takes the current one. -/
structure Options where
  immutable : Bool := true
  flush : FlushMode := .immediate
  environment : Option Environment := none
deriving DecidableEq

/-- The environment that a model with some options is made in. -/
def Options.resolve (o : Options) (current : Environment) : Environment :=
  o.environment.getD current

structure Model where
  name : String
  store : Store Callback
  methods : List (String × Method)
  computed : List (String × Computed)
  guard : Option Guard
  watchPaths : List String
  environment : Environment
  /-- The tasks that have started and neither ended nor been dropped, with the code left to run. -/
  tasks : List (Nat × Program) := []
  nextTask : Nat := 0
  journal : List Value := []

/-- The name of a model that has been given none. -/
def anonymous : String := "anonymous"

namespace Model

def data (m : Model) : Value := m.store.tree

def credits (m : Model) : Option Int := m.guard.map (·.credits)

def handle (m : Model) : Value := .handle m.name

def watch (m : Model) (path : String) (callback : Callback) : Model :=
  { m with store := m.store.watch path callback }

def watchAll (m : Model) (watchers : List (String × Callback)) : Model :=
  watchers.foldl (fun m (path, callback) => m.watch path callback) m

def enter (m : Model) : Model := { m with guard := m.guard.map Guard.enter }

/-- Spend a credit on a change, if there is a guard; an error leaves the model as it is. -/
def settle (m : Model) (path : String) : Model × Option ModelError :=
  match m.guard with
  | none => (m, none)
  | some g =>
    match g.settle path with
    | .ok g => ({ m with guard := some g }, none)
    | .error e => (m, some e)

/-- The model before it is validated and watched over. -/
def unchecked (d : Definition) (data : Value) (o : Options) (environment : Environment) :
    Model where
  name := d.name.getD anonymous
  store := ⟨data, o.flush, d.watch.map fun (path, body) => ⟨path, .react body⟩, [], false⟩
  methods := d.methods
  computed := d.computed
  guard := if o.immutable && !environment.isProduction then some {} else none
  watchPaths :=
    match d.schema with
    | some s => if environment.isProduction then [] else s.watchPaths
    | none => []
  environment

/-- The watchers of the guard and of the checks on the watch paths of a model. -/
def enforcers (m : Model) (s : Schema) : List (String × Callback) :=
  let settling := if m.guard.isSome then m.watchPaths.map fun p => (p, .settle p) else []
  let checking := m.watchPaths.map fun p =>
    (p, .check (s.lookup p) ((DataPath.root m.name).joinDotted p))
  settling ++ checking

def create (d : Definition) (o : Options) (current : Environment) : Except ModelError Model :=
  match d.data with
  | none => .error .missingData
  | some data =>
    if data.handleName?.isSome then .error .modelFromModel
    else
      let environment := o.resolve current
      let m := unchecked d data o environment
      match d.schema with
      | none => .ok m
      | some s =>
        if environment.isProduction then .ok m
        else match validate data s m.name with
          | .error e => .error (.validation e)
          | .ok () => .ok (m.watchAll (m.enforcers s))

end Model

end GuardedData
