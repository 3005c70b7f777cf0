import GuardedData.Model.Machine
import GuardedData.Replay.Script

/-!
# Replays

A script is replayed on a model that offers the methods `assign`, `append` and `delete`. A guarded
operation goes through its method; any other edits the data from outside. The replay stops at the
first operation that fails, and in the end every credit must have been spent.
-/

namespace GuardedData.Replay

/-! ### The model -/

/-- A path and a value, as the arguments of a method. -/
def pathAndValue (args : List Value) (next : String → Value → Program) : Program :=
  match args with
  | [.string path, value] => next path value
  | _ => .fail (.custom "expected [path, value]")

def assign (args : List Value) : Program :=
  pathAndValue args fun path value => .edit path (.set value)

def append (args : List Value) : Program :=
  pathAndValue args fun path value => .edit path (.push value)

/-- Removes and returns the value at a path. -/
def delete (args : List Value) : Program :=
  match args with
  | .string path :: _ =>
    .ask (.edit path .remove) <| Program.andThen fun removed => .pure (removed.getD .null)
  | _ => .fail (.custom "delete expects a path")

/-- What a model to replay on holds. -/
def definition (name : String) (data : Value) (schema : Schema) : Definition where
  name := name
  data := data
  schema := schema
  methods := [("append", .sync append), ("assign", .sync assign), ("delete", .sync delete)]

/-! ### Operations -/

/-- The code that carries out an operation. -/
def opProgram (op : Op) : Program :=
  if op.guarded then
    match op.verb with
    | .set value => call "assign" [.string op.path, value]
    | .push value => call "append" [.string op.path, value]
    | .remove => call "delete" [.string op.path]
  else .edit op.path op.verb.toEdit
where
  /-- The code that calls a method. -/
  call (name : String) (args : List Value) : Program := .ask (.call name args) .finish

/-- The code that delivers what is queued. -/
def flushProgram : Program := .ask .flush <| Program.andThen fun _ => .pure .null

/-- A bound on the steps of an operation or a flush on a model whose watchers run no user code: a
queued event takes two steps and one more for each watcher. -/
def stepBound (m : Model) : Nat :=
  let watchers := m.store.watchers.length
  16 + (m.store.pending.length + watchers) * (watchers + 2)

/-- Carry out code within the bound. -/
def perform (m : Model) (p : Program) : Model × Result :=
  (m.perform? (stepBound m) p).getD (m, .error .detached)

/-- Why a replay fails. -/
inductive Fault
  | operation (index : Nat) (op : Op) (e : ModelError)
  | flush (e : ModelError)
  | leftover (credits : Int)

def Fault.message : Fault → String
  | .operation index op e => "op " ++ toString index ++ ": " ++ op.text ++ ": " ++ e.message
  | .flush e => "flush: " ++ e.message
  | .leftover credits => toString credits ++ " guarded mutation(s) never landed"

/-- The end of a replay: deliver what is queued, and look for credits that are left. -/
def finish (m : Model) : Model × Option Fault :=
  match perform m flushProgram with
  | (m, .error e) => (m, some (.flush e))
  | (m, .ok _) =>
    match m.credits with
    | none => (m, none)
    | some credits => (m, if credits = 0 then none else some (.leftover credits))

/-- Carry out the operations from an index on, and come to the end. -/
def runFrom (index : Nat) (m : Model) : List Op → Model × Option Fault
  | [] => finish m
  | op :: rest =>
    match perform m (opProgram op) with
    | (m, .error e) => (m, some (.operation index op e))
    | (m, .ok _) => runFrom (index + 1) m rest

def run (m : Model) (script : List Op) : Model × Option Fault := runFrom 0 m script

end GuardedData.Replay
