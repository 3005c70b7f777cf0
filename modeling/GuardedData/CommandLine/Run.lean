import GuardedData.CommandLine.Help
import GuardedData.Replay.Run
import GuardedData.Settings.Load

/-!
# Running commands

The settings are loaded first, and settings that cannot be loaded count for nothing. A command that
finds something wrong with data says so and ends with status 1; one that cannot do its work reports
an error with its causes and ends with status 1 too.
-/

namespace GuardedData.CommandLine

/-- How a run of the program ends. -/
structure Outcome where
  status : Nat
  output : String := ""
  errors : String := ""
deriving DecidableEq

namespace Outcome

/-- The end of a command with a verdict in one line. -/
def verdict (good : Bool) (line : String) : Outcome := ⟨if good then 0 else 1, line ++ "\n", ""⟩

/-- A text with every line after the first one indented. -/
def indentLines (indent : String) (text : String) : String :=
  String.join <| text.toList.map fun c => if c = '\n' then "\n" ++ indent else c.toString

/-- Several causes, numbered from an index on. -/
def numbered : Nat → List String → String
  | _, [] => ""
  | i, cause :: rest =>
    let number := toString i
    "\n" ++ String.ofList (List.replicate (5 - number.length) ' ') ++ number ++ ": " ++
      indentLines "       " cause ++ numbered (i + 1) rest

/-- Causes below the text of an error. -/
def causesText : List String → String
  | [] => ""
  | [cause] => "\n\nCaused by:\n    " ++ indentLines "    " cause
  | causes => "\n\nCaused by:" ++ numbered 0 causes

/-- The end of a command that fails with an error. -/
def failure (message : String) (causes : List String) : Outcome :=
  ⟨1, "", "Error: " ++ message ++ causesText causes ++ "\n"⟩

def ofLoadError (e : LoadError) : Outcome := failure e.message e.cause?.toList

def ofUsageError (e : UsageError) : Outcome := ⟨2, "", "error: " ++ e.message ++ "\n"⟩

end Outcome

def checkOutcome (schema : Schema) (data : Value) (label : String) : Outcome :=
  match validate data schema label with
  | .ok () => .verdict true "ok"
  | .error e => .verdict false e.message

def pathsOutcome (schema : Schema) : Outcome :=
  ⟨0, String.join (schema.watchPaths.map (· ++ "\n")), ""⟩

/-- The names of a registry, one in a line. -/
def typesOutcome (r : Registry) : Outcome := ⟨0, String.join (r.names.map (· ++ "\n")), ""⟩

def replayOutcome (schema : Schema) (data script : Value) (name : String) (options : Options)
    (current : Environment) : Outcome :=
  match Script.read script with
  | .error e => .failure ("reading ops for model '" ++ name ++ "'") [Script.expectation, e]
  | .ok ops =>
    match Model.create (Replay.definition name data schema) options current with
    | .error e => .verdict false e.message
    | .ok m =>
      match (Replay.run m ops).2 with
      | some fault => .verdict false fault.message
      | none => .verdict true ("ok (" ++ toString ops.length ++ " ops)")

variable {m : Type → Type} [Monad m]

/-- Go on with what a file holds. -/
def withLoaded {α : Type} (load : m (Except LoadError α)) (next : α → m Outcome) : m Outcome := do
  match ← load with
  | .error e => return .ofLoadError e
  | .ok a => next a

def Command.run (files : Files m) (s : Settings) (current : Environment) : Command → m Outcome
  | .check schema data label =>
    withLoaded (files.loadSchema .builtins schema) fun schema =>
    withLoaded (files.loadValue data) fun data =>
    return checkOutcome schema data label
  | .paths schema =>
    withLoaded (files.loadSchema .builtins schema) fun schema =>
    return pathsOutcome schema
  | .types => return typesOutcome .builtins
  | .replay schema data ops name =>
    withLoaded (files.loadSchema .builtins schema) fun schema =>
    withLoaded (files.loadValue data) fun data =>
    withLoaded (files.loadValue ops) fun script =>
    return replayOutcome schema data script name (s.options name) current

def run (files : Files m) (v : Variables) (arguments : List String) : m Outcome := do
  match parse arguments with
  | .error e => return .ofUsageError e
  | .ok .help => return ⟨0, help, ""⟩
  | .ok (.helpOn command) => return ⟨0, helpOn command, ""⟩
  | .ok .helpOnHelp => return ⟨0, helpOnHelp, ""⟩
  | .ok .version => return ⟨0, program ++ " " ++ version ++ "\n", ""⟩
  | .ok (.run command) =>
    let settings : Settings := match ← Settings.load files v with
      | .ok (some s) => s
      | _ => {}
    let current := settings.environmentOver v.environment.isSome v.startEnvironment
    command.run files settings current

end GuardedData.CommandLine
