/-!
# Command lines

A command is named first and followed by options, each with a value behind it or attached by an
equals sign. An option is given at most once. Arguments are read from left to right, and the first
thing out of order, or the first wish for help, decides.
-/

namespace GuardedData.CommandLine

inductive CommandName
  | check
  | paths
  | types
  | replay
deriving DecidableEq

structure OptionSpec where
  name : String
  /-- Whether the value is the name of a file, which is never empty. -/
  isFile : Bool
  /-- The value of an option that may be left out. -/
  default? : Option String := none
  about : String := ""

namespace CommandName

def all : List CommandName := [.check, .paths, .types, .replay]

def text : CommandName → String
  | .check => "check"
  | .paths => "paths"
  | .types => "types"
  | .replay => "replay"

def about : CommandName → String
  | .check => "Validate a data file against a schema descriptor"
  | .paths => "Print the paths a model with this schema watches"
  | .types => "Print registered type names"
  | .replay => "Build a guarded model and replay a mutation script against it"

def options : CommandName → List OptionSpec
  | .check => [file "schema", file "data",
      ⟨"name", false, some "data", "Label used as the root of error paths"⟩]
  | .paths => [file "schema"]
  | .types => []
  | .replay => [file "schema", file "data", file "ops",
      ⟨"name", false, some "replay",
        "Model name; also selects `[models.<name>]` options from the config"⟩]
where
  /-- An option that names a file. -/
  file (name : String) : OptionSpec := ⟨name, true, none, ""⟩

def ofText? (name : String) : Option CommandName := all.find? (·.text == name)

end CommandName

/-- Why a command line is none. -/
inductive UsageError
  | noCommand
  | unknownCommand (name : String)
  | unexpectedArgument (argument : String)
  | noValue (option : String)
  | repeated (option : String)
  | missing (option : String)

def UsageError.message : UsageError → String
  | .noCommand => "a command is required"
  | .unknownCommand name => "unrecognized subcommand '" ++ name ++ "'"
  | .unexpectedArgument argument => "unexpected argument '" ++ argument ++ "' found"
  | .noValue option => "a value is required for '--" ++ option ++ "' but none was supplied"
  | .repeated option => "the argument '--" ++ option ++ "' cannot be used multiple times"
  | .missing option => "the argument '--" ++ option ++ "' was not provided"

/-- The values of options by name. -/
abbrev Values := List (String × String)

inductive Command
  | check (schema data label : String)
  | paths (schema : String)
  | types
  | replay (schema data ops name : String)

inductive Invocation
  | run (command : Command)
  | help
  | helpOn (command : CommandName)
  | helpOnHelp
  | version

/-! ### Options -/

/-- Whether an argument is written like an option. A single dash is not. -/
def isDashed (argument : String) : Bool :=
  match argument.toList with
  | '-' :: _ :: _ => true
  | _ => false

/-- The name of a long option, and the value that is attached to it. -/
def long? (argument : String) : Option (String × Option String) :=
  match argument.toList with
  | '-' :: '-' :: rest =>
    let name := String.ofList (rest.takeWhile (· != '='))
    match rest.dropWhile (· != '=') with
    | [] => some (name, none)
    | _ :: value => some (name, some (String.ofList value))
  | _ => none

/-- Whether an argument is a group of short options that begins with a letter. -/
def isShort (letter : Char) (argument : String) : Bool :=
  match argument.toList with
  | '-' :: c :: _ => c == letter
  | _ => false

def accept (spec : OptionSpec) (value : String) (given : Values) : Except UsageError Values :=
  if (given.lookup spec.name).isSome then .error (.repeated spec.name)
  else if spec.isFile && value.isEmpty then .error (.noValue spec.name)
  else .ok (given ++ [(spec.name, value)])

/-- The values of the options of a command, or nothing if help is asked for. -/
def collect (specs : List OptionSpec) (given : Values) :
    List String → Except UsageError (Option Values)
  | [] => .ok (some given)
  | ["--"] => .ok (some given)
  | "--" :: extra :: _ => .error (.unexpectedArgument extra)
  | argument :: rest =>
    match long? argument with
    | none =>
      if isShort 'h' argument then .ok none else .error (.unexpectedArgument argument)
    | some (name, attached) =>
      if name = "help" ∧ attached.isNone then .ok none
      else match specs.find? (·.name == name), attached, rest with
        | none, _, _ => .error (.unexpectedArgument argument)
        | some spec, some value, rest =>
          match accept spec value given with
          | .error e => .error e
          | .ok given => collect specs given rest
        | some spec, none, [] => .error (.noValue spec.name)
        | some spec, none, value :: rest =>
          if isDashed value then .error (.noValue spec.name)
          else match accept spec value given with
            | .error e => .error e
            | .ok given => collect specs given rest

/-- The value of an option, given or by default. -/
def valueOf (name : CommandName) (given : Values) (option : String) : Except UsageError String :=
  match (given.lookup option).or ((name.options.find? (·.name == option)).bind (·.default?)) with
  | some value => .ok value
  | none => .error (.missing option)

def command (name : CommandName) (given : Values) : Except UsageError Command := do
  let value := valueOf name given
  match name with
  | .check => return .check (← value "schema") (← value "data") (← value "name")
  | .paths => return .paths (← value "schema")
  | .types => return .types
  | .replay =>
    return .replay (← value "schema") (← value "data") (← value "ops") (← value "name")

/-! ### Command lines -/

/-- What a line that asks for help on some commands means. -/
def helpFor : List String → Except UsageError Invocation
  | [] => .ok .help
  | name :: rest =>
    match CommandName.ofText? name, rest with
    | some command, [] => .ok (.helpOn command)
    | none, [] => if name = "help" then .ok .helpOnHelp else .error (.unknownCommand name)
    | some _, extra :: _ => .error (.unknownCommand extra)
    | none, extra :: _ => .error (.unknownCommand (if name = "help" then extra else name))

def parse : List String → Except UsageError Invocation
  | [] => .error .noCommand
  | "help" :: rest => helpFor rest
  | "--help" :: _ => .ok .help
  | "--version" :: _ => .ok .version
  | name :: rest =>
    if isShort 'h' name then .ok .help
    else if isShort 'V' name then .ok .version
    else match CommandName.ofText? name with
      | none => .error (.unknownCommand name)
      | some c =>
        match collect c.options [] rest with
        | .error e => .error e
        | .ok none => .ok (.helpOn c)
        | .ok (some given) => (command c given).map .run

end GuardedData.CommandLine
