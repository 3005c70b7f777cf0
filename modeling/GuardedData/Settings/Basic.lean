import GuardedData.Files.FileName
import GuardedData.Model.Basic
import GuardedData.Toml.Written

/-!
# Settings

A settings file may name the environment, and for single models or for all of them say how they
are enforced and where their schemas are. What a model leaves open is taken from the defaults, and
data is immutable and changes arrive at once unless something else is said. Keys that mean nothing
are passed over, and so are array elements beyond those that mean something.
-/

namespace GuardedData

/-- How a model is enforced, as far as it is said, and the file of its schema. -/
structure ModelSettings where
  immutable : Option Bool := none
  flush : Option FlushMode := none
  schema : Option String := none

/-- What a settings file says, and the directory that it is in. -/
structure Settings where
  environment : Option Environment := none
  defaults : Option ModelSettings := none
  models : List (String × ModelSettings) := []
  directory : Option String := none

/-! ### Reading -/

namespace Toml.Written

def toBool? : Written → Option Bool
  | .boolean b => some b
  | _ => none

def toText? : Written → Option String
  | .string s => some s
  | _ => none

/-- A choice by name: the name as a text, or as the only key of a table with nothing in it. -/
def toChoice? {α : Type} (read : String → Except String α) : Written → Option α
  | .string name => (read name).toOption
  | .table [(name, .table [])] | .table [(name, .array [])] => (read name).toOption
  | _ => none

end Toml.Written

namespace ModelSettings

open Toml (Written)

/-- Read an entry that may be left out. -/
def entry {α : Type} (read : Written → Option α) (key : String)
    (entries : List (String × Written)) : Option (Option α) :=
  match Entries.get? key entries with
  | none => some none
  | some w => (read w).map some

/-- The settings of a model: a table, or an array of all three in their order. A date stands for a
table that holds nothing of interest. -/
def ofWritten? : Written → Option ModelSettings
  | .table entries => do
    guard (Written.othersPassable ["immutable", "flush", "schema"] entries)
    let immutable ← entry Written.toBool? "immutable" entries
    let flush ← entry (Written.toChoice? FlushMode.read) "flush" entries
    let schema ← entry Written.toText? "schema" entries
    return { immutable, flush, schema }
  | .array (immutable :: flush :: schema :: _) => do
    let immutable ← immutable.toBool?
    let flush ← flush.toChoice? FlushMode.read
    let schema ← schema.toText?
    return { immutable, flush, schema }
  | .datetime _ => some {}
  | _ => none

/-- The settings of some models by name. -/
def ofTable? : Written → Option (List (String × ModelSettings))
  | .table entries => entries.mapM fun (name, w) => (ofWritten? w).map (name, ·)
  | _ => none

end ModelSettings

namespace Settings

open Toml (Written)

/-- The settings of a document. -/
def ofToml? (entries : List (String × Written)) : Option Settings := do
  guard (Written.othersPassable ["environment", "defaults", "models"] entries)
  let environment ← ModelSettings.entry (Written.toChoice? Environment.read) "environment" entries
  let defaults ← ModelSettings.entry ModelSettings.ofWritten? "defaults" entries
  let models ← ModelSettings.entry ModelSettings.ofTable? "models" entries
  return { environment, defaults, models := models.getD [] }

/-! ### Use -/

/-- The environment once some settings are in force: a variable of the process, whatever it says,
keeps them from changing it. -/
def environmentOver (s : Settings) (variableSet : Bool) (current : Environment) : Environment :=
  if variableSet then current else s.environment.getD current

/-- What the settings say of a model, by way of the defaults if they do not name it. -/
def choose {α : Type} (s : Settings) (name : String) (part : ModelSettings → Option α) : Option α :=
  ((Entries.get? name s.models).bind part).or (s.defaults.bind part)

/-- The options of a model. -/
def options (s : Settings) (name : String) : Options where
  immutable := (s.choose name (·.immutable)).getD true
  flush := (s.choose name (·.flush)).getD .immediate

/-- The file of the schema of a model, relative to where the settings are. Defaults have none. -/
def schemaFile? (s : Settings) (name : String) : Option String :=
  ((Entries.get? name s.models).bind (·.schema)).map fun file =>
    match s.directory with
    | some directory => FileName.join directory file
    | none => file

end Settings

end GuardedData
