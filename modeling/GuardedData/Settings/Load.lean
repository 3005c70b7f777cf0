import GuardedData.Files.Document
import GuardedData.Settings.Basic

/-!
# Loading settings

The settings file is named by a variable of the process or has its place in the home directory. If
it is not there, nothing is set.
-/

namespace GuardedData

/-- The variables of a process that matter here, and the home directory of its account. -/
structure Variables where
  environment : Option String := none
  settings : Option String := none
  home : Option String := none
  accountHome : Option String := none

namespace Variables

/-- The home directory: that of the account unless a variable names one. -/
def homeDirectory? (v : Variables) : Option String := (v.home.filter (· ≠ "")).or v.accountHome

/-- The name of the settings file. -/
def settingsFile? (v : Variables) : Option String :=
  v.settings.or <| v.homeDirectory?.map fun home =>
    FileName.join (FileName.join home ".vigil") "config.toml"

/-- The environment that a process starts in. -/
def startEnvironment (v : Variables) : Environment := .ofVariable v.environment

end Variables

namespace Settings

variable {m : Type → Type} [Monad m]

def ofText (name text : String) : Except LoadError Settings :=
  match (Toml.read? text).bind ofToml? with
  | none => .error (.notToml name)
  | some s => .ok { s with directory := FileName.directory name }

def loadFrom (files : Files m) (name : String) : m (Except LoadError Settings) :=
  files.loadWith name (ofText name)

def load (files : Files m) (v : Variables) : m (Except LoadError (Option Settings)) := do
  match v.settingsFile? with
  | none => return .ok none
  | some name =>
    if ← files.holds name then return (← loadFrom files name).map some
    else return .ok none

/-- Load the schema of a model, if it has one. -/
def loadSchema (s : Settings) (files : Files m) (r : Registry) (name : String) :
    m (Except LoadError (Option Schema)) := do
  match s.schemaFile? name with
  | none => return .ok none
  | some file => return (← files.loadSchema r file).map some

end Settings

end GuardedData
