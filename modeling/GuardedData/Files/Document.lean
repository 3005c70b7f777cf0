import GuardedData.Files.Basic
import GuardedData.Files.FileName
import GuardedData.Schema.Descriptor
import GuardedData.Toml.Reader
import GuardedData.Value.Reader

/-!
# Documents

A file holds a value, as a TOML document if its name says so and as JSON otherwise. A schema is
written as the value of such a file.
-/

namespace GuardedData

/-- Why a document cannot be loaded. -/
inductive LoadError
  | unreadable (name : String) (fault : FileFault)
  | notToml (name : String)
  | notJson (name : String) (e : Value.ReadError)
  | notFinite (name : String) (x : Toml.NonFinite)
  | badSchema (name : String) (e : ValidationError)

namespace LoadError

def name : LoadError → String
  | .unreadable name _ | .notToml name | .notJson name _ | .notFinite name _
  | .badSchema name _ => name

/-- What an error comes from. A number that is not finite is a fault of its own. -/
def cause? : LoadError → Option String
  | .unreadable _ fault => some fault.message
  | .notToml _ => some "not a TOML document"
  | .notJson _ e => some e.message
  | .notFinite _ _ => none
  | .badSchema _ e => some e.message

/-- What is said of the file. -/
def complaint : LoadError → String
  | .unreadable _ _ => "failed to read"
  | .notToml _ | .notJson _ _ => "failed to parse"
  | .notFinite _ _ => "unsupported value in"
  | .badSchema _ _ => "bad schema in"

/-- The reason behind the name of the file. -/
def reason : LoadError → String
  | .notFinite _ x => x.text ++ " has no JSON representation"
  | e => e.cause?.getD ""

def message (e : LoadError) : String := e.complaint ++ " " ++ e.name ++ ": " ++ e.reason

end LoadError

namespace Document

/-- The value of an item of a file. -/
def ofItem (name : String) (item : Toml.Item) : Except LoadError Value :=
  match item.toValue with
  | .ok v => .ok v
  | .error x => .error (.notFinite name x)

def ofText (name text : String) : Except LoadError Value :=
  if FileName.hasExtension "toml" name then
    match (Toml.read? text).bind Toml.Written.entries? with
    | none => .error (.notToml name)
    | some entries => ofItem name (.table entries)
  else match Value.read text with
    | .error e => .error (.notJson name e)
    | .ok v => .ok v

def schemaOf (r : Registry) (name : String) (descriptor : Value) : Except LoadError Schema :=
  match Schema.parse r descriptor with
  | .error e => .error (.badSchema name e)
  | .ok s => .ok s

end Document

namespace Files

variable {m : Type → Type} [Monad m]

/-- What a text of a file is read as. -/
def loadWith {α : Type} (files : Files m) (name : String) (read : String → Except LoadError α) :
    m (Except LoadError α) := do
  match ← files.text name with
  | .error fault => return .error (.unreadable name fault)
  | .ok text => return read text

def loadValue (files : Files m) (name : String) : m (Except LoadError Value) :=
  files.loadWith name (Document.ofText name)

def loadSchema (files : Files m) (r : Registry) (name : String) : m (Except LoadError Schema) :=
  files.loadWith name fun text => Document.ofText name text >>= Document.schemaOf r name

end Files

end GuardedData
