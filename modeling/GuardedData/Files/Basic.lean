/-!
# Access to files

What the library asks of the files of a machine: the bytes behind a name. The texts of faults are
those of the operating system.
-/

namespace GuardedData

/-- Why a file cannot be read. -/
inductive FileFault
  | notFound
  | isDirectory
  | notDirectory
  | nameTooLong
  | nulInName
  | notText
  | other (message : String)
deriving DecidableEq

def FileFault.message : FileFault → String
  | .notFound => "No such file or directory (os error 2)"
  | .isDirectory => "Is a directory (os error 21)"
  | .notDirectory => "Not a directory (os error 20)"
  | .nameTooLong => "File name too long (os error 36)"
  | .nulInName => "file name contained an unexpected NUL byte"
  | .notText => "stream did not contain valid UTF-8"
  | .other message => message

/-- The files of a machine. -/
structure Files (m : Type → Type) where
  read : String → m (Except FileFault ByteArray)

namespace Files

variable {m : Type → Type} [Monad m]

def text (files : Files m) (name : String) : m (Except FileFault String) := do
  match ← files.read name with
  | .error fault => return .error fault
  | .ok bytes =>
    match String.fromUTF8? bytes with
    | none => return .error .notText
    | some text => return .ok text

/-- Whether a name leads to anything. -/
def holds (files : Files m) (name : String) : m Bool := do
  match ← files.read name with
  | .ok _ | .error .isDirectory => return true
  | .error _ => return false

end Files

end GuardedData
